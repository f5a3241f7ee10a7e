import Xfront.Lib.Boxes

/-!
# Bands of boxes

A set of points as a list of bands from top to bottom, each with separated spans of columns.
-/

namespace Xfront

open Option
open List hiding Disjoint

structure Span where
  l : Int
  r : Int
  deriving DecidableEq

def Span.cols (s : Span) : Set Int := {x | s.l ≤ x ∧ x < s.r}

def columns (ss : List Span) : Set Int := {x | ∃ s ∈ ss, x ∈ s.cols}

theorem mem_columns {ss : List Span} {x : Int} :
    x ∈ columns ss ↔ ∃ s ∈ ss, s.l ≤ x ∧ x < s.r := Iff.rfl

theorem columns_append (ss ts : List Span) : columns (ss ++ ts) = columns ss ∪ columns ts := by
  ext x
  simp [mem_columns, or_and_right, exists_or]

theorem columns_singleton (s : Span) : columns [s] = s.cols := by
  ext x
  simp [mem_columns, Span.cols]

structure Separated (ss : List Span) : Prop where
  nonempty : ∀ s ∈ ss, s.l < s.r
  apart : ss.Pairwise fun a b => a.r < b.l

namespace Separated
variable {ss : List Span} {cur s : Span}

theorem singleton (h : s.l < s.r) : Separated [s] :=
  ⟨fun t ht => by rw [mem_singleton.mp ht]; exact h, pairwise_singleton ..⟩

section
variable (h : Separated (ss ++ [cur]))
include h

theorem before {t : Span} (ht : t ∈ ss) : t.r < cur.l :=
  (pairwise_append.mp h.apart).2.2 t ht cur (mem_singleton_self _)

theorem last : cur.l < cur.r := h.nonempty cur (mem_append_right _ (mem_singleton_self _))

theorem widen (s : Span) : Separated (ss ++ [⟨cur.l, max cur.r s.r⟩]) := by
  have hcur := h.last
  obtain ⟨hne, hap⟩ := h
  rw [pairwise_append] at hap
  refine ⟨fun t ht => ?_, pairwise_append.mpr ⟨hap.1, pairwise_singleton .., ?_⟩⟩
  · rcases mem_append.mp ht with ht | ht
    · exact hne t (mem_append_left _ ht)
    · rw [mem_singleton.mp ht]
      dsimp only
      omega
  · intro t ht u hu
    rw [mem_singleton.mp hu]
    exact hap.2.2 t ht cur (mem_singleton_self _)

theorem widen_columns (hle : cur.l ≤ s.l) (htouch : s.l ≤ cur.r) :
    columns (ss ++ [⟨cur.l, max cur.r s.r⟩]) = columns (ss ++ [cur]) ∪ s.cols := by
  rw [columns_append, columns_append, Set.union_assoc, columns_singleton, columns_singleton]
  congr 1
  ext x
  simp only [Span.cols, Set.mem_ofPred_eq, Set.mem_union]
  omega

theorem snoc (hs : s.l < s.r) (hgap : cur.r < s.l) : Separated (ss ++ [cur] ++ [s]) := by
  have hcur := h.last
  have hbefore := fun t => h.before (t := t)
  obtain ⟨hne, hap⟩ := h
  refine ⟨fun t ht => ?_, pairwise_append.mpr ⟨hap, pairwise_singleton .., ?_⟩⟩
  · rcases mem_append.mp ht with ht | ht
    · exact hne t ht
    · rwa [mem_singleton.mp ht]
  · intro t ht u hu
    rw [mem_singleton.mp hu]
    rcases mem_append.mp ht with ht | ht
    · have := hbefore t ht
      omega
    · rw [mem_singleton.mp ht]
      exact hgap

theorem disjoint_iff (hs : s.l < s.r) (hle : cur.l ≤ s.l) :
    Disjoint (columns (ss ++ [cur])) s.cols ↔ cur.r ≤ s.l := by
  rw [Set.disjoint_left]
  constructor
  · intro hd
    by_contra hlt
    exact hd (a := s.l) ⟨cur, mem_append_right _ (mem_singleton_self _), hle, by omega⟩
      ⟨le_rfl, hs⟩
  · rintro hle' x ⟨t, ht, htx⟩ hx
    simp only [Span.cols, Set.mem_ofPred_eq] at htx hx
    rcases mem_append.mp ht with ht | ht
    · have := h.before ht
      omega
    · rw [mem_singleton.mp ht] at htx
      omega

end

theorem disjoint_cols (h : Separated ss) : (ss.map Span.cols).Pairwise Disjoint := by
  refine pairwise_map.mpr (h.apart.imp fun hab => Set.disjoint_left.mpr fun x hx hx' => ?_)
  simp only [Span.cols, Set.mem_ofPred_eq] at hx hx'
  omega

theorem disjoint_columns {ts : List Span} (h : Separated ss) (h' : Separated ts) :
    ((ss ++ ts).map Span.cols).Pairwise Disjoint ↔ Disjoint (columns ss) (columns ts) := by
  rw [List.map_append, List.pairwise_append]
  simp only [h.disjoint_cols, h'.disjoint_cols, true_and, List.mem_map, forall_exists_index,
    and_imp, forall_apply_eq_imp_iff₂]
  constructor
  · rintro hall
    refine Set.disjoint_left.mpr fun x => ?_
    rintro ⟨s, hs, hx⟩ ⟨t, ht, hx'⟩
    exact Set.disjoint_left.mp (hall s hs t ht) hx hx'
  · intro hd s hs t ht
    exact Set.disjoint_left.mpr fun x hx hx' =>
      Set.disjoint_left.mp hd ⟨s, hs, hx⟩ ⟨t, ht, hx'⟩

end Separated

structure Band where
  y1 : Int
  y2 : Int
  spans : List Span

namespace Band

def boxes (b : Band) : List Box := b.spans.map fun s => ⟨s.l, b.y1, s.r, b.y2⟩

def points (b : Band) : Set (Int × Int) := {p | b.y1 ≤ p.2 ∧ p.2 < b.y2 ∧ p.1 ∈ columns b.spans}

structure WF (b : Band) : Prop where
  tall : b.y1 < b.y2
  full : b.spans ≠ []
  separated : Separated b.spans

theorem covers_boxes (b : Band) : covers b.boxes = b.points := by
  ext p
  simp only [mem_covers, boxes, points, List.mem_map, Set.mem_ofPred_eq, mem_columns]
  constructor
  · rintro ⟨_, ⟨s, hs, rfl⟩, h⟩
    rw [Box.mem_points] at h
    exact ⟨h.2.2.1, h.2.2.2, s, hs, h.1, h.2.1⟩
  · rintro ⟨h₁, h₂, s, hs, hx⟩
    exact ⟨_, ⟨s, hs, rfl⟩, hx.1, hx.2, h₁, h₂⟩

@[simp] theorem boxes_length (b : Band) : b.boxes.length = b.spans.length := length_map ..

theorem boxes_ne_nil {b : Band} (h : b.WF) : b.boxes ≠ [] := fun hn =>
  h.full (map_eq_nil_iff.mp hn)

theorem mem_boxes {b : Band} {x : Box} (h : x ∈ b.boxes) : x.y1 = b.y1 ∧ x.y2 = b.y2 := by
  obtain ⟨s, _, rfl⟩ := mem_map.mp h
  exact ⟨rfl, rfl⟩

end Band

def flat (bs : List Band) : List Box := bs.flatMap Band.boxes

@[simp] theorem flat_nil : flat [] = [] := rfl

@[simp] theorem flat_cons (b : Band) (bs : List Band) : flat (b :: bs) = b.boxes ++ flat bs :=
  flatMap_cons

@[simp] theorem flat_append (bs cs : List Band) : flat (bs ++ cs) = flat bs ++ flat cs :=
  flatMap_append

theorem mem_covers_flat {bs : List Band} {p : Int × Int} :
    p ∈ covers (flat bs) ↔ ∃ b ∈ bs, p ∈ b.points := by
  induction bs with
  | nil => simp
  | cons b bs ih => simp [Band.covers_boxes, ih]

structure Canonical (bs : List Band) : Prop where
  wf : ∀ b ∈ bs, b.WF
  stacked : bs.Pairwise fun a b => a.y2 ≤ b.y1
  maximal : bs.IsChain fun a b => a.y2 = b.y1 → a.spans ≠ b.spans

namespace Canonical
variable {bs cs : List Band} {b c : Band}

theorem nil : Canonical [] := ⟨nofun, .nil, .nil⟩

theorem singleton (h : b.WF) : Canonical [b] :=
  ⟨fun _ hc => mem_singleton.mp hc ▸ h, pairwise_singleton .., .singleton _⟩

theorem tail (h : Canonical (b :: bs)) : Canonical bs :=
  ⟨fun c hc => h.wf c (mem_cons_of_mem _ hc), (pairwise_cons.mp h.stacked).2, h.maximal.tail⟩

theorem head (h : Canonical (b :: bs)) : b.WF := h.wf b (mem_cons_self ..)

theorem below (h : Canonical (b :: bs)) (hc : c ∈ bs) : b.y2 ≤ c.y1 :=
  (pairwise_cons.mp h.stacked).1 c hc

theorem append (h : Canonical bs) (h' : Canonical cs) (hstack : ∀ b ∈ bs, ∀ c ∈ cs, b.y2 ≤ c.y1)
    (hmax : ∀ b ∈ bs.getLast?, ∀ c ∈ cs.head?, b.y2 = c.y1 → b.spans ≠ c.spans) :
    Canonical (bs ++ cs) := by
  refine ⟨fun b hb => ?_, pairwise_append.mpr ⟨h.stacked, h'.stacked, hstack⟩,
    isChain_append.mpr ⟨h.maximal, h'.maximal, hmax⟩⟩
  rcases mem_append.mp hb with hb | hb
  · exact h.wf b hb
  · exact h'.wf b hb

end Canonical

def push (out : List Band) (c : Band) : List Band :=
  match out.getLast? with
  | some b =>
    if b.y2 = c.y1 ∧ b.spans = c.spans then out.dropLast ++ [{ b with y2 := c.y2 }]
    else out ++ [c]
  | none => [c]

section
variable {out pre : List Band} {b c : Band}

@[simp] theorem push_nil : push [] c = [c] := rfl

theorem push_joined (h : b.y2 = c.y1 ∧ b.spans = c.spans) :
    push (pre ++ [b]) c = pre ++ [{ b with y2 := c.y2 }] := by
  rw [push, getLast?_concat]
  dsimp only
  rw [if_pos h, dropLast_concat]

theorem push_apart (h : ¬ (b.y2 = c.y1 ∧ b.spans = c.spans)) :
    push (pre ++ [b]) c = pre ++ [b] ++ [c] := by
  rw [push, getLast?_concat]
  dsimp only
  rw [if_neg h]

theorem push_last (out : List Band) (c : Band) :
    ∃ pre b, push out c = pre ++ [b] ∧ b.y2 = c.y2 ∧ b.spans = c.spans := by
  rcases eq_nil_or_concat' out with rfl | ⟨pre, b, rfl⟩
  · exact ⟨[], c, rfl, rfl, rfl⟩
  · by_cases h : b.y2 = c.y1 ∧ b.spans = c.spans
    · exact ⟨pre, _, push_joined h, rfl, h.2⟩
    · exact ⟨pre ++ [b], c, push_apart h, rfl, rfl⟩

theorem push_ends {y : Int} (h : ∀ b ∈ out, b.y2 ≤ y) (hc : c.y2 ≤ y) :
    ∀ b ∈ push out c, b.y2 ≤ y := by
  rcases eq_nil_or_concat' out with rfl | ⟨pre, b, rfl⟩
  · intro x hx
    rwa [mem_singleton.mp hx]
  · by_cases hj : b.y2 = c.y1 ∧ b.spans = c.spans
    · rw [push_joined hj]
      intro x hx
      rcases mem_append.mp hx with hx | hx
      · exact h x (mem_append_left _ hx)
      · rwa [mem_singleton.mp hx]
    · rw [push_apart hj]
      intro x hx
      rcases mem_append.mp hx with hx | hx
      · exact h x hx
      · rwa [mem_singleton.mp hx]

theorem push_canonical (h : Canonical out) (hc : c.WF) (hle : ∀ b ∈ out, b.y2 ≤ c.y1) :
    Canonical (push out c) := by
  rcases eq_nil_or_concat' out with rfl | ⟨pre, b, rfl⟩
  · exact .singleton hc
  · have hb : b ∈ pre ++ [b] := mem_append_right _ (mem_singleton_self _)
    have hwf := h.wf b hb
    have hpre : Canonical pre :=
      ⟨fun x hx => h.wf x (mem_append_left _ hx), (pairwise_append.mp h.stacked).1,
        (isChain_append.mp h.maximal).1⟩
    have hstack := (pairwise_append.mp h.stacked).2.2
    have hmax := (isChain_append.mp h.maximal).2.2
    have hc1 := hc.tall
    have hb1 := hwf.tall
    by_cases hj : b.y2 = c.y1 ∧ b.spans = c.spans
    · rw [push_joined hj]
      refine hpre.append (.singleton ⟨by dsimp only; omega, hwf.full, hwf.separated⟩) ?_ ?_
      · intro x hx y hy
        rw [mem_singleton.mp hy]
        exact hstack x hx b (mem_singleton_self _)
      · intro x hx y hy
        obtain rfl := mem_some_iff.mp hy
        exact hmax x hx b rfl
    · rw [push_apart hj]
      refine h.append (.singleton hc) ?_ ?_
      · intro x hx y hy
        rw [mem_singleton.mp hy]
        exact hle x hx
      · intro x hx y hy hxy hs
        rw [getLast?_concat] at hx
        obtain rfl := mem_some_iff.mp hx
        obtain rfl := mem_some_iff.mp hy
        exact hj ⟨hxy, hs⟩

theorem push_covers (h : Canonical out) (hc : c.WF) (hle : ∀ b ∈ out, b.y2 ≤ c.y1) :
    covers (flat (push out c)) = covers (flat out) ∪ c.points := by
  rcases eq_nil_or_concat' out with rfl | ⟨pre, b, rfl⟩
  · simp [Band.covers_boxes]
  · have hb : b ∈ pre ++ [b] := mem_append_right _ (mem_singleton_self _)
    have hc1 := hc.tall
    have hb1 := (h.wf b hb).tall
    by_cases hj : b.y2 = c.y1 ∧ b.spans = c.spans
    · rw [push_joined hj]
      simp only [flat_append, covers_append, flat_cons, flat_nil, append_nil,
        Band.covers_boxes, Set.union_assoc]
      congr 1
      ext p
      simp only [Band.points, Set.mem_ofPred_eq, Set.mem_union, ← hj.2]
      constructor
      · rintro ⟨h₁, h₂, hx⟩
        by_cases hp : p.2 < b.y2
        · exact .inl ⟨h₁, hp, hx⟩
        · exact .inr ⟨by omega, h₂, hx⟩
      · rintro (⟨h₁, h₂, hx⟩ | ⟨h₁, h₂, hx⟩)
        · exact ⟨h₁, by omega, hx⟩
        · exact ⟨by omega, h₂, hx⟩
    · rw [push_apart hj]
      simp [Band.covers_boxes, Set.union_assoc]

end

/-- `a` comes before `b`: to the left in the same band or in a band above. -/
def Box.Before (a b : Box) : Prop :=
  (a.y1 = b.y1 ∧ a.y2 = b.y2 ∧ a.x2 ≤ b.x1) ∨ a.y2 ≤ b.y1

structure Banded (rects : List Box) : Prop where
  nonempty : ∀ b ∈ rects, b.Nonempty
  ordered : rects.Pairwise Box.Before

theorem Box.Before.disjoint {a b : Box} (h : a.Before b) : Disjoint a.points b.points := by
  rw [Set.disjoint_left]
  intro p ha hb
  rw [Box.mem_points] at ha hb
  rcases h with ⟨h₁, h₂, h₃⟩ | h
  · omega
  · omega

theorem Banded.disjoint {rects : List Box} (h : Banded rects) :
    (rects.map Box.points).Pairwise Disjoint :=
  pairwise_map.mpr (h.ordered.imp Box.Before.disjoint)

/-- The sides of the boxes that start in row `y`. -/
def spansAt (rects : List Box) (y : Int) : List Span :=
  (rects.filter (·.y1 = y)).map fun b => ⟨b.x1, b.x2⟩

/-- No two boxes of a band touch, and no two bands that touch have the same spans. -/
structure Maximal (rects : List Box) : Prop where
  apart : rects.Pairwise fun a b => a.y1 = b.y1 → a.x2 < b.x1
  joined : ∀ a ∈ rects, ∀ b ∈ rects, a.y2 = b.y1 → spansAt rects a.y1 ≠ spansAt rects b.y1

theorem Band.WF.boxes_nonempty {b : Band} (h : b.WF) {x : Box} (hx : x ∈ b.boxes) : x.Nonempty := by
  obtain ⟨s, hs, rfl⟩ := mem_map.mp hx
  exact ⟨h.separated.nonempty s hs, h.tall⟩

namespace Canonical
variable {bs : List Band} {b : Band}

section
variable (h : Canonical bs)
include h

theorem flat_pairwise {R : Box → Box → Prop}
    (hside : ∀ a c : Box, a.y1 = c.y1 → a.y2 = c.y2 → a.y1 < a.y2 → a.x2 < c.x1 → R a c)
    (hbelow : ∀ a c : Box, a.y1 < a.y2 → a.y2 ≤ c.y1 → R a c) : (flat bs).Pairwise R := by
  induction bs with
  | nil => exact .nil
  | cons b bs ih =>
    rw [flat_cons, pairwise_append]
    refine ⟨?_, ih h.tail, ?_⟩
    · rw [Band.boxes, pairwise_map]
      exact h.head.separated.apart.imp fun {s t} hr =>
        hside ⟨s.l, b.y1, s.r, b.y2⟩ ⟨t.l, b.y1, t.r, b.y2⟩ rfl rfl h.head.tall hr
    · intro x hx y hy
      obtain ⟨c, hc, hyc⟩ := mem_flatMap.mp hy
      have hbc := h.below hc
      have hx' := Band.mem_boxes hx
      have hy' := Band.mem_boxes hyc
      have htall := h.head.tall
      exact hbelow x y (by omega) (by omega)

theorem banded : Banded (flat bs) where
  nonempty x hx := by
    obtain ⟨b, hb, hxb⟩ := mem_flatMap.mp hx
    exact (h.wf b hb).boxes_nonempty hxb
  ordered := h.flat_pairwise (fun _ _ h₁ h₂ _ h₃ => .inl ⟨h₁, h₂, by omega⟩)
    fun _ _ _ h => .inr h

theorem spansAt_flat (hb : b ∈ bs) : spansAt (flat bs) b.y1 = b.spans := by
  have hboxes : (flat bs).filter (·.y1 = b.y1) = b.boxes := by
    induction bs with
    | nil => cases hb
    | cons c bs ih =>
      have htall := h.head.tall
      rw [flat_cons, List.filter_append]
      rcases List.mem_cons.mp hb with rfl | hb
      · have hrest : (flat bs).filter (·.y1 = b.y1) = [] := by
          refine List.filter_eq_nil_iff.mpr fun x hx hy => ?_
          obtain ⟨d, hd, hxd⟩ := List.mem_flatMap.mp hx
          have hbd := h.below hd
          have hxd := Band.mem_boxes hxd
          have hy := of_decide_eq_true hy
          omega
        rw [hrest, List.append_nil, List.filter_eq_self.mpr]
        exact fun x hx => decide_eq_true (Band.mem_boxes hx).1
      · have hcb := h.below hb
        rw [List.filter_eq_nil_iff.mpr, List.nil_append, ih h.tail hb]
        intro x hx hy
        have hx := Band.mem_boxes hx
        have hy := of_decide_eq_true hy
        omega
  rw [spansAt, hboxes, Band.boxes, List.map_map]
  exact List.map_id _

theorem touching {c : Band} (hb : b ∈ bs) (hc : c ∈ bs) (hbc : b.y2 = c.y1) :
    b.spans ≠ c.spans := by
  induction bs with
  | nil => cases hb
  | cons d bs ih =>
    have hbt := (h.wf b hb).tall
    have hct := (h.wf c hc).tall
    rcases mem_cons.mp hc with rfl | hct'
    · rcases mem_cons.mp hb with rfl | hbt'
      · omega
      · have := h.below hbt'
        omega
    · rcases mem_cons.mp hb with rfl | hbt'
      · cases bs with
        | nil => cases hct'
        | cons e es =>
          rcases mem_cons.mp hct' with rfl | hce
          · exact (isChain_cons_cons.mp h.maximal).1 hbc
          · have h₁ := h.below (mem_cons_self ..)
            have h₂ := h.tail.below hce
            have h₃ := h.tail.head.tall
            omega
      · exact ih h.tail hbt' hct'

theorem flat_maximal : Maximal (flat bs) where
  apart := h.flat_pairwise (fun _ _ _ _ _ hx _ => hx) fun _ _ h₁ h₂ h₃ => by omega
  joined x hx y hy hxy := by
    obtain ⟨b, hb, hxb⟩ := mem_flatMap.mp hx
    obtain ⟨c, hc, hyc⟩ := mem_flatMap.mp hy
    have hxb := Band.mem_boxes hxb
    have hyc := Band.mem_boxes hyc
    rw [hxb.1, hyc.1, h.spansAt_flat hb, h.spansAt_flat hc]
    exact h.touching hb hc (by omega)

end

end Canonical
end Xfront
