import Xfront.Lib.Bands
import Xfront.Region.Model

/-!
# `RegionOp` computes unions

The array of the new region is the flat form of a canonical list of bands, and the index of the
previous band is where the last of them starts.
-/

namespace Xfront.Region
open Band
open List hiding Disjoint disjoint_comm

/-! ### `RegionCoalesce` -/

variable {ss : List Span}

theorem zip_sides (y1 y2 z1 z2 : Int) {ts : List Span} (h : ss.length = ts.length) :
    ((boxes ⟨y1, y2, ss⟩).zip (boxes ⟨z1, z2, ts⟩)).all
      (fun (p, c) => p.x1 = c.x1 ∧ p.x2 = c.x2) = true ↔ ss = ts := by
  induction ss generalizing ts with
  | nil =>
    cases ts with
    | nil => simp [boxes]
    | cons t ts => cases h
  | cons s ss ih =>
    cases ts with
    | nil => cases h
    | cons t ts =>
      have ih := ih (Nat.succ.inj h)
      simp only [boxes, map_cons, zip_cons_cons, all_cons, Bool.and_eq_true,
        decide_eq_true_eq] at ih ⊢
      rw [ih, cons.injEq]
      exact and_congr_left' ⟨fun hs => by cases s; cases t; simp_all, fun hs => hs ▸ ⟨rfl, rfl⟩⟩

variable {out : List Band} {c : Band}

theorem coalesce_spec (h : ∀ b ∈ out, b.WF) (hc : c.WF) :
    coalesce (flat out ++ c.boxes) (flat out.dropLast).length (flat out).length =
      (flat (push out c), (flat (push out c).dropLast).length) := by
  have hcpos := length_pos_iff.mpr hc.full
  rcases eq_nil_or_concat' out with rfl | ⟨pre, b, rfl⟩
  · rw [coalesce, if_neg]
    · simp
    · simp only [dropLast_nil, flat_nil, nil_append, length_nil, boxes_length]
      omega
  · have hb := h b (mem_append_right _ (mem_singleton_self _))
    simp only [dropLast_concat, flat_append, flat_cons, flat_nil, append_nil]
    -- without joining the new band becomes the last one
    have hapart : ¬ (b.y2 = c.y1 ∧ b.spans = c.spans) →
        (flat pre ++ b.boxes ++ c.boxes, (flat pre ++ b.boxes).length) =
          (flat (push (pre ++ [b]) c), (flat (push (pre ++ [b]) c).dropLast).length) := by
      intro hj
      rw [push_apart hj, dropLast_concat]
      simp
    rw [coalesce]
    by_cases hlen : (flat pre ++ b.boxes).length - (flat pre).length =
        (flat pre ++ b.boxes ++ c.boxes).length - (flat pre ++ b.boxes).length
    · rw [if_pos hlen]
      simp only [length_append, Nat.add_sub_cancel_left, boxes_length] at hlen
      have hprev : ((flat pre ++ b.boxes ++ c.boxes).drop (flat pre).length).take
          ((flat pre ++ b.boxes).length - (flat pre).length) = b.boxes := by
        rw [append_assoc, drop_left, length_append, Nat.add_sub_cancel_left, take_left]
      have hcur : (flat pre ++ b.boxes ++ c.boxes).drop (flat pre ++ b.boxes).length = c.boxes :=
        drop_left ..
      rw [regionCoalesce]
      simp only [hprev, hcur]
      obtain ⟨p, ps, hps⟩ := exists_cons_of_ne_nil (boxes_ne_nil hb)
      obtain ⟨q, qs, hqs⟩ := exists_cons_of_ne_nil (boxes_ne_nil hc)
      have hp := mem_boxes (hps ▸ mem_cons_self : p ∈ b.boxes)
      have hq := mem_boxes (hqs ▸ mem_cons_self : q ∈ c.boxes)
      have hzip := zip_sides b.y1 b.y2 c.y1 c.y2 hlen
      rw [hps, hqs]
      dsimp only
      rw [← hps, ← hqs, hp.2, hq.1, hq.2]
      by_cases hy : b.y2 = c.y1
      · rw [if_neg (not_not_intro hy)]
        by_cases hs : b.spans = c.spans
        · rw [if_pos (hzip.mpr hs), push_joined ⟨hy, hs⟩]
          simp [boxes, Function.comp_def]
        · rw [if_neg (fun hz => hs (hzip.mp hz))]
          exact hapart fun hj => hs hj.2
      · rw [if_pos hy]
        exact hapart fun hj => hy hj.1
    · rw [if_neg hlen]
      refine hapart fun hj => hlen ?_
      simp only [length_append, boxes_length, hj.2]
      omega

/-! ### `RegionUnionO` -/

def sides (b : Box) : Span := ⟨b.x1, b.x2⟩

theorem map_sides (b : Band) : b.boxes.map sides = b.spans := by
  rw [boxes, map_map]
  exact map_id _

/-- The box in the making is the last of the separated spans `ss`. -/
structure Merging (rects : List Box) (y1 y2 : Int) (ss : List Span) (m : Merge) : Prop where
  split : ∃ front, m.rects = rects ++ boxes ⟨y1, y2, front⟩ ∧ ss = front ++ [⟨m.x1, m.x2⟩]
  separated : Separated ss

variable {rects : List Box} {y1 y2 : Int} {m : Merge} {r : Box}

theorem mergeRect_spec (h : Merging rects y1 y2 ss m) (hr : r.x1 < r.x2) (hle : m.x1 ≤ r.x1) :
    ∃ ss', Merging rects y1 y2 ss' (mergeRect y1 y2 m r) ∧
      columns ss' = columns ss ∪ (sides r).cols ∧ (mergeRect y1 y2 m r).x1 ≤ r.x1 ∧
      ((mergeRect y1 y2 m r).overlap = true ↔
        m.overlap = true ∨ ¬ Disjoint (columns ss) (sides r).cols) := by
  obtain ⟨⟨front, hrects, rfl⟩, hsep⟩ := h
  have hdisj := hsep.disjoint_iff (s := sides r) hr hle
  unfold mergeRect
  by_cases ht : r.x1 ≤ m.x2
  · rw [if_pos ht]
    have hmax : (if m.x2 < r.x2 then r.x2 else m.x2) = max m.x2 r.x2 := by
      split <;> omega
    refine ⟨_, ⟨⟨front, hrects, rfl⟩, hmax ▸ hsep.widen (sides r)⟩, ?_, hle, ?_⟩
    · rw [hmax]
      exact hsep.widen_columns (s := sides r) hle ht
    · rw [hdisj, Bool.or_eq_true, decide_eq_true_eq, not_le]
      rfl
  · rw [if_neg ht]
    have hgap : m.x2 < r.x1 := by omega
    refine ⟨_, ⟨⟨front ++ [⟨m.x1, m.x2⟩], ?_, rfl⟩, hsep.snoc (s := sides r) hr hgap⟩, ?_,
      le_rfl, ?_⟩
    · rw [hrects, append_assoc]
      simp [boxes]
    · rw [columns_append, columns_singleton]
      rfl
    · rw [hdisj]
      have : m.x2 ≤ (sides r).l := hgap.le
      simp [this]

/-- The boxes still to be merged, from left to right and not to the left of `x`. -/
structure Waiting (x : Int) (rs : List Box) : Prop where
  wide : ∀ r ∈ rs, r.x1 < r.x2
  ordered : rs.Pairwise fun a b => a.x1 ≤ b.x1
  behind : ∀ r ∈ rs, x ≤ r.x1

variable {rs : List Box} {y : Int}

theorem Waiting.tail {x : Int} (h : Waiting x (r :: rs)) (hy : y ≤ r.x1) : Waiting y rs :=
  ⟨fun s hs => h.wide s (mem_cons_of_mem _ hs), (pairwise_cons.mp h.ordered).2,
    fun s hs => hy.trans ((pairwise_cons.mp h.ordered).1 s hs)⟩

theorem Waiting.lower {x : Int} (h : Waiting x rs) (hy : ∀ r ∈ rs, y ≤ r.x1) : Waiting y rs :=
  ⟨h.wide, h.ordered, hy⟩

/-- What merging all of `rs` makes of the spans and of the flag. -/
structure Merged (rects : List Box) (y1 y2 : Int) (ss : List Span) (flag : Bool)
    (rs : List Box) (m : Merge) : Prop where
  result : ∃ ss', Merging rects y1 y2 ss' m ∧ columns ss' = columns ss ∪ columns (rs.map sides)
  overlap : m.overlap = true ↔ flag = true ∨
    ¬ (columns ss :: (rs.map sides).map Span.cols).Pairwise Disjoint

theorem Merged.perm {flag : Bool}
    {rs' : List Box} (h : Merged rects y1 y2 ss flag rs m) (hp : rs.Perm rs') :
    Merged rects y1 y2 ss flag rs' m := by
  obtain ⟨⟨ss', hm, hc⟩, ho⟩ := h
  refine ⟨⟨ss', hm, ?_⟩, ?_⟩
  · rw [hc]
    congr 1
    ext x
    simp only [mem_columns, (hp.map sides).mem_iff]
  · rw [ho, pairwise_disjoint_perm (.cons _ ((hp.map sides).map Span.cols))]

theorem Merged.nil (h : Merging rects y1 y2 ss m) : Merged rects y1 y2 ss m.overlap [] m := by
  refine ⟨⟨ss, h, ?_⟩, ?_⟩
  · ext x
    simp [mem_columns]
  · simp

theorem Merged.cons {ss' : List Span} {m' : Merge} (hc : columns ss' = columns ss ∪ (sides r).cols)
    (ho : (mergeRect y1 y2 m r).overlap = true ↔
      m.overlap = true ∨ ¬ Disjoint (columns ss) (sides r).cols)
    (h : Merged rects y1 y2 ss' (mergeRect y1 y2 m r).overlap rs m') :
    Merged rects y1 y2 ss m.overlap (r :: rs) m' := by
  obtain ⟨⟨ss'', hm, hcols⟩, hflag⟩ := h
  refine ⟨⟨ss'', hm, ?_⟩, ?_⟩
  · rw [hcols, hc, map_cons, ← singleton_append, columns_append, columns_singleton, Set.union_assoc]
  · rw [hflag, hc]
    exact flag_merge ho

theorem foldl_mergeRect_spec (h : Merging rects y1 y2 ss m) (hw : Waiting m.x1 rs) :
    Merged rects y1 y2 ss m.overlap rs (rs.foldl (mergeRect y1 y2) m) := by
  induction rs generalizing ss m with
  | nil => exact .nil h
  | cons r rs ih =>
    obtain ⟨ss', hm, hc, hle, ho⟩ := mergeRect_spec h (hw.wide r mem_cons_self)
      (hw.behind r mem_cons_self)
    exact .cons hc ho (ih hm (hw.tail hle))

theorem mergeLoop_spec {r1 r2 : List Box} (h : Merging rects y1 y2 ss m) (h₁ : Waiting m.x1 r1)
    (h₂ : Waiting m.x1 r2) :
    Merged rects y1 y2 ss m.overlap (r1 ++ r2) (mergeLoop y1 y2 r1 r2 m) := by
  fun_induction mergeLoop y1 y2 r1 r2 m generalizing ss with
  | case1 a r1 b r2 m hlt ih =>
    obtain ⟨ss', hm, hc, hle, ho⟩ := mergeRect_spec h (h₁.wide a mem_cons_self)
      (h₁.behind a mem_cons_self)
    refine .cons hc ho (ih hm (h₁.tail hle) (h₂.lower fun r hr => ?_))
    rcases mem_cons.mp hr with rfl | hr
    · omega
    · have := (pairwise_cons.mp h₂.ordered).1 r hr
      omega
  | case2 a r1 b r2 m hlt ih =>
    obtain ⟨ss', hm, hc, hle, ho⟩ := mergeRect_spec h (h₂.wide b mem_cons_self)
      (h₂.behind b mem_cons_self)
    refine .perm (.cons hc ho (ih hm (h₁.lower fun r hr => ?_) (h₂.tail hle)))
      perm_middle.symm
    rcases mem_cons.mp hr with rfl | hr
    · omega
    · have := (pairwise_cons.mp h₁.ordered).1 r hr
      omega
  | case3 r1 m =>
    rw [append_nil]
    exact foldl_mergeRect_spec h h₁
  | case4 r2 m => exact foldl_mergeRect_spec h h₂

variable {a : Box} {as : List Box}

theorem Waiting.of_band (hc : c.WF) (h : c.boxes = a :: as) : Waiting a.x1 (a :: as) := by
  have hwide : ∀ r ∈ a :: as, r.x1 < r.x2 := fun r hr => (hc.boxes_nonempty (h ▸ hr)).1
  have hord : (a :: as).Pairwise fun a b => a.x2 < b.x1 := by
    rw [← h, boxes, pairwise_map]
    exact hc.separated.apart
  have hle : (a :: as).Pairwise fun a b => a.x1 ≤ b.x1 := by
    refine hord.imp_of_mem fun hx _ hxy => ?_
    have := hwide _ hx
    omega
  refine ⟨hwide, hle, fun r hr => ?_⟩
  rcases mem_cons.mp hr with rfl | hr
  · exact le_rfl
  · exact (pairwise_cons.mp hle).1 r hr

/-- The band that both `c` and `d` have points in. -/
structure Joined (c d : Band) (y1 y2 : Int) (ss : List Span) (flag flag' : Bool) : Prop where
  wf : Band.WF ⟨y1, y2, ss⟩
  columns : columns ss = columns c.spans ∪ columns d.spans
  overlap : flag' = true ↔ flag = true ∨ ¬ Disjoint (Xfront.columns c.spans) (Xfront.columns d.spans)

variable {d : Band}

theorem regionUnionO_spec (hc : c.WF) (hd : d.WF) (rects : List Box) (hy : y1 < y2) (flag : Bool) :
    ∃ ss flag', regionUnionO rects c.boxes d.boxes y1 y2 flag =
      (rects ++ boxes ⟨y1, y2, ss⟩, flag') ∧ Joined c d y1 y2 ss flag flag' := by
  obtain ⟨a, as, has⟩ := exists_cons_of_ne_nil (boxes_ne_nil hc)
  obtain ⟨b, bs, hbs⟩ := exists_cons_of_ne_nil (boxes_ne_nil hd)
  have hwa := Waiting.of_band hc has
  have hwb := Waiting.of_band hd hbs
  -- whichever box comes first, all the others are merged into it
  have hfinish : ∀ (x : Box) (rs : List Box) (m : Merge), (x :: rs).Perm (a :: as ++ b :: bs) →
      Merged rects y1 y2 [sides x] flag rs m → ∃ ss flag',
        (m.rects ++ [⟨m.x1, y1, m.x2, y2⟩], m.overlap) =
          (rects ++ boxes ⟨y1, y2, ss⟩, flag') ∧ Joined c d y1 y2 ss flag flag' := by
    rintro x rs m hperm ⟨⟨ss, ⟨⟨front, hrects, rfl⟩, hsep⟩, hcols⟩, hflag⟩
    refine ⟨_, m.overlap, ?_, ⟨hy, by simp, hsep⟩, ?_, ?_⟩
    · rw [hrects, append_assoc]
      simp [boxes]
    · have hall : columns ((x :: rs).map sides) = columns (c.spans ++ d.spans) := by
        rw [← map_sides c, ← map_sides d, has, hbs, ← map_append]
        ext y
        simp only [mem_columns, (hperm.map sides).mem_iff]
      rw [hcols, ← columns_append, ← columns_append, ← hall]
      rfl
    · have hpw := pairwise_disjoint_perm ((hperm.map sides).map Span.cols)
      rw [hflag, columns_singleton, ← hc.separated.disjoint_columns hd.separated, ← map_sides c,
        ← map_sides d, has, hbs, ← map_append, ← hpw]
      rfl
  have hstart : ∀ x : Box, x.x1 < x.x2 → Merging rects y1 y2 [sides x] ⟨rects, x.x1, x.x2, flag⟩ :=
    fun x hx => ⟨⟨[], by simp [boxes], rfl⟩, .singleton hx⟩
  rw [has, hbs, regionUnionO]
  by_cases hlt : a.x1 < b.x1
  · rw [if_pos hlt]
    refine hfinish a (as ++ b :: bs) _ (.refl _) (mergeLoop_spec
      (hstart a (hwa.wide a mem_cons_self)) (hwa.tail le_rfl) (hwb.lower fun r hr => ?_))
    have := hwb.behind r hr
    dsimp only
    omega
  · rw [if_neg hlt]
    refine hfinish b (a :: as ++ bs) _ perm_middle.symm (mergeLoop_spec
      (hstart b (hwb.wide b mem_cons_self)) (hwa.lower fun r hr => ?_) (hwb.tail le_rfl))
    have := hwa.behind r hr
    dsimp only
    omega

/-! ### The output of `RegionOp` -/

/-- The array of the new region is `out`, and the last band of it starts at `prevBand`. -/
structure Building (out : List Band) (s : OpState) : Prop where
  rects : s.rects = flat out
  prevBand : s.prevBand = (flat out.dropLast).length
  canonical : Canonical out

variable {s : OpState}

theorem Building.coalesced (h : Building out s)
    (hc : c.WF) (hle : ∀ b ∈ out, b.y2 ≤ c.y1) (overlap : Bool) :
    Building (push out c) (s.coalesced (s.rects ++ c.boxes) overlap) ∧
      (s.coalesced (s.rects ++ c.boxes) overlap).overlap = overlap := by
  have hspec := coalesce_spec h.canonical.wf hc
  simp only [OpState.coalesced, h.rects, h.prevBand, hspec]
  exact ⟨⟨rfl, rfl, push_canonical h.canonical hc hle⟩, trivial⟩

/-- `out'` has the points of `out` and those of `extra`, none of them at `y` or below. -/
structure Extends (out out' : List Band) (y : Int) (extra : Set (Int × Int)) : Prop where
  covers : covers (flat out') = covers (flat out) ∪ extra
  ends : ∀ b ∈ out', b.y2 ≤ y

theorem Extends.refl (h : ∀ b ∈ out, b.y2 ≤ y) : Extends out out y ∅ :=
  ⟨(Set.union_empty _).symm, h⟩

theorem Building.push (h : Building out s) (hc : c.WF)
    (hle : ∀ b ∈ out, b.y2 ≤ c.y1) (hy : c.y2 ≤ y) : Extends out (push out c) y c.points :=
  ⟨push_covers h.canonical hc hle, push_ends (fun b hb => (hle b hb).trans (hc.tall.le.trans hy)) hy⟩

theorem points_flat_row {top bot : Int} (h : bot ≤ top) : points ⟨top, bot, ss⟩ = ∅ := by
  refine Set.eq_empty_of_forall_notMem fun p hp => ?_
  obtain ⟨h₁, h₂, _⟩ := hp
  dsimp only at h₁ h₂
  omega

theorem regionAppendNonO_boxes (rects : List Box) (c : Band) (y1 y2 : Int) :
    regionAppendNonO rects c.boxes y1 y2 = rects ++ boxes ⟨y1, y2, c.spans⟩ := by
  rw [regionAppendNonO, boxes, boxes, map_map]
  rfl

theorem nonOverlap_spec (h : Building out s)
    (hc : c.WF) (top bot : Int) (hle : ∀ b ∈ out, b.y2 ≤ top) (htop : top ≤ bot) :
    ∃ out', Building out' (s.nonOverlap true c.boxes top bot) ∧
      Extends out out' bot (points ⟨top, bot, c.spans⟩) ∧
      (s.nonOverlap true c.boxes top bot).overlap = s.overlap := by
  unfold OpState.nonOverlap
  by_cases hne : top = bot
  · rw [if_neg (by simp [hne]), points_flat_row hne.ge]
    exact ⟨out, h, .refl fun b hb => (hle b hb).trans htop, rfl⟩
  · rw [if_pos ⟨rfl, hne⟩, regionAppendNonO_boxes]
    have hband : Band.WF ⟨top, bot, c.spans⟩ := ⟨by dsimp only; omega, hc.full, hc.separated⟩
    obtain ⟨hb, ho⟩ := h.coalesced hband hle s.overlap
    exact ⟨_, hb, h.push hband hle le_rfl, ho⟩

theorem overlapping_spec (h : Building out s)
    (hc : c.WF) (hd : d.WF) {ytop ybot : Int} (hle : ∀ b ∈ out, b.y2 ≤ ytop)
    (hends : ∀ b ∈ out, b.y2 ≤ ybot) :
    ∃ out', Building out' (s.overlapping regionUnionO c.boxes d.boxes ytop ybot) ∧
      Extends out out' ybot
        {p | ytop ≤ p.2 ∧ p.2 < ybot ∧ (p.1 ∈ columns c.spans ∨ p.1 ∈ columns d.spans)} ∧
      ((s.overlapping regionUnionO c.boxes d.boxes ytop ybot).overlap = true ↔
        s.overlap = true ∨ (ytop < ybot ∧ ¬ Disjoint (columns c.spans) (columns d.spans))) := by
  unfold OpState.overlapping
  by_cases hlt : ytop < ybot
  · obtain ⟨ss, flag', hunion, hjoin⟩ := regionUnionO_spec hc hd s.rects hlt s.overlap
    simp only [if_pos hlt, hunion]
    obtain ⟨hb, ho⟩ := h.coalesced hjoin.wf hle flag'
    have hpush := h.push hjoin.wf hle le_rfl
    refine ⟨_, hb, ⟨?_, hpush.ends⟩, ?_⟩
    · rw [hpush.covers]
      simp only [points, hjoin.columns]
      rfl
    · rw [ho, hjoin.overlap]
      simp [hlt]
  · rw [if_neg hlt]
    refine ⟨out, h, ⟨?_, hends⟩, by simp [hlt]⟩
    rw [Set.eq_empty_of_forall_notMem (s := {p : Int × Int | _}), Set.union_empty]
    rintro p ⟨h₁, h₂, _⟩
    omega

variable {cs : List Band}

theorem findBand_flat (h : Canonical (c :: cs)) :
    findBand (flat (c :: cs)) = (c.boxes, flat cs) := by
  obtain ⟨a, as, has⟩ := exists_cons_of_ne_nil (boxes_ne_nil h.head)
  have ha := mem_boxes (has ▸ mem_cons_self : a ∈ c.boxes)
  have hin : ∀ x ∈ as, decide (x.y1 = a.y1) = true := fun x hx => by
    have hx := mem_boxes (has ▸ mem_cons_of_mem _ hx : x ∈ c.boxes)
    exact decide_eq_true (hx.1.trans ha.1.symm)
  have hout : ∀ x ∈ flat cs, ¬ decide (x.y1 = a.y1) = true := by
    intro x hx hy
    obtain ⟨d, hd, hxd⟩ := mem_flatMap.mp hx
    have hcd := h.below hd
    have hxd := mem_boxes hxd
    have htall := h.head.tall
    have hy := of_decide_eq_true hy
    omega
  have htake : (flat cs).takeWhile (·.y1 = a.y1) = [] := by
    cases hf : flat cs with
    | nil => rfl
    | cons x xs => exact takeWhile_cons_of_neg (hout x (hf ▸ mem_cons_self))
  have hdrop : (flat cs).dropWhile (·.y1 = a.y1) = flat cs := by
    cases hf : flat cs with
    | nil => rfl
    | cons x xs => exact dropWhile_cons_of_neg (hout x (hf ▸ mem_cons_self))
  rw [flat_cons, has, cons_append, findBand, takeWhile_append_of_pos hin,
    dropWhile_append_of_pos hin, htake, hdrop, append_nil]

/-- What is left of a canonical list behind row `y`. -/
def skip (y : Int) : List Band → List Band
  | [] => []
  | c :: cs => if c.y2 = y then cs else c :: cs

theorem skip_ended (h : c.y2 = y) (cs : List Band) : skip y (c :: cs) = cs := if_pos h

theorem skip_running (h : ¬ c.y2 = y) (cs : List Band) : skip y (c :: cs) = c :: cs := if_neg h

theorem head_box (h : Canonical (c :: cs))
    (ha : flat (c :: cs) = a :: as) : a.y1 = c.y1 ∧ a.y2 = c.y2 := by
  obtain ⟨x, xs, hx⟩ := exists_cons_of_ne_nil (boxes_ne_nil h.head)
  rw [flat_cons, hx, cons_append, cons.injEq] at ha
  exact ha.1 ▸ mem_boxes (hx ▸ mem_cons_self)

theorem skipBand_flat (h : Canonical (c :: cs)) (ha : flat (c :: cs) = a :: as) (y : Int) :
    skipBand a as y = flat (skip y (c :: cs)) := by
  unfold skipBand
  rw [(head_box h ha).2]
  by_cases hy : c.y2 = y
  · rw [if_pos hy, skip_ended hy, ← ha, findBand_flat h]
  · rw [if_neg hy, skip_running hy, ha]

theorem canonical_skip {bs : List Band} (h : Canonical bs) (y : Int) : Canonical (skip y bs) := by
  cases bs with
  | nil => exact h
  | cons c cs =>
    by_cases hy : c.y2 = y
    · rw [skip_ended hy]
      exact h.tail
    · rw [skip_running hy]
      exact h

theorem covers_head (h : Canonical (c :: cs)) {p : Int × Int}
    (hp : p.2 < c.y2) : p ∈ covers (flat (c :: cs)) ↔ p ∈ c.points := by
  rw [mem_covers_flat]
  refine ⟨fun ⟨d, hd, hpd⟩ => ?_, fun hpc => ⟨c, mem_cons_self, hpc⟩⟩
  rcases mem_cons.mp hd with rfl | hd
  · exact hpd
  · have := h.below hd
    have := hpd.1
    omega

theorem covers_skip {p : Int × Int}
    (hp : y ≤ p.2) : p ∈ covers (flat (skip y (c :: cs))) ↔ p ∈ covers (flat (c :: cs)) := by
  by_cases hy : c.y2 = y
  · rw [skip_ended hy, flat_cons, covers_append, covers_boxes]
    refine ⟨Or.inr, fun h => h.resolve_left fun hpc => ?_⟩
    have := hpc.2.1
    omega
  · rw [skip_running hy]

theorem skip_ahead (h : Canonical (c :: cs))
    (hy : y ≤ c.y2) : ∀ b ∈ skip y (c :: cs), y < b.y2 := by
  have hrest : ∀ b ∈ cs, y < b.y2 := fun b hb => by
    have := h.below hb
    have := (h.wf b (mem_cons_of_mem _ hb)).tall
    omega
  intro b hb
  by_cases he : c.y2 = y
  · rw [skip_ended he] at hb
    exact hrest b hb
  · rw [skip_running he] at hb
    rcases mem_cons.mp hb with rfl | hb
    · omega
    · exact hrest b hb

/-- Rows above `ybot` are done, the bands from there on are still in `bs1` and `bs2`. -/
structure Swept (A B : Set (Int × Int)) (flag : Bool) (bs1 bs2 : List Band) (ybot : Int)
    (out : List Band) (s : OpState) : Prop where
  building : Building out s
  canonical1 : Canonical bs1
  canonical2 : Canonical bs2
  ends : ∀ b ∈ out, b.y2 ≤ ybot
  ahead1 : ∀ b ∈ bs1, ybot < b.y2
  ahead2 : ∀ b ∈ bs2, ybot < b.y2
  -- at most one of the two regions is in the middle of a band
  fresh : (∀ b ∈ bs1, ybot ≤ b.y1) ∨ (∀ b ∈ bs2, ybot ≤ b.y1)
  done : ∀ p, p.2 < ybot → (p ∈ covers (flat out) ↔ p ∈ A ∪ B)
  todo1 : ∀ p, ybot ≤ p.2 → (p ∈ A ↔ p ∈ covers (flat bs1))
  todo2 : ∀ p, ybot ≤ p.2 → (p ∈ B ↔ p ∈ covers (flat bs2))
  overlap : s.overlap = true ↔ flag = true ∨ ∃ p, p.2 < ybot ∧ p ∈ A ∧ p ∈ B

section
variable {A B : Set (Int × Int)} {flag : Bool} {c d : Band} {cs ds out : List Band} {ybot : Int}
  {s : OpState}

theorem Swept.heads (h : Swept A B flag (c :: cs) (d :: ds) ybot out s) : c.y1 < c.y2 ∧
    d.y1 < d.y2 ∧ ybot < c.y2 ∧ ybot < d.y2 ∧ (ybot ≤ c.y1 ∨ ybot ≤ d.y1) :=
  ⟨h.canonical1.head.tall, h.canonical2.head.tall, h.ahead1 c mem_cons_self,
    h.ahead2 d mem_cons_self,
    h.fresh.imp (fun hf => hf c mem_cons_self) fun hf => hf d mem_cons_self⟩

theorem Swept.late {bs1 bs2 : List Band} (h : Swept A B flag bs1 bs2 ybot out s) {p : Int × Int}
    (hp : ybot ≤ p.2) : p ∉ covers (flat out) := by
  intro hmem
  obtain ⟨x, hx, hpx⟩ := mem_covers_flat.mp hmem
  have := h.ends x hx
  have := hpx.2.1
  omega

theorem opStep_nonOverlap (h : Swept A B flag (c :: cs) (d :: ds) ybot out s) :
    ∃ out', Building out' (if c.y1 < d.y1 then
          s.nonOverlap true c.boxes (max c.y1 ybot) (min c.y2 d.y1)
        else if d.y1 < c.y1 then s.nonOverlap true d.boxes (max d.y1 ybot) (min d.y2 c.y1) else s) ∧
      (∀ b ∈ out', b.y2 ≤ max c.y1 d.y1 ∧ b.y2 ≤ min c.y2 d.y2) ∧
      (∀ p, p ∈ covers (flat out') ↔ p ∈ covers (flat out) ∨
        (ybot ≤ p.2 ∧ p.2 < max c.y1 d.y1 ∧ p.2 < min c.y2 d.y2 ∧ (p ∈ c.points ∨ p ∈ d.points))) ∧
      (if c.y1 < d.y1 then s.nonOverlap true c.boxes (max c.y1 ybot) (min c.y2 d.y1)
        else if d.y1 < c.y1 then s.nonOverlap true d.boxes (max d.y1 ybot) (min d.y2 c.y1)
        else s).overlap = s.overlap := by
  have hc := h.canonical1.head
  have hd := h.canonical2.head
  obtain ⟨hct, hdt, hca, hda, hfresh⟩ := h.heads
  by_cases hcd : c.y1 < d.y1
  · simp only [if_pos hcd]
    obtain ⟨out', hb, hext, ho⟩ := nonOverlap_spec h.building hc (max c.y1 ybot)
      (min c.y2 d.y1) (fun b hb => by have := h.ends b hb; omega) (by omega)
    refine ⟨out', hb, fun b hb => ?_, fun p => ?_, ho⟩
    · have := hext.ends b hb
      omega
    · rw [hext.covers, Set.mem_union]
      refine or_congr_right ?_
      constructor
      · rintro ⟨h₁, h₂, hx⟩
        dsimp only at h₁ h₂
        exact ⟨by omega, by omega, by omega, .inl ⟨by omega, by omega, hx⟩⟩
      · rintro ⟨h₁, h₂, h₃, ⟨h₄, h₅, hx⟩ | ⟨h₄, h₅, hx⟩⟩
        · exact ⟨by dsimp only; omega, by dsimp only; omega, hx⟩
        · omega
  · rw [if_neg hcd]
    by_cases hdc : d.y1 < c.y1
    · simp only [if_pos hdc]
      obtain ⟨out', hb, hext, ho⟩ := nonOverlap_spec h.building hd (max d.y1 ybot)
        (min d.y2 c.y1) (fun b hb => by have := h.ends b hb; omega) (by omega)
      refine ⟨out', hb, fun b hb => ?_, fun p => ?_, ho⟩
      · have := hext.ends b hb
        omega
      · rw [hext.covers, Set.mem_union]
        refine or_congr_right ?_
        constructor
        · rintro ⟨h₁, h₂, hx⟩
          dsimp only at h₁ h₂
          exact ⟨by omega, by omega, by omega, .inr ⟨by omega, by omega, hx⟩⟩
        · rintro ⟨h₁, h₂, h₃, ⟨h₄, h₅, hx⟩ | ⟨h₄, h₅, hx⟩⟩
          · omega
          · exact ⟨by dsimp only; omega, by dsimp only; omega, hx⟩
    · rw [if_neg hdc]
      refine ⟨out, h.building, fun b hb => ?_, fun p => ⟨.inl, fun hp => hp.elim id ?_⟩, rfl⟩
      · have := h.ends b hb
        omega
      · rintro ⟨h₁, h₂, h₃, ⟨h₄, h₅, hx⟩ | ⟨h₄, h₅, hx⟩⟩ <;> omega

theorem skip_fresh (h : Canonical (c :: cs)) {y : Int} (hy : c.y2 = y) :
    ∀ b ∈ skip y (c :: cs), y ≤ b.y1 := by
  rw [skip_ended hy, ← hy]
  exact fun b hb => h.below hb

theorem opStep_swept (h : Swept A B flag (c :: cs) (d :: ds) ybot out s) {a b : Box}
    {as bs : List Box} (ha : flat (c :: cs) = a :: as) (hb : flat (d :: ds) = b :: bs) :
    ∃ out', Swept A B flag (skip (min c.y2 d.y2) (c :: cs)) (skip (min c.y2 d.y2) (d :: ds))
      (min c.y2 d.y2) out' (opStep regionUnionO true true a as b bs ybot s) := by
  have hc := h.canonical1.head
  have hd := h.canonical2.head
  obtain ⟨hct, hdt, hca, hda, hfresh⟩ := h.heads
  obtain ⟨hay1, hay2⟩ := head_box h.canonical1 ha
  obtain ⟨hby1, hby2⟩ := head_box h.canonical2 hb
  obtain ⟨mid, hmid, hends, hcov, hflag⟩ := opStep_nonOverlap h
  have hytop : (if c.y1 < d.y1 then d.y1 else c.y1) = max c.y1 d.y1 := by
    split <;> omega
  obtain ⟨out', hout, hext, hover⟩ := overlapping_spec hmid hc hd (fun b hb => (hends b hb).1)
    fun b hb => (hends b hb).2
  rw [hflag] at hover
  simp only [opStep, ← ha, ← hb, findBand_flat h.canonical1, findBand_flat h.canonical2, hay1,
    hay2, hby1, hby2, hytop]
  -- which points the two regions have in the rows of this pass
  have hrow : ∀ p : Int × Int, ybot ≤ p.2 → p.2 < min c.y2 d.y2 →
      (p ∈ A ↔ p ∈ c.points) ∧ (p ∈ B ↔ p ∈ d.points) := by
    intro p h₁ h₂
    exact ⟨(h.todo1 p h₁).trans (covers_head h.canonical1 (by omega)),
      (h.todo2 p h₁).trans (covers_head h.canonical2 (by omega))⟩
  refine ⟨out', hout, canonical_skip h.canonical1 _, canonical_skip h.canonical2 _, hext.ends,
    skip_ahead h.canonical1 (by omega), skip_ahead h.canonical2 (by omega), ?_, ?_, ?_, ?_, ?_⟩
  · rcases le_total c.y2 d.y2 with hle | hle
    · exact .inl (skip_fresh h.canonical1 (min_eq_left hle).symm)
    · exact .inr (skip_fresh h.canonical2 (min_eq_right hle).symm)
  · intro p hp
    rw [hext.covers, Set.mem_union, hcov, Set.mem_union]
    by_cases hy : p.2 < ybot
    · rw [h.done p hy, Set.mem_union]
      refine ⟨?_, fun hAB => .inl (.inl hAB)⟩
      rintro ((hAB | ⟨h₁, _⟩) | ⟨h₁, _⟩)
      · exact hAB
      · omega
      · omega
    · obtain ⟨hA, hB⟩ := hrow p (by omega) hp
      have hnot := h.late (not_lt.mp hy)
      rw [hA, hB]
      constructor
      · rintro ((hin | ⟨_, _, _, hcd⟩) | ⟨h₁, h₂, hcd⟩)
        · exact absurd hin hnot
        · exact hcd
        · exact hcd.imp (fun hx => ⟨by omega, by omega, hx⟩) fun hx => ⟨by omega, by omega, hx⟩
      · intro hcd
        by_cases htop : p.2 < max c.y1 d.y1
        · exact .inl (.inr ⟨by omega, htop, hp, hcd⟩)
        · exact .inr ⟨by omega, hp, hcd.imp (fun hx => hx.2.2) fun hx => hx.2.2⟩
  · intro p hp
    rw [covers_skip hp]
    exact h.todo1 p (by omega)
  · intro p hp
    rw [covers_skip hp]
    exact h.todo2 p (by omega)
  · rw [hover, h.overlap, or_assoc]
    refine or_congr_right ?_
    constructor
    · rintro (⟨p, hp, hAB⟩ | ⟨hlt, hnd⟩)
      · exact ⟨p, by omega, hAB⟩
      · obtain ⟨x, hxc, hxd⟩ := Set.not_disjoint_iff.mp hnd
        obtain ⟨hA, hB⟩ := hrow (x, max c.y1 d.y1) (by dsimp only; omega) hlt
        exact ⟨(x, max c.y1 d.y1), hlt, hA.mpr ⟨by dsimp only; omega, by dsimp only; omega, hxc⟩,
          hB.mpr ⟨by dsimp only; omega, by dsimp only; omega, hxd⟩⟩
    · rintro ⟨p, hp, hpA, hpB⟩
      by_cases hy : p.2 < ybot
      · exact .inl ⟨p, hy, hpA, hpB⟩
      · obtain ⟨hA, hB⟩ := hrow p (by omega) hp
        have hpc := hA.mp hpA
        have hpd := hB.mp hpB
        refine .inr ⟨?_, Set.not_disjoint_iff.mpr ⟨p.1, hpc.2.2, hpd.2.2⟩⟩
        have := hpc.1
        have := hpd.1
        omega

theorem skip_length (y : Int) (c : Band) (cs : List Band) :
    (skip y (c :: cs)).length + (if c.y2 = y then 1 else 0) = cs.length + 1 := by
  by_cases hy : c.y2 = y
  · rw [skip_ended hy, if_pos hy]
  · rw [skip_running hy, if_neg hy]
    rfl

theorem flat_cons_eq (cs : List Band) (h : c.WF) : ∃ a as, flat (c :: cs) = a :: as := by
  refine exists_cons_of_ne_nil fun he => ?_
  rw [flat_cons, append_eq_nil_iff] at he
  exact boxes_ne_nil h he.1

variable {bs1 : List Band}

theorem opLoop_swept {bs2 : List Band} (h : Swept A B flag bs1 bs2 ybot out s) :
    ∃ bs1' bs2' ybot' out' s', opLoop regionUnionO true true (flat bs1) (flat bs2) ybot s =
        (flat bs1', flat bs2', ybot', s') ∧
      (bs1' = [] ∨ bs2' = []) ∧ Swept A B flag bs1' bs2' ybot' out' s' := by
  induction hn : bs1.length + bs2.length using Nat.strong_induction_on
    generalizing bs1 bs2 ybot out s with
  | _ n ih =>
    cases bs1 with
    | nil =>
      refine ⟨[], bs2, ybot, out, s, ?_, .inl rfl, h⟩
      rw [opLoop]
      simp
    | cons c cs =>
      cases bs2 with
      | nil =>
        refine ⟨c :: cs, [], ybot, out, s, ?_, .inr rfl, h⟩
        rw [opLoop]
        simp
      | cons d ds =>
        obtain ⟨a, as, ha⟩ := flat_cons_eq cs h.canonical1.head
        obtain ⟨b, bs, hb⟩ := flat_cons_eq ds h.canonical2.head
        obtain ⟨out', hout⟩ := opStep_swept h ha hb
        have hshort : (skip (min c.y2 d.y2) (c :: cs)).length +
            (skip (min c.y2 d.y2) (d :: ds)).length < n := by
          have h₁ := skip_length (min c.y2 d.y2) c cs
          have h₂ := skip_length (min c.y2 d.y2) d ds
          simp only [length_cons] at hn
          split at h₁ <;> split at h₂ <;> omega
        obtain ⟨bs1', bs2', ybot', out'', s', hloop, hend, hswept⟩ := ih _ hshort hout rfl
        refine ⟨bs1', bs2', ybot', out'', s', ?_, hend, hswept⟩
        rw [ha, hb, opLoop, (head_box h.canonical1 ha).2, (head_box h.canonical2 hb).2,
          skipBand_flat h.canonical1 ha, skipBand_flat h.canonical2 hb, hloop]

theorem Swept.symm {bs2 : List Band} (h : Swept A B flag bs1 bs2 ybot out s) :
    Swept B A flag bs2 bs1 ybot out s where
  building := h.building
  canonical1 := h.canonical2
  canonical2 := h.canonical1
  ends := h.ends
  ahead1 := h.ahead2
  ahead2 := h.ahead1
  fresh := h.fresh.symm
  done p hp := by rw [h.done p hp, Set.union_comm]
  todo1 := h.todo2
  todo2 := h.todo1
  overlap := by simp only [h.overlap, and_comm (a := _ ∈ A)]

structure Unites (A B : Set (Int × Int)) (flag : Bool) (rects : List Box) (flag' : Bool) : Prop where
  bands : ∃ bs, rects = flat bs ∧ Canonical bs
  covers : covers rects = A ∪ B
  overlap : flag' = true ↔ flag = true ∨ ¬ Disjoint A B

theorem Unites.symm {rects : List Box} {flag' : Bool} (h : Unites A B flag rects flag') :
    Unites B A flag rects flag' :=
  ⟨h.bands, h.covers.trans (Set.union_comm ..), by rw [h.overlap, disjoint_comm]⟩

theorem meets_iff : (∃ p, p ∈ A ∧ p ∈ B) ↔ ¬ Disjoint A B := Set.not_disjoint_iff.symm

theorem rest_spec (h : Swept A B flag bs1 [] ybot out s) :
    Unites A B flag (s.rest true (flat bs1) ybot).rects (s.rest true (flat bs1) ybot).overlap := by
  have hB : ∀ p ∈ B, p.2 < ybot := fun p hp => by
    by_contra hy
    have := (h.todo2 p (by omega)).mp hp
    simp at this
  have hflag : s.overlap = true ↔ flag = true ∨ ¬ Disjoint A B := by
    rw [h.overlap, ← meets_iff]
    refine or_congr_right ⟨fun ⟨p, _, hp⟩ => ⟨p, hp⟩, fun ⟨p, hA, hpB⟩ => ⟨p, hB p hpB, hA, hpB⟩⟩
  cases bs1 with
  | nil =>
    refine ⟨⟨out, h.building.rects, h.building.canonical⟩, ?_, hflag⟩
    ext p
    change p ∈ covers s.rects ↔ _
    rw [h.building.rects]
    by_cases hy : p.2 < ybot
    · exact h.done p hy
    · refine iff_of_false (h.late (not_lt.mp hy)) ?_
      rintro (hp | hp)
      · have := (h.todo1 p (by omega)).mp hp
        simp at this
      · exact hy (hB p hp)
  | cons c cs =>
    have hc := h.canonical1.head
    have hct := hc.tall
    have hca := h.ahead1 c mem_cons_self
    obtain ⟨a, as, ha⟩ := flat_cons_eq cs hc
    obtain ⟨hay1, hay2⟩ := head_box h.canonical1 ha
    have hband : Band.WF ⟨max c.y1 ybot, c.y2, c.spans⟩ :=
      ⟨by dsimp only; omega, hc.full, hc.separated⟩
    have hle : ∀ b ∈ out, b.y2 ≤ max c.y1 ybot := fun b hb => by
      have := h.ends b hb
      omega
    obtain ⟨hb, ho⟩ := h.building.coalesced hband hle s.overlap
    have hpush := h.building.push hband hle le_rfl
    have hrest : s.rest true (flat (c :: cs)) ybot = { s.coalesced (s.rects ++
        boxes ⟨max c.y1 ybot, c.y2, c.spans⟩) s.overlap with
          rects := flat (push out ⟨max c.y1 ybot, c.y2, c.spans⟩ ++ cs) } := by
      rw [ha, OpState.rest, if_pos rfl, ← ha, findBand_flat h.canonical1, hay1, hay2]
      dsimp only
      rw [regionAppendNonO_boxes, flat_append, ← hb.rects]
    rw [hrest]
    refine ⟨⟨_, rfl, ?_⟩, ?_, ?_⟩
    · -- the last band keeps its bottom and its spans
      refine hb.canonical.append h.canonical1.tail (fun b hb d hd => ?_) ?_
      · have := hpush.ends b hb
        have := h.canonical1.below hd
        dsimp only at *
        omega
      · intro x hx d hd hxd
        obtain ⟨pre, y, hlast, hy2, hys⟩ := push_last out ⟨max c.y1 ybot, c.y2, c.spans⟩
        rw [hlast, getLast?_concat] at hx
        obtain rfl := Option.mem_some_iff.mp hx
        rw [hys]
        exact h.canonical1.maximal.rel_head? hd (hy2.symm.trans hxd)
    · ext p
      rw [flat_append, covers_append, hpush.covers, Set.mem_union, Set.mem_union]
      by_cases hy : p.2 < ybot
      · rw [h.done p hy]
        refine ⟨?_, fun hp => .inl (.inl hp)⟩
        rintro ((hp | ⟨h₁, _⟩) | hp)
        · exact hp
        · dsimp only at h₁
          omega
        · obtain ⟨d, hd, hpd⟩ := mem_covers_flat.mp hp
          have := h.canonical1.below hd
          have := hpd.1
          omega
      · have hnot := h.late (not_lt.mp hy)
        have hnotB : p ∉ B := fun hp => hy (hB p hp)
        rw [Set.mem_union, or_iff_left hnotB, h.todo1 p (by omega), flat_cons, covers_append,
          Set.mem_union, covers_boxes, or_iff_right hnot]
        refine or_congr_left ⟨fun ⟨h₁, h₂, hx⟩ => ?_, fun ⟨h₁, h₂, hx⟩ => ?_⟩
        · dsimp only at h₁ h₂
          exact ⟨by omega, h₂, hx⟩
        · exact ⟨by dsimp only; omega, h₂, hx⟩
    · rw [← hflag]
      exact Eq.to_iff (congrArg (· = true) ho)

end

/-! ### `RegionOp` -/

/-- A region with the points `S`, not empty, in its canonical form. -/
structure Finished (reg : RegionRec) (S : Set (Int × Int)) : Prop where
  bands : ∃ bs, reg.rects = flat bs ∧ Canonical bs ∧ bs ≠ []
  covers : covers reg.rects = S
  extents : Bounds reg.extents S
  data : reg.data = .null ∨ ∃ rects, reg.data = .array rects ∧ 2 ≤ rects.length

theorem Swept.start {bs1 bs2 : List Band} {ds : List Band} (h₁ : Canonical bs1)
    (h₂ : Canonical bs2) (hc : bs1 = c :: cs) (hd : bs2 = d :: ds) (flag : Bool) :
    Swept (Xfront.covers (flat bs1)) (Xfront.covers (flat bs2)) flag bs1 bs2 (min c.y1 d.y1) []
      ⟨[], 0, flag⟩ := by
  have htop : ∀ {x : Band} {xs : List Band}, Canonical (x :: xs) →
      ∀ b ∈ x :: xs, x.y1 ≤ b.y1 ∧ x.y1 < b.y2 := by
    intro x xs hx b hb
    have hbt := (hx.wf b hb).tall
    rcases mem_cons.mp hb with rfl | hb
    · exact ⟨le_rfl, hbt⟩
    · have := hx.below hb
      have := hx.head.tall
      exact ⟨by omega, by omega⟩
  subst hc hd
  have hearly : ∀ {x : Band} {xs : List Band}, Canonical (x :: xs) → ∀ p : Int × Int,
      p.2 < x.y1 → p ∉ Xfront.covers (flat (x :: xs)) := by
    intro x xs hx p hp hmem
    obtain ⟨b, hb, hpb⟩ := mem_covers_flat.mp hmem
    have := (htop hx b hb).1
    have := hpb.1
    omega
  refine ⟨⟨rfl, rfl, .nil⟩, h₁, h₂, nofun, fun b hb => ?_, fun b hb => ?_, .inl fun b hb => ?_,
    fun p hp => ?_, fun p _ => Iff.rfl, fun p _ => Iff.rfl, ?_⟩
  · have := (htop h₁ b hb).2
    omega
  · have := (htop h₂ b hb).2
    omega
  · have := (htop h₁ b hb).1
    omega
  · refine iff_of_false (by simp) ?_
    rintro (hp' | hp')
    · exact hearly h₁ p (by omega) hp'
    · exact hearly h₂ p (by omega) hp'
  · refine (or_iff_left ?_).symm
    rintro ⟨p, hp, hp₁, _⟩
    exact hearly h₁ p (by omega) hp₁

theorem regionOp_spec {reg1 reg2 : RegionRec} {A B : Set (Int × Int)} (h₁ : Finished reg1 A)
    (h₂ : Finished reg2 B) (flag : Bool) : ∃ rects flag', Unites A B flag rects flag' ∧
      regionOp reg1 reg2 regionUnionO true true flag = (true, reg1.settled rects, flag') := by
  obtain ⟨bs1, hr1, hcan1, hne1⟩ := h₁.bands
  obtain ⟨bs2, hr2, hcan2, hne2⟩ := h₂.bands
  obtain ⟨c, cs, hc⟩ := exists_cons_of_ne_nil hne1
  obtain ⟨d, ds, hd⟩ := exists_cons_of_ne_nil hne2
  have hstart := Swept.start hcan1 hcan2 hc hd flag
  rw [← hr1, ← hr2, h₁.covers, h₂.covers] at hstart
  obtain ⟨bs1', bs2', ybot, out, s, hloop, hend, hswept⟩ := opLoop_swept hstart
  subst hc hd
  obtain ⟨a, as, ha⟩ := flat_cons_eq cs hcan1.head
  obtain ⟨b, bs, hb⟩ := flat_cons_eq ds hcan2.head
  have hbroken : ¬ (reg1.data = .broken ∨ reg2.data = .broken) := by
    rintro (hx | hx)
    · rw [RegionRec.rects, hx, ha] at hr1
      cases hr1
    · rw [RegionRec.rects, hx, hb] at hr2
      cases hr2
  have hunites : Unites A B flag
      (if flat bs1' ≠ [] ∧ true = true then s.rest true (flat bs1') ybot
        else s.rest true (flat bs2') ybot).rects
      (if flat bs1' ≠ [] ∧ true = true then s.rest true (flat bs1') ybot
        else s.rest true (flat bs2') ybot).overlap := by
    rcases hend with rfl | rfl
    · rw [if_neg (by simp)]
      exact (rest_spec hswept.symm).symm
    · by_cases hf : flat bs1' = []
      · have hs : s.rest true (flat []) ybot = s.rest true (flat bs1') ybot := by rw [hf, flat_nil]
        rw [if_neg (by simp [hf]), hs]
        exact rest_spec hswept
      · rw [if_pos ⟨hf, rfl⟩]
        exact rest_spec hswept
  refine ⟨_, _, hunites, ?_⟩
  rw [regionOp, if_neg hbroken, hr1, hr2, ha, hb]
  dsimp only
  rw [(head_box hcan1 ha).1, (head_box hcan2 hb).1, ← ha, ← hb, hloop]

end Xfront.Region
