import Xfront.Region.Sort
import Xfront.Region.Union
import Xfront.Region.Valid

/-!
# `RegionValidate` computes the union

Every region under construction has its complete bands in canonical form and one band in the making,
to which the next boxes in sorted order are added or from which they start the next band.
-/

namespace Xfront.Region
open Band RegionInfo Box
open List hiding Disjoint

/-- The points `S` in complete bands and in the band that ends with the box `last`. -/
structure Collecting (rit : RegionInfo) (S : Set (Int × Int)) (done : List Band)
    (front : List Span) (last : Box) : Prop where
  rects : rit.rects = flat done ++ boxes ⟨last.y1, last.y2, front ++ [sides last]⟩
  prevBand : rit.prevBand = (flat done.dropLast).length
  curBand : rit.curBand = (flat done).length
  canonical : Canonical done
  above : ∀ b ∈ done, b.y2 ≤ last.y1
  band : Band.WF ⟨last.y1, last.y2, front ++ [sides last]⟩
  covers : covers rit.rects = S
  extents : Bounds ⟨rit.extents.x1, rit.extents.y1, max rit.extents.x2 last.x2, last.y2⟩ S

section
variable {rit : RegionInfo} {S : Set (Int × Int)} {done : List Band} {front : List Span}
  {last box : Box}

theorem Collecting.start (h : box.Nonempty) : Collecting (.start box) box.points [] [] box where
  rects := by simp [RegionInfo.start, Band.boxes, sides]
  prevBand := rfl
  curBand := rfl
  canonical := .nil
  above := nofun
  band := ⟨h.2, by simp, .singleton h.1⟩
  covers := by simp [RegionInfo.start]
  extents := by
    have hmax : max box.x2 box.x2 = box.x2 := max_self _
    simp only [RegionInfo.start, hmax]
    exact .box h

theorem boxes_snoc (y1 y2 : Int) (front : List Span) (s : Span) :
    boxes ⟨y1, y2, front ++ [s]⟩ = boxes ⟨y1, y2, front⟩ ++ [⟨s.l, y1, s.r, y2⟩] := by
  simp [boxes]

section
variable (h : Collecting rit S done front last)
include h

theorem Collecting.getLast : rit.rects.getLast? = some last := by
  rw [h.rects, boxes_snoc, ← append_assoc, getLast?_concat]
  rfl

theorem Collecting.covers_eq :
    S = Xfront.covers (flat done) ∪ points ⟨last.y1, last.y2, front ++ [sides last]⟩ := by
  rw [← h.covers, h.rects, covers_append, covers_boxes]

theorem Collecting.last_le : rit.extents.x1 ≤ last.x1 ∧ rit.extents.y1 ≤ last.y1 := by
  have hmem : (last.x1, last.y1) ∈ S := by
    rw [h.covers_eq]
    exact .inr ⟨le_rfl, h.band.tall, sides last, mem_append_right _ (mem_singleton_self _),
      le_rfl, h.band.separated.last⟩
  have := h.extents.inside _ hmem
  rw [mem_points] at this
  exact ⟨this.1, this.2.2.1⟩

theorem Collecting.disjoint_iff (hbox : box.Nonempty)
    (hsort : Sorts last box) (hy1 : box.y1 = last.y1) (hy2 : box.y2 = last.y2) :
    Disjoint S box.points ↔ last.x2 ≤ box.x1 := by
  have hx : last.x1 ≤ box.x1 := by
    rw [sorts_iff] at hsort
    omega
  have hcols := h.band.separated.disjoint_iff (s := sides box) hbox.1 hx
  rw [show (sides last).r = last.x2 from rfl, show (sides box).l = box.x1 from rfl] at hcols
  rw [← hcols, h.covers_eq, Set.disjoint_union_left]
  have habove : Disjoint (Xfront.covers (flat done)) box.points := by
    rw [Set.disjoint_left]
    intro p hp hpb
    obtain ⟨b, hb, hpb'⟩ := mem_covers_flat.mp hp
    have := h.above b hb
    have := hpb'.2.1
    rw [mem_points] at hpb
    omega
  rw [and_iff_right habove, Set.disjoint_left, Set.disjoint_left]
  constructor
  · intro hd x hx hxb
    exact hd (a := (x, last.y1)) ⟨le_rfl, h.band.tall, hx⟩
      ⟨hxb.1, hxb.2, hy1.le, by have := h.band.tall; dsimp only at *; omega⟩
  · rintro hd p ⟨_, _, hp⟩ hpb
    exact hd hp ⟨hpb.1, hpb.2.1⟩

theorem Collecting.merge (hbox : box.Nonempty)
    (hsort : Sorts last box) (hy1 : box.y1 = last.y1) (hy2 : box.y2 = last.y2)
    (hx : box.x1 ≤ last.x2) :
    Collecting { rit with rects := rit.rects.dropLast ++
      [{ last with x2 := if last.x2 < box.x2 then box.x2 else last.x2 }] } (S ∪ box.points) done
      front { last with x2 := if last.x2 < box.x2 then box.x2 else last.x2 } := by
  have hle : last.x1 ≤ box.x1 := by
    rw [sorts_iff] at hsort
    omega
  have hmax : (if last.x2 < box.x2 then box.x2 else last.x2) = max last.x2 box.x2 := by
    split <;> omega
  rw [hmax]
  have hrects : rit.rects.dropLast ++ [{ last with x2 := max last.x2 box.x2 }] =
      flat done ++ Band.boxes ⟨last.y1, last.y2, front ++ [⟨last.x1, max last.x2 box.x2⟩]⟩ := by
    rw [h.rects, boxes_snoc, boxes_snoc, ← append_assoc, dropLast_concat, append_assoc]
  have hwiden := h.band.separated.widen (sides box)
  refine ⟨hrects, h.prevBand, h.curBand, h.canonical, h.above,
    ⟨h.band.tall, by simp, hwiden⟩, ?_, ?_⟩
  · dsimp only
    rw [hrects, covers_append, Band.covers_boxes, h.covers_eq, Set.union_assoc]
    congr 1
    have hcols := h.band.separated.widen_columns (s := sides box) hle hx
    ext p
    have hp : p.1 ∈ columns (front ++ [⟨last.x1, max last.x2 box.x2⟩]) ↔
        p.1 ∈ columns (front ++ [sides last]) ∪ (sides box).cols := by
      rw [← hcols]
      rfl
    simp only [Band.points, Set.mem_ofPred_eq, Set.mem_union, hp, Box.mem_points, Span.cols, sides,
      hy1, hy2]
    constructor
    · rintro ⟨h₁, h₂, hc | hc⟩
      · exact .inl ⟨h₁, h₂, hc⟩
      · exact .inr ⟨hc.1, hc.2, h₁, h₂⟩
    · rintro (⟨h₁, h₂, hc⟩ | ⟨h₁, h₂, h₃, h₄⟩)
      · exact ⟨h₁, h₂, .inl hc⟩
      · exact ⟨h₃, h₄, .inr ⟨h₁, h₂⟩⟩
  · have hb := h.extents.union (.box hbox)
    have hlast := h.last_le
    convert hb using 2 <;> dsimp only <;> omega

theorem Collecting.snoc (hbox : box.Nonempty) (hy1 : box.y1 = last.y1) (hy2 : box.y2 = last.y2)
    (hx : last.x2 < box.x1) :
    Collecting { rit with rects := rit.rects ++ [box] } (S ∪ box.points) done
      (front ++ [sides last]) box := by
  have hlast := h.last_le
  have hsep := h.band.separated.snoc (s := sides box) hbox.1 hx
  have hboxx := hbox.1
  have hwide := h.band.separated.last
  dsimp only [sides] at hwide
  refine ⟨?_, h.prevBand, h.curBand, h.canonical, hy1 ▸ h.above, ⟨hbox.2, by simp, hsep⟩, ?_, ?_⟩
  · dsimp only
    rw [h.rects, boxes_snoc _ _ _ (sides box), hy1, hy2, append_assoc]
    congr 3
    rw [← hy1, ← hy2]
    rfl
  · dsimp only
    rw [covers_append, h.covers, covers_cons, covers_nil, Set.union_empty]
  · have hb := h.extents.union (.box hbox)
    convert hb using 2 <;> dsimp only <;> omega

theorem Collecting.newBand (hbox : box.Nonempty)
    (hy : last.y2 ≤ box.y1) : Collecting (rit.newBand last box) (S ∪ box.points)
      (push done ⟨last.y1, last.y2, front ++ [sides last]⟩) [] box ∧ Disjoint S box.points := by
  have hlast := h.last_le
  have hboxy := hbox.2
  have htall := h.band.tall
  have hspec := coalesce_spec h.canonical.wf h.band
  rw [← h.rects, ← h.prevBand, ← h.curBand] at hspec
  have hnew : rit.newBand last box =
      ⟨⟨min rit.extents.x1 box.x1, rit.extents.y1, max rit.extents.x2 last.x2, rit.extents.y2⟩,
        flat (push done ⟨last.y1, last.y2, front ++ [sides last]⟩) ++ [box],
        (flat (push done ⟨last.y1, last.y2, front ++ [sides last]⟩).dropLast).length,
        (flat (push done ⟨last.y1, last.y2, front ++ [sides last]⟩)).length⟩ := by
    simp only [RegionInfo.newBand, hspec]
    congr 1
    obtain ⟨⟨a, b, c, d⟩, rects, prev, cur⟩ := rit
    by_cases h₁ : c < last.x2
    · by_cases h₂ : box.x1 < a
      · simp [h₁, h₂, min_eq_right h₂.le, max_eq_right h₁.le]
      · simp [h₁, h₂, min_eq_left (not_lt.mp h₂), max_eq_right h₁.le]
    · by_cases h₂ : box.x1 < a
      · simp [h₁, h₂, min_eq_right h₂.le, max_eq_left (not_lt.mp h₁)]
      · simp [h₁, h₂, min_eq_left (not_lt.mp h₂), max_eq_left (not_lt.mp h₁)]
  have hcov := push_covers h.canonical h.band h.above
  rw [hnew]
  refine ⟨⟨?_, rfl, rfl, push_canonical h.canonical h.band h.above, ?_,
    ⟨hbox.2, by simp, .singleton hbox.1⟩, ?_, ?_⟩, ?_⟩
  · simp [Band.boxes, sides]
  · exact fun b hb => (push_ends (fun b hb => (h.above b hb).trans htall.le) le_rfl b hb).trans hy
  · dsimp only
    rw [covers_append, hcov, ← h.covers_eq, covers_cons, covers_nil, Set.union_empty]
  · have hb := h.extents.union (.box hbox)
    convert hb using 2 <;> dsimp only at * <;> omega
  · rw [Set.disjoint_left]
    intro p hp hpb
    have := h.extents.inside p hp
    rw [Box.mem_points] at this hpb
    dsimp only at this
    omega

theorem Collecting.finish : Finished rit.finish S := by
  have hspec := coalesce_spec h.canonical.wf h.band
  rw [← h.rects, ← h.prevBand, ← h.curBand] at hspec
  have hcov := (push_covers h.canonical h.band h.above).trans h.covers_eq.symm
  have hcan := push_canonical h.canonical h.band h.above
  have hlast : rit.rects.getLastD regionEmptyBox = last := by
    rw [getLastD_eq_getLast?, h.getLast, Option.getD_some]
  generalize hp : push done ⟨last.y1, last.y2, front ++ [sides last]⟩ = bs at hspec hcov hcan
  have hfin : rit.finish = ⟨⟨rit.extents.x1, rit.extents.y1, max rit.extents.x2 last.x2, last.y2⟩,
      if (flat bs).length = 1 then .null else .array (flat bs)⟩ := by
    simp only [RegionInfo.finish, hspec, hlast]
    congr 1
    split
    · rename_i hlt
      rw [max_eq_right hlt.le]
    · rename_i hlt
      rw [max_eq_left (not_lt.mp hlt)]
  have hne : bs ≠ [] := by
    obtain ⟨pre, b, hb, _⟩ := push_last done ⟨last.y1, last.y2, front ++ [sides last]⟩
    rw [← hp, hb]
    simp
  have hext := h.extents
  rw [hfin]
  by_cases hone : (flat bs).length = 1
  · obtain ⟨b, hb⟩ := length_eq_one_iff.mp hone
    have hbox : Bounds b S := by
      rw [← hcov, hb, covers_cons, covers_nil, Set.union_empty]
      exact .box (hcan.banded.nonempty b (hb ▸ mem_singleton_self b))
    have he := hext.unique hbox
    rw [if_pos hone, he]
    refine ⟨⟨bs, hb.symm, hcan, hne⟩, ?_, hbox, .inl rfl⟩
    change Xfront.covers [b] = S
    rw [← hb, hcov]
  · rw [if_neg hone]
    refine ⟨⟨bs, rfl, hcan, hne⟩, hcov, hext, .inr ⟨_, rfl, ?_⟩⟩
    have hpos : flat bs ≠ [] := fun he => by
      obtain ⟨p, hpS, _⟩ := hext.left
      rw [← hcov, he, covers_nil] at hpS
      exact hpS
    have := length_pos_iff.mpr hpos
    omega

end

end

def Open (rest : List Box) (rit : RegionInfo) (S : Set (Int × Int)) : Prop :=
  ∃ done front last, Collecting rit S done front last ∧ ∀ x ∈ rest, Sorts last x

theorem Open.tail {box : Box} {rest : List Box} {rit : RegionInfo} {S : Set (Int × Int)}
    (h : Open (box :: rest) rit S) : Open rest rit S := by
  obtain ⟨done, front, last, hc, hs⟩ := h
  exact ⟨done, front, last, hc, fun x hx => hs x (mem_cons_of_mem _ hx)⟩

variable {Ss orig : List (Set (Int × Int))} {flag : Bool}

theorem scatter_spec {box : Box} {rest : List Box} {ri : List RegionInfo}
    {R : List (Set (Int × Int))} (hbox : box.Nonempty)
    (hsort : ∀ x ∈ rest, Sorts box x) (h : List.Forall₂ (Open (box :: rest)) ri Ss)
    (ha : Accounts flag (box.points :: (Ss ++ R)) orig) :
    ∃ Ss', List.Forall₂ (Open rest) (scatter box flag ri).1 Ss' ∧
      Accounts (scatter box flag ri).2 (Ss' ++ R) orig := by
  induction h generalizing R with
  | nil =>
    exact ⟨[box.points], .cons ⟨[], [], box, .start hbox, hsort⟩ .nil, ha⟩
  | @cons rit S ri Ss hrit hri ih =>
    -- the region stays as it is
    have hskip : ∃ Ss', List.Forall₂ (Open rest) (rit :: (scatter box flag ri).1) Ss' ∧
        Accounts (scatter box flag ri).2 (Ss' ++ R) orig := by
      obtain ⟨Ss', hSs', hacc⟩ := ih (R := S :: R) (ha.perm (.cons _ (by
        rw [cons_append]
        exact perm_middle.symm)))
      exact ⟨S :: Ss', .cons hrit.tail hSs', hacc.perm perm_middle⟩
    -- the box goes into the region
    have htake : ∀ {rit' : RegionInfo} {flag' : Bool}, Open rest rit' (S ∪ box.points) →
        (flag' = true ↔ flag = true ∨ ¬ Disjoint S box.points) →
        ∃ Ss', List.Forall₂ (Open rest) (rit' :: ri) Ss' ∧ Accounts flag' (Ss' ++ R) orig := by
      intro rit' flag' hopen hflag
      refine ⟨(S ∪ box.points) :: Ss, .cons hopen (hri.imp fun _ _ => Open.tail), ?_⟩
      exact Accounts.merge (ha.perm (.swap ..)) hflag
    obtain ⟨done, front, last, hcol, hs⟩ := hrit
    have hlb := hs box (mem_cons_self ..)
    rw [scatter]
    simp only [hcol.getLast]
    by_cases hband : box.y1 = last.y1 ∧ box.y2 = last.y2
    · rw [if_pos hband]
      have hdisj := hcol.disjoint_iff hbox hlb hband.1 hband.2
      by_cases hx : box.x1 ≤ last.x2
      · rw [if_pos hx]
        refine htake ⟨_, _, _, hcol.merge hbox hlb hband.1 hband.2 hx, fun x hx => ?_⟩ ?_
        · have := hs x (mem_cons_of_mem _ hx)
          rw [sorts_iff] at this ⊢
          exact this
        · rw [hdisj, Bool.or_eq_true, decide_eq_true_eq, not_le]
      · rw [if_neg hx]
        have hgap := not_le.mp hx
        refine htake ⟨_, _, _, hcol.snoc hbox hband.1 hband.2 hgap, hsort⟩ ?_
        rw [hdisj]
        simp [hgap.le]
    · rw [if_neg hband]
      by_cases hy : last.y2 ≤ box.y1
      · rw [if_pos hy]
        obtain ⟨hcol', hd⟩ := hcol.newBand hbox hy
        refine htake ⟨_, _, _, hcol', hsort⟩ ?_
        simp [hd]
      · rw [if_neg hy]
        exact hskip

theorem scatterAll_spec {boxes : List Box} {ri : List RegionInfo} (hne : ∀ b ∈ boxes, b.Nonempty)
    (hsort : boxes.Pairwise Sorts) (h : List.Forall₂ (Open boxes) ri Ss)
    (ha : Accounts flag (Ss ++ boxes.map Box.points) orig) :
    ∃ Ss', List.Forall₂ (Open []) (scatterAll ri flag boxes).1 Ss' ∧
      Accounts (scatterAll ri flag boxes).2 Ss' orig := by
  induction boxes generalizing ri Ss flag with
  | nil => exact ⟨Ss, h, ha.perm (by simp)⟩
  | cons box boxes ih =>
    have hs := pairwise_cons.mp hsort
    obtain ⟨Ss', hSs', hacc⟩ := scatter_spec (hne box (mem_cons_self ..)) hs.1 h
      (ha.perm (by rw [map_cons]; exact perm_middle))
    exact ih (fun b hb => hne b (mem_cons_of_mem _ hb)) hs.2 hSs' hacc

theorem unionInto_spec {reg hreg : RegionRec} {A B : Set (Int × Int)} (h : Finished reg A)
    (h' : Finished hreg B) (flag : Bool) :
    ∃ reg' flag', unionInto reg hreg flag = (true, reg', flag') ∧ Finished reg' (A ∪ B) ∧
      (flag' = true ↔ flag = true ∨ ¬ Disjoint A B) := by
  obtain ⟨rects, flag', hu, hop⟩ := regionOp_spec h h' flag
  obtain ⟨bs, hbs, hcan⟩ := hu.bands
  have hcov := hu.covers
  have hmin : ∀ x y : Int, (if y < x then y else x) = min x y := fun x y => by
    split <;> omega
  have hmax : ∀ x y : Int, (if x < y then y else x) = max x y := fun x y => by
    split <;> omega
  have hbox : (covers rects).Nonempty := by
    obtain ⟨p, hp, _⟩ := h.extents.left
    exact ⟨p, hcov ▸ Or.inl hp⟩
  have hne : bs ≠ [] := by
    rintro rfl
    rw [hbs, flat_nil, covers_nil] at hbox
    exact Set.not_nonempty_empty hbox
  have hinto : unionInto reg hreg flag = (true, { reg.settled rects with extents :=
      ⟨min (reg.settled rects).extents.x1 hreg.extents.x1,
        min (reg.settled rects).extents.y1 hreg.extents.y1,
        max (reg.settled rects).extents.x2 hreg.extents.x2,
        max (reg.settled rects).extents.y2 hreg.extents.y2⟩ }, flag') := by
    simp only [unionInto, hop, hmin, hmax]
  refine ⟨_, flag', hinto, ?_, hu.overlap⟩
  clear hop hinto hu
  match rects, hbs, hcov with
  | [], _, hcov => exact absurd hbox (by simp)
  | [x], hbs, hcov =>
    rw [covers_cons, covers_nil, Set.union_empty] at hcov
    have hx : Bounds x (A ∪ B) := by
      rw [← hcov]
      exact .box (hcan.banded.nonempty x (hbs ▸ mem_singleton_self x))
    have he := (hx.union h'.extents).unique (by rwa [Set.union_assoc, Set.union_self])
    simp only [RegionRec.settled, he]
    refine ⟨⟨bs, hbs, hcan, hne⟩, ?_, hx, .inl rfl⟩
    change Xfront.covers [x] = _
    rw [covers_cons, covers_nil, Set.union_empty, hcov]
  | x :: y :: rest, hbs, hcov =>
    exact ⟨⟨bs, hbs, hcan, hne⟩, hcov, h.extents.union h'.extents,
      .inr ⟨_, rfl, Nat.le_add_left ..⟩⟩

theorem unionPairs_spec (ret : Bool) {regs hregs : List RegionRec}
    {As Bs R : List (Set (Int × Int))} (h : List.Forall₂ Finished regs As) (h' : List.Forall₂ Finished hregs Bs)
    (hlen : regs.length = hregs.length) (ha : Accounts flag (As ++ (Bs ++ R)) orig) :
    ∃ regs' flag' Cs, unionPairs ret flag regs hregs = (ret, regs', flag') ∧
      List.Forall₂ Finished regs' Cs ∧ Accounts flag' (Cs ++ R) orig := by
  induction h generalizing hregs Bs R flag with
  | nil =>
    cases h' with
    | nil => exact ⟨[], flag, [], by rw [unionPairs]; simp, .nil, ha⟩
    | cons => cases hlen
  | @cons reg A regs As hreg₁ hregs₁ ih =>
    cases h' with
    | nil => cases hlen
    | @cons hreg B hregs Bs hreg₂ hregs₂ =>
      obtain ⟨reg', flag₁, hunion, hfin, hflag⟩ := unionInto_spec hreg₁ hreg₂ flag
      have hperm : (A :: As ++ (B :: Bs ++ R)).Perm (A :: B :: (As ++ (Bs ++ R))) :=
        .cons _ perm_middle
      have hacc := (ha.perm hperm).merge hflag
      obtain ⟨regs', flag', Cs, hpairs, hall, hacc'⟩ := ih (R := (A ∪ B) :: R) hregs₂
        (Nat.succ.inj hlen) (hacc.perm (by
          rw [← append_assoc, ← append_assoc]
          exact perm_middle.symm))
      refine ⟨reg' :: regs', flag', (A ∪ B) :: Cs, ?_, .cons hfin hall, hacc'.perm perm_middle⟩
      rw [unionPairs]
      simp only [hunion, Bool.and_true, hpairs]

theorem halves_perm {α : Type} (l : List α) (odd half : Nat) :
    l.Perm ((l.drop odd).take half ++ (l.drop (odd + half) ++ l.take odd)) := by
  have hdrop : l.drop odd = (l.drop odd).take half ++ l.drop (odd + half) := by
    rw [← drop_drop, take_append_drop]
  rw [← append_assoc, ← hdrop]
  exact (List.Perm.of_eq (take_append_drop ..).symm).trans perm_append_comm

theorem unionAll_spec {ri : List RegionRec} (ret : Bool)
    (h : List.Forall₂ Finished ri Ss) (hne : ri ≠ []) (ha : Accounts flag Ss orig) :
    ∃ reg flag' S, unionAll ret flag ri = (ret, [reg], flag') ∧ Finished reg S ∧
      Accounts flag' [S] orig := by
  induction hn : ri.length using Nat.strong_induction_on generalizing ri Ss flag with
  | _ n ih =>
    have hpos := length_pos_iff.mpr hne
    rw [unionAll]
    by_cases hlt : 1 < ri.length
    · rw [if_pos hlt]
      dsimp only
      have hodd : ri.length = ri.length % 2 + ri.length / 2 + ri.length / 2 := by omega
      have hhalf : 0 < ri.length / 2 := by omega
      generalize ri.length % 2 = odd at hodd ⊢
      generalize ri.length / 2 = half at hodd hhalf ⊢
      have hlen : ((ri.drop odd).take half).length = (ri.drop (odd + half)).length := by
        rw [length_take, length_drop, length_drop]
        omega
      obtain ⟨regs', flag', Cs, heq, hall, hacc⟩ := unionPairs_spec ret
        (forall₂_take half (forall₂_drop odd h)) (forall₂_drop (odd + half) h) hlen
        (ha.perm (halves_perm Ss odd half))
      have hregs : regs'.length = half := by
        have hl := unionPairs_length ret flag ((ri.drop odd).take half) (ri.drop (odd + half))
        rw [heq, ← hlen, min_self, length_take, length_drop] at hl
        dsimp only at hl
        omega
      have hround : (ri.take odd ++ regs').length = odd + half := by
        rw [length_append, length_take, hregs]
        omega
      rw [heq]
      have hne' : ri.take odd ++ regs' ≠ [] := ne_nil_of_length_pos (by rw [hround]; omega)
      exact ih (odd + half) (by omega) (rel_append (forall₂_take odd h) hall) hne'
        (hacc.perm perm_append_comm) hround
    · rw [if_neg hlt]
      obtain ⟨reg, hreg⟩ := length_eq_one_iff.mp (by omega : ri.length = 1)
      subst hreg
      cases h with
      | cons hreg hnil =>
        cases hnil
        exact ⟨reg, flag, _, rfl, hreg, ha⟩

/-- What `RegionValidate` makes of an array of boxes. -/
structure Validated (reg : RegionRec) (rects : List Box) : Prop where
  valid : regionIsValid reg = true
  covers : covers reg.rects = covers rects
  banded : Banded reg.rects
  extents : Bounds reg.extents (Xfront.covers rects)
  maximal : Maximal reg.rects
  null : reg.data = .null ↔ reg.rects.length = 1

variable {rects : List Box}

theorem Finished.validated {reg : RegionRec}
    (h : Finished reg (Xfront.covers rects)) : Validated reg rects := by
  obtain ⟨bs, hbs, hcan, hne⟩ := h.bands
  have hband : Banded reg.rects := hbs ▸ hcan.banded
  refine ⟨?_, h.covers, hband, h.extents, hbs ▸ hcan.flat_maximal, ?_⟩
  · rcases h.data with hd | ⟨rs, hd, hlen⟩
    · exact valid_null hd h.extents.nonempty
    · have hr : reg.rects = rs := by rw [RegionRec.rects, hd]
      obtain _ | ⟨b, _ | ⟨n, rest⟩⟩ := rs
      · simp at hlen
      · simp at hlen
      · exact valid_array hd (hr ▸ hband) (hr ▸ h.covers ▸ h.extents)
  · rcases h.data with hd | ⟨rs, hd, hlen⟩
    · simp [RegionRec.rects, hd]
    · simp only [RegionRec.rects, hd, reduceCtorEq, false_iff]
      omega

theorem regionValidate_array {badreg : RegionRec}
    (hd : badreg.data = .array rects) (hne : rects ≠ []) (hbox : ∀ b ∈ rects, b.Nonempty)
    (he : badreg.extents.x1 = badreg.extents.x2) :
    ∃ reg overlap, regionValidate badreg = (true, reg, overlap) ∧ Validated reg rects ∧
      (overlap = true ↔ ¬ (rects.map Box.points).Pairwise Disjoint) := by
  have hperm := quickSortRects_perm rects
  have hsorted := quickSortRects_sorted rects
  match hq : quickSortRects rects with
  | [] => exact absurd (hperm.symm.trans (.of_eq hq)).eq_nil hne
  | box :: boxes =>
    rw [hq] at hperm hsorted
    have hbox' : ∀ b ∈ box :: boxes, b.Nonempty := fun b hb => hbox b (hperm.subset hb)
    have hs := pairwise_cons.mp hsorted
    have hstart : List.Forall₂ (Open boxes) [.start box] [box.points] :=
      .cons ⟨[], [], box, .start (hbox' box (mem_cons_self ..)), hs.1⟩ .nil
    have hacc : Accounts false ([box.points] ++ boxes.map Box.points) (rects.map Box.points) :=
      (Accounts.refl _).perm (hperm.symm.map Box.points)
    obtain ⟨Ss, hopen, hacc⟩ := scatterAll_spec
      (fun b hb => hbox' b (mem_cons_of_mem _ hb)) hs.2 hstart hacc
    generalize hscat : scatterAll [.start box] false boxes = round at hopen hacc
    obtain ⟨ri, overlap⟩ := round
    have hfin : List.Forall₂ Finished (ri.map RegionInfo.finish) Ss :=
      forall₂_map_left_iff.mpr (hopen.imp fun _ _ ⟨_, _, _, hcol, _⟩ => hcol.finish)
    have hri : ri.map RegionInfo.finish ≠ [] := by
      intro hnil
      rw [hnil, forall₂_nil_left_iff] at hfin
      have hcorner : (box.x1, box.y1) ∈ total (rects.map Box.points) := by
        rw [total_points]
        exact ⟨box, hperm.subset (mem_cons_self ..), Box.corner_mem (hbox' box (mem_cons_self ..))⟩
      rw [← hacc.total, hfin] at hcorner
      simp [total] at hcorner
    obtain ⟨reg, flag, S, hall, hreg, hone⟩ := unionAll_spec true hfin hri hacc
    obtain ⟨hS, hflag⟩ := hone.single
    rw [total_points] at hS
    refine ⟨reg, flag, ?_, (hS ▸ hreg).validated, hflag⟩
    obtain ⟨b, bs, rfl⟩ := exists_cons_of_ne_nil hne
    rw [regionValidate, hd]
    dsimp only
    rw [if_neg (by omega), hq]
    dsimp only
    rw [hscat, hall]
    rfl

theorem not_pairwise_points :
    ¬ (rects.map Box.points).Pairwise Disjoint ↔ ∃ i j : Fin rects.length, i < j ∧
      ∃ p, p ∈ (rects.get i).points ∧ p ∈ (rects.get j).points := by
  rw [pairwise_map, pairwise_iff_get]
  simp only [not_forall, Set.not_disjoint_iff, exists_prop]

theorem regionValidate_union {badreg : RegionRec} {rects : List Box}
    (hd : badreg.data = .array rects) (hne : rects ≠ []) (hbox : ∀ b ∈ rects, b.Nonempty)
    (he : badreg.extents.x1 = badreg.extents.x2) :
    ∃ reg overlap, regionValidate badreg = (true, reg, overlap) ∧
      covers reg.rects = covers rects ∧ regionIsValid reg = true ∧
      Banded reg.rects ∧ (reg.rects.map Box.points).Pairwise Disjoint ∧
      Bounds reg.extents (covers rects) ∧ (reg.data = .null ↔ reg.rects.length = 1) ∧
      Maximal reg.rects ∧ (overlap = true ↔ ∃ i j : Fin rects.length, i < j ∧
        ∃ p, p ∈ (rects.get i).points ∧ p ∈ (rects.get j).points) := by
  obtain ⟨reg, overlap, hval, h, hover⟩ := regionValidate_array hd hne hbox he
  exact ⟨reg, overlap, hval, h.covers, h.valid, h.banded, h.banded.disjoint, h.extents, h.null,
    h.maximal, hover.trans not_pairwise_points⟩

theorem regionValidate_union_two :
    ∃ reg overlap, regionValidate ⟨regionEmptyBox, .array [⟨2, 2, 6, 6⟩, ⟨0, 0, 4, 4⟩]⟩ =
        (true, reg, overlap) ∧
      covers reg.rects = covers [⟨2, 2, 6, 6⟩, ⟨0, 0, 4, 4⟩] ∧ regionIsValid reg = true ∧
      Maximal reg.rects :=
  have ⟨reg, overlap, hval, hcov, hvalid, _, _, _, _, hmax, _⟩ :=
    @regionValidate_union ⟨regionEmptyBox, .array [⟨2, 2, 6, 6⟩, ⟨0, 0, 4, 4⟩]⟩ _ rfl
      (by decide) (by decide) rfl
  ⟨reg, overlap, hval, hcov, hvalid, hmax⟩

end Xfront.Region
