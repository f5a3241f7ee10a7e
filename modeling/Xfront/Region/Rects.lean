import Xfront.Region.Validate

/-!
# `RegionFromRects` behind `VerifyRectOrder`

A list that passes the check for `YXBanded` gives banded boxes, also when empty
rectangles are dropped and the others clipped. The path without `RegionValidate` keeps
them in an array, however many are left.
-/

namespace Xfront.Region
open XRectangle

open List

theorem clipped_le (r : XRectangle) :
    r.clipped.x1 ≤ r.clipped.x2 ∧ r.clipped.y1 ≤ r.clipped.y2 := by
  have hx := BitVec.toInt_le (x := r.x)
  have hy := BitVec.toInt_le (x := r.y)
  simp only [clipped, maxShort]
  omega

theorem isBox_iff (r : XRectangle) : isBox r.clipped = true ↔ r.clipped.Nonempty := by
  have hle := clipped_le r
  simp only [isBox, Box.Nonempty, decide_eq_true_eq]
  omega

theorem points_not_isBox {b : Box} (h : ¬ isBox b = true) : b.points = ∅ := by
  rw [isBox, decide_eq_true_eq] at h
  ext p
  rw [Box.mem_points]
  simp only [Set.mem_empty_iff_false, iff_false]
  omega

theorem covers_filter (bs : List Box) : covers (bs.filter isBox) = covers bs := by
  ext p
  simp only [mem_covers, mem_filter]
  constructor
  · rintro ⟨b, ⟨hb, _⟩, hp⟩
    exact ⟨b, hb, hp⟩
  · rintro ⟨b, hb, hp⟩
    by_cases hbox : isBox b = true
    · exact ⟨b, ⟨hb, hbox⟩, hp⟩
    · rw [points_not_isBox hbox] at hp
      exact absurd hp (Set.notMem_empty p)

theorem filter_nonempty (rects : List XRectangle) :
    ∀ b ∈ (rects.map clipped).filter isBox, b.Nonempty := by
  intro b hb
  obtain ⟨hb, hbox⟩ := mem_filter.mp hb
  obtain ⟨r, _, rfl⟩ := mem_map.mp hb
  exact (isBox_iff r).mp hbox

def XRectangle.Follows (p n : XRectangle) : Prop :=
  (n.y.toInt = p.y.toInt ∧ n.height = p.height ∧ p.x.toInt + p.width.toNat ≤ n.x.toInt) ∨
    (n.y.toInt ≠ p.y.toInt ∧ p.y.toInt + p.height.toNat ≤ n.y.toInt)

theorem follows_iff (p n : XRectangle) : notYXBanded p n = false ↔ p.Follows n := by
  simp only [notYXBanded, XRectangle.Follows, decide_eq_false_iff_not]
  by_cases hy : n.y.toInt = p.y.toInt
  · by_cases hh : n.height = p.height <;> simp [hy, hh]
  · simp [hy]

theorem XRectangle.Follows.trans {a b c : XRectangle} (h : a.Follows b) (h' : b.Follows c) :
    a.Follows c := by
  rcases h with ⟨h₁, h₂, h₃⟩ | ⟨h₁, h₂⟩ <;> rcases h' with ⟨g₁, g₂, g₃⟩ | ⟨g₁, g₂⟩
  · exact .inl ⟨g₁.trans h₁, g₂.trans h₂, by omega⟩
  · exact .inr ⟨by omega, by rw [h₂] at g₂; omega⟩
  · exact .inr ⟨by omega, by omega⟩
  · exact .inr ⟨by omega, by omega⟩

variable {rects : List XRectangle}

theorem inSequence_pairwise (h : inSequence notYXBanded rects = true) :
    rects.Pairwise XRectangle.Follows := by
  have : IsTrans XRectangle XRectangle.Follows := ⟨fun _ _ _ => .trans⟩
  rw [← isChain_iff_pairwise]
  induction rects with
  | nil => exact .nil
  | cons p rest ih =>
    cases rest with
    | nil => exact .singleton p
    | cons n rest =>
      rw [inSequence, Bool.and_eq_true, Bool.not_eq_true'] at h
      exact .cons_cons ((follows_iff p n).mp h.1) (ih h.2)

theorem XRectangle.Follows.before {p n : XRectangle} (h : p.Follows n) :
    p.clipped.Before n.clipped := by
  simp only [Box.Before, clipped]
  rcases h with ⟨h₁, h₂, h₃⟩ | ⟨_, h₂⟩
  · exact .inl ⟨h₁.symm, by rw [h₁, h₂], by omega⟩
  · exact .inr (by omega)

theorem banded_of_inSequence (h : inSequence notYXBanded rects = true) :
    Banded ((rects.map clipped).filter isBox) := by
  refine ⟨filter_nonempty rects, List.Pairwise.sublist filter_sublist ?_⟩
  exact pairwise_map.mpr ((inSequence_pairwise h).imp fun hf => hf.before)

/-! ### `RegionSetExtents` -/

theorem foldl_widen (e : Box) (bs : List Box) : bs.foldl (fun e x =>
        let e := if x.x1 < e.x1 then { e with x1 := x.x1 } else e
        if e.x2 < x.x2 then { e with x2 := x.x2 } else e) e =
      ⟨bs.foldl (fun m n => min m n.x1) e.x1, e.y1, bs.foldl (fun m n => max m n.x2) e.x2,
        e.y2⟩ := by
  induction bs generalizing e with
  | nil => rfl
  | cons b bs ih =>
    rw [foldl_cons, ih]
    rw [widen_eq]
    rfl

theorem regionSetExtents_bounds {e b : Box} {bs : List Box} (h : Banded (b :: bs)) :
    Bounds (regionSetExtents ⟨e, .array (b :: bs)⟩).extents (covers (b :: bs)) := by
  have hlast : bs.getLastD b ∈ b :: bs := by
    rcases eq_nil_or_concat' bs with rfl | ⟨front, z, rfl⟩
    · exact mem_cons_self ..
    · rw [getLastD_concat]
      exact mem_cons_of_mem _ (mem_append_right _ (mem_singleton_self _))
  have hext : (regionSetExtents ⟨e, .array (b :: bs)⟩).extents =
      ⟨(b :: bs).foldl (fun m n => min m n.x1) b.x1, b.y1,
        (b :: bs).foldl (fun m n => max m n.x2) (bs.getLastD b).x2, (bs.getLastD b).y2⟩ := by
    simp only [regionSetExtents, foldl_widen]
  rw [hext]
  obtain ⟨⟨hl₀, hl⟩, hl'⟩ := foldl_min b.x1 (b :: bs)
  obtain ⟨⟨hr₀, hr⟩, hr'⟩ := foldl_max (bs.getLastD b).x2 (b :: bs)
  refine banded_bounds h rfl rfl hl ?_ hr ?_
  · exact hl'.elim (fun hm => ⟨b, mem_cons_self .., hm.symm⟩) id
  · exact hr'.elim (fun hm => ⟨_, hlast, hm.symm⟩) id

theorem regionSetExtents_rects (e : Box) (bs : List Box) :
    (regionSetExtents ⟨e, .array bs⟩).data = .array bs := by
  cases bs with
  | nil => rfl
  | cons => rfl

/-! ### `RegionFromRects` -/

def boxesOf (rects : List XRectangle) : List Box := (rects.map clipped).filter isBox

theorem regionFromRects_many (h : 2 ≤ rects.length) (hne : boxesOf rects ≠ []) (ct : Int) :
    regionFromRects rects ct =
      if ct ≠ ctYXBanded then (regionValidate ⟨regionEmptyBox, .array (boxesOf rects)⟩).2.1
      else regionSetExtents ⟨regionEmptyBox, .array (boxesOf rects)⟩ := by
  match rects, h with
  | r :: q :: rest, _ =>
    rw [boxesOf] at hne
    obtain ⟨b, bs, hb⟩ := exists_cons_of_ne_nil hne
    rw [regionFromRects, boxesOf, hb] <;> simp

theorem regionFromRects_none (h : 2 ≤ rects.length)
    (hnil : boxesOf rects = []) (ct : Int) : regionFromRects rects ct = regionNull := by
  match rects, h with
  | r :: q :: rest, _ =>
    rw [boxesOf] at hnil
    rw [regionFromRects, hnil] <;> simp

theorem regionValidate_boxesOf (hne : boxesOf rects ≠ []) :
    Validated (regionValidate ⟨regionEmptyBox, .array (boxesOf rects)⟩).2.1 (boxesOf rects) := by
  obtain ⟨reg, overlap, hval, h, _⟩ :=
    @regionValidate_array _ ⟨regionEmptyBox, .array (boxesOf rects)⟩ rfl hne
      (filter_nonempty rects) rfl
  rw [hval]
  exact h

theorem regionFromRects_one (r : XRectangle) (ct : Int) :
    regionIsValid (regionFromRects [r] ct) = true ∧
      covers (regionFromRects [r] ct).rects = covers [r.clipped] := by
  rw [regionFromRects]
  by_cases h : isBox r.clipped = true
  · rw [if_pos h]
    exact ⟨valid_null rfl ((isBox_iff r).mp h), rfl⟩
  · rw [if_neg h, covers_cons, points_not_isBox h, covers_nil, Set.union_empty]
    exact ⟨by decide, covers_nil⟩

theorem regionFromRects_covers (rects : List XRectangle) (ct : Int) :
    covers (regionFromRects rects ct).rects = covers (rects.map clipped) := by
  match rects with
  | [] => rfl
  | [r] => exact (regionFromRects_one r ct).2
  | r :: q :: rest =>
    rw [← covers_filter (map ..), ← boxesOf]
    generalize hrs : r :: q :: rest = rs
    have hlen : 2 ≤ rs.length := hrs ▸ Nat.le_add_left ..
    by_cases hnil : boxesOf rs = []
    · rw [regionFromRects_none hlen hnil, hnil]
      rfl
    · rw [regionFromRects_many hlen hnil]
      split
      · exact (regionValidate_boxesOf hnil).covers
      · rw [RegionRec.rects, regionSetExtents_rects]

theorem banded_of_verify {ordering : Int}
    (h : verifyRectOrder rects ordering = ctYXBanded) : Banded (boxesOf rects) := by
  refine banded_of_inSequence ?_
  simp only [verifyRectOrder, ctUnsorted, ctYSorted, ctYXSorted, ctYXBanded] at h
  split_ifs at h <;> first | assumption | cases h

theorem regionFromRects_isValid {ordering ct : Int} (hct : verifyRectOrder rects ordering = ct) :
    regionIsValid (regionFromRects rects ct) = true ↔
      ¬ (ct = ctYXBanded ∧ 2 ≤ rects.length ∧ (boxesOf rects).length = 1) := by
  by_cases hlen : 2 ≤ rects.length
  · by_cases hnil : boxesOf rects = []
    · rw [regionFromRects_none hlen hnil, hnil]
      exact iff_of_true (by decide) (by simp)
    · rw [regionFromRects_many hlen hnil]
      by_cases hband : ct = ctYXBanded
      · rw [if_neg (not_not.mpr hband)]
        have hbanded := banded_of_verify (hct.trans hband)
        rcases hb : boxesOf rects with _ | ⟨b, _ | ⟨n, rest⟩⟩
        · exact absurd hb hnil
        · refine iff_of_false ?_ (by simp [hband, hlen])
          simp [regionIsValid, RegionRec.rects, regionSetExtents]
        · rw [hb] at hbanded
          refine iff_of_true ?_ (by simp)
          exact valid_array (regionSetExtents_rects ..) hbanded (regionSetExtents_bounds hbanded)
      · rw [if_pos hband]
        exact iff_of_true (regionValidate_boxesOf hnil).valid fun h => hband h.1
  · refine iff_of_true ?_ fun h => hlen h.2.1
    obtain _ | ⟨r, _ | ⟨q, rest⟩⟩ := rects
    · rfl
    · exact (regionFromRects_one r ct).1
    · exact absurd (Nat.le_add_left ..) hlen

theorem regionFromRects_correct_iff (rects : List XRectangle) (ordering : Int) :
    (regionIsValid (regionFromRects rects (verifyRectOrder rects ordering)) = true ∧
      covers (regionFromRects rects (verifyRectOrder rects ordering)).rects =
        covers (rects.map XRectangle.clipped) ∧
      covers (regionFromRects rects (verifyRectOrder rects ordering)).rects =
        covers (regionFromRects rects ctUnsorted).rects) ↔
      ¬ (verifyRectOrder rects ordering = ctYXBanded ∧ 2 ≤ rects.length ∧
        ((rects.map XRectangle.clipped).filter isBox).length = 1) := by
  rw [← boxesOf, regionFromRects_isValid rfl, regionFromRects_covers, regionFromRects_covers]
  exact and_iff_left ⟨rfl, rfl⟩

/-- An empty rectangle behind a box leaves an array with one box. -/
theorem regionFromRects_one_box_array :
    verifyRectOrder [⟨0, 0, 5, 5⟩, ⟨0, 20, 0, 5⟩] yxBanded = ctYXBanded ∧
      regionIsValid (regionFromRects [⟨0, 0, 5, 5⟩, ⟨0, 20, 0, 5⟩] ctYXBanded) = false := by
  decide

end Xfront.Region
