import Xfront.Lib.Bands
import Xfront.Region.Model

/-!
# What `RegionIsValid` accepts

Banded boxes with their bounding box as extents, in the representation for their number.
-/

namespace Xfront.Region

open List

theorem foldl_min (b : Int) (bs : List Box) :
    (bs.foldl (fun m n => min m n.x1) b ≤ b ∧ ∀ n ∈ bs, bs.foldl (fun m n => min m n.x1) b ≤ n.x1) ∧
      (bs.foldl (fun m n => min m n.x1) b = b ∨
        ∃ n ∈ bs, n.x1 = bs.foldl (fun m n => min m n.x1) b) := by
  induction bs generalizing b with
  | nil => exact ⟨⟨le_rfl, nofun⟩, .inl rfl⟩
  | cons n ns ih =>
    rw [foldl_cons]
    obtain ⟨⟨hb, hns⟩, hmem⟩ := ih (min b n.x1)
    refine ⟨⟨hb.trans (min_le_left ..), fun x hx => ?_⟩, ?_⟩
    · rcases mem_cons.mp hx with rfl | hx
      · exact hb.trans (min_le_right ..)
      · exact hns x hx
    · rcases hmem with hmem | ⟨x, hx, hxm⟩
      · rcases min_choice b n.x1 with hc | hc
        · exact .inl (hmem.trans hc)
        · exact .inr ⟨n, mem_cons_self .., (hmem.trans hc).symm⟩
      · exact .inr ⟨x, mem_cons_of_mem _ hx, hxm⟩

theorem foldl_max (b : Int) (bs : List Box) :
    (b ≤ bs.foldl (fun m n => max m n.x2) b ∧ ∀ n ∈ bs, n.x2 ≤ bs.foldl (fun m n => max m n.x2) b) ∧
      (bs.foldl (fun m n => max m n.x2) b = b ∨
        ∃ n ∈ bs, n.x2 = bs.foldl (fun m n => max m n.x2) b) := by
  induction bs generalizing b with
  | nil => exact ⟨⟨le_rfl, nofun⟩, .inl rfl⟩
  | cons n ns ih =>
    rw [foldl_cons]
    obtain ⟨⟨hb, hns⟩, hmem⟩ := ih (max b n.x2)
    refine ⟨⟨(le_max_left ..).trans hb, fun x hx => ?_⟩, ?_⟩
    · rcases mem_cons.mp hx with rfl | hx
      · exact (le_max_right ..).trans hb
      · exact hns x hx
    · rcases hmem with hmem | ⟨x, hx, hxm⟩
      · rcases max_choice b n.x2 with hc | hc
        · exact .inl (hmem.trans hc)
        · exact .inr ⟨n, mem_cons_self .., (hmem.trans hc).symm⟩
      · exact .inr ⟨x, mem_cons_of_mem _ hx, hxm⟩

theorem widen_eq (box n : Box) :
    (if (if n.x1 < box.x1 then { box with x1 := n.x1 } else box).x2 < n.x2 then
      { (if n.x1 < box.x1 then { box with x1 := n.x1 } else box) with x2 := n.x2 }
      else if n.x1 < box.x1 then { box with x1 := n.x1 } else box) =
      ⟨min box.x1 n.x1, box.y1, max box.x2 n.x2, box.y2⟩ := by
  obtain ⟨a, b, c, d⟩ := box
  by_cases h₁ : n.x1 < a
  · by_cases h₂ : c < n.x2
    · simp [h₁, h₂, min_eq_right h₁.le, max_eq_right h₂.le]
    · simp [h₁, h₂, min_eq_right h₁.le, max_eq_left (not_lt.mp h₂)]
  · by_cases h₂ : c < n.x2
    · simp [h₁, h₂, min_eq_left (not_lt.mp h₁), max_eq_right h₂.le]
    · simp [h₁, h₂, min_eq_left (not_lt.mp h₁), max_eq_left (not_lt.mp h₂)]

theorem validLoop_eq {box p : Box} {ns : List Box} (h : Banded (p :: ns)) :
    validLoop box p ns = some ⟨ns.foldl (fun m n => min m n.x1) box.x1, box.y1,
      ns.foldl (fun m n => max m n.x2) box.x2, box.y2⟩ := by
  induction ns generalizing box p with
  | nil => rfl
  | cons n ns ih =>
    have hord := pairwise_cons.mp h.ordered
    have hp := hord.1 n (mem_cons_self ..)
    obtain ⟨hp1, hp2⟩ := h.nonempty p (mem_cons_self ..)
    obtain ⟨hn1, hn2⟩ := h.nonempty n (mem_cons_of_mem _ (mem_cons_self ..))
    have hns : Banded (n :: ns) := ⟨fun b hb => h.nonempty b (mem_cons_of_mem _ hb), hord.2⟩
    rw [validLoop, if_neg (by omega)]
    rw [if_neg (by rcases hp with hp | hp <;> omega), widen_eq, ih hns]
    rfl

variable {b : Box}

theorem banded_ends {bs : List Box} (h : Banded (b :: bs)) :
    (∀ x ∈ b :: bs, b.y1 ≤ x.y1) ∧ ∀ x ∈ b :: bs, x.y2 ≤ (bs.getLastD b).y2 := by
  have hrel : ∀ x ∈ b :: bs, ∀ y ∈ b :: bs, x.Before y → x.y1 ≤ y.y1 ∧ x.y2 ≤ y.y2 := by
    intro x hx y hy hxy
    have := (h.nonempty x hx).2
    have := (h.nonempty y hy).2
    rcases hxy with hxy | hxy <;> omega
  refine ⟨fun x hx => ?_, ?_⟩
  · rcases mem_cons.mp hx with rfl | hx'
    · exact le_rfl
    · exact (hrel b (mem_cons_self ..) x hx
        ((pairwise_cons.mp h.ordered).1 x hx')).1
  · rcases eq_nil_or_concat' bs with rfl | ⟨front, z, rfl⟩
    · intro x hx
      rw [mem_singleton.mp hx]
      exact le_rfl
    · intro x hx
      rw [getLastD_concat]
      have hz : z ∈ b :: (front ++ [z]) :=
        mem_cons_of_mem _ (mem_append_right _ (mem_singleton_self _))
      have hord := h.ordered
      rw [← cons_append] at hord hx
      rcases mem_append.mp hx with hx' | hx'
      · exact (hrel x (cons_append ▸ hx) z hz ((pairwise_append.mp hord).2.2 x hx' z
          (mem_singleton_self _))).2
      · rw [mem_singleton.mp hx']

theorem banded_bounds {e : Box} {bs : List Box} (h : Banded (b :: bs)) (htop : e.y1 = b.y1)
    (hbot : e.y2 = (bs.getLastD b).y2) (hl : ∀ x ∈ b :: bs, e.x1 ≤ x.x1)
    (hl' : ∃ x ∈ b :: bs, x.x1 = e.x1) (hr : ∀ x ∈ b :: bs, x.x2 ≤ e.x2)
    (hr' : ∃ x ∈ b :: bs, x.x2 = e.x2) : Bounds e (covers (b :: bs)) := by
  obtain ⟨hfirst, hlast⟩ := banded_ends h
  have hz : bs.getLastD b ∈ b :: bs := by
    rcases eq_nil_or_concat' bs with rfl | ⟨front, z, rfl⟩
    · exact mem_cons_self ..
    · rw [getLastD_concat]
      exact mem_cons_of_mem _ (mem_append_right _ (mem_singleton_self _))
  exact .of_boxes h.nonempty (fun x hx => ⟨hl x hx, hr x hx, htop ▸ hfirst x hx, hbot ▸ hlast x hx⟩)
    hl' ⟨b, mem_cons_self .., htop.symm⟩ hr' ⟨_, hz, hbot.symm⟩

variable {n : Box} {rest : List Box}

theorem widened_bounds (h : Banded (b :: n :: rest)) :
    Bounds ⟨(n :: rest).foldl (fun m n => min m n.x1) b.x1, b.y1,
      (n :: rest).foldl (fun m n => max m n.x2) b.x2, (rest.getLastD n).y2⟩
      (covers (b :: n :: rest)) := by
  refine banded_bounds h rfl (by rw [getLastD_cons]) ?_ ?_ ?_ ?_
  · intro x hx
    rcases mem_cons.mp hx with rfl | hx
    · exact (foldl_min ..).1.1
    · exact (foldl_min ..).1.2 x hx
  · rcases foldl_min b.x1 (n :: rest) with ⟨_, hm | ⟨x, hx, hm⟩⟩
    · exact ⟨b, mem_cons_self .., hm.symm⟩
    · exact ⟨x, mem_cons_of_mem _ hx, hm⟩
  · intro x hx
    rcases mem_cons.mp hx with rfl | hx
    · exact (foldl_max ..).1.1
    · exact (foldl_max ..).1.2 x hx
  · rcases foldl_max b.x2 (n :: rest) with ⟨_, hm | ⟨x, hx, hm⟩⟩
    · exact ⟨b, mem_cons_self .., hm.symm⟩
    · exact ⟨x, mem_cons_of_mem _ hx, hm⟩

variable {reg : RegionRec}

theorem valid_array (hd : reg.data = .array (b :: n :: rest)) (h : Banded (b :: n :: rest))
    (he : Bounds reg.extents (covers (b :: n :: rest))) : regionIsValid reg = true := by
  obtain ⟨hx, hy⟩ := he.nonempty
  rw [regionIsValid, if_neg (by omega)]
  simp only [RegionRec.rects, hd, decide_eq_true_eq]
  rw [validLoop_eq h]
  exact congrArg some ((widened_bounds h).unique he)

theorem bounds_of_valid (hr : reg.rects = b :: n :: rest) (h : Banded (b :: n :: rest))
    (hv : regionIsValid reg = true) : Bounds reg.extents (covers (b :: n :: rest)) := by
  rw [regionIsValid] at hv
  split at hv
  · cases hv
  · simp only [hr, decide_eq_true_eq] at hv
    rw [validLoop_eq h] at hv
    exact Option.some.inj hv ▸ widened_bounds h

theorem valid_null (hd : reg.data = .null) (h : reg.extents.Nonempty) :
    regionIsValid reg = true := by
  obtain ⟨hx, hy⟩ := h
  rw [regionIsValid, if_neg (by omega)]
  simp only [RegionRec.rects, hd, decide_true]

end Xfront.Region
