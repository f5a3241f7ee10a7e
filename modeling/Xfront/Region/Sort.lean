import Xfront.Region.Model

/-!
# `QuickSortRects` sorts

The two scans of a pass stop in front of boxes that are on the wrong side of the pivot;
after the pass the pivot stands between the boxes that may come before it and those
that may come behind it.
-/

namespace Xfront.Region
open Nat

open List

def Sorts (a b : Box) : Prop := precedes b a = false

theorem sorts_iff {a b : Box} : Sorts a b ↔ a.y1 < b.y1 ∨ (a.y1 = b.y1 ∧ a.x1 ≤ b.x1) := by
  simp only [Sorts, precedes, decide_eq_false_iff_not]
  omega

theorem Sorts.trans {a b c : Box} (h : Sorts a b) (h' : Sorts b c) : Sorts a c := by
  rw [sorts_iff] at *
  omega

theorem precedes_irrefl (a : Box) : precedes a a = false := by
  simp [precedes]

theorem sorts_of_precedes {a b : Box} (h : precedes a b = true) : Sorts a b := by
  rw [sorts_iff]
  have := of_decide_eq_true h
  omega

variable {rects : List Box} {pivot : Box} {i j k : Nat}

theorem boxAt_eq (h : k < rects.length) : boxAt rects k = rects[k] := (getElem_eq_getD _).symm

theorem exchangeRects_perm (hi : i < rects.length) (hj : j < rects.length) :
    (exchangeRects rects i j).Perm rects := by
  rw [exchangeRects, boxAt_eq hi, boxAt_eq hj]
  exact set_set_perm hi hj

theorem boxAt_exchange (hi : i < rects.length) (hj : j < rects.length) (k : Nat) :
    boxAt (exchangeRects rects i j) k =
      if k = j then boxAt rects i else if k = i then boxAt rects j else boxAt rects k := by
  simp only [boxAt, exchangeRects, getD_eq_getElem?_getD, getElem?_set, length_set]
  by_cases hkj : k = j
  · subst hkj
    simp [hj]
  · rw [if_neg (Ne.symm hkj), if_neg hkj]
    by_cases hki : k = i
    · subst hki
      simp [hi]
    · rw [if_neg (Ne.symm hki), if_neg hki]

theorem scanUp_passed (hk : i < k) (hk' : k < scanUp rects pivot i) :
    Sorts (boxAt rects k) pivot := by
  fun_induction scanUp rects pivot i with
  | case1 i hc ih =>
    by_cases he : k = i + 1
    · rw [he]
      exact sorts_of_precedes hc.2
    · exact ih (by omega) hk'
  | case2 i hc => omega

theorem scanUp_stops (h : scanUp rects pivot i < rects.length) :
    Sorts pivot (boxAt rects (scanUp rects pivot i)) := by
  fun_induction scanUp rects pivot i with
  | case1 i hc ih => exact ih h
  | case2 i hc =>
    rw [not_and, Bool.not_eq_true] at hc
    exact hc h

theorem scanDown_passed (hk : scanDown rects pivot j < k) (hk' : k < j) :
    Sorts pivot (boxAt rects k) := by
  induction j with
  | zero => omega
  | succ j ih =>
    unfold scanDown at hk
    by_cases hc : precedes pivot (boxAt rects j) = true
    · rw [if_pos hc] at hk
      by_cases he : k = j
      · rw [he]
        exact sorts_of_precedes hc
      · exact ih hk (by omega)
    · rw [if_neg hc] at hk
      omega

theorem scanDown_stops (h0 : boxAt rects 0 = pivot) :
    Sorts (boxAt rects (scanDown rects pivot j)) pivot := by
  induction j with
  | zero =>
    rw [scanDown, h0]
    exact precedes_irrefl pivot
  | succ j ih =>
    unfold scanDown
    by_cases hc : precedes pivot (boxAt rects j) = true
    · rw [if_pos hc]
      exact ih
    · rw [if_neg hc]
      exact Bool.eq_false_of_not_eq_true hc

theorem scanDown_lt (h : 0 < j) : scanDown rects pivot j < j := by
  cases j with
  | zero => omega
  | succ j =>
    unfold scanDown
    split
    · exact lt_succ_of_le (scanDown_le ..)
    · exact lt_succ_self j

structure Split (pivot : Box) (rects : List Box) (i j : Nat) : Prop where
  front : boxAt rects 0 = pivot
  low : ∀ k, 0 < k → k ≤ i → Sorts (boxAt rects k) pivot
  high : ∀ k, j ≤ k → k < rects.length → Sorts pivot (boxAt rects k)

theorem partitionRects_spec (h : Split pivot rects i j) (hi : i < rects.length)
    (hj : j ≤ rects.length) (hpos : 0 < j) : (partitionRects pivot rects i j).1.Perm rects ∧
      Split pivot (partitionRects pivot rects i j).1 (partitionRects pivot rects i j).2
        ((partitionRects pivot rects i j).2 + 1) := by
  fun_induction partitionRects pivot rects i j with
  | case1 rects i j i' j' hlt ih =>
    have hup : i < i' := lt_scanUp ..
    have hdown : j' < j := scanDown_lt hpos
    have hi' : i' < rects.length := by omega
    have hj' : j' < rects.length := by omega
    have hbox := boxAt_exchange hi' hj'
    have hsplit : Split pivot (exchangeRects rects i' j') i' j' := by
      refine ⟨?_, fun k hk hk' => ?_, fun k hk hk' => ?_⟩
      · rw [hbox, if_neg (by omega), if_neg (by omega)]
        exact h.front
      · rw [hbox, if_neg (by omega)]
        by_cases he : k = i'
        · rw [if_pos he]
          exact scanDown_stops h.front
        · rw [if_neg he]
          by_cases hki : k ≤ i
          · exact h.low k hk hki
          · exact scanUp_passed (by omega) (show k < i' by omega)
      · rw [exchangeRects_length] at hk'
        rw [hbox]
        by_cases he : k = j'
        · rw [if_pos he]
          exact scanUp_stops hi'
        · rw [if_neg he, if_neg (by omega)]
          by_cases hkj : j ≤ k
          · exact h.high k hkj hk'
          · exact scanDown_passed (show j' < k by omega) (by omega)
    obtain ⟨hperm, hres⟩ := ih hsplit (by rw [exchangeRects_length]; omega)
      (by rw [exchangeRects_length]; omega) (by omega)
    exact ⟨hperm.trans (exchangeRects_perm hi' hj'), hres⟩
  | case2 rects i j i' j' hge =>
    refine ⟨.refl _, h.front, fun k hk hk' => ?_, fun k hk hk' => ?_⟩
    · by_cases he : k = j'
      · rw [he]
        exact scanDown_stops h.front
      · by_cases hki : k ≤ i
        · exact h.low k hk hki
        · exact scanUp_passed (by omega) (show k < i' by omega)
    · by_cases hkj : j ≤ k
      · exact h.high k hkj hk'
      · exact scanDown_passed (show j' < k by omega) (by omega)

theorem partitioned_spec (hne : rects ≠ []) : (partitioned rects).1.Perm rects ∧
      (∀ k, k < (partitioned rects).2 →
        Sorts (boxAt (partitioned rects).1 k) (boxAt (partitioned rects).1 (partitioned rects).2)) ∧
      ∀ k, (partitioned rects).2 < k → k < rects.length →
        Sorts (boxAt (partitioned rects).1 (partitioned rects).2)
          (boxAt (partitioned rects).1 k) := by
  have hpos := length_pos_iff.mpr hne
  have hlt := partitioned_lt rects hne
  have hperm₀ : (exchangeRects rects 0 (rects.length / 2)).Perm rects :=
    exchangeRects_perm hpos (by omega)
  have hlen₀ := hperm₀.length_eq
  obtain ⟨hperm, hsplit⟩ := partitionRects_spec
    (show Split _ (exchangeRects rects 0 (rects.length / 2)) 0 rects.length from
      ⟨rfl, fun k hk hk' => by omega, fun k hk hk' => by omega⟩) (by omega) (by omega) hpos
  simp only [partitioned] at hlt ⊢
  set part := partitionRects (boxAt (exchangeRects rects 0 (rects.length / 2)) 0)
    (exchangeRects rects 0 (rects.length / 2)) 0 rects.length
  have hlen := hperm.length_eq
  have hbox := boxAt_exchange (show 0 < part.1.length by omega) (show part.2 < part.1.length by omega)
  have hpivot : boxAt (exchangeRects part.1 0 part.2) part.2 = _ :=
    (hbox part.2).trans ((if_pos rfl).trans hsplit.front)
  refine ⟨(exchangeRects_perm (by omega) (by omega)).trans (hperm.trans hperm₀),
    fun k hk => ?_, fun k hk hk' => ?_⟩
  · rw [hpivot, hbox, if_neg (by omega)]
    by_cases he : k = 0
    · rw [if_pos he]
      exact hsplit.low part.2 (by omega) le_rfl
    · rw [if_neg he]
      exact hsplit.low k (by omega) (by omega)
  · rw [hpivot, hbox, if_neg (by omega), if_neg (by omega)]
    exact hsplit.high k hk (by omega)

theorem quickSortRects_perm (rects : List Box) : (quickSortRects rects).Perm rects := by
  fun_induction quickSortRects rects with
  | case1 => exact .refl _
  | case2 a => exact .refl _
  | case3 a b h => exact .swap ..
  | case4 a b h => exact .refl _
  | case5 a b c rest part ih₁ ih₂ =>
    have hne : a :: b :: c :: rest ≠ [] := by simp
    have hlt := partitioned_lt _ hne
    rw [← partitioned_length] at hlt
    obtain ⟨hperm, _, _⟩ := partitioned_spec hne
    refine (ih₁.append (.cons _ ih₂)).trans (.trans (.of_eq ?_) hperm)
    rw [boxAt_eq hlt, getElem_cons_drop, take_append_drop]

theorem quickSortRects_sorted (rects : List Box) : (quickSortRects rects).Pairwise Sorts := by
  fun_induction quickSortRects rects with
  | case1 => exact .nil
  | case2 a => exact pairwise_singleton ..
  | case3 a b h => exact pairwise_pair.mpr (sorts_of_precedes h)
  | case4 a b h => exact pairwise_pair.mpr (Bool.eq_false_of_not_eq_true h)
  | case5 a b c rest part ih₁ ih₂ =>
    have hne : a :: b :: c :: rest ≠ [] := by simp
    have hlt := partitioned_lt _ hne
    have hlen := partitioned_length (a :: b :: c :: rest)
    obtain ⟨_, hlow, hhigh⟩ := partitioned_spec hne
    rw [show partitioned (a :: b :: c :: rest) = part from rfl] at hlt hlen hlow hhigh
    have hbefore : ∀ x ∈ quickSortRects (part.1.take part.2), Sorts x (boxAt part.1 part.2) := by
      intro x hx
      obtain ⟨k, hk, rfl⟩ := mem_iff_getElem.mp ((quickSortRects_perm _).mem_iff.mp hx)
      have hk' := hk
      rw [length_take] at hk'
      rw [getElem_take, ← boxAt_eq]
      exact hlow k (by omega)
    have hbehind : ∀ x ∈ quickSortRects (part.1.drop (part.2 + 1)),
        Sorts (boxAt part.1 part.2) x := by
      intro x hx
      obtain ⟨k, hk, rfl⟩ := mem_iff_getElem.mp ((quickSortRects_perm _).mem_iff.mp hx)
      have hk' := hk
      rw [length_drop] at hk'
      rw [getElem_drop, ← boxAt_eq]
      exact hhigh _ (by omega) (by omega)
    refine pairwise_append.mpr ⟨ih₁, pairwise_cons.mpr ⟨hbehind, ih₂⟩, ?_⟩
    intro x hx y hy
    rcases mem_cons.mp hy with rfl | hy
    · exact hbefore x hx
    · exact (hbefore x hx).trans (hbehind y hy)

end Xfront.Region
