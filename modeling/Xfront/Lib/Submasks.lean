import Mathlib

/-!
# Subsets of a bit mask

The numbers whose bits lie in a mask, how many there are, and the step from one of them to the
next: a carry that is pushed on through the bits outside the mask.
-/

namespace Xfront.Submasks
open Nat Bool

open List

def Sub (s m : Nat) : Prop := s &&& m = s

instance (s m : Nat) : Decidable (Sub s m) := inferInstanceAs (Decidable (_ = _))

def ones : Nat → Nat → Nat
  | 0, _ => 0
  | w + 1, m => m % 2 + ones w (m / 2)

theorem and_split (a b : Nat) : a &&& b = 2 * (a / 2 &&& b / 2) + (a % 2 &&& b % 2) := by
  have hdiv : (a &&& b) / 2 = a / 2 &&& b / 2 := and_div_two_pow (n := 1)
  have hmod : (a &&& b) % 2 = a % 2 &&& b % 2 := and_mod_two_pow (n := 1)
  rw [← hdiv, ← hmod, div_add_mod]

theorem or_split (a b : Nat) : a ||| b = 2 * (a / 2 ||| b / 2) + (a % 2 ||| b % 2) := by
  have hdiv : (a ||| b) / 2 = a / 2 ||| b / 2 := or_div_two_pow (n := 1)
  have hmod : (a ||| b) % 2 = a % 2 ||| b % 2 := or_mod_two_pow (n := 1)
  rw [← hdiv, ← hmod, div_add_mod]

variable {x y : Nat}

theorem and_bit (hx : x < 2) (hy : y < 2) (a b : Nat) :
    (2 * a + x) &&& (2 * b + y) = 2 * (a &&& b) + (x &&& y) := by
  rw [and_split]
  have h : ∀ c z, z < 2 → (2 * c + z) / 2 = c ∧ (2 * c + z) % 2 = z := by omega
  rw [(h a x hx).1, (h b y hy).1, (h a x hx).2, (h b y hy).2]

theorem and_even (hy : y < 2) (a b : Nat) : 2 * a &&& (2 * b + y) = 2 * (a &&& b) := by
  have h := and_bit zero_lt_two hy a b
  rw [zero_and] at h
  exact h

theorem sub_iff (s m : Nat) : Sub s m ↔ Sub (s / 2) (m / 2) ∧ s % 2 ≤ m % 2 := by
  unfold Sub
  rw [and_split]
  have hs : s % 2 = 0 ∨ s % 2 = 1 := by omega
  have hm : m % 2 = 0 ∨ m % 2 = 1 := by omega
  rcases hs with hs | hs <;> rcases hm with hm | hm <;> rw [hs, hm] <;> simp <;> omega

variable {s m : Nat}

theorem Sub.le (h : Sub s m) : s ≤ m := by
  rw [Sub] at h
  rw [← h]
  exact and_le_right

theorem sub_zero (m : Nat) : Sub 0 m := zero_and m

theorem sub_self (m : Nat) : Sub m m := Nat.and_self m

variable {a : Nat}

theorem or_eq_add (h : a &&& s = 0) : a ||| s = a + s := by
  induction a using Nat.strong_induction_on generalizing s with
  | _ a ih =>
    by_cases ha : a = 0
    · rw [ha, zero_or, zero_add]
    have hlt : a / 2 < a := by omega
    rw [and_split] at h
    have hhigh : a / 2 &&& s / 2 = 0 := by omega
    have hlow : a % 2 &&& s % 2 = 0 := by omega
    rw [or_split, ih (a / 2) hlt hhigh]
    have hx : a % 2 = 0 ∨ a % 2 = 1 := by omega
    have hy : s % 2 = 0 ∨ s % 2 = 1 := by omega
    rcases hx with hx | hx <;> rcases hy with hy | hy <;> rw [hx, hy] at hlow ⊢
    · simp
      omega
    · simp
      omega
    · simp
      omega
    · cases hlow

theorem and_of_disjoint (ha : a &&& m = 0) (hs : Sub s m) : a &&& s = 0 := by
  rw [Sub] at hs
  rw [← hs, Nat.and_comm s, ← Nat.and_assoc, ha, zero_and]

variable {c : Nat}

theorem sub_or {o : Nat} (hunion : c ||| o = m) (hs : Sub s m) : (s &&& c) ||| (s &&& o) = s := by
  rw [Sub] at hs
  rw [← Nat.and_or_distrib_left, hunion, hs]

theorem sub_left (c o : Nat) : Sub c (c ||| o) := by
  refine Nat.eq_of_testBit_eq fun i => ?_
  rw [Nat.testBit_and, Nat.testBit_or, Bool.and_or_distrib_left, Bool.and_self]
  cases c.testBit i <;> rfl

variable {b : Nat}

theorem Sub.trans (hab : Sub a b) (hbc : Sub b c) : Sub a c := by
  rw [Sub] at hab hbc ⊢
  rw [← hab, Nat.and_assoc, hbc]

theorem sub_and (s m : Nat) : Sub (s &&& m) m := by
  rw [Sub, Nat.and_assoc, Nat.and_self]

theorem and_eq_zero_of_sub {o : Nat} (ha : Sub a c) (h : c &&& o = 0) : a &&& o = 0 := by
  rw [Sub] at ha
  rw [← ha, Nat.and_assoc, h, and_zero]

theorem or_inj {t : Nat} (ha : a &&& m = 0) (hb : b &&& m = 0) (hs : Sub s m)
    (ht : Sub t m) (h : a ||| s = b ||| t) : a = b ∧ s = t := by
  have hst : s = t := by
    have hand := congrArg (· &&& m) h
    simp only [Nat.and_or_distrib_right, ha, hb, Nat.zero_or] at hand
    rw [Sub] at hs ht
    rw [hs, ht] at hand
    exact hand
  subst hst
  rw [or_eq_add (and_of_disjoint ha hs), or_eq_add (and_of_disjoint hb hs)] at h
  exact ⟨Nat.add_right_cancel h, rfl⟩

structure IsNext (m s t : Nat) : Prop where
  sub : Sub t m
  lt : s < t
  least : ∀ u, Sub u m → s < u → t ≤ u

def settle (m : Nat) : Nat → Nat → Nat
  | 0, x => x
  | fuel + 1, x => if x - (x &&& m) = 0 then x else settle m fuel (x + (x - (x &&& m)))

theorem settle_of_sub (h : Sub x m) (fuel : Nat) : settle m fuel x = x := by
  cases fuel with
  | zero => rfl
  | succ fuel =>
    rw [Sub] at h
    rw [settle, if_pos (by rw [h, Nat.sub_self])]

theorem settle_even (hy : y < 2) (m : Nat) : ∀ fuel x,
    settle (2 * m + y) fuel (2 * x) = 2 * settle m fuel x := by
  intro fuel
  induction fuel with
  | zero => exact fun _ => rfl
  | succ fuel ih =>
    intro x
    have hout : 2 * x - (2 * x &&& (2 * m + y)) = 2 * (x - (x &&& m)) := by
      rw [and_even hy, Nat.mul_sub]
    rw [settle, settle, hout]
    by_cases hzero : x - (x &&& m) = 0
    · rw [if_pos hzero, if_pos (by omega)]
    · rw [if_neg hzero, if_neg (by omega), ← mul_add]
      exact ih _

theorem IsNext.double {t : Nat} (h : IsNext (m / 2) (s / 2) t)
    (hlow : m % 2 = 0 ∧ s % 2 = 0 ∨ s % 2 = 1) : IsNext m s (2 * t) := by
  have hlt := h.lt
  refine ⟨(sub_iff _ _).mpr ⟨?_, by omega⟩, by omega, fun u hu hsu => ?_⟩
  · rw [Nat.mul_div_cancel_left _ zero_lt_two]
    exact h.sub
  · obtain ⟨hu', hbit⟩ := (sub_iff u m).mp hu
    have hleast := h.least (u / 2) hu' (by omega)
    omega

theorem settle_double (fuel : Nat) (hx : x % 2 = 0) :
    settle m fuel x = 2 * settle (m / 2) fuel (x / 2) := by
  have hm : m = 2 * (m / 2) + m % 2 := by omega
  have hx2 : x = 2 * (x / 2) := by omega
  have h := settle_even (mod_lt m zero_lt_two) (m / 2) fuel (x / 2)
  rw [← hm, ← hx2] at h
  exact h

theorem settle_isNext (w : Nat) : ∀ fuel m s j, w ≤ fuel → m < 2 ^ w → m % 2 ^ j = 0 → Sub s m →
    s ≠ m → IsNext m s (settle m fuel (s + 2 ^ j)) := by
  induction w with
  | zero =>
    intro fuel m s j _ hm _ hs hne
    have hle := hs.le
    omega
  | succ w ih =>
    intro fuel m s j hfuel hm hj hs hne
    obtain ⟨hs', hbit⟩ := (sub_iff s m).mp hs
    have hm' : m / 2 < 2 ^ w := by omega
    cases j with
    | succ j =>
      rw [Nat.pow_succ'] at hj
      have hdvd : 2 * 2 ^ j ∣ m := dvd_of_mod_eq_zero hj
      obtain ⟨k, hk⟩ := hdvd
      have heven : m = 2 * (2 ^ j * k) := by rw [hk, mul_assoc]
      have hj' : m / 2 % 2 ^ j = 0 := by
        rw [heven, Nat.mul_div_cancel_left _ zero_lt_two, mul_mod_right]
      have hnext := ih fuel (m / 2) (s / 2) j (by omega) hm' hj' hs' (by omega)
      have hsum : (s + 2 ^ (j + 1)) / 2 = s / 2 + 2 ^ j := by
        rw [Nat.pow_succ']
        omega
      rw [settle_double fuel (by rw [Nat.pow_succ']; omega), hsum]
      exact hnext.double (by omega)
    | zero =>
      have hone : m / 2 % 2 ^ 0 = 0 := by rw [pow_zero, mod_one]
      by_cases hodd : s % 2 = 1
      · have hnext := ih fuel (m / 2) (s / 2) 0 (by omega) hm' hone hs' (by omega)
        have hsum : (s + 2 ^ 0) / 2 = s / 2 + 2 ^ 0 := by
          rw [pow_zero]
          omega
        rw [settle_double fuel (by rw [pow_zero]; omega), hsum]
        exact hnext.double (.inr hodd)
      by_cases hmodd : m % 2 = 1
      · -- the lowest bit of the mask is free
        have hdiv : (s + 2 ^ 0) / 2 = s / 2 := by
          rw [pow_zero]
          omega
        have hsub : Sub (s + 2 ^ 0) m := (sub_iff _ _).mpr ⟨by rw [hdiv]; exact hs', by omega⟩
        rw [settle_of_sub hsub]
        exact ⟨hsub, by omega, fun u _ hu => by omega⟩
      · -- the lowest bit is outside the mask, and the carry goes on from it
        obtain ⟨fuel, rfl⟩ : ∃ f, fuel = f + 1 := ⟨fuel - 1, by omega⟩
        have hnext := ih fuel (m / 2) (s / 2) 0 (by omega) hm' hone hs' (by omega)
        have hand : (s + 2 ^ 0) &&& m = s := by
          rw [and_split, pow_zero]
          have hdiv : (s + 1) / 2 = s / 2 := by omega
          have hmod : m % 2 = 0 := by omega
          rw [Sub] at hs'
          rw [hdiv, hmod, hs', and_zero]
          omega
        have hout : s + 2 ^ 0 - ((s + 2 ^ 0) &&& m) = 1 := by
          rw [hand, pow_zero]
          omega
        have hsum : (s + 2 ^ 0 + 1) / 2 = s / 2 + 2 ^ 0 := by
          rw [pow_zero]
          omega
        rw [settle, hout, if_neg Nat.one_ne_zero,
          settle_double fuel (by rw [pow_zero]; omega), hsum]
        exact hnext.double (by omega)

/-- The values that a loop goes through from `s` until it meets `m`. -/
def walk (next : Nat → Nat) (m : Nat) : Nat → Nat → List Nat
  | 0, _ => []
  | fuel + 1, s => s :: if s = m then [] else walk next m fuel (next s)

theorem walk_spec {next : Nat → Nat}
    (hnext : ∀ s, Sub s m → s ≠ m → IsNext m s (next s)) (fuel : Nat) : ∀ s, Sub s m →
    m - s < fuel → (∀ u, u ∈ walk next m fuel s ↔ Sub u m ∧ s ≤ u) ∧
      (walk next m fuel s).Pairwise (· < ·) := by
  induction fuel with
  | zero =>
    intro s _ h
    omega
  | succ fuel ih =>
    intro s hs hlt
    rw [walk]
    by_cases hsm : s = m
    · rw [if_pos hsm, hsm]
      refine ⟨fun u => ?_, pairwise_singleton _ _⟩
      rw [mem_singleton]
      constructor
      · rintro rfl
        exact ⟨sub_self u, le_refl u⟩
      · rintro ⟨hu, hle⟩
        exact le_antisymm hu.le hle
    · rw [if_neg hsm]
      have hstep := hnext s hs hsm
      have hle := hs.le
      have hgt := hstep.lt
      have hnle := hstep.sub.le
      obtain ⟨hmem, hsorted⟩ := ih (next s) hstep.sub (by omega)
      refine ⟨fun u => ?_, pairwise_cons.mpr ⟨fun u hu => ?_, hsorted⟩⟩
      · rw [mem_cons, hmem]
        constructor
        · rintro (rfl | ⟨hu, hle'⟩)
          · exact ⟨hs, le_refl u⟩
          · exact ⟨hu, by omega⟩
        · rintro ⟨hu, hle'⟩
          rcases eq_or_lt_of_le hle' with heq | hlt'
          · exact .inl heq.symm
          · exact .inr ⟨hu, hstep.least u hu hlt'⟩
      · have hle' := ((hmem u).mp hu).2
        omega

def subsets : Nat → Nat → List Nat
  | 0, _ => [0]
  | w + 1, m => (subsets w (m / 2)).flatMap fun s =>
      if m % 2 = 0 then [2 * s] else [2 * s, 2 * s + 1]

theorem mem_subsets (w : Nat) : ∀ m, m < 2 ^ w → ∀ s, s ∈ subsets w m ↔ Sub s m := by
  induction w with
  | zero =>
    intro m hm s
    have hzero : m = 0 := by omega
    rw [subsets, mem_singleton, hzero]
    exact ⟨fun h => h ▸ sub_zero 0, fun h => le_zero.mp h.le⟩
  | succ w ih =>
    intro m hm s
    rw [subsets, mem_flatMap, sub_iff]
    constructor
    · rintro ⟨t, ht, hs⟩
      have hsub := (ih (m / 2) (by omega) t).mp ht
      split at hs
      · rw [mem_singleton] at hs
        rw [hs, Nat.mul_div_cancel_left _ zero_lt_two]
        exact ⟨hsub, by omega⟩
      · rw [mem_cons, mem_singleton] at hs
        have hdiv : s / 2 = t := by omega
        rw [hdiv]
        exact ⟨hsub, by omega⟩
    · rintro ⟨hsub, hbit⟩
      refine ⟨s / 2, (ih (m / 2) (by omega) _).mpr hsub, ?_⟩
      split
      · rw [mem_singleton]
        omega
      · rw [mem_cons, mem_singleton]
        omega

theorem subsets_sorted (w m : Nat) : (subsets w m).Pairwise (· < ·) := by
  induction w generalizing m with
  | zero => exact pairwise_singleton _ _
  | succ w ih =>
    rw [subsets, pairwise_flatMap]
    constructor
    · intro s _
      split
      · exact pairwise_singleton _ _
      · exact pairwise_pair.mpr (lt_succ_self _)
    · refine (ih (m / 2)).imp fun {s t} hst u hu v hv => ?_
      have hu' : u = 2 * s ∨ u = 2 * s + 1 := by
        split at hu
        · exact .inl (mem_singleton.mp hu)
        · rw [mem_cons, mem_singleton] at hu
          exact hu
      have hv' : v = 2 * t ∨ v = 2 * t + 1 := by
        split at hv
        · exact .inl (mem_singleton.mp hv)
        · rw [mem_cons, mem_singleton] at hv
          exact hv
      omega

theorem length_subsets (w m : Nat) : (subsets w m).length = 2 ^ ones w m := by
  induction w generalizing m with
  | zero => rfl
  | succ w ih =>
    rw [subsets, ones, pow_add, ← ih (m / 2)]
    have hbit : m % 2 = 0 ∨ m % 2 = 1 := by omega
    rcases hbit with hbit | hbit
    · simp [hbit, length_flatMap]
    · simp [hbit, length_flatMap, mul_comm]

variable {w : Nat}

theorem length_of_sorted (hm : m < 2 ^ w) {l : List Nat} (hl : l.Pairwise (· < ·))
    (hmem : ∀ u, u ∈ l ↔ Sub u m) : l.length = 2 ^ ones w m := by
  have hperm : l.Perm (subsets w m) := by
    refine (perm_ext_iff_of_nodup (hl.imp fun h => ne_of_lt h)
      ((subsets_sorted w m).imp fun h => ne_of_lt h)).mpr fun u => ?_
    rw [hmem, mem_subsets w m hm]
  rw [hperm.length_eq, length_subsets]

theorem sub_ones {p : Nat} : Sub s (2 ^ p - 1) ↔ s < 2 ^ p := by
  rw [Sub, and_two_pow_sub_one_eq_mod]
  constructor
  · intro h
    rw [← h]
    exact mod_lt _ (Nat.two_pow_pos p)
  · exact mod_eq_of_lt

theorem sub_consecutive (p k : Nat) : ∀ s, Sub s ((2 ^ p - 1) * 2 ^ k) ↔
    ∃ j < 2 ^ p, s = j * 2 ^ k := by
  induction k with
  | zero =>
    intro s
    rw [pow_zero, mul_one, sub_ones]
    exact ⟨fun h => ⟨s, h, (mul_one s).symm⟩, fun ⟨j, hj, h⟩ => by omega⟩
  | succ k ih =>
    intro s
    have hmask : (2 ^ p - 1) * 2 ^ (k + 1) = 2 * ((2 ^ p - 1) * 2 ^ k) := by
      rw [pow_succ]
      ac_rfl
    rw [sub_iff, hmask, Nat.mul_div_cancel_left _ zero_lt_two, ih]
    have hpow : ∀ j, j * 2 ^ (k + 1) = 2 * (j * 2 ^ k) := by
      intro j
      rw [pow_succ]
      ac_rfl
    constructor
    · rintro ⟨⟨j, hj, h⟩, hbit⟩
      exact ⟨j, hj, by rw [hpow]; omega⟩
    · rintro ⟨j, hj, h⟩
      rw [hpow] at h
      exact ⟨⟨j, hj, by omega⟩, by omega⟩

theorem ones_consecutive (p k w : Nat) (h : p + k ≤ w) : ones w ((2 ^ p - 1) * 2 ^ k) = p := by
  have hpos := Nat.two_pow_pos p
  have hlt : (2 ^ p - 1) * 2 ^ k < 2 ^ w := by
    have hle : 2 ^ (p + k) ≤ 2 ^ w := Nat.pow_le_pow_right zero_lt_two h
    rw [pow_add] at hle
    refine lt_of_lt_of_le ?_ hle
    exact Nat.mul_lt_mul_of_pos_right (by omega) (Nat.two_pow_pos k)
  have hsorted : ((range (2 ^ p)).map (· * 2 ^ k)).Pairwise (· < ·) := by
    rw [pairwise_map]
    exact pairwise_lt_range.imp fun h => Nat.mul_lt_mul_of_pos_right h (Nat.two_pow_pos k)
  have hlen := length_of_sorted hlt hsorted fun u => by
    rw [mem_map, sub_consecutive]
    simp only [mem_range, eq_comm]
  rw [length_map, length_range] at hlen
  exact (Nat.pow_right_injective (le_refl 2) hlen).symm

theorem ones_top (k m : Nat) : ones (k + 1) m = ones k m + (m.testBit k).toNat := by
  induction k generalizing m with
  | zero =>
    have hbit : m % 2 = 0 ∨ m % 2 = 1 := by omega
    rcases hbit with hbit | hbit <;> simp [ones, testBit_zero, hbit]
  | succ k ih =>
    rw [ones, ih (m / 2), ones, testBit_succ, add_assoc]

variable {k : Nat}

theorem ones_mono {j : Nat} (h : j ≤ k) (m : Nat) : ones j m ≤ ones k m := by
  induction k, h using le_induction with
  | base => exact le_refl _
  | succ k _ ih =>
    rw [ones_top]
    omega

theorem ones_congr (h : ∀ i < w, a.testBit i = b.testBit i) : ones w a = ones w b := by
  induction w with
  | zero => rfl
  | succ w ih =>
    rw [ones_top, ones_top, h w (lt_succ_self w), ih fun i hi => h i (by omega)]

theorem ones_or (w : Nat) (h : a &&& b = 0) : ones w (a ||| b) = ones w a + ones w b := by
  induction w with
  | zero => rfl
  | succ w ih =>
    have hbit := congrArg (testBit · w) h
    simp only [testBit_and, zero_testBit] at hbit
    rw [ones_top, ones_top, ones_top, ih, testBit_or]
    cases ha : a.testBit w <;> cases hb : b.testBit w <;> rw [ha, hb] at hbit
    · simp
    · simp
      omega
    · simp
      omega
    · cases hbit

theorem testBit_of_ones (h : ones k m = ones w m) {i : Nat} (hki : k ≤ i)
    (hiw : i < w) : m.testBit i = false := by
  have hlow := ones_mono hki m
  have hhigh := ones_mono (succ_le_of_lt hiw) m
  rw [succ_eq_add_one, ones_top] at hhigh
  cases hbit : m.testBit i with
  | false => rfl
  | true =>
    rw [hbit, toNat_true] at hhigh
    omega

theorem ones_gap {j : Nat} (h : k ≤ j) (hgap : ∀ i, k ≤ i → i < j → m.testBit i = false) :
    ones j m = ones k m := by
  induction j, h using le_induction with
  | base => rfl
  | succ j hkj ih =>
    rw [ones_top, ih fun i hi hlt => hgap i hi (by omega), hgap j hkj (lt_succ_self j)]
    rfl

theorem ones_eq_zero (hm : m < 2 ^ w) (h : ones w m = 0) : m = 0 := by
  refine eq_of_testBit_eq fun i => ?_
  rw [zero_testBit]
  rcases lt_or_ge i w with hi | hi
  · exact testBit_of_ones (k := 0) (by rw [h, ones]) (zero_le i) hi
  · exact testBit_lt_two_pow (lt_of_lt_of_le hm (Nat.pow_le_pow_right zero_lt_two hi))

theorem ones_zero (w : Nat) : ones w 0 = 0 := by
  induction w with
  | zero => rfl
  | succ w ih => rw [ones, ih]

end Xfront.Submasks
