import Xfront.Colormap.Model
import Xfront.Lib.Submasks

/-!
# Words of a colormap

The macros of dix/colormap.c on words: `lowbit`, `GetNextBitsOrBreak`, and the count of ones.
-/

namespace Xfront.Colormap
open Submasks Nat

theorem word_of_lt {x : Nat} (h : x < 2 ^ 32) : word x = x := mod_eq_of_lt h

theorem and_add_and_complement (w : Nat) : ∀ x m, x < 2 ^ w → m < 2 ^ w →
    (x &&& m) + (x &&& (2 ^ w - 1 - m)) = x := by
  induction w with
  | zero =>
    intro x m hx _
    have hzero : x = 0 := by omega
    rw [hzero, zero_and, zero_and]
  | succ w ih =>
    intro x m hx hm
    have hdiv : (2 ^ (w + 1) - 1 - m) / 2 = 2 ^ w - 1 - m / 2 := by omega
    have hmod : (2 ^ (w + 1) - 1 - m) % 2 = 1 - m % 2 := by omega
    have hrest := ih (x / 2) (m / 2) (by omega) (by omega)
    rw [and_split x m, and_split x (2 ^ (w + 1) - 1 - m), hdiv, hmod]
    have hx2 : x % 2 = 0 ∨ x % 2 = 1 := by omega
    have hm2 : m % 2 = 0 ∨ m % 2 = 1 := by omega
    rcases hx2 with hx2 | hx2 <;> rcases hm2 with hm2 | hm2 <;> rw [hx2, hm2] <;> simp <;> omega

theorem and_complement {x m : Nat} (hx : x < 2 ^ 32) (hm : m < 2 ^ 32) :
    x &&& complement m = x - (x &&& m) := by
  have h := and_add_and_complement 32 x m hx hm
  rw [complement]
  omega

theorem and_neg (w : Nat) : ∀ x, 0 < x → x < 2 ^ w →
    ∃ j, x &&& (2 ^ w - x) = 2 ^ j ∧ x % 2 ^ j = 0 := by
  induction w with
  | zero =>
    intro x hpos hlt
    omega
  | succ w ih =>
    intro x hpos hlt
    rw [and_split]
    by_cases hodd : x % 2 = 1
    · -- above the lowest bit stands a complement
      have hdiv : (2 ^ (w + 1) - x) / 2 = 2 ^ w - 1 - x / 2 := by omega
      have hmod : (2 ^ (w + 1) - x) % 2 = 1 := by omega
      have hself := and_add_and_complement w (x / 2) (x / 2) (by omega) (by omega)
      rw [Nat.and_self] at hself
      refine ⟨0, ?_, mod_one x⟩
      rw [hdiv, hmod, hodd, Nat.and_self]
      omega
    · obtain ⟨j, hj, hdvd⟩ := ih (x / 2) (by omega) (by omega)
      have hdiv : (2 ^ (w + 1) - x) / 2 = 2 ^ w - x / 2 := by omega
      have hzero : x % 2 = 0 := by omega
      refine ⟨j + 1, ?_, ?_⟩
      · rw [hdiv, hj, hzero, zero_and, Nat.pow_succ']
        rfl
      · have hx : x = 2 * (x / 2) := by omega
        rw [hx, Nat.pow_succ', mul_mod_mul_left, hdvd]

theorem lowbit_spec {x : Nat} (hpos : 0 < x) (hx : x < 2 ^ 32) :
    ∃ j, lowbit x = 2 ^ j ∧ x % 2 ^ j = 0 := by
  have hword : word (complement x + 1) = 2 ^ 32 - x := by
    rw [complement, word_of_lt (by omega)]
    omega
  rw [lowbit, hword]
  exact and_neg 32 x hpos hx

theorem le_settle (m fuel x : Nat) : x ≤ settle m fuel x := by
  induction fuel generalizing x with
  | zero => exact le_refl x
  | succ fuel ih =>
    rw [settle]
    split
    · exact le_refl x
    · exact le_trans (Nat.le_add_right x _) (ih _)

theorem settleBits_eq {m : Nat} (hm : m < 2 ^ 32) (fuel : Nat) : ∀ x,
    settle m fuel x < 2 ^ 32 → settleBits m fuel x = settle m fuel x := by
  induction fuel with
  | zero => exact fun _ _ => rfl
  | succ fuel ih =>
    intro x hlt
    have hx : x < 2 ^ 32 := lt_of_le_of_lt (le_settle m (fuel + 1) x) hlt
    rw [settleBits, settle]
    rw [settle] at hlt
    simp only [and_complement hx hm]
    by_cases hzero : x - (x &&& m) = 0
    · rw [if_pos hzero, if_neg (not_not_intro hzero)]
    · rw [if_neg hzero] at hlt ⊢
      rw [if_pos hzero]
      have hsum := lt_of_le_of_lt (le_settle m fuel _) hlt
      rw [word_of_lt hsum]
      exact ih _ hlt

theorem getNextBits_isNext {mask s : Nat} (hmask : mask < 2 ^ 32) (hs : Sub s mask)
    (hne : s ≠ mask) : IsNext mask s (getNextBits s mask (lowbit mask)) := by
  have hle := hs.le
  obtain ⟨j, hlow, hdvd⟩ := lowbit_spec (x := mask) (by omega) hmask
  have hnext := settle_isNext 32 32 mask s j (le_refl 32) hmask hdvd hs hne
  have hlt : settle mask 32 (s + 2 ^ j) < 2 ^ 32 := lt_of_le_of_lt hnext.sub.le hmask
  have hsum := lt_of_le_of_lt (le_settle mask 32 (s + 2 ^ j)) hlt
  rw [getNextBits, hlow, word_of_lt hsum, settleBits_eq hmask 32 _ hlt]
  exact hnext

def digits (v : Nat) : Nat → Nat
  | 0 => 0
  | n + 1 => v + 8 * digits v n

def digitOnes (d : Nat) : Nat := d - d / 2 - d / 4

def onesOfDigits : Nat → Nat → Nat
  | 0, _ => 0
  | n + 1, m => digitOnes (m % 8) + 8 * onesOfDigits n (m / 8)

/-- A digit of three ones at every second place, below `top`. -/
def pairs (top : Nat) : Nat → Nat
  | 0 => top
  | n + 1 => 7 + 64 * pairs top n

theorem and_digit (x m : Nat) : x &&& m = (x % 8 &&& m % 8) + 8 * (x / 8 &&& m / 8) := by
  have hdiv : (x &&& m) / 8 = x / 8 &&& m / 8 := and_div_two_pow (n := 3)
  have hmod : (x &&& m) % 8 = x % 8 &&& m % 8 := and_mod_two_pow (n := 3)
  rw [← hdiv, ← hmod, mod_add_div]

theorem and_pair (x m : Nat) : x &&& m = (x % 64 &&& m % 64) + 64 * (x / 64 &&& m / 64) := by
  have hdiv : (x &&& m) / 64 = x / 64 &&& m / 64 := and_div_two_pow (n := 6)
  have hmod : (x &&& m) % 64 = x % 64 &&& m % 64 := and_mod_two_pow (n := 6)
  rw [← hdiv, ← hmod, mod_add_div]

theorem and_three (x : Nat) : x &&& 3 = x % 4 := and_two_pow_sub_one_eq_mod x 2

theorem and_seven (x : Nat) : x &&& 7 = x % 8 := and_two_pow_sub_one_eq_mod x 3

theorem halves_succ (n m : Nat) : (m / 2) &&& digits 3 (n + 1) =
    m % 8 / 2 + 8 * (m / 8 / 2 &&& digits 3 n) := by
  have hmod : digits 3 (n + 1) % 8 = 3 := by
    rw [digits]
    omega
  have hdiv : digits 3 (n + 1) / 8 = digits 3 n := by
    rw [digits]
    omega
  have hswap : m / 2 / 8 = m / 8 / 2 := by omega
  rw [and_digit, hmod, hdiv, and_three, hswap]
  omega

theorem onesOfDigits_eq (n : Nat) : ∀ m, m < 8 ^ n →
    m - (m / 2 &&& digits 3 n) - ((m / 2 &&& digits 3 n) / 2 &&& digits 3 n) = onesOfDigits n m ∧
      (m / 2 &&& digits 3 n) + ((m / 2 &&& digits 3 n) / 2 &&& digits 3 n) ≤ m := by
  induction n with
  | zero =>
    intro m hm
    have hzero : m = 0 := by omega
    subst hzero
    exact ⟨rfl, le_refl 0⟩
  | succ n ih =>
    intro m hm
    obtain ⟨heq, hle⟩ := ih (m / 8) (by rw [pow_succ] at hm; omega)
    have hfirst := halves_succ n m
    have hsecond := halves_succ n (m / 2 &&& digits 3 (n + 1))
    rw [hfirst] at hsecond
    have hdiv : (m % 8 / 2 + 8 * (m / 8 / 2 &&& digits 3 n)) / 8 =
        m / 8 / 2 &&& digits 3 n := by omega
    have hmod : (m % 8 / 2 + 8 * (m / 8 / 2 &&& digits 3 n)) % 8 = m % 8 / 2 := by omega
    rw [hdiv, hmod] at hsecond
    rw [hfirst, hsecond, onesOfDigits, ← heq, digitOnes]
    omega

theorem digitOnes_le {d : Nat} (h : d < 8) : digitOnes d ≤ 3 := by
  rw [digitOnes]
  omega

theorem onesOfDigits_mod (n m : Nat) : onesOfDigits n m % 8 ≤ 3 := by
  cases n with
  | zero => exact zero_le 3
  | succ n =>
    rw [onesOfDigits]
    have hle := digitOnes_le (mod_lt m (by decide : 0 < 8))
    omega

theorem onesOfDigits_bound (n : Nat) : ∀ m, m < 4 * 8 ^ n →
    7 * onesOfDigits (n + 1) m + 3 ≤ 17 * 8 ^ n := by
  induction n with
  | zero =>
    intro m hm
    rw [onesOfDigits, onesOfDigits, digitOnes]
    omega
  | succ n ih =>
    intro m hm
    have hrest := ih (m / 8) (by rw [pow_succ] at hm; omega)
    have hle := digitOnes_le (mod_lt m (by decide : 0 < 8))
    rw [onesOfDigits, pow_succ]
    omega

theorem ones_digit (w m : Nat) : ones (w + 3) m = digitOnes (m % 8) + ones w (m / 8) := by
  have hdigit : ∀ d < 8, d % 2 + d / 2 % 2 + d / 4 % 2 = digitOnes d := by decide
  have hlow := hdigit (m % 8) (mod_lt m (by decide))
  have hbits : m % 8 % 2 = m % 2 ∧ m % 8 / 2 % 2 = m / 2 % 2 ∧ m % 8 / 4 % 2 = m / 4 % 2 := by
    omega
  rw [hbits.1, hbits.2.1, hbits.2.2] at hlow
  rw [← hlow, ones, ones, ones, Nat.div_div_eq_div_mul, Nat.div_div_eq_div_mul, add_assoc,
    add_assoc]

theorem sum_pairs (n : Nat) : ∀ m, m < 4 * 64 ^ n →
    ((onesOfDigits (2 * n + 1) m + onesOfDigits (2 * n + 1) m / 8) &&& pairs 3 n) % 63 =
      ones (6 * n + 2) m % 63 := by
  induction n with
  | zero =>
    intro m hm
    have hsmall : ∀ m < 4, ((onesOfDigits 1 m + onesOfDigits 1 m / 8) &&& 3) % 63 =
        ones 2 m % 63 := by decide
    exact hsmall m (by omega)
  | succ n ih =>
    intro m hm
    have hrest := ih (m / 64) (by rw [pow_succ] at hm; omega)
    have hnext := onesOfDigits_mod (2 * n + 1) (m / 64)
    have hlow := digitOnes_le (mod_lt m (by decide : 0 < 8))
    have hhigh := digitOnes_le (mod_lt (m / 8) (by decide : 0 < 8))
    have hsplit : onesOfDigits (2 * (n + 1) + 1) m = digitOnes (m % 8) +
        8 * (digitOnes (m / 8 % 8) + 8 * onesOfDigits (2 * n + 1) (m / 64)) := by
      have hidx : 2 * (n + 1) + 1 = 2 * n + 1 + 1 + 1 := by omega
      rw [hidx, onesOfDigits, onesOfDigits, Nat.div_div_eq_div_mul]
    have hones : ones (6 * (n + 1) + 2) m = digitOnes (m % 8) + digitOnes (m / 8 % 8) +
        ones (6 * n + 2) (m / 64) := by
      have hidx : 6 * (n + 1) + 2 = 6 * n + 2 + 3 + 3 := by omega
      rw [hidx, ones_digit, ones_digit, Nat.div_div_eq_div_mul, add_assoc]
    have hmod : pairs 3 (n + 1) % 64 = 7 := by
      rw [pairs]
      omega
    have hdiv : pairs 3 (n + 1) / 64 = pairs 3 n := by
      rw [pairs]
      omega
    generalize onesOfDigits (2 * n + 1) (m / 64) = rest at hrest hnext hsplit
    have hsum : (onesOfDigits (2 * (n + 1) + 1) m + onesOfDigits (2 * (n + 1) + 1) m / 8) / 64 =
        rest + rest / 8 := by
      rw [hsplit]
      omega
    have hpair : (onesOfDigits (2 * (n + 1) + 1) m + onesOfDigits (2 * (n + 1) + 1) m / 8) % 64 % 8 =
        digitOnes (m % 8) + digitOnes (m / 8 % 8) := by
      rw [hsplit]
      omega
    rw [and_pair, hmod, hdiv, and_seven, hsum, hpair, hones]
    omega

theorem ones_le (w m : Nat) : ones w m ≤ w := by
  induction w generalizing m with
  | zero => exact le_refl 0
  | succ w ih =>
    have hrest := ih (m / 2)
    rw [ones]
    omega

theorem countBits_eq {mask : Nat} (h : mask < 2 ^ 32) : countBits mask = ones 32 mask := by
  have hfirst := (onesOfDigits_eq 11 mask (lt_trans h (by decide))).1
  have hbound : 7 * onesOfDigits 11 mask + 3 ≤ 17 * 8 ^ 10 :=
    onesOfDigits_bound 10 mask (lt_of_lt_of_le h (by decide))
  have hsum : ((onesOfDigits 11 mask + onesOfDigits 11 mask / 8) &&& pairs 3 5) % 63 =
      ones 32 mask % 63 := sum_pairs 5 mask (lt_of_lt_of_le h (by decide))
  have hones := ones_le 32 mask
  have hdigits : digits 3 11 = 0o33333333333 := by decide
  have hpairs : pairs 3 5 = 0o30707070707 := by decide
  rw [hdigits] at hfirst
  rw [hpairs] at hsum
  have hshift : ∀ x : Nat, x >>> 1 = x / 2 ∧ x >>> 3 = x / 8 := fun x =>
    ⟨shiftRight_eq_div_pow x 1, shiftRight_eq_div_pow x 3⟩
  unfold countBits
  dsimp only
  rw [(hshift mask).1, (hshift (mask / 2 &&& 0o33333333333)).1, hfirst,
    (hshift (onesOfDigits 11 mask)).2, word_of_lt (by omega), hsum]
  exact mod_eq_of_lt (by omega)

end Xfront.Colormap
