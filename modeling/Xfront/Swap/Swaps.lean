import Xfront.Swap.Swappers

/-!
# The fields that are swapped

Each loop flips a list of fields that depends on the event only: what it reads on the way has
not been flipped yet.
-/

namespace Xfront.Swap

open List
open Bytes (Byte digit)
open Wire

def wordFields (off n : Nat) : List Member := (range n).map fun k => ⟨off + 4 * k, 4⟩

@[simp] theorem wordFields_zero (off : Nat) : wordFields off 0 = [] := rfl

theorem wordFields_succ (off n : Nat) :
    wordFields off (n + 1) = ⟨off, 4⟩ :: wordFields (off + 4) n := by
  simp only [wordFields, range_succ_eq_map, map_cons, map_map, mul_zero,
    add_zero, cons.injEq, true_and]
  apply map_congr_left
  intro k _
  simp only [Function.comp_apply, Member.mk.injEq, and_true]
  omega

theorem wordFields_add (off a b : Nat) :
    wordFields off (a + b) = wordFields off a ++ wordFields (off + 4 * a) b := by
  induction a generalizing off with
  | zero => simp
  | succ a ih =>
    have hfirst : a + 1 + b = a + b + 1 := by omega
    have hoff : off + 4 + 4 * a = off + 4 * (a + 1) := by omega
    rw [hfirst, wordFields_succ, ih, wordFields_succ, cons_append, hoff]

theorem mem_wordFields {off n : Nat} {f : Member} (h : f ∈ wordFields off n) :
    off ≤ f.off ∧ f.off + f.width ≤ off + 4 * n ∧ f.width = 4 := by
  obtain ⟨k, hk, rfl⟩ := mem_map.mp h
  rw [mem_range] at hk
  exact ⟨by simp only; omega, by simp only; omega, rfl⟩

theorem fields_wordItems (off : Nat) (ws : List Nat) :
    fields off (wordItems ws) = wordFields off ws.length := by
  induction ws generalizing off with
  | nil => rfl
  | cons w ws ih =>
    rw [length_cons, wordFields_succ, ← ih]
    rfl

theorem fields_byteItems (off : Nat) (bs : List Byte) : fields off (byteItems bs) = [] := by
  induction bs generalizing off with
  | nil => rfl
  | cons b bs ih => exact ih (off + 1)

@[simp] theorem size_wordItems (ws : List Nat) : size (wordItems ws) = 4 * ws.length := by
  induction ws with
  | nil => rfl
  | cons w ws ih =>
    rw [wordItems, map_cons, size_cons, ← wordItems, ih, length_cons]
    simp only [Item.width]
    omega

@[simp] theorem size_byteItems (bs : List Byte) : size (byteItems bs) = bs.length := by
  induction bs with
  | nil => rfl
  | cons b bs ih =>
    rw [byteItems, map_cons, size_cons, ← byteItems, ih, length_cons]
    simp only [Item.width]
    omega

theorem fpWords_length (values : List FP3232) : (fpWords values).length = 2 * values.length := by
  induction values with
  | nil => rfl
  | cons v values ih =>
    rw [fpWords, flatMap_cons, length_append, ← fpWords, ih, length_cons,
      length_cons, length_cons, length_nil]
    omega

theorem digit_val (b : Byte) : digit b.val 0 = b := by
  have hb := b.isLt
  simp only [digit, Fin.ext_iff, pow_zero, Nat.div_one]
  omega

variable {be : Bool} {m : Memory}

theorem holds_byteItems {off : Nat} {bs : List Byte}
    (h : Wire.Holds be m off (byteItems bs)) {j : Nat} (hj : j < bs.length) :
    m (off + j) = bs.getD j 0 := by
  induction bs generalizing off j with
  | nil => simp at hj
  | cons b bs ih =>
    cases j with
    | zero => exact h.1.trans (digit_val b)
    | succ j =>
      rw [length_cons] at hj
      have hrest := ih h.2 (j := j) (by omega)
      rw [getD_cons_succ, ← hrest]
      congr 1
      simp only [Item.width]
      omega

open Output

theorem swapWords_eq (be : Bool) (n ptr : Nat) (dst : Output) :
    swapWords be n ptr dst = dst.flipped (wordFields ptr n) := by
  induction n generalizing ptr dst with
  | zero => exact (flipped_nil dst).symm
  | succ n ih =>
    rw [swapWords, ih, swapl_eq, flipped_flipped, singleton_append, wordFields_succ]

theorem bitIsOn_congr {m' : Memory} {ptr i : Nat} (h : m' (ptr + i / 8) = m (ptr + i / 8)) :
    bitIsOn m' ptr i = bitIsOn m ptr i := by
  rw [bitIsOn, bitIsOn, h]

theorem swapValues_eq (be : Bool) (words mask : Nat) (n i ptr : Nat) (dst : Output)
    (hmask : ∀ j < i + n, mask + j / 8 < ptr) : swapValues be words mask n i ptr dst =
      dst.flipped (wordFields ptr (words * (range' i n).countP (bitIsOn dst.mem mask))) := by
  induction n generalizing i ptr dst with
  | zero => exact (flipped_nil dst).symm
  | succ n ih =>
    rw [swapValues, range'_succ, countP_cons]
    by_cases hbit : bitIsOn dst.mem mask i = true
    · rw [if_pos hbit, if_pos hbit, swapWords_eq,
        ih _ _ _ fun j hj => Nat.lt_add_right _ (hmask j (by omega)), flipped_flipped]
      have hcount : (range' (i + 1) n).countP
          (bitIsOn (dst.flipped (wordFields ptr words)).mem mask) =
          (range' (i + 1) n).countP (bitIsOn dst.mem mask) := by
        refine countP_congr fun j hj => ?_
        rw [mem_range'_1] at hj
        rw [bitIsOn_congr (flipped_mem fun f hf hcov => ?_)]
        have hlow := (mem_wordFields hf).1
        have hj' := hmask j (by omega)
        have hcov' := hcov.1
        omega
      rw [hcount, mul_comm words 4, ← wordFields_add, mul_add, mul_one, add_comm]
    · rw [if_neg hbit, if_neg hbit, ih _ _ _ fun j hj => hmask j (by omega)]
      rfl

def classSwaps (any : Nat) : ClassInfo → List Member
  | .key info => wordFields (any + 8) info.keycodes.length ++ [⟨any + 6, 2⟩]
  | .button info =>
    wordFields (any + 8 + info.state.length) info.labels.length ++ [⟨any + 6, 2⟩]
  | .valuator _ =>
    [⟨any + 8, 4⟩, ⟨any + 12, 4⟩, ⟨any + 16, 4⟩, ⟨any + 20, 4⟩, ⟨any + 24, 4⟩, ⟨any + 36, 4⟩,
      ⟨any + 6, 2⟩]
  | .scroll _ => []

def anySwaps (any : Nat) : List Member := [⟨any, 2⟩, ⟨any + 2, 2⟩, ⟨any + 4, 2⟩]

def classesSwaps : Nat → List ClassInfo → List Member
  | _, [] => []
  | any, c :: cs => classSwaps any c ++ anySwaps any ++ classesSwaps (any + c.length * 4) cs

theorem ClassInfo.length_lt (c : ClassInfo) : c.length < 2 ^ 16 := by
  cases c with
  | key info | button info => exact info.length_lt
  | valuator info => exact (by decide : 11 < 2 ^ 16)
  | scroll info => exact (by decide : 6 < 2 ^ 16)

theorem ButtonInfo.state_words (info : ButtonInfo) :
    info.state.length / 4 * 4 = info.state.length := by
  rw [info.state_length, pad_to_int32]
  omega

theorem ClassInfo.size_items (c : ClassInfo) : size c.items = c.length * 4 := by
  cases c with
  | key info =>
    rw [items, size_append, size_wordItems, length]
    show 8 + 4 * info.keycodes.length = _
    omega
  | button info =>
    rw [items, size_append, size_append, size_wordItems, size_byteItems, length]
    have hstate := info.state_words
    show 8 + info.state.length + 4 * info.labels.length = _
    omega
  | valuator info => rfl
  | scroll info => rfl

variable {any : Nat} {c : ClassInfo}

theorem ClassInfo.length_eq
    (h : Wire.Holds be m any c.items) : load16 be m (any + 2) = c.length := by
  have hlt := c.length_lt
  have hmod : c.length % 2 ^ 16 = c.length := Nat.mod_eq_of_lt hlt
  rw [← hmod]
  cases c <;> exact h.2.1

theorem swapClass_eq {dst : Output} (h : Wire.Holds be dst.mem any c.items) :
    swapClass be any dst = dst.flipped (classSwaps any c) := by
  cases c with
  | key info =>
    have htype : load16 be dst.mem any = KeyClass := h.1
    have hnum : load16 be dst.mem (any + 6) = info.keycodes.length := by
      have hmem : load16 be dst.mem (any + 6) = info.keycodes.length % 2 ^ 16 := h.2.2.2.1
      have hlt := info.length_lt
      rw [hmem, Nat.mod_eq_of_lt (by omega)]
    rw [swapClass, htype, hnum, if_pos rfl, swapWords_eq, swaps_eq, flipped_flipped]
    rfl
  | button info =>
    have htype : load16 be dst.mem any = ButtonClass := h.1
    have hnum : load16 be dst.mem (any + 6) = info.labels.length := by
      have hmem : load16 be dst.mem (any + 6) = info.labels.length % 2 ^ 16 := h.2.2.2.1
      have hlt := info.length_lt
      rw [hmem, Nat.mod_eq_of_lt (by omega)]
    rw [swapClass, htype, hnum, if_neg (by decide), if_pos rfl]
    simp only
    rw [swapWords_eq, swaps_eq, flipped_flipped, classSwaps, info.state_length]
  | valuator info =>
    have htype : load16 be dst.mem any = ValuatorClass := h.1
    rw [swapClass, htype, if_neg (by decide), if_neg (by decide), if_pos rfl]
    exact swapFields_eq _ _ (by simp)
  | scroll info =>
    have htype : load16 be dst.mem any = XIScrollClass := h.1
    rw [swapClass, htype, if_neg (by decide), if_neg (by decide), if_neg (by decide)]
    exact (flipped_nil dst).symm

theorem classSwaps_bounds {f : Member} (h : f ∈ classSwaps any c ++ anySwaps any) :
    any ≤ f.off ∧ f.off + f.width ≤ any + c.length * 4 := by
  rcases mem_append.mp h with h | h
  · cases c with
    | key info =>
      rw [classSwaps] at h
      simp only [ClassInfo.length]
      rcases mem_append.mp h with h | h
      · obtain ⟨h1, h2, -⟩ := mem_wordFields h
        omega
      · obtain rfl := mem_singleton.mp h
        simp only
        omega
    | button info =>
      rw [classSwaps] at h
      have hstate := info.state_words
      simp only [ClassInfo.length]
      rcases mem_append.mp h with h | h
      · obtain ⟨h1, h2, -⟩ := mem_wordFields h
        omega
      · obtain rfl := mem_singleton.mp h
        simp only
        omega
    | valuator info =>
      simp only [classSwaps, mem_cons, not_mem_nil, or_false] at h
      simp only [ClassInfo.length]
      rcases h with rfl | rfl | rfl | rfl | rfl | rfl | rfl <;> simp only <;> omega
    | scroll info => cases h
  · have hlength : 2 ≤ c.length := by
      cases c with
      | key info | button info | valuator info | scroll info => simp only [ClassInfo.length]; omega
    simp only [anySwaps, mem_cons, not_mem_nil, or_false] at h
    rcases h with rfl | rfl | rfl <;> simp only <;> omega

theorem swapClasses_eq (cs : List ClassInfo) (any : Nat) (dst : Output)
    (h : Wire.Holds be dst.mem any (classItems cs)) :
    swapClasses be cs.length any dst = dst.flipped (classesSwaps any cs) := by
  induction cs generalizing any dst with
  | nil => exact (flipped_nil dst).symm
  | cons c cs ih =>
    rw [classItems, flatMap_cons, holds_append, c.size_items] at h
    have hany : ∀ f ∈ anySwaps any, f.width = 2 ∨ f.width = 4 := by simp [anySwaps]
    have hswaps : (swapClass be any dst).swapFields be (anySwaps any) =
        dst.flipped (classSwaps any c ++ anySwaps any) := by
      rw [swapClass_eq h.1, swapFields_eq _ _ hany, flipped_flipped]
    have hrest : Wire.Holds be (dst.flipped (classSwaps any c ++ anySwaps any)).mem
        (any + c.length * 4) (classItems cs) := by
      refine h.2.congr fun i hi _ => flipped_mem fun f hf hcov => ?_
      have hb := classSwaps_bounds hf
      have hc := hcov.2
      omega
    have hloop := ih _ _ hrest
    rw [length_cons, swapClasses, ClassInfo.length_eq h.1]
    exact (congrArg (swapClasses be cs.length (any + c.length * 4)) hswaps).trans
      (hloop.trans (flipped_flipped _ _ _))

def infosSwaps : Nat → Nat → List Member
  | 0, _ => []
  | n + 1, info => ⟨info, 2⟩ :: ⟨info + 2, 2⟩ :: infosSwaps n (info + 12)

theorem swapInfos_eq (be : Bool) (n info : Nat) (dst : Output) :
    swapInfos be n info dst = dst.flipped (infosSwaps n info) := by
  induction n generalizing info dst with
  | zero => exact (flipped_nil dst).symm
  | succ n ih =>
    rw [swapInfos, ih, swapFields_eq _ _ (by simp), flipped_flipped]
    rfl

end Xfront.Swap
