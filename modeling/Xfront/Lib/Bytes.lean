import Mathlib

/-!
# Bytes, words and memory blocks

A memory block is a size together with its contents. Reads and writes are
checked: an access that reaches past `size` has no result. `slice` is the
unchecked view that specifications use. Words are read and stored in either
byte order.
-/

open List

namespace Xfront.Bytes
open Nat Bool

abbrev Byte := Fin 256

instance neZero_byte : NeZero 256 := ⟨by decide⟩

def word16 (be : Bool) (b0 b1 : Byte) : Nat :=
  if be then b0.val * 256 + b1.val else b1.val * 256 + b0.val

def word32 (be : Bool) (b0 b1 b2 b3 : Byte) : Nat :=
  if be then ((b0.val * 256 + b1.val) * 256 + b2.val) * 256 + b3.val
  else ((b3.val * 256 + b2.val) * 256 + b1.val) * 256 + b0.val

/-- Byte `i` of a number, counted from the least significant one. -/
def digit (n i : Nat) : Byte := ⟨n / 256 ^ i % 256, mod_lt _ (by norm_num)⟩

def bytes16 (be : Bool) (n : Nat) : List Byte :=
  if be then [digit n 1, digit n 0] else [digit n 0, digit n 1]

def bytes32 (be : Bool) (n : Nat) : List Byte :=
  if be then [digit n 3, digit n 2, digit n 1, digit n 0]
  else [digit n 0, digit n 1, digit n 2, digit n 3]

@[simp] theorem bytes16_length (be : Bool) (n : Nat) : (bytes16 be n).length = 2 := by
  cases be <;> rfl

@[simp] theorem bytes32_length (be : Bool) (n : Nat) : (bytes32 be n).length = 4 := by
  cases be <;> rfl

theorem word16_lt (be : Bool) (b0 b1 : Byte) : word16 be b0 b1 < 2 ^ 16 := by
  have h0 := b0.isLt
  have h1 := b1.isLt
  cases be <;> simp only [word16, false_eq_true, if_true, if_false] <;> omega

def wordAt16 (be : Bool) (bs : List Byte) (off : Nat) : Nat :=
  word16 be (bs.getD off 0) (bs.getD (off + 1) 0)

def wordAt32 (be : Bool) (bs : List Byte) (off : Nat) : Nat :=
  word32 be (bs.getD off 0) (bs.getD (off + 1) 0) (bs.getD (off + 2) 0) (bs.getD (off + 3) 0)

theorem wordAt16_lt (be : Bool) (bs : List Byte) (off : Nat) : wordAt16 be bs off < 2 ^ 16 :=
  word16_lt ..

theorem wordAt16_append (be : Bool) (as bs : List Byte) :
    wordAt16 be (as ++ bs) as.length = wordAt16 be bs 0 := by
  simp [wordAt16, getElem?_append_right]

theorem wordAt32_append (be : Bool) (as bs : List Byte) :
    wordAt32 be (as ++ bs) as.length = wordAt32 be bs 0 := by
  simp [wordAt32, getElem?_append_right]

theorem wordAt16_bytes16 (be : Bool) (n : Nat) (bs : List Byte) (h : n < 2 ^ 16) :
    wordAt16 be (bytes16 be n ++ bs) 0 = n := by
  cases be <;> simp [wordAt16, bytes16, word16, digit] <;> omega

theorem wordAt32_bytes32 (be : Bool) (n : Nat) (bs : List Byte) (h : n < 2 ^ 32) :
    wordAt32 be (bytes32 be n ++ bs) 0 = n := by
  cases be <;> simp [wordAt32, bytes32, word32, digit] <;> omega

theorem getD_take {bs : List Byte} {i n : Nat} (h : i < n) :
    (bs.take n).getD i 0 = bs.getD i 0 := by
  simp [getD, getElem?_take_of_lt h]

theorem wordAt16_take {be : Bool} {bs : List Byte} {off n : Nat} (h : off + 2 ≤ n) :
    wordAt16 be (bs.take n) off = wordAt16 be bs off := by
  simp only [wordAt16]
  rw [getD_take (by omega), getD_take (by omega)]

/-- An allocated block: `size` bytes, the ones from `size` on are not part of it. -/
structure Block where
  size : Nat
  byte : Nat → Byte

namespace Block

def slice (b : Block) (off n : Nat) : List Byte := (range n).map fun i => b.byte (off + i)

def read (b : Block) (off n : Nat) : Option (List Byte) :=
  if off + n ≤ b.size then some (b.slice off n) else none

/-- The contents after the bytes from `off` on have been replaced by `data`. -/
def store (b : Block) (off : Nat) (data : List Byte) : Block :=
  { b with byte := fun i => if i < off then b.byte i else data.getD (i - off) (b.byte i) }

def write (b : Block) (off : Nat) (data : List Byte) : Option Block :=
  if off + data.length ≤ b.size then some (b.store off data) else none

def zeroed (n : Nat) : Block := ⟨n, fun _ => 0⟩

/-- A reallocated block: the common prefix survives, what lies beyond the old
size is indeterminate (`junk`). -/
def resize (b : Block) (n : Nat) (junk : Nat → Byte) : Block :=
  ⟨n, fun i => if i < b.size then b.byte i else junk i⟩

@[simp] theorem store_size (b : Block) (off : Nat) (data : List Byte) :
    (b.store off data).size = b.size := rfl

@[simp] theorem zeroed_size (n : Nat) : (zeroed n).size = n := rfl

@[simp] theorem resize_size (b : Block) (n : Nat) (junk : Nat → Byte) :
    (b.resize n junk).size = n := rfl

@[simp] theorem slice_length (b : Block) (off n : Nat) : (b.slice off n).length = n := by
  simp [slice]

@[simp] theorem slice_zero (b : Block) (off : Nat) : b.slice off 0 = [] := rfl

variable {b : Block} {off n : Nat}

theorem slice_getD {i : Nat} (h : i < n) : (b.slice off n).getD i 0 = b.byte (off + i) := by
  simp [slice, getD, h]

theorem slice_append (b : Block) (off m n : Nat) :
    b.slice off (m + n) = b.slice off m ++ b.slice (off + m) n := by
  simp only [slice, range_add, map_append, map_map]
  congr 1
  apply map_congr_left
  intro i _
  simp [add_assoc]

variable {m : Nat}

theorem slice_split (b : Block) (h : m ≤ n) :
    b.slice off n = b.slice off m ++ b.slice (off + m) (n - m) := by
  rw [← slice_append]
  congr 1
  omega

theorem slice_take (h : m ≤ n) : (b.slice off n).take m = b.slice off m := by
  rw [slice_split b h, take_left' (slice_length b off m)]

theorem slice_drop (h : m ≤ n) : (b.slice off n).drop m = b.slice (off + m) (n - m) := by
  rw [slice_split b h, drop_left' (slice_length b off m)]

theorem slice_congr {c : Block} {off' : Nat}
    (h : ∀ i < n, b.byte (off + i) = c.byte (off' + i)) : b.slice off n = c.slice off' n := by
  apply map_congr_left
  intro i hi
  exact h i (mem_range.mp hi)

theorem slice_store_self (b : Block) (off : Nat) (data : List Byte) :
    (b.store off data).slice off data.length = data := by
  apply ext_getElem
  · simp
  · intro i h1 h2
    simp [slice, store, h2]

variable {p : Nat} {data : List Byte}

theorem slice_store_before (h : p + n ≤ off) : (b.store off data).slice p n = b.slice p n := by
  apply slice_congr
  intro i hi
  simp only [store]
  rw [if_pos (by omega)]

theorem slice_store_after
    (h : off + data.length ≤ p) : (b.store off data).slice p n = b.slice p n := by
  apply slice_congr
  intro i hi
  simp only [store]
  rw [if_neg (by omega), getD_eq_default _ _ (by omega)]

theorem slice_resize {junk : Nat → Byte} (h : p + n ≤ b.size) :
    (b.resize m junk).slice p n = b.slice p n := by
  apply slice_congr
  intro i hi
  simp only [resize]
  rw [if_pos (by omega)]

theorem read_eq (h : off + n ≤ b.size) : b.read off n = some (b.slice off n) := if_pos h

theorem write_eq (h : off + data.length ≤ b.size) :
    b.write off data = some (b.store off data) := if_pos h

theorem write_size {c : Block} (h : b.write off data = some c) : c.size = b.size := by
  unfold write at h
  split_ifs at h
  cases h
  rfl

def clear (b : Block) (off n : Nat) : Block :=
  { b with byte := fun i => if off ≤ i ∧ i < off + n then 0 else b.byte i }

/-- Moves the first `n` bytes up by `d` (`memmove`). -/
def moveUp (b : Block) (d n : Nat) : Block :=
  { b with byte := fun i => if d ≤ i ∧ i < d + n then b.byte (i - d) else b.byte i }

theorem slice_clear_before (h : p + n ≤ off) : (b.clear off m).slice p n = b.slice p n := by
  apply slice_congr
  intro i hi
  simp only [clear]
  rw [if_neg (by omega)]

theorem slice_clear_after (h : off + m ≤ p) : (b.clear off m).slice p n = b.slice p n := by
  apply slice_congr
  intro i hi
  simp only [clear]
  rw [if_neg (by omega)]

theorem slice_clear_inside (h : off ≤ p) (h' : p + n ≤ off + m) :
    (b.clear off m).slice p n = replicate n 0 := by
  refine eq_replicate_iff.mpr ⟨slice_length _ _ _, fun x hx => ?_⟩
  obtain ⟨i, hi, rfl⟩ := mem_map.mp hx
  rw [mem_range] at hi
  exact if_pos (by omega)

theorem slice_zeroed (m p n : Nat) : (zeroed m).slice p n = replicate n 0 := by
  refine eq_replicate_iff.mpr ⟨slice_length _ _ _, fun x hx => ?_⟩
  obtain ⟨i, -, rfl⟩ := mem_map.mp hx
  rfl

theorem slice_moveUp {d : Nat} (h : p + n ≤ m) : (b.moveUp d m).slice (p + d) n = b.slice p n := by
  apply slice_congr
  intro i hi
  simp only [moveUp]
  rw [if_pos (by omega)]
  congr 1
  omega

def load8 (b : Block) (off : Nat) : Option Nat :=
  if off < b.size then some (b.byte off) else none

def load16 (b : Block) (be : Bool) (off : Nat) : Option Nat :=
  if off + 2 ≤ b.size then some (word16 be (b.byte off) (b.byte (off + 1))) else none

def load32 (b : Block) (be : Bool) (off : Nat) : Option Nat :=
  if off + 4 ≤ b.size then
    some (word32 be (b.byte off) (b.byte (off + 1)) (b.byte (off + 2)) (b.byte (off + 3)))
  else none

theorem load16_eq {be : Bool} (hs : p + n ≤ b.size)
    (hn : off + 2 ≤ n) : b.load16 be (p + off) = some (wordAt16 be (b.slice p n) off) := by
  simp only [load16, wordAt16]
  rw [if_pos (by omega), slice_getD (by omega), slice_getD (by omega)]
  simp only [add_assoc]

theorem load32_eq {be : Bool} (hs : p + n ≤ b.size)
    (hn : off + 4 ≤ n) : b.load32 be (p + off) = some (wordAt32 be (b.slice p n) off) := by
  simp only [load32, wordAt32]
  rw [if_pos (by omega), slice_getD (by omega), slice_getD (by omega), slice_getD (by omega),
    slice_getD (by omega)]
  simp only [add_assoc]

end Block
end Xfront.Bytes

/-!
## Byte order

A word with its bytes reversed by masks and shifts, and what that does to the word read from
and stored in memory.
-/

namespace Xfront.Bytes

def bswap16 (x : Nat) : Nat := ((x &&& 0xFF00) >>> 8) ||| ((x &&& 0x00FF) <<< 8)

def bswap32 (x : Nat) : Nat :=
  ((x &&& 0xFF000000) >>> 24) ||| ((x &&& 0x00FF0000) >>> 8) |||
    ((x &&& 0x0000FF00) <<< 8) ||| ((x &&& 0x000000FF) <<< 24)

theorem mask_eq (x k : Nat) : x &&& (255 <<< k) = (x / 2 ^ k % 256) * 2 ^ k := by
  apply Nat.eq_of_testBit_eq
  intro i
  rw [Nat.testBit_and, Nat.testBit_shiftLeft, Nat.testBit_mul_two_pow,
    show (256 : Nat) = 2 ^ 8 from rfl, Nat.testBit_mod_two_pow, Nat.testBit_div_two_pow,
    show (255 : Nat) = 2 ^ 8 - 1 from rfl, Nat.testBit_two_pow_sub_one]
  by_cases hk : k ≤ i
  · simp [hk, Bool.and_comm]
  · simp [hk]

variable {a : Nat}

theorem or_high {k : Nat} (b : Nat) (h : a < 2 ^ k) : a ||| b * 2 ^ k = a + b * 2 ^ k := by
  rw [Nat.or_comm, mul_comm b, ← Nat.two_pow_add_eq_or_of_lt h, add_comm]

theorem bswap16_eq (x : Nat) : bswap16 x = x / 256 % 256 + x % 256 * 256 := by
  have hhigh : x &&& 0xFF00 = (x / 2 ^ 8 % 256) * 2 ^ 8 := mask_eq x 8
  have hlow : x &&& 0x00FF = x % 256 := Nat.and_two_pow_sub_one_eq_mod x 8
  rw [bswap16, hhigh, hlow, Nat.shiftRight_eq_div_pow, Nat.shiftLeft_eq,
    Nat.mul_div_cancel _ (by norm_num), or_high _ (by omega)]
  norm_num

theorem bswap32_eq (x : Nat) : bswap32 x =
    x / 16777216 % 256 + x / 65536 % 256 * 256 + x / 256 % 256 * 65536 + x % 256 * 16777216 := by
  have h3 : (x &&& 0xFF000000) >>> 24 = x / 2 ^ 24 % 256 := by
    have h : x &&& 0xFF000000 = (x / 2 ^ 24 % 256) * 2 ^ 24 := mask_eq x 24
    rw [h, Nat.shiftRight_eq_div_pow, Nat.mul_div_cancel _ (by norm_num)]
  have h2 : (x &&& 0x00FF0000) >>> 8 = x / 2 ^ 16 % 256 * 2 ^ 8 := by
    have h : x &&& 0x00FF0000 = (x / 2 ^ 16 % 256) * 2 ^ 16 := mask_eq x 16
    rw [h, Nat.shiftRight_eq_div_pow]
    omega
  have h1 : (x &&& 0x0000FF00) <<< 8 = x / 2 ^ 8 % 256 * 2 ^ 16 := by
    have h : x &&& 0x0000FF00 = (x / 2 ^ 8 % 256) * 2 ^ 8 := mask_eq x 8
    rw [h, Nat.shiftLeft_eq]
    omega
  have h0 : (x &&& 0x000000FF) <<< 24 = x % 256 * 2 ^ 24 := by
    have h : x &&& 0x000000FF = x % 256 := Nat.and_two_pow_sub_one_eq_mod x 8
    rw [h, Nat.shiftLeft_eq]
  have h32 : x / 2 ^ 24 % 256 ||| x / 2 ^ 16 % 256 * 2 ^ 8 =
      x / 2 ^ 24 % 256 + x / 2 ^ 16 % 256 * 2 ^ 8 := or_high _ (by omega)
  have h321 : x / 2 ^ 24 % 256 + x / 2 ^ 16 % 256 * 2 ^ 8 ||| x / 2 ^ 8 % 256 * 2 ^ 16 =
      x / 2 ^ 24 % 256 + x / 2 ^ 16 % 256 * 2 ^ 8 + x / 2 ^ 8 % 256 * 2 ^ 16 :=
    or_high _ (by omega)
  rw [bswap32, h3, h2, h1, h0, h32, h321, or_high _ (by omega)]
  norm_num

theorem bswap16_lt (x : Nat) : bswap16 x < 2 ^ 16 := by
  rw [bswap16_eq]
  omega

theorem bswap32_lt (x : Nat) : bswap32 x < 2 ^ 32 := by
  rw [bswap32_eq]
  omega

variable {b : Nat}

theorem digits32 {c d : Nat} (ha : a < 256) (hb : b < 256) (hc : c < 256) (hd : d < 256) :
    (((a * 256 + b) * 256 + c) * 256 + d) / 16777216 % 256 = a ∧
      (((a * 256 + b) * 256 + c) * 256 + d) / 65536 % 256 = b ∧
      (((a * 256 + b) * 256 + c) * 256 + d) / 256 % 256 = c ∧
      (((a * 256 + b) * 256 + c) * 256 + d) % 256 = d := by
  refine ⟨?_, ?_, ?_, ?_⟩ <;> omega

theorem bswap16_digits (ha : a < 256) (hb : b < 256) : bswap16 (a * 256 + b) = b * 256 + a := by
  rw [bswap16_eq]
  omega

theorem bswap32_digits {c d : Nat} (ha : a < 256) (hb : b < 256) (hc : c < 256) (hd : d < 256) :
    bswap32 (((a * 256 + b) * 256 + c) * 256 + d) = ((d * 256 + c) * 256 + b) * 256 + a := by
  obtain ⟨h3, h2, h1, h0⟩ := digits32 ha hb hc hd
  rw [bswap32_eq, h3, h2, h1, h0]
  omega

theorem bswap16_bswap16 {x : Nat} (h : x < 2 ^ 16) : bswap16 (bswap16 x) = x := by
  have hx : x = x / 256 * 256 + x % 256 := by omega
  have ha : x / 256 < 256 := by omega
  have hb : x % 256 < 256 := by omega
  rw [hx, bswap16_digits ha hb, bswap16_digits hb ha]

theorem bswap32_bswap32 {x : Nat} (h : x < 2 ^ 32) : bswap32 (bswap32 x) = x := by
  have hx : x = ((x / 16777216 * 256 + x / 65536 % 256) * 256 + x / 256 % 256) * 256 + x % 256 := by
    omega
  have ha : x / 16777216 < 256 := by omega
  have hb : x / 65536 % 256 < 256 := by omega
  have hc : x / 256 % 256 < 256 := by omega
  have hd : x % 256 < 256 := by omega
  rw [hx, bswap32_digits ha hb hc hd, bswap32_digits hd hc hb ha]

theorem bswap16_word16 (be : Bool) (b0 b1 : Byte) :
    bswap16 (word16 be b0 b1) = word16 (!be) b0 b1 := by
  have h0 := b0.isLt
  have h1 := b1.isLt
  rw [bswap16_eq]
  cases be <;> simp only [word16, Bool.not_true, Bool.not_false, if_true, if_false,
    Bool.false_eq_true] <;> omega

theorem bswap32_word32 (be : Bool) (b0 b1 b2 b3 : Byte) :
    bswap32 (word32 be b0 b1 b2 b3) = word32 (!be) b0 b1 b2 b3 := by
  have hlow := digits32 b3.isLt b2.isLt b1.isLt b0.isLt
  have hbig := digits32 b0.isLt b1.isLt b2.isLt b3.isLt
  rw [bswap32_eq]
  cases be with
  | false =>
    simp only [word32, Bool.not_false, if_true, Bool.false_eq_true, if_false]
    rw [hlow.1, hlow.2.1, hlow.2.2.1, hlow.2.2.2]
    omega
  | true =>
    simp only [word32, Bool.not_true, if_true, Bool.false_eq_true, if_false]
    rw [hbig.1, hbig.2.1, hbig.2.2.1, hbig.2.2.2]
    omega

theorem bytes16_word16_not (be : Bool) (b0 b1 : Byte) :
    bytes16 be (word16 (!be) b0 b1) = [b1, b0] := by
  have h0 := b0.isLt
  have h1 := b1.isLt
  cases be <;> simp [bytes16, word16, digit, Fin.ext_iff] <;> omega

theorem bytes32_word32_not (be : Bool) (b0 b1 b2 b3 : Byte) :
    bytes32 be (word32 (!be) b0 b1 b2 b3) = [b3, b2, b1, b0] := by
  have h0 := b0.isLt
  have h1 := b1.isLt
  have h2 := b2.isLt
  have h3 := b3.isLt
  cases be <;> simp [bytes32, word32, digit, Fin.ext_iff] <;> omega

end Xfront.Bytes
