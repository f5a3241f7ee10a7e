import Mathlib

/-!
# Slices of lists

The part of a list that an offset and a length ask for, and what is left behind it.
-/

namespace Xfront.Slices

open List

variable {α : Type}

structure Slice (α : Type) where
  value : List α
  after : Nat

/-- `length` elements from `offset` on, as far as there are any; `none` behind the end. -/
def slice (data : List α) (offset length : Nat) : Option (Slice α) :=
  if data.length < offset then none
  else
    let len := min (data.length - offset) length
    some ⟨(data.drop offset).take len, data.length - (offset + len)⟩

variable {data : List α} {offset length : Nat}

theorem slice_none (h : data.length < offset) : slice data offset length = none := if_pos h

theorem slice_some (h : offset ≤ data.length) : slice data offset length =
    some ⟨(data.drop offset).take (min (data.length - offset) length),
      data.length - (offset + min (data.length - offset) length)⟩ :=
  if_neg (not_lt.mpr h)

/-- `size` items of a format of the protocol take `length` bytes. -/
def Formed (format size length : Nat) : Prop :=
  (format = 8 ∨ format = 16 ∨ format = 32 ∨ size = 0) ∧ length = size * (format / 8)

theorem Formed.size_le {format size : Nat} (h : Formed format size length) : size ≤ length := by
  obtain ⟨hf | hf | hf | hf, hlength⟩ := h
  · rw [hlength, hf]
    omega
  · rw [hlength, hf]
    omega
  · rw [hlength, hf]
    omega
  · rw [hf]
    exact Nat.zero_le _

end Xfront.Slices
