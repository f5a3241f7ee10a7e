import Mathlib

/-!
# Records packed one after the other

A list of records, newest first, that fill a range without gaps: each lies right below
the ones that were added after it.
-/

namespace Xfront.Packing

open List

variable {α : Type} {off len off' len' : α → Nat} {lo hi d : Nat} {x y : α} {l : List α}

def Packed (off len : α → Nat) (lo hi : Nat) : List α → Prop
  | [] => lo = hi
  | x :: l => off x + len x = hi ∧ Packed off len lo (off x) l

section
variable (h : Packed off len lo hi l)
include h

theorem packed_le : lo ≤ hi := by
  induction l generalizing hi with
  | nil => exact le_of_eq h
  | cons x l ih =>
    have hrest := ih h.2
    have hx := h.1
    omega

theorem packed_bounds (hx : x ∈ l) : lo ≤ off x ∧ off x + len x ≤ hi := by
  induction l generalizing hi with
  | nil => cases hx
  | cons y l ih =>
    rcases mem_cons.mp hx with rfl | hx
    · exact ⟨packed_le h.2, le_of_eq h.1⟩
    · have hb := ih h.2 hx
      have hy := h.1
      omega

theorem packed_apart (hx : x ∈ l) (hy : y ∈ l) (hne : x ≠ y) :
    off x + len x ≤ off y ∨ off y + len y ≤ off x := by
  induction l generalizing hi with
  | nil => cases hx
  | cons z l ih =>
    rcases mem_cons.mp hx with hxz | hxl
    · rcases mem_cons.mp hy with hyz | hyl
      · exact absurd (hxz.trans hyz.symm) hne
      · exact .inr (hxz ▸ (packed_bounds h.2 hyl).2)
    · rcases mem_cons.mp hy with hyz | hyl
      · exact .inl (hyz ▸ (packed_bounds h.2 hxl).2)
      · exact ih h.2 hxl hyl

theorem packed_shift (hoff : ∀ x ∈ l, off' x = off x + d)
    (hlen : ∀ x ∈ l, len' x = len x) : Packed off' len' (lo + d) (hi + d) l := by
  induction l generalizing hi with
  | nil => exact congrArg (· + d) h
  | cons x l ih =>
    have hx := hoff x mem_cons_self
    refine ⟨?_, ?_⟩
    · rw [hx, hlen x mem_cons_self, ← h.1]
      omega
    · rw [hx]
      exact ih h.2 (fun y hy => hoff y (mem_cons_of_mem _ hy)) fun y hy =>
        hlen y (mem_cons_of_mem _ hy)

theorem packed_congr (hoff : ∀ x ∈ l, off' x = off x)
    (hlen : ∀ x ∈ l, len' x = len x) : Packed off' len' lo hi l :=
  packed_shift (d := 0) h hoff hlen

end

end Xfront.Packing
