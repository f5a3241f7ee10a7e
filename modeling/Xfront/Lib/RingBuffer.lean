import Mathlib

/-!
# Ring buffers

A ring is a list of cells of which `n` in a row are in use, from a head on and round the end.
`window` is what they hold, in order.
-/

namespace Xfront.RingBuffer
open Nat

open List

variable {α : Type}

def window (cells : List α) (head n : Nat) : List α := (cells.rotate head).take n

variable {cells : List α} {head n : Nat}

theorem length_window (h : n ≤ cells.length) : (window cells head n).length = n := by
  rw [window, length_take, length_rotate, min_eq_left h]

theorem getElem?_window {i : Nat} (hn : n ≤ cells.length) (hi : i < n) :
    (window cells head n)[i]? = cells[(head + i) % cells.length]? := by
  rw [window, getElem?_take, if_pos hi, getElem?_rotate (lt_of_lt_of_le hi hn), add_comm]

theorem offset_ne {len i j : Nat} (hi : i < len) (hj : j < len) (h : i ≠ j) :
    (head + i) % len ≠ (head + j) % len := by
  intro heq
  have hmod : i % len = j % len := Nat.ModEq.add_left_cancel' head heq
  rw [mod_eq_of_lt hi, mod_eq_of_lt hj] at hmod
  exact h hmod

theorem window_push (h : n < cells.length) (x : α) :
    window (cells.set ((head + n) % cells.length) x) head (n + 1) = window cells head n ++ [x] := by
  refine ext_getElem? fun i => ?_
  have hlen : (cells.set ((head + n) % cells.length) x).length = cells.length := length_set
  have hwindow : (window cells head n).length = n := length_window (Nat.le_of_lt h)
  rcases Nat.lt_trichotomy i n with hi | rfl | hi
  · rw [getElem?_window (by omega) (by omega), hlen,
      List.getElem?_set_ne (offset_ne h (by omega) (by omega)),
      List.getElem?_append_left (by omega), getElem?_window (by omega) hi]
  · rw [getElem?_window (by omega) (by omega), hlen,
      List.getElem?_set_self (Nat.mod_lt _ (by omega)),
      List.getElem?_append_right (by omega), hwindow, Nat.sub_self]
    rfl
  · rw [List.getElem?_eq_none (by rw [length_window (by omega)]; omega),
      List.getElem?_eq_none (by rw [length_append, hwindow, length_singleton]; omega)]

theorem window_pop {x : α} (hhead : cells[head]? = some x) (h : n < cells.length) :
    window cells head (n + 1) = x :: window cells ((head + 1) % cells.length) n := by
  have hlt : head < cells.length := (List.getElem?_eq_some_iff.mp hhead).1
  refine ext_getElem? fun i => ?_
  rcases i with _ | i
  · rw [getElem?_window (by omega) (by omega), add_zero, mod_eq_of_lt hlt, hhead]
    rfl
  · rw [getElem?_cons_succ]
    by_cases hi : i < n
    · rw [getElem?_window (by omega) (by omega), getElem?_window (by omega) hi, mod_add_mod,
        add_assoc, add_comm 1 i]
    · rw [getElem?_eq_none (by rw [length_window (by omega)]; omega),
        getElem?_eq_none (by rw [length_window (by omega)]; omega)]

theorem window_append {extra : List α} (h : n ≤ cells.length) :
    window (cells.rotate head ++ extra) 0 n = window cells head n := by
  rw [window, window, rotate_zero, take_append_of_le_length]
  rwa [length_rotate]

end Xfront.RingBuffer
