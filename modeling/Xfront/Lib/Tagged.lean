import Mathlib

/-!
# Words behind a delimited name

A name and a word are written behind each other as `o name c word`.
-/

namespace Xfront.Tagged

open List

variable {α : Type} [DecidableEq α] {o c : α} {m n s x : List α}

def tag (o c : α) (n : List α) : List α := o :: n ++ [c]

def untag (c : α) (x : List α) : List α := (x.dropWhile (· ≠ c)).tail

omit [DecidableEq α] in
theorem tag_append (n s : List α) : tag o c n ++ s = o :: n ++ c :: s := by
  rw [tag, append_assoc, singleton_append]

omit [DecidableEq α] in
theorem length_tag (n : List α) : (tag o c n).length = n.length + 2 := by
  rw [tag, length_append, length_cons, length_singleton]

theorem dropWhile_not_mem (hn : c ∉ n) (s : List α) : (n ++ c :: s).dropWhile (· ≠ c) = c :: s := by
  induction n with
  | nil => simp
  | cons a n ih =>
    rw [mem_cons, not_or] at hn
    rw [cons_append, dropWhile_cons_of_pos (by simpa using Ne.symm hn.1), ih hn.2]

theorem untag_tag_append (ho : o ≠ c) (hn : c ∉ n) (s : List α) : untag c (tag o c n ++ s) = s := by
  have hon : c ∉ o :: n := by
    rw [mem_cons, not_or]
    exact ⟨Ne.symm ho, hn⟩
  rw [untag, tag_append, dropWhile_not_mem hon, tail_cons]

theorem lt_length_untag (ho : o ≠ c) (hn : c ∈ n) (s : List α) :
    s.length < (untag c (tag o c n ++ s)).length := by
  obtain ⟨p, q, rfl, hp⟩ := eq_append_cons_of_mem hn
  have hsplit : tag o c (p ++ c :: q) ++ s = tag o c p ++ (q ++ c :: s) := by
    simp [tag]
  rw [hsplit, untag_tag_append ho hp, length_append, length_cons]
  omega

omit [DecidableEq α] in
theorem take_tag_append {k : Nat} (hk : n.length + 2 ≤ k) (s : List α) :
    (tag o c n ++ s).take k = tag o c n ++ s.take (k - (n.length + 2)) := by
  rw [take_append, length_tag, take_of_length_le (by rw [length_tag]; exact hk)]

theorem tag_unique (hm : c ∉ m) (hn : c ∉ n) (h : tag o c m <+: x) (h' : tag o c n <+: x) :
    m = n := by
  obtain ⟨s, rfl⟩ := h
  obtain ⟨t, ht⟩ := h'
  rw [tag_append, tag_append, cons_append, cons_append, cons_inj_right] at ht
  have htake : ∀ {k : List α}, c ∉ k → ∀ s, (k ++ c :: s).takeWhile (· ≠ c) = k := by
    intro k hk s
    rw [takeWhile_append_of_pos]
    · simp
    · intro a ha
      have hne : a ≠ c := fun he => hk (he ▸ ha)
      simpa using hne
  rw [← htake hm s, ← htake hn t, ht]

end Xfront.Tagged
