import Mathlib

/-!
# Lists of records under keys

A list of records is looked up, updated and erased at the first record of a key.
-/

namespace Xfront.Keyed
open Option

open List

variable {α κ : Type} [DecidableEq κ] (key : α → κ)

def lookup (l : List α) (k : κ) : Option α :=
  l.find? (key · = k)

def update (f : α → α) (k : κ) : List α → List α
  | [] => []
  | x :: l => if key x = k then f x :: l else x :: update f k l

def erase (l : List α) (k : κ) : List α :=
  l.eraseP (key · = k)

variable {key} {l : List α} {j k : κ} {x : α} {f : α → α}

theorem lookup_cons (l : List α) (x : α) (k : κ) :
    lookup key (x :: l) k = if key x = k then some x else lookup key l k := by
  rw [lookup, find?_cons]
  split
  · next h => rw [if_pos (of_decide_eq_true h)]
  · next h => rw [if_neg (of_decide_eq_false h), lookup]

theorem key_of_lookup (h : lookup key l k = some x) : key x = k := have hk := find?_some h
  of_decide_eq_true hk

theorem mem_of_lookup (h : lookup key l k = some x) : x ∈ l := mem_of_find?_eq_some h

theorem lookup_eq_none : lookup key l k = none ↔ k ∉ l.map key := by
  rw [lookup, List.find?_eq_none]
  simp only [decide_eq_true_eq, List.mem_map, not_exists, not_and]

theorem lookup_of_mem (hnd : (l.map key).Nodup) (hx : x ∈ l) : lookup key l (key x) = some x := by
  induction l with
  | nil => cases hx
  | cons y l ih =>
    obtain ⟨hnot, hnd'⟩ := nodup_cons.mp hnd
    rw [lookup_cons]
    rcases mem_cons.mp hx with rfl | hx
    · exact if_pos rfl
    · have hne : key y ≠ key x := fun he => hnot (he ▸ mem_map_of_mem hx)
      rw [if_neg hne, ih hnd' hx]

theorem update_keys (hf : ∀ x, key (f x) = key x) : (update key f k l).map key = l.map key := by
  induction l with
  | nil => rfl
  | cons x l ih =>
    rw [update]
    split
    · rw [map_cons, map_cons, hf]
    · rw [map_cons, map_cons, ih]

theorem lookup_update (hf : ∀ x, key (f x) = key x) :
    lookup key (update key f k l) j = if j = k then (lookup key l k).map f else lookup key l j := by
  induction l with
  | nil => rw [update, lookup, find?_nil, lookup, find?_nil, map_none, ite_self]
  | cons x l ih =>
    rw [update]
    by_cases hx : key x = k
    · rw [if_pos hx, lookup_cons, hf, lookup_cons l x k, if_pos hx, lookup_cons l x j, hx]
      by_cases hj : j = k
      · rw [if_pos hj.symm, if_pos hj, map_some]
      · rw [if_neg (Ne.symm hj), if_neg hj, if_neg (Ne.symm hj)]
    · rw [if_neg hx, lookup_cons, ih, lookup_cons l x k, if_neg hx, lookup_cons l x j]
      by_cases hj : j = k
      · rw [if_pos hj, if_pos hj, hj, if_neg hx]
      · rw [if_neg hj, if_neg hj]

theorem mem_update (hnd : (l.map key).Nodup) {y : α} (hy : y ∈ update key f k l) :
    y ∈ l ∧ key y ≠ k ∨ ∃ x ∈ l, key x = k ∧ y = f x := by
  induction l with
  | nil => cases hy
  | cons x l ih =>
    obtain ⟨hnot, hnd'⟩ := nodup_cons.mp hnd
    rw [update] at hy
    split at hy
    · next hx =>
      rcases mem_cons.mp hy with rfl | hy
      · exact .inr ⟨x, mem_cons_self, hx, rfl⟩
      · refine .inl ⟨mem_cons_of_mem _ hy, fun he => hnot ?_⟩
        rw [hx, ← he]
        exact mem_map_of_mem hy
    · next hx =>
      rcases mem_cons.mp hy with rfl | hy
      · exact .inl ⟨mem_cons_self, hx⟩
      · rcases ih hnd' hy with ⟨hm, hne⟩ | ⟨z, hz, hk, rfl⟩
        · exact .inl ⟨mem_cons_of_mem _ hm, hne⟩
        · exact .inr ⟨z, mem_cons_of_mem _ hz, hk, rfl⟩

theorem mem_erase (hnd : (l.map key).Nodup) : x ∈ erase key l k ↔ x ∈ l ∧ key x ≠ k := by
  induction l with
  | nil => simp [erase]
  | cons y l ih =>
    obtain ⟨hnot, hnd'⟩ := nodup_cons.mp hnd
    rw [erase]
    by_cases hy : key y = k
    · rw [eraseP_cons_of_pos (by simpa using hy), mem_cons]
      constructor
      · intro hx
        refine ⟨.inr hx, fun he => hnot ?_⟩
        rw [hy, ← he]
        exact mem_map_of_mem hx
      · rintro ⟨rfl | hx, hne⟩
        · exact absurd hy hne
        · exact hx
    · rw [eraseP_cons_of_neg (by simpa using hy), mem_cons, mem_cons]
      rw [erase] at ih
      rw [ih hnd']
      constructor
      · rintro (rfl | ⟨hx, hne⟩)
        · exact ⟨.inl rfl, hy⟩
        · exact ⟨.inr hx, hne⟩
      · rintro ⟨rfl | hx, hne⟩
        · exact .inl rfl
        · exact .inr ⟨hx, hne⟩

theorem erase_sublist : (erase key l k).Sublist l := eraseP_sublist

theorem erase_of_none (h : lookup key l k = none) : erase key l k = l :=
  eraseP_of_forall_not (find?_eq_none.mp h)

theorem perm_erase (h : lookup key l k = some x) : l.Perm (x :: erase key l k) := by
  induction l with
  | nil => cases h
  | cons y l ih =>
    rw [lookup_cons] at h
    rw [erase]
    by_cases hy : key y = k
    · rw [if_pos hy] at h
      cases h
      rw [eraseP_cons_of_pos (by simpa using hy)]
    · rw [if_neg hy] at h
      rw [eraseP_cons_of_neg (by simpa using hy)]
      exact ((ih h).cons y).trans (List.Perm.swap x y _)

theorem lookup_erase (hnd : (l.map key).Nodup) :
    lookup key (erase key l k) j = if j = k then none else lookup key l j := by
  have hnd' : ((erase key l k).map key).Nodup := (erase_sublist.map _).nodup hnd
  split
  · next hj =>
    rw [hj, lookup_eq_none]
    intro hmem
    obtain ⟨x, hx, hk⟩ := mem_map.mp hmem
    exact ((mem_erase hnd).mp hx).2 hk
  · next hj =>
    cases hl : lookup key l j with
    | none =>
      rw [lookup_eq_none] at hl ⊢
      exact fun hmem => hl ((erase_sublist.map _).subset hmem)
    | some x =>
      have hx : x ∈ erase key l k := (mem_erase hnd).mpr
        ⟨mem_of_lookup hl, fun he => hj ((key_of_lookup hl).symm.trans he)⟩
      rw [← key_of_lookup hl]
      exact lookup_of_mem hnd' hx

end Xfront.Keyed
