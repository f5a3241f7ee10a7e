import Mathlib

/-!
# Hash tables with chains

A table is a list of chains. It holds a list of entries when every entry is in the
chain its key hashes to and the entries of one key stand in both in the same order.
-/

namespace Xfront
open Nat

open List

variable {α κ : Type} [DecidableEq κ]

def ofKey (key : α → κ) (k : κ) (l : List α) : List α := l.filter (key · = k)

section
variable {key : α → κ} {k : κ} {l m : List α}

theorem mem_ofKey {a : α} : a ∈ ofKey key k l ↔ a ∈ l ∧ key a = k := by
  simp [ofKey]

variable {p : α → Bool}

theorem find?_ofKey (h : ∀ a, p a = true → key a = k) : (ofKey key k l).find? p = l.find? p := by
  rw [ofKey, find?_filter]
  congr 1
  funext a
  by_cases hp : p a = true
  · simp [hp, h a hp]
  · simp [hp]

theorem perm_of_ofKey [DecidableEq α] (h : ∀ k, ofKey key k l = ofKey key k m) : l.Perm m := by
  rw [perm_iff_count]
  intro a
  have hcount : ∀ l : List α, l.count a = (ofKey key (key a) l).count a := fun l => by
    rw [ofKey, count_filter (by simp)]
  rw [hcount l, hcount m, h]

end

/-- `f` changes only the entries with the key `k`, and these as `g` does. -/
structure ActsOn (key : α → κ) (k : κ) (f g : List α → List α) : Prop where
  own : ∀ l, ofKey key k (f l) = g (ofKey key k l)
  others : ∀ l k', k' ≠ k → ofKey key k' (f l) = ofKey key k' l

namespace ActsOn
variable {key : α → κ} {k : κ}

theorem cons {a : α} (h : key a = k) : ActsOn key k (a :: ·) (a :: ·) where
  own l := by simp [ofKey, h]
  others l k' hk := by simp [ofKey, h, Ne.symm hk]

theorem remove : ActsOn key k (·.filter fun a => ¬ key a = k) fun _ => [] where
  own l := by
    rw [ofKey, filter_filter]
    simp
  others l k' hk := by
    rw [ofKey, ofKey, filter_filter]
    refine filter_congr fun a _ => ?_
    by_cases ha : key a = k'
    · simp [ha, hk]
    · simp [ha]

theorem eraseP (h : ∀ a, p a = true → key a = k) : ActsOn key k (·.eraseP p) (·.eraseP p) where
  own l := by
    induction l with
    | nil => rfl
    | cons a l ih =>
      by_cases hp : p a = true
      · simp [ofKey, hp, h a hp]
      · by_cases ha : key a = k
        · simpa [ofKey, hp, ha] using ih
        · simpa [ofKey, hp, ha] using ih
  others l k' hk := by
    induction l with
    | nil => rfl
    | cons a l ih =>
      by_cases hp : p a = true
      · have ha : key a ≠ k' := fun ha => hk (ha.symm.trans (h a hp))
        simp [ofKey, hp, ha]
      · by_cases ha : key a = k'
        · simpa [ofKey, hp, ha] using ih
        · simpa [ofKey, hp, ha] using ih

end ActsOn

def replaceFirst (p : α → Bool) (r : α → α) : List α → List α
  | [] => []
  | a :: l => if p a then r a :: l else a :: replaceFirst p r l

@[simp] theorem replaceFirst_length {r : α → α} (l : List α) :
    (replaceFirst p r l).length = l.length := by
  induction l with
  | nil => rfl
  | cons a l ih =>
    by_cases hp : p a = true
    · simp [replaceFirst, hp]
    · simp [replaceFirst, hp, ih]

variable {p : α → Bool} {r : α → α}

theorem replaceFirst_of_none {l : List α} (h : l.find? p = none) : replaceFirst p r l = l := by
  induction l with
  | nil => rfl
  | cons a l ih =>
    rw [find?_cons] at h
    by_cases hp : p a = true
    · simp [hp] at h
    · rw [replaceFirst, if_neg hp, ih (by simpa [hp] using h)]

variable {key : α → κ}

theorem ActsOn.replaceFirst {k : κ}
    (h : ∀ a, p a = true → key a = k) (hr : ∀ a, key (r a) = key a) :
    ActsOn key k (Xfront.replaceFirst p r) (Xfront.replaceFirst p r) where
  own l := by
    induction l with
    | nil => rfl
    | cons a l ih =>
      by_cases hp : p a = true
      · simp [Xfront.replaceFirst, ofKey, hp, h a hp, hr]
      · by_cases ha : key a = k
        all_goals
          simpa [Xfront.replaceFirst, ofKey, hp, ha] using ih
  others l k' hk := by
    induction l with
    | nil => rfl
    | cons a l ih =>
      by_cases hp : p a = true
      · have ha : key a ≠ k' := fun ha => hk (ha.symm.trans (h a hp))
        simp [Xfront.replaceFirst, ofKey, hp, ha, hr]
      · by_cases ha : key a = k'
        all_goals
          simpa [Xfront.replaceFirst, ofKey, hp, ha] using ih

def chainAt (table : List (List α)) (j : Nat) : List α := table.getD j []

variable {table : List (List α)} {i : Nat}

theorem chainAt_set (h : i < table.length) (c : List α)
    (j : Nat) : chainAt (table.set i c) j = if i = j then c else chainAt table j := by
  simp only [chainAt, getD_eq_getElem?_getD, getElem?_set]
  by_cases hij : i = j
  · rw [if_pos hij, if_pos hij, if_pos h]
    rfl
  · rw [if_neg hij, if_neg hij]

@[simp] theorem chainAt_replicate (n j : Nat) : chainAt (replicate n ([] : List α)) j = [] := by
  rw [chainAt, getD_eq_getElem?_getD, getElem?_replicate]
  split <;> rfl

theorem flatten_eq_chainAt
    (h : ∀ j, j ≠ i → chainAt table j = []) : table.flatten = chainAt table i := by
  induction table generalizing i with
  | nil => rfl
  | cons c table ih =>
    cases i with
    | zero =>
      have hrest : table.flatten = [] := by
        rw [ih (i := table.length) fun j _ => h (j + 1) (succ_ne_zero j)]
        rw [chainAt, getD_eq_getElem?_getD, getElem?_eq_none (le_refl _)]
        rfl
      rw [flatten_cons, hrest, append_nil]
      rfl
    | succ i =>
      have hc : c = [] := h 0 (succ_ne_zero i).symm
      rw [flatten_cons, hc, nil_append, ih fun j hj => h (j + 1) fun he => hj (succ.inj he)]
      rfl

theorem flatten_set_length (h : i < table.length)
    (c : List α) : (table.set i c).flatten.length + (chainAt table i).length =
      table.flatten.length + c.length := by
  induction table generalizing i with
  | nil => cases h
  | cons d table ih =>
    cases i with
    | zero =>
      change (c ++ table.flatten).length + d.length = (d ++ table.flatten).length + c.length
      simp only [length_append]
      omega
    | succ i =>
      have hi := ih (lt_of_succ_lt_succ h)
      change (d ++ (table.set i c).flatten).length + (chainAt table i).length =
        (d ++ table.flatten).length + c.length
      simp only [length_append]
      omega

structure Holds (key : α → κ) (hash : κ → Nat) (table : List (List α)) (live : List α) : Prop where
  range : ∀ k, hash k < table.length
  placed : ∀ j, ∀ a ∈ chainAt table j, hash (key a) = j
  order : ∀ k, ofKey key k (chainAt table (hash k)) = ofKey key k live

namespace Holds
variable {key : α → κ} {hash hash' : κ → Nat} {table : List (List α)} {live : List α} {k : κ}

theorem empty {n : Nat} (h : ∀ k, hash k < n) : Holds key hash (replicate n []) ([] : List α) where
  range k := by rw [length_replicate]; exact h k
  placed j a ha := by simp at ha
  order k := by rw [chainAt_replicate]

theorem find (h : Holds key hash table live) (hp : ∀ a, p a = true → key a = k) :
    (chainAt table (hash k)).find? p = live.find? p := by
  rw [← find?_ofKey hp, h.order, find?_ofKey hp]

variable {f g : List α → List α}

theorem update (h : Holds key hash table live) (hf : ActsOn key k f g) :
    Holds key hash (table.set (hash k) (f (chainAt table (hash k)))) (f live) where
  range k' := by rw [length_set]; exact h.range k'
  placed j a ha := by
    rw [chainAt_set (h.range k)] at ha
    split at ha
    · rename_i hj
      by_cases hk : key a = k
      · rw [hk, hj]
      · have hmem : a ∈ ofKey key (key a) (f (chainAt table (hash k))) := mem_ofKey.mpr ⟨ha, rfl⟩
        rw [hf.others _ _ hk] at hmem
        exact (h.placed _ a (mem_ofKey.mp hmem).1).trans hj
    · exact h.placed j a ha
  order k' := by
    rw [chainAt_set (h.range k)]
    by_cases hk : k' = k
    · rw [hk, if_pos rfl, hf.own, h.order, hf.own]
    · rw [hf.others _ _ hk]
      split
      · rename_i hj
        rw [hf.others _ _ hk, hj, h.order]
      · exact h.order k'

theorem ofKey_flatten (h : Holds key hash table live) (k : κ) :
    ofKey key k table.flatten = ofKey key k live := by
  rw [← h.order, ofKey, filter_flatten, flatten_eq_chainAt (i := hash k)]
  · simp only [chainAt, getD_eq_getElem?_getD, getElem?_map]
    cases table[hash k]? <;> rfl
  · intro j hj
    have hfilter : ofKey key k (chainAt table j) = [] := by
      refine filter_eq_nil_iff.mpr fun a ha hak => hj ?_
      rw [decide_eq_true_eq] at hak
      rw [← h.placed j a ha, hak]
    simp only [chainAt, getD_eq_getElem?_getD, getElem?_map] at hfilter ⊢
    cases hj' : table[j]? with
    | none => rfl
    | some c =>
      rw [hj'] at hfilter
      exact hfilter

theorem flatten_perm [DecidableEq α] (h : Holds key hash table live) : table.flatten.Perm live :=
  perm_of_ofKey h.ofKey_flatten

theorem update_length [DecidableEq α] (h : Holds key hash table live) (hf : ActsOn key k f g) :
    (f live).length + (chainAt table (hash k)).length =
      live.length + (f (chainAt table (hash k))).length := by
  rw [← (h.update hf).flatten_perm.length_eq, ← h.flatten_perm.length_eq,
    flatten_set_length (h.range k)]

end Holds

def appendTail (index : α → Nat) (table : List (List α)) (a : α) : List (List α) :=
  table.set (index a) (chainAt table (index a) ++ [a])

variable {n : Nat}

theorem foldl_appendTail (index : α → Nat) (hn : ∀ a, index a < n)
    (entries : List α) (ht : table.length = n) :
    (entries.foldl (appendTail index) table).length = n ∧
      ∀ j, chainAt (entries.foldl (appendTail index) table) j =
        chainAt table j ++ entries.filter (index · = j) := by
  induction entries generalizing table with
  | nil => exact ⟨ht, fun j => by simp⟩
  | cons a entries ih =>
    rw [foldl_cons]
    have hlen : (appendTail index table a).length = n := by rw [appendTail, length_set, ht]
    obtain ⟨h₁, h₂⟩ := ih hlen
    refine ⟨h₁, fun j => ?_⟩
    rw [h₂ j, appendTail, chainAt_set (by rw [ht]; exact hn a), filter_cons]
    by_cases hj : index a = j
    · simp [hj]
    · simp [hj]

variable {hash hash' : κ → Nat} {live : List α}

theorem Holds.rehash (h : Holds key hash table live) (hn : ∀ k, hash' k < n) : Holds key hash'
        (table.flatten.foldl (appendTail fun a => hash' (key a)) (replicate n [])) live ∧
      (table.flatten.foldl (appendTail fun a => hash' (key a)) (replicate n [])).length = n := by
  obtain ⟨hlen, hchain⟩ := foldl_appendTail (fun a => hash' (key a)) (fun a => hn (key a))
    table.flatten (length_replicate (n := n))
  refine ⟨⟨fun k => by rw [hlen]; exact hn k, fun j a ha => ?_, fun k => ?_⟩, hlen⟩
  · rw [hchain, chainAt_replicate, nil_append] at ha
    simpa using (mem_filter.mp ha).2
  · rw [hchain, chainAt_replicate, nil_append, ← h.ofKey_flatten, ofKey, ofKey, filter_filter]
    refine filter_congr fun a _ => ?_
    by_cases ha : key a = k
    · simp [ha]
    · simp [ha]

def addHead (index : α → Nat) (table : List (List α)) (a : α) : List (List α) :=
  table.set (index a) (a :: chainAt table (index a))

theorem foldl_addHead (index : α → Nat) (hn : ∀ a, index a < n)
    (entries : List α) (ht : table.length = n) : (entries.foldl (addHead index) table).length = n ∧
      ∀ j, chainAt (entries.foldl (addHead index) table) j =
        (entries.filter (index · = j)).reverse ++ chainAt table j := by
  induction entries generalizing table with
  | nil => exact ⟨ht, fun j => by simp⟩
  | cons a entries ih =>
    rw [foldl_cons]
    have hlen : (addHead index table a).length = n := by rw [addHead, length_set, ht]
    obtain ⟨h₁, h₂⟩ := ih hlen
    refine ⟨h₁, fun j => ?_⟩
    rw [h₂ j, addHead, chainAt_set (by rw [ht]; exact hn a), filter_cons]
    by_cases hj : index a = j
    · simp [hj]
    · simp [hj]

theorem Holds.rehashHead (h : Holds key hash table live) (hn : ∀ k, hash' k < n) : Holds key hash'
        (table.flatten.foldl (addHead fun a => hash' (key a)) (replicate n [])) live.reverse ∧
      (table.flatten.foldl (addHead fun a => hash' (key a)) (replicate n [])).length = n := by
  obtain ⟨hlen, hchain⟩ := foldl_addHead (fun a => hash' (key a)) (fun a => hn (key a))
    table.flatten (length_replicate (n := n))
  refine ⟨⟨fun k => by rw [hlen]; exact hn k, fun j a ha => ?_, fun k => ?_⟩, hlen⟩
  · rw [hchain, chainAt_replicate, append_nil, mem_reverse] at ha
    simpa using (mem_filter.mp ha).2
  · have hkey : ofKey key k (table.flatten.filter fun a => hash' (key a) = hash' k) =
        ofKey key k table.flatten := by
      rw [ofKey, ofKey, filter_filter]
      refine filter_congr fun a _ => ?_
      by_cases ha : key a = k
      · simp [ha]
      · simp [ha]
    rw [hchain, chainAt_replicate, append_nil, ofKey, filter_reverse, ofKey, filter_reverse]
    exact congrArg reverse (hkey.trans (h.ofKey_flatten k))

end Xfront
