import Mathlib

/-!
# Circular doubly linked lists

A list whose nodes are embedded in the records it orders. The head is `none`; a node that is on no
list is linked to itself.
-/

namespace Xfront

open List Option Function

structure Ring (α : Type) where
  next : Option α → Option α
  prev : Option α → Option α

namespace Ring

variable {α : Type} [DecidableEq α]

def empty : Ring α := { next := id, prev := id }

def init (r : Ring α) (entry : Option α) : Ring α :=
  { next := update r.next entry entry
    prev := update r.prev entry entry }

def addBetween (r : Ring α) (entry prev next : Option α) : Ring α :=
  { next := update (update r.next entry next) prev entry
    prev := update (update r.prev next entry) entry prev }

/-- Puts an entry before `head`, which is the end of the list `head` starts. -/
def append (r : Ring α) (entry head : Option α) : Ring α :=
  r.addBetween entry (r.prev head) head

def unlink (r : Ring α) (prev next : Option α) : Ring α :=
  { next := update r.next prev next
    prev := update r.prev next prev }

def del (r : Ring α) (entry : Option α) : Ring α :=
  (r.unlink (r.prev entry) (r.next entry)).init entry

def isEmpty (r : Ring α) (list : Option α) : Bool := decide (r.next list = list)

/-- The first node from `x` on that meets a test, the head where there is none.
`fuel` is the number of nodes there are: a walk that visits more does not end. -/
def findFrom (r : Ring α) (test : α → Bool) : Nat → Option α → Option (Option α)
  | _, none => some none
  | 0, some _ => none
  | fuel + 1, some a => if test a then some (some a) else findFrom r test fuel (r.next (some a))

def Step (r : Ring α) (x y : Option α) : Prop := r.next x = y ∧ r.prev y = x

structure Holds (r : Ring α) (l : List α) : Prop where
  nodup : l.Nodup
  chain : (none :: l.map some ++ [none]).IsChain r.Step
  apart : ∀ a ∉ l, r.next (some a) = some a ∧ r.prev (some a) = some a

end Ring

namespace Ring

variable {α : Type} {r : Ring α} {l m : List α} {a : α}

theorem empty_holds : (empty : Ring α).Holds [] :=
  ⟨nodup_nil, isChain_pair.mpr ⟨rfl, rfl⟩, fun _ _ => ⟨rfl, rfl⟩⟩

theorem chain_congr {r' : Ring α} {c : List (Option α)} (h : c.IsChain r.Step)
    (hnext : ∀ x ∈ c.dropLast, r'.next x = r.next x)
    (hprev : ∀ y ∈ c.tail, r'.prev y = r.prev y) : c.IsChain r'.Step := by
  induction c with
  | nil => exact isChain_nil
  | cons x c ih =>
    cases c with
    | nil => exact isChain_singleton x
    | cons y c =>
      rw [isChain_cons_cons] at h ⊢
      rw [dropLast_cons_cons] at hnext
      refine ⟨⟨?_, ?_⟩, ih h.2 (fun z hz => hnext z (mem_cons_of_mem x hz))
        fun z hz => hprev z (mem_cons_of_mem y hz)⟩
      · rw [hnext x mem_cons_self]
        exact h.1.1
      · rw [hprev y mem_cons_self]
        exact h.1.2

/-- A place of the list `l ++ m`, between the node `p` and the node `n`. -/
structure Place (l m : List α) (u : List (Option α)) (p n : Option α)
    (v : List (Option α)) : Prop where
  before : none :: l.map some = u ++ [p]
  after : m.map some ++ [none] = n :: v

theorem exists_place (l m : List α) : ∃ u p v, Place l m u p m.head? v := by
  refine ⟨(none :: l.map some).dropLast, (none :: l.map some).getLast (cons_ne_nil _ _),
    (m.map some ++ [none]).tail, (dropLast_append_getLast _).symm, ?_⟩
  cases m <;> rfl

section

variable {u v : List (Option α)} {p n : Option α}

section
variable (h : Place l m u p n v)
include h

theorem Place.nodup_before (hl : l.Nodup) : (u ++ [p]).Nodup := by
  rw [← h.before]
  exact nodup_cons.mpr ⟨by simp, hl.map (some_injective α)⟩

theorem Place.nodup_after (hm : m.Nodup) : (n :: v).Nodup := by
  rw [← h.after]
  refine (hm.map (some_injective α)).append (nodup_singleton none) ?_
  simp [disjoint_singleton]

theorem Place.tail_before : (u ++ [p]).tail = l.map some := by
  rw [← h.before, tail_cons]

theorem Place.dropLast_after : (n :: v).dropLast = m.map some := by
  rw [← h.after, dropLast_concat]

theorem Place.mem_before {x : Option α} : x ∈ u ++ [p] ↔ x = none ∨ ∃ b ∈ l, some b = x := by
  rw [← h.before, mem_cons, List.mem_map]

theorem Place.mem_after {x : Option α} : x ∈ n :: v ↔ x = none ∨ ∃ b ∈ m, some b = x := by
  rw [← h.after, mem_append, mem_singleton, List.mem_map, or_comm]

theorem Place.chain_iff : (none :: (l ++ m).map some ++ [none]).IsChain r.Step ↔
      (u ++ [p]).IsChain r.Step ∧ r.Step p n ∧ (n :: v).IsChain r.Step := by
  rw [map_append, ← cons_append, append_assoc, h.before, h.after,
    append_assoc, singleton_append, isChain_append_cons_cons]

theorem Place.chain_cons_iff : (none :: (l ++ a :: m).map some ++ [none]).IsChain r.Step ↔
      (u ++ [p]).IsChain r.Step ∧ r.Step p (some a) ∧ r.Step (some a) n ∧
        (n :: v).IsChain r.Step := by
  rw [map_append, map_cons, ← cons_append, append_assoc, h.before,
    cons_append, h.after, append_assoc, singleton_append,
    isChain_append_cons_cons, isChain_cons_cons]

theorem Place.ne_before (ha : a ∉ l) : some a ≠ p := by
  intro he
  rcases h.mem_before.mp (mem_append_right u (mem_singleton_self p)) with h0 | ⟨c, hc, hcp⟩
  · cases he.trans h0
  · cases hcp.trans he.symm
    exact ha hc

theorem Place.ne_after (ha : a ∉ m) : some a ≠ n := by
  intro he
  rcases h.mem_after.mp mem_cons_self with h0 | ⟨c, hc, hcn⟩
  · cases he.trans h0
  · cases hcn.trans he.symm
    exact ha hc

/-- The links away from a place, when only `p` and `a` have another next node and
only `n` and `a` another previous one. -/
theorem Place.frame {r' : Ring α} (hd : (a :: (l ++ m)).Nodup)
    (hnext : ∀ x, x ≠ p → x ≠ some a → r'.next x = r.next x)
    (hprev : ∀ y, y ≠ n → y ≠ some a → r'.prev y = r.prev y)
    (hu : (u ++ [p]).IsChain r.Step) (hv : (n :: v).IsChain r.Step) :
    (u ++ [p]).IsChain r'.Step ∧ (n :: v).IsChain r'.Step := by
  obtain ⟨ha, hlm⟩ := nodup_cons.mp hd
  obtain ⟨hl, hm, hdisj⟩ := nodup_append'.mp hlm
  have hal : ∀ x ∈ u ++ [p], x ≠ some a := by
    rintro x hx rfl
    rcases h.mem_before.mp hx with h0 | ⟨b, hb, he⟩
    · cases h0
    · cases he
      exact ha (mem_append_left m hb)
  have ham : ∀ x ∈ n :: v, x ≠ some a := by
    rintro x hx rfl
    rcases h.mem_after.mp hx with h0 | ⟨b, hb, he⟩
    · cases h0
    · cases he
      exact ha (mem_append_right l hb)
  constructor
  · refine chain_congr hu (fun x hx => hnext x ?_ (hal x (dropLast_subset _ hx)))
      fun y hy => hprev y ?_ (hal y (mem_of_mem_tail hy))
    · rw [dropLast_concat] at hx
      rintro rfl
      exact (nodup_append'.mp (h.nodup_before hl)).2.2 hx (mem_singleton_self x)
    · rw [h.tail_before] at hy
      obtain ⟨b, hb, rfl⟩ := List.mem_map.mp hy
      exact h.ne_after fun hbm => hdisj hb hbm
  · refine chain_congr hv (fun x hx => hnext x ?_ (ham x (dropLast_subset _ hx)))
      fun y hy => hprev y ?_ (ham y (mem_of_mem_tail hy))
    · rw [h.dropLast_after] at hx
      obtain ⟨b, hb, rfl⟩ := List.mem_map.mp hx
      exact h.ne_before fun hbl => hdisj hbl hb
    · rintro rfl
      exact (nodup_cons.mp (h.nodup_after hm)).1 hy

end

end

variable [DecidableEq α]

omit [DecidableEq α] in
theorem Holds.first (h : r.Holds l) : r.next none = l.head? := by
  cases l with
  | nil => exact (isChain_pair.mp h.chain).1
  | cons a l => exact (isChain_cons_cons.mp h.chain).1.1

theorem Holds.isEmpty (h : r.Holds l) (a : α) : r.isEmpty (some a) = decide (a ∉ l) := by
  refine decide_eq_decide.mpr ⟨fun he hmem => ?_, fun hmem => (h.apart a hmem).1⟩
  obtain ⟨f, b, rfl⟩ := append_of_mem hmem
  obtain ⟨u, p, v, hp⟩ := exists_place f b
  have hn := (hp.chain_cons_iff.mp h.chain).2.2.1.1
  rw [he] at hn
  have hd := (nodup_cons.mp (nodup_append'.mp h.nodup).2.1).1
  exact hd (mem_of_mem_head? (mem_def.mpr hn.symm))

theorem Holds.del_mem (h : r.Holds (l ++ a :: m)) : (r.del (some a)).Holds (l ++ m) := by
  obtain ⟨u, p, v, hp⟩ := exists_place l m
  obtain ⟨hu, hpa, han, hv⟩ := hp.chain_cons_iff.mp h.chain
  have hnd : (a :: (l ++ m)).Nodup := perm_middle.nodup_iff.mp h.nodup
  obtain ⟨ha, hd⟩ := nodup_cons.mp hnd
  have hap : some a ≠ p := hp.ne_before fun hl => ha (mem_append_left m hl)
  have han' : some a ≠ m.head? := hp.ne_after fun hm => ha (mem_append_right l hm)
  have hnext : ∀ x, x ≠ p → x ≠ some a → (r.del (some a)).next x = r.next x := by
    intro x hxp hxa
    simp only [del, init, unlink, hpa.2, update_of_ne hxa, update_of_ne hxp]
  have hprev : ∀ y, y ≠ m.head? → y ≠ some a → (r.del (some a)).prev y = r.prev y := by
    intro y hyn hya
    simp only [del, init, unlink, han.1, update_of_ne hya, update_of_ne hyn]
  obtain ⟨hu', hv'⟩ := hp.frame hnd hnext hprev hu hv
  refine ⟨hd, hp.chain_iff.mpr ⟨hu', ⟨?_, ?_⟩, hv'⟩, fun b hb => ?_⟩
  · simp only [del, init, unlink, hpa.2, han.1, update_of_ne hap.symm, update_self]
  · simp only [del, init, unlink, hpa.2, han.1, update_of_ne han'.symm, update_self]
  · by_cases hba : b = a
    · subst hba
      exact ⟨update_self .., update_self ..⟩
    · have hbs : some b ≠ some a := fun he => hba (some.inj he)
      have hbl : b ∉ l ++ a :: m := fun hmem =>
        (mem_cons.mp (perm_middle.mem_iff.mp hmem)).elim hba hb
      rw [hnext _ (hp.ne_before fun hl => hb (mem_append_left m hl)) hbs,
        hprev _ (hp.ne_after fun hm => hb (mem_append_right l hm)) hbs]
      exact h.apart b hbl

theorem Holds.del_not_mem (h : r.Holds l) (ha : a ∉ l) : r.del (some a) = r := by
  obtain ⟨hn, hp⟩ := h.apart a ha
  have hself : ∀ f : Option α → Option α, f (some a) = some a →
      update (update f (some a) (some a)) (some a) (some a) = f := by
    intro f hf
    rw [update_idem]
    nth_rewrite 2 [← hf]
    exact update_eq_self (some a) f
  simp only [del, init, unlink, hn, hp, hself r.next hn, hself r.prev hp]

theorem Holds.del (h : r.Holds l) (a : α) : (r.del (some a)).Holds (l.filter (· ≠ a)) := by
  by_cases ha : a ∈ l
  · obtain ⟨f, b, rfl⟩ := append_of_mem ha
    have hnd : (a :: (f ++ b)).Nodup := perm_middle.nodup_iff.mp h.nodup
    have hfilter : (f ++ a :: b).filter (· ≠ a) = f ++ b := by
      rw [filter_append, filter_cons_of_neg (by simp), ← filter_append]
      refine filter_eq_self.mpr fun c hc => decide_eq_true ?_
      rintro rfl
      exact (nodup_cons.mp hnd).1 hc
    rw [hfilter]
    exact h.del_mem
  · have hfilter : l.filter (· ≠ a) = l :=
      filter_eq_self.mpr fun c hc => decide_eq_true fun he => ha (he ▸ hc)
    rw [hfilter, h.del_not_mem ha]
    exact h

theorem Holds.append (h : r.Holds (l ++ m)) (ha : a ∉ l ++ m) :
    (r.append (some a) m.head?).Holds (l ++ a :: m) := by
  obtain ⟨u, p, v, hp⟩ := exists_place l m
  obtain ⟨hu, hpn, hv⟩ := hp.chain_iff.mp h.chain
  have hnd : (a :: (l ++ m)).Nodup := nodup_cons.mpr ⟨ha, h.nodup⟩
  have hap : some a ≠ p := hp.ne_before fun hl => ha (mem_append_left m hl)
  have han : some a ≠ m.head? := hp.ne_after fun hm => ha (mem_append_right l hm)
  have hnext : ∀ x, x ≠ p → x ≠ some a → (r.append (some a) m.head?).next x = r.next x := by
    intro x hxp hxa
    simp only [Ring.append, addBetween, hpn.2, update_of_ne hxa, update_of_ne hxp]
  have hprev : ∀ y, y ≠ m.head? → y ≠ some a → (r.append (some a) m.head?).prev y = r.prev y := by
    intro y hyn hya
    simp only [Ring.append, addBetween, update_of_ne hya, update_of_ne hyn]
  obtain ⟨hu', hv'⟩ := hp.frame hnd hnext hprev hu hv
  refine ⟨perm_middle.nodup_iff.mpr hnd,
    hp.chain_cons_iff.mpr ⟨hu', ⟨?_, ?_⟩, ⟨?_, ?_⟩, hv'⟩, fun b hb => ?_⟩
  · simp only [Ring.append, addBetween, hpn.2, update_self]
  · simp only [Ring.append, addBetween, hpn.2, update_self]
  · simp only [Ring.append, addBetween, hpn.2, update_of_ne hap, update_self]
  · simp only [Ring.append, addBetween, hpn.2, update_of_ne han.symm, update_self]
  · have hbl : b ≠ a ∧ b ∉ l ++ m := by
      rw [perm_middle.mem_iff, mem_cons, not_or] at hb
      exact hb
    have hbs : some b ≠ some a := fun he => hbl.1 (some.inj he)
    rw [hnext _ (hp.ne_before fun hl => hbl.2 (mem_append_left m hl)) hbs,
      hprev _ (hp.ne_after fun hm => hbl.2 (mem_append_right l hm)) hbs]
    exact h.apart b hbl.2

theorem Holds.init (h : r.Holds l) (ha : a ∉ l) : (r.init (some a)).Holds l := by
  obtain ⟨hn, hp⟩ := h.apart a ha
  have hself : ∀ f : Option α → Option α, f (some a) = some a → update f (some a) (some a) = f := by
    intro f hf
    nth_rewrite 2 [← hf]
    exact update_eq_self (some a) f
  unfold Ring.init
  rw [hself r.next hn, hself r.prev hp]
  exact h

omit [DecidableEq α] in
theorem find_chain (test : α → Bool) {fuel : Nat} {x : Option α}
    (h : (x :: l.map some ++ [none]).IsChain r.Step) (hfuel : l.length ≤ fuel) :
    r.findFrom test fuel (r.next x) = some (l.dropWhile fun a => !test a).head? := by
  induction l generalizing x fuel with
  | nil =>
    rw [(isChain_pair.mp h).1]
    cases fuel <;> rfl
  | cons a l ih =>
    obtain ⟨hx, hrest⟩ := isChain_cons_cons.mp h
    obtain ⟨fuel, rfl⟩ : ∃ k, fuel = k + 1 := by
      rw [length_cons] at hfuel
      exact ⟨fuel - 1, by omega⟩
    rw [length_cons] at hfuel
    rw [hx.1, findFrom]
    by_cases ha : test a = true
    · rw [if_pos ha, dropWhile_cons_of_neg (by simp [ha])]
      rfl
    · rw [if_neg ha, dropWhile_cons_of_pos (by simp [ha])]
      exact ih hrest (by omega)

omit [DecidableEq α] in
theorem Holds.find (h : r.Holds l) (test : α → Bool) {fuel : Nat} (hfuel : l.length ≤ fuel) :
    r.findFrom test fuel (r.next none) = some (l.dropWhile fun a => !test a).head? :=
  find_chain test h.chain hfuel

end Ring

end Xfront
