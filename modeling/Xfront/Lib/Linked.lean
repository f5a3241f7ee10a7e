import Mathlib

/-!
# Singly linked lists in a heap

Cells are allocated at new addresses, and a freed cell stays unreadable.
-/

namespace Xfront.Linked
open Prod

open List Option

abbrev Addr := Nat

variable {V : Type}

structure Node (V : Type) where
  val : V
  next : Option Addr
deriving DecidableEq

/-- The cells allocated so far; `none` is one that has been freed. -/
structure Heap (V : Type) where
  cells : List (Option (Node V))
deriving DecidableEq

def Heap.empty : Heap V := ⟨[]⟩

def Heap.size (h : Heap V) : Nat := h.cells.length

def Heap.read (h : Heap V) (a : Addr) : Option (Node V) := (h.cells[a]?).join

def Heap.write (h : Heap V) (a : Addr) (n : Node V) : Heap V := ⟨h.cells.set a (some n)⟩

def Heap.free (h : Heap V) (a : Addr) : Heap V := ⟨h.cells.set a none⟩

def Heap.alloc (h : Heap V) (n : Node V) : Heap V := ⟨h.cells ++ [some n]⟩

variable {h : Heap V} {a : Addr}

theorem read_lt {n : Node V} (hr : h.read a = some n) : a < h.size := by
  by_contra hlt
  rw [Heap.read, getElem?_eq_none (Nat.le_of_not_lt hlt)] at hr
  cases hr

theorem read_write_self {n : Node V} (m : Node V)
    (hr : h.read a = some n) : (h.write a m).read a = some m := by
  rw [Heap.read, Heap.write, getElem?_set_self (show a < h.cells.length from read_lt hr)]
  rfl

theorem read_write_ne {b : Addr} (n : Node V) (hne : a ≠ b) : (h.write a n).read b = h.read b := by
  rw [Heap.read, Heap.write, getElem?_set_ne hne]
  rfl

theorem read_free_self (h : Heap V) (a : Addr) : (h.free a).read a = none := by
  rw [Heap.read, Heap.free, getElem?_set]
  split
  · split <;> rfl
  · next hne => exact absurd rfl hne

theorem read_free_ne {b : Addr} (hne : a ≠ b) : (h.free a).read b = h.read b := by
  rw [Heap.read, Heap.free, getElem?_set_ne hne]
  rfl

theorem read_alloc_self (h : Heap V) (n : Node V) : (h.alloc n).read (h.size) = some n := by
  rw [Heap.read, Heap.alloc, Heap.size, getElem?_concat_length]
  rfl

theorem read_alloc_of_lt (n : Node V) (hlt : a < h.size) : (h.alloc n).read a = h.read a := by
  rw [Heap.read, Heap.alloc, getElem?_append_left (show a < h.cells.length from hlt)]
  rfl

/-- The addresses and values along the `next` fields, up to the null pointer. -/
def Chain (h : Heap V) : Option Addr → List (Addr × V) → Prop
  | p, [] => p = none
  | p, (a, v) :: l => p = some a ∧ ∃ q, h.read a = some ⟨v, q⟩ ∧ Chain h q l

def addrs (l : List (Addr × V)) : List Addr := l.map fst

variable {p : Option Addr} {l : List (Addr × V)} {v : V}

theorem Chain.read (hc : Chain h p l) (hm : (a, v) ∈ l) : ∃ q, h.read a = some ⟨v, q⟩ := by
  induction l generalizing p with
  | nil => cases hm
  | cons x l ih =>
    obtain ⟨b, w⟩ := x
    obtain ⟨_, q, hr, hrest⟩ := hc
    rcases mem_cons.mp hm with hm | hm
    · cases hm
      exact ⟨q, hr⟩
    · exact ih hrest hm

theorem Chain.lt (hc : Chain h p l) (hm : a ∈ addrs l) : a < h.size := by
  obtain ⟨⟨_, v⟩, hv, rfl⟩ := List.mem_map.mp hm
  obtain ⟨q, hr⟩ := hc.read hv
  exact read_lt hr

theorem Chain.congr {h' : Heap V} (hc : Chain h p l)
    (heq : ∀ a ∈ addrs l, h'.read a = h.read a) : Chain h' p l := by
  induction l generalizing p with
  | nil => exact hc
  | cons x l ih =>
    obtain ⟨a, v⟩ := x
    obtain ⟨hp, q, hr, hrest⟩ := hc
    exact ⟨hp, q, (heq a mem_cons_self).trans hr, ih hrest fun b hb => heq b (mem_cons_of_mem _ hb)⟩

variable {front back : List (Addr × V)}

theorem Chain.split (hc : Chain h p (front ++ (a, v) :: back)) :
    ∃ q, h.read a = some ⟨v, q⟩ ∧ Chain h q back := by
  induction front generalizing p with
  | nil =>
    obtain ⟨_, q, hr, hrest⟩ := hc
    exact ⟨q, hr, hrest⟩
  | cons x front ih =>
    obtain ⟨_, q, _, hrest⟩ := hc
    exact ih hrest

theorem Chain.head (hc : Chain h p l) : p = l.head?.map fst := by
  cases l with
  | nil => exact hc
  | cons x l => exact hc.1

theorem Chain.alloc (hc : Chain h p l)
    (v : V) : Chain (h.alloc ⟨v, p⟩) (some (h.size)) ((h.size, v) :: l) :=
  ⟨rfl, p, read_alloc_self h _, hc.congr fun _ ha => read_alloc_of_lt _ (hc.lt ha)⟩

theorem Chain.fresh (hc : Chain h p l) :
    h.size ∉ addrs l := fun hm => absurd (hc.lt hm) (lt_irrefl _)

theorem Chain.length_le (hc : Chain h p l) (hn : (addrs l).Nodup) : l.length ≤ h.size := by
  have hsub : addrs l ⊆ range h.size := fun a ha => mem_range.mpr (hc.lt ha)
  have := (subperm_of_subset hn hsub).length_le
  rwa [addrs, length_map, length_range] at this

theorem Chain.splice {h' : Heap V} {q : Option Addr} {back' : List (Addr × V)}
    {w : V} (hc : Chain h p (front ++ (a, v) :: back))
    (heq : ∀ b ∈ addrs front, h'.read b = h.read b) (ha : h'.read a = some ⟨w, q⟩)
    (hback : Chain h' q back') : Chain h' p (front ++ (a, w) :: back') := by
  induction front generalizing p with
  | nil => exact ⟨hc.1, q, ha, hback⟩
  | cons x front ih =>
    obtain ⟨hp, r, hr, hrest⟩ := hc
    exact ⟨hp, r, (heq x.1 mem_cons_self).trans hr,
      ih hrest fun b hb => heq b (mem_cons_of_mem _ hb)⟩

theorem addrs_append (l₁ l₂ : List (Addr × V)) : addrs (l₁ ++ l₂) = addrs l₁ ++ addrs l₂ :=
  map_append

theorem nodup_middle (hn : (addrs (front ++ (a, v) :: back)).Nodup) :
    a ∉ addrs front ∧ a ∉ addrs back ∧ (addrs (front ++ back)).Nodup := by
  rw [addrs, map_append, map_cons] at hn
  have hperm := List.nodup_middle.mp hn
  rw [nodup_cons, mem_append, not_or] at hperm
  exact ⟨hperm.1.1, hperm.1.2, by rw [addrs_append]; exact hperm.2⟩

theorem Chain.write {q : Option Addr} (hc : Chain h p (front ++ (a, v) :: back))
    (hn : (addrs (front ++ (a, v) :: back)).Nodup) (hr : h.read a = some ⟨v, q⟩) (w : V) :
    Chain (h.write a ⟨w, q⟩) p (front ++ (a, w) :: back) := by
  obtain ⟨hfront, hback, _⟩ := nodup_middle hn
  obtain ⟨q', hr', hrest⟩ := hc.split
  rw [hr] at hr'
  cases hr'
  refine hc.splice (fun b hb => read_write_ne _ ?_) (read_write_self _ hr)
    (hrest.congr fun b hb => read_write_ne _ ?_)
  · rintro rfl
    exact hfront hb
  · rintro rfl
    exact hback hb

def lastAddr (front : List (Addr × V)) : Option Addr := front.getLast?.map fst

def unlink (h : Heap V) (p : Option Addr) (prev : Option Addr) (a : Addr) :
    Option (Heap V × Option Addr) :=
  (h.read a).bind fun n =>
    match prev with
    | none => some (h.free a, n.next)
    | some b => (h.read b).map fun m => ((h.write b { m with next := n.next }).free a, p)

theorem lastAddr_cons (x : Addr × V) (front : List (Addr × V)) :
    lastAddr (x :: front) = some ((lastAddr front).getD x.1) := by
  cases h : front.getLast? <;> simp [lastAddr, getLast?_cons, h]

theorem Chain.unlink (hc : Chain h p (front ++ (a, v) :: back))
    (hn : (addrs (front ++ (a, v) :: back)).Nodup) :
    ∃ h' p', Linked.unlink h p (lastAddr front) a = some (h', p') ∧
      Chain h' p' (front ++ back) ∧ h'.read a = none ∧
      ∀ b, b ∉ addrs (front ++ (a, v) :: back) → h'.read b = h.read b := by
  obtain ⟨hfront, hback, _⟩ := nodup_middle hn
  obtain ⟨q, hr, hrest⟩ := hc.split
  have hfar : ∀ {h' : Heap V} {b : Addr}, a ≠ b → (h'.free a).read b = h'.read b := read_free_ne
  rcases eq_nil_or_concat front with rfl | ⟨pre, ⟨b, w⟩, rfl⟩
  · refine ⟨h.free a, q, ?_, ?_, read_free_self h a, fun b hb => hfar ?_⟩
    · rw [Linked.unlink, hr]
      rfl
    · exact hrest.congr fun b hb => hfar (by rintro rfl; exact hback hb)
    · rintro rfl
      exact hb mem_cons_self
  · have hc' : Chain h p (pre ++ (b, w) :: (a, v) :: back) := by
      rwa [concat_eq_append, append_assoc, singleton_append] at hc
    have hn' : (addrs (pre ++ (b, w) :: (a, v) :: back)).Nodup := by
      rwa [concat_eq_append, append_assoc, singleton_append] at hn
    obtain ⟨hpre, hrestb, _⟩ := nodup_middle hn'
    obtain ⟨qb, hrb, _⟩ := hc'.split
    have hab : a ≠ b := by
      rintro rfl
      exact hrestb mem_cons_self
    have hbback : ∀ c ∈ addrs back, b ≠ c := by
      rintro c hc rfl
      exact hrestb (mem_cons_of_mem _ hc)
    refine ⟨(h.write b ⟨w, q⟩).free a, p, ?_, ?_, read_free_self _ a, fun c hc => ?_⟩
    · have hlast : lastAddr (pre.concat (b, w)) = some b := by
        simp [lastAddr, concat_eq_append]
      rw [hlast, Linked.unlink, hr, bind_some]
      simp only [hrb, map_some]
    · rw [concat_eq_append, append_assoc, singleton_append]
      refine hc'.splice (q := q) (fun c hc => ?_) ?_ (hrest.congr fun c hc => ?_)
      · rw [hfar, read_write_ne]
        · rintro rfl
          exact hpre hc
        · rintro rfl
          exact hfront (by simp [addrs_append, concat_eq_append, hc])
      · rw [hfar hab, read_write_self _ hrb]
      · rw [hfar, read_write_ne _ (hbback c hc)]
        rintro rfl
        exact hback hc
    · have hne : a ≠ c ∧ b ≠ c := by
        constructor
        · rintro rfl
          exact hc (by simp [addrs])
        · rintro rfl
          exact hc (by simp [addrs, concat_eq_append])
      rw [hfar hne.1, read_write_ne _ hne.2]

/-- The first entry that meets a test, with the one before it. A walk that is longer than the
fuel has no result. -/
def find (h : Heap V) (test : V → Bool) :
    Nat → Option Addr → Option Addr → Option (Option (Option Addr × Addr))
  | _, _, none => some none
  | 0, _, some _ => none
  | fuel + 1, prev, some a => (h.read a).bind fun n =>
    if test n.val then some (some (prev, a)) else find h test fuel (some a) n.next

variable {fuel : Nat}

theorem Chain.find {test : V → Bool}
    (hc : Chain h p l) (hfuel : l.length ≤ fuel) (prev : Option Addr) :
    ((∀ x ∈ l, test x.2 = false) ∧ Linked.find h test fuel prev p = some none) ∨
      ∃ front a v back, l = front ++ (a, v) :: back ∧ (∀ x ∈ front, test x.2 = false) ∧
        test v = true ∧
        Linked.find h test fuel prev p = some (some ((lastAddr front).or prev, a)) := by
  induction l generalizing p fuel prev with
  | nil =>
    cases hc
    exact .inl ⟨by simp, by cases fuel <;> rfl⟩
  | cons x l ih =>
    obtain ⟨a, v⟩ := x
    obtain ⟨rfl, q, hr, hrest⟩ := hc
    obtain ⟨fuel, rfl⟩ : ∃ k, fuel = k + 1 := by
      rw [length_cons] at hfuel
      exact ⟨fuel - 1, by omega⟩
    have hstep : Linked.find h test (fuel + 1) prev (some a) =
        if test v then some (some (prev, a)) else Linked.find h test fuel (some a) q := by
      rw [Linked.find, hr, bind_some]
    rw [hstep]
    cases hv : test v with
    | true => exact .inr ⟨[], a, v, l, rfl, by simp, hv, by simp [lastAddr]⟩
    | false =>
      rw [length_cons] at hfuel
      rcases ih hrest (show l.length ≤ fuel by omega) (some a) with
        ⟨hall, hfind⟩ | ⟨front, b, w, back, rfl, hfront, hw, hfind⟩
      · refine .inl ⟨?_, hfind⟩
        simpa [hv] using hall
      · refine .inr ⟨(a, v) :: front, b, w, back, rfl, ?_, hw, ?_⟩
        · simpa [hv] using hfront
        · rw [lastAddr_cons, if_neg (by simp), hfind]
          cases lastAddr front <;> rfl

def walk (h : Heap V) : Nat → Option Addr → List (Addr × V)
  | _, none => []
  | 0, some _ => []
  | fuel + 1, some a =>
    match h.read a with
    | none => []
    | some n => (a, n.val) :: walk h fuel n.next

theorem Chain.walk (hc : Chain h p l) (hfuel : l.length ≤ fuel) : Linked.walk h fuel p = l := by
  induction l generalizing p fuel with
  | nil =>
    cases hc
    cases fuel <;> rfl
  | cons x l ih =>
    obtain ⟨a, v⟩ := x
    obtain ⟨rfl, q, hr, hrest⟩ := hc
    rw [length_cons] at hfuel
    obtain ⟨fuel, rfl⟩ : ∃ k, fuel = k + 1 := ⟨fuel - 1, by omega⟩
    rw [Linked.walk, hr]
    simp only [ih hrest (show l.length ≤ fuel by omega)]

def freeAll (h : Heap V) : Nat → Option Addr → Option (Heap V)
  | _, none => some h
  | 0, some _ => none
  | fuel + 1, some a => (h.read a).bind fun n => freeAll (h.free a) fuel n.next

theorem Chain.freeAll (hc : Chain h p l) (hn : (addrs l).Nodup) (hfuel : l.length ≤ fuel) :
    ∃ h', Linked.freeAll h fuel p = some h' ∧ (∀ a ∈ addrs l, h'.read a = none) ∧
      ∀ a, a ∉ addrs l → h'.read a = h.read a := by
  induction l generalizing h p fuel with
  | nil =>
    cases hc
    exact ⟨h, by cases fuel <;> rfl, by simp [addrs], fun _ _ => rfl⟩
  | cons x l ih =>
    obtain ⟨a, v⟩ := x
    obtain ⟨rfl, q, hr, hrest⟩ := hc
    obtain ⟨fuel, rfl⟩ : ∃ k, fuel = k + 1 := by
      rw [length_cons] at hfuel
      exact ⟨fuel - 1, by omega⟩
    have hfar : ∀ b ∈ addrs l, a ≠ b := by
      rintro b hb rfl
      exact (nodup_cons.mp hn).1 hb
    rw [length_cons] at hfuel
    obtain ⟨h', hfree, hgone, hkept⟩ := ih (h := h.free a)
      (hrest.congr fun b hb => read_free_ne (hfar b hb)) (nodup_cons.mp hn).2
      (show l.length ≤ fuel by omega)
    refine ⟨h', by rw [Linked.freeAll, hr, bind_some, hfree], ?_, fun b hb => ?_⟩
    · intro b hb
      rcases mem_cons.mp hb with rfl | hb
      · rw [hkept _ (nodup_cons.mp hn).1, read_free_self]
      · exact hgone b hb
    · have hb' := mem_cons.not.mp hb
      rw [not_or] at hb'
      rw [hkept b hb'.2, read_free_ne (Ne.symm hb'.1)]

end Xfront.Linked
