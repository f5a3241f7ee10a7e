import Xfront.Lib.Runs
import Xfront.Record.Model

/-!
# Lists of intervals

Sorting and merging keep the numbers that are covered and leave the runs; the binary search
finds the run of a number.
-/

namespace Xfront.Record
open List
open Runs (Separate Apart)

def RecordSetInterval.pair (iv : RecordSetInterval) : Nat × Nat := (iv.first.toNat, iv.last.toNat)

def members (ivs : List RecordSetInterval) : Set Nat := Runs.covers (ivs.map RecordSetInterval.pair)

theorem mem_members {ivs : List RecordSetInterval} {m : Nat} :
    m ∈ members ivs ↔ ∃ iv ∈ ivs, iv.first.toNat ≤ m ∧ m ≤ iv.last.toNat := by
  simp [members, Runs.mem_covers, RecordSetInterval.pair]

def Ordered (iv : RecordSetInterval) : Prop := iv.first ≤ iv.last

theorem Ordered.le {iv : RecordSetInterval} (h : Ordered iv) : iv.pair.1 ≤ iv.pair.2 :=
  UInt16.le_iff_toNat_le.mp h

namespace IntervalListSet

def SortedFirst (l : List RecordSetInterval) : Prop :=
  l.Pairwise fun a b => a.first.toNat ≤ b.first.toNat

theorem insert_perm (iv : RecordSetInterval) (l : List RecordSetInterval) :
    (insert iv l).Perm (iv :: l) := by
  induction l with
  | nil => exact .refl _
  | cons stacked rest ih =>
    rw [insert]
    split
    · exact .refl _
    · exact (ih.cons stacked).trans (.swap iv stacked rest)

theorem insert_sorted (iv : RecordSetInterval) {l : List RecordSetInterval} (h : SortedFirst l) :
    SortedFirst (insert iv l) := by
  induction l with
  | nil => exact pairwise_singleton ..
  | cons stacked rest ih =>
    obtain ⟨hhead, hrest⟩ := pairwise_cons.mp h
    rw [insert]
    split
    · next hlt =>
      have hlt' := UInt16.lt_iff_toNat_lt.mp hlt
      refine pairwise_cons.mpr ⟨fun x hx => ?_, h⟩
      rcases mem_cons.mp hx with rfl | hx
      · exact hlt'.le
      · exact hlt'.le.trans (hhead x hx)
    · next hnot =>
      have hge : stacked.first.toNat ≤ iv.first.toNat := by
        rw [UInt16.lt_iff_toNat_lt] at hnot
        omega
      refine pairwise_cons.mpr ⟨fun x hx => ?_, ih hrest⟩
      rcases mem_cons.mp ((insert_perm iv rest).mem_iff.mp hx) with rfl | hx
      · exact hge
      · exact hhead x hx

theorem foldl_insert (ivs l : List RecordSetInterval) (h : SortedFirst l) :
    SortedFirst (ivs.foldl (fun stacked iv => insert iv stacked) l) ∧
      (ivs.foldl (fun stacked iv => insert iv stacked) l).Perm (ivs ++ l) := by
  induction ivs generalizing l with
  | nil => exact ⟨h, .refl _⟩
  | cons iv ivs ih =>
    obtain ⟨hs, hp⟩ := ih (insert iv l) (insert_sorted iv h)
    exact ⟨hs, hp.trans (((insert_perm iv l).append_left ivs).trans perm_middle)⟩

theorem merge_bound {p : Nat} (l : List RecordSetInterval) (h : ∀ x ∈ l, p ≤ x.first.toNat) :
    ∀ x ∈ merge l, p ≤ x.first.toNat := by
  induction l using merge.induct with
  | case1 a b rest hgap ih =>
    rw [merge, if_pos hgap]
    obtain ⟨ha, hrest⟩ := forall_mem_cons.mp h
    exact forall_mem_cons.mpr ⟨ha, ih hrest⟩
  | case2 a b rest htouch ih =>
    rw [merge, if_neg htouch]
    obtain ⟨ha, hrest⟩ := forall_mem_cons.mp h
    exact ih (forall_mem_cons.mpr ⟨ha, (forall_mem_cons.mp hrest).2⟩)
  | case3 l hl =>
    rw [merge]
    · exact h
    · exact hl

theorem merge_separate (l : List RecordSetInterval) (hs : SortedFirst l)
    (ho : ∀ iv ∈ l, Ordered iv) :
    Separate ((merge l).map RecordSetInterval.pair) ∧ members (merge l) = members l := by
  induction l using merge.induct with
  | case1 a b rest hgap ih =>
    obtain ⟨ha, hrest⟩ := pairwise_cons.mp hs
    obtain ⟨hoa, hor⟩ := forall_mem_cons.mp ho
    obtain ⟨hsep, hmem⟩ := ih hrest hor
    have hbound := merge_bound (p := b.first.toNat) (b :: rest)
      (forall_mem_cons.mpr ⟨le_rfl, (pairwise_cons.mp hrest).1⟩)
    rw [merge, if_pos hgap]
    refine ⟨hsep.cons hoa.le fun r hr => ?_, ?_⟩
    · obtain ⟨x, hx, rfl⟩ := mem_map.mp hr
      exact lt_of_lt_of_le hgap (hbound x hx)
    · ext m
      rw [members, map_cons, Runs.mem_covers_cons, ← members, hmem, members, members,
        map_cons, map_cons, map_cons, Runs.mem_covers_cons (r := a.pair)]
  | case2 a b rest htouch ih =>
    obtain ⟨ha, hrest⟩ := pairwise_cons.mp hs
    obtain ⟨hb, hrest⟩ := pairwise_cons.mp hrest
    obtain ⟨hoa, hor⟩ := forall_mem_cons.mp ho
    have hjoined : Ordered { a with last := max a.last b.last } := by
      rw [Ordered, UInt16.le_iff_toNat_le, UInt16.toNat_max]
      exact hoa.le.trans (le_max_left _ _)
    obtain ⟨hsep, hmem⟩ := ih
      (pairwise_cons.mpr ⟨fun x hx => ha x (mem_cons_of_mem _ hx), hrest⟩)
      (forall_mem_cons.mpr ⟨hjoined, (forall_mem_cons.mp hor).2⟩)
    have hjoin := Runs.covers_join (r := a.pair) (s := b.pair) (ha b mem_cons_self) (not_lt.mp htouch)
      (rest.map RecordSetInterval.pair)
    rw [merge, if_neg htouch]
    refine ⟨hsep, hmem.trans ?_⟩
    rw [members, members, map_cons, map_cons, map_cons, RecordSetInterval.pair, UInt16.toNat_max]
    exact hjoin
  | case3 l hl =>
    rw [merge]
    · refine ⟨?_, rfl⟩
      match l, hl with
      | [], _ => exact .nil
      | [a], _ => exact Separate.nil.cons (ho a mem_cons_self).le nofun
      | a :: b :: rest, hl => exact absurd rfl (hl a b rest)
    · exact hl

theorem apart_getElem? {l : List RecordSetInterval}
    (h : Separate (l.map RecordSetInterval.pair)) {i j : Nat} {a b : RecordSetInterval}
    (hij : i < j) (hi : l[i]? = some a) (hj : l[j]? = some b) :
    a.last.toNat + 1 < b.first.toNat := by
  obtain ⟨hi', rfl⟩ := List.getElem?_eq_some_iff.mp hi
  obtain ⟨hj', rfl⟩ := List.getElem?_eq_some_iff.mp hj
  exact pairwise_iff_getElem.mp (pairwise_map.mp h.apart) i j hi' hj' hij

variable {s : IntervalListSet}

theorem search_iff (h : Separate (s.intervals.map RecordSetInterval.pair))
    (pm : Nat) (lo hi : Int) (hlo : 0 ≤ lo) (hhi : hi < s.intervals.length) :
    s.search pm lo hi = true ↔ ∃ (i : Nat) (iv : RecordSetInterval), lo ≤ i ∧ i ≤ hi ∧
      s.intervals[i]? = some iv ∧ iv.first.toNat ≤ pm ∧ pm ≤ iv.last.toNat := by
  induction lo, hi using search.induct s pm with
  | case1 lo hi hle probe hnone =>
    have hlt : probe.toNat < s.intervals.length := by omega
    rw [getElem?_eq_getElem hlt] at hnone
    cases hnone
  | case2 lo hi hle probe iv hiv hin =>
    rw [search, if_pos hle]
    dsimp only
    rw [hiv]
    dsimp only
    rw [if_pos hin]
    exact iff_of_true rfl ⟨probe.toNat, iv, by omega, by omega, hiv, hin⟩
  | case3 lo hi hle probe iv hiv hout hlt ih =>
    rw [search, if_pos hle]
    dsimp only
    rw [hiv]
    dsimp only
    rw [if_neg hout, if_pos hlt, ih hlo (by omega)]
    -- from the middle on the intervals are behind the number
    constructor
    · rintro ⟨i, x, h₁, h₂, hx⟩
      exact ⟨i, x, h₁, by omega, hx⟩
    · rintro ⟨i, x, h₁, h₂, hx, hin⟩
      refine ⟨i, x, h₁, ?_, hx, hin⟩
      by_contra hge
      rcases lt_or_ge probe.toNat i with hpi | hpi
      · have hap := apart_getElem? h hpi hiv hx
        have hord := h.le _ (mem_map_of_mem (mem_of_getElem? hiv))
        simp only [RecordSetInterval.pair] at hord
        omega
      · have he : i = probe.toNat := by omega
        rw [he, hiv] at hx
        cases hx
        exact absurd hlt (not_lt.mpr hin.1)
  | case4 lo hi hle probe iv hiv hout hge ih =>
    rw [search, if_pos hle]
    dsimp only
    rw [hiv]
    dsimp only
    rw [if_neg hout, if_neg hge, ih (by omega) hhi]
    -- up to the middle they are before it
    constructor
    · rintro ⟨i, x, h₁, h₂, hx⟩
      exact ⟨i, x, by omega, h₂, hx⟩
    · rintro ⟨i, x, h₁, h₂, hx, hin⟩
      refine ⟨i, x, ?_, h₂, hx, hin⟩
      by_contra hlt
      rcases lt_or_ge i probe.toNat with hpi | hpi
      · have hap := apart_getElem? h hpi hx hiv
        have hord := h.le _ (mem_map_of_mem (mem_of_getElem? hx))
        simp only [RecordSetInterval.pair] at hord
        omega
      · have he : i = probe.toNat := by omega
        rw [he, hiv] at hx
        cases hx
        exact hout hin
  | case5 lo hi hgt =>
    rw [search, if_neg hgt]
    refine iff_of_false Bool.false_ne_true ?_
    rintro ⟨i, _, h₁, h₂, _⟩
    omega

theorem isMemberOfSet_iff (h : Separate (s.intervals.map RecordSetInterval.pair)) (pm : Nat) :
    s.isMemberOfSet pm ≠ 0 ↔ pm ∈ members s.intervals := by
  have hs := search_iff h pm 0 (s.intervals.length - 1) le_rfl (by omega)
  have hvalue : s.isMemberOfSet pm ≠ 0 ↔ s.search pm 0 (s.intervals.length - 1) = true := by
    rw [isMemberOfSet]
    split
    · next ht => exact iff_of_true (by decide) ht
    · next hf => exact iff_of_false (by simp) hf
  rw [hvalue, hs, mem_members]
  constructor
  · rintro ⟨i, iv, _, _, hiv, hin⟩
    exact ⟨iv, mem_of_getElem? hiv, hin⟩
  · rintro ⟨iv, hiv, hin⟩
    obtain ⟨i, hi⟩ := mem_iff_getElem?.mp hiv
    have hlt := (List.getElem?_eq_some_iff.mp hi).1
    exact ⟨i, iv, by omega, by omega, hi, hin⟩

end IntervalListSet

theorem intervalListCreateSet_separate {ivs : List RecordSetInterval}
    (h : ∀ iv ∈ ivs, Ordered iv) {m₁ m₂ : Bool} (hs : intervalListCreateSet ivs m₁ m₂ = some s) :
    Separate (s.intervals.map RecordSetInterval.pair) ∧ members s.intervals = members ivs := by
  rw [intervalListCreateSet] at hs
  split at hs
  · cases hs
  split at hs
  · cases hs
  cases hs
  obtain ⟨hsorted, hperm⟩ := IntervalListSet.foldl_insert ivs [] .nil
  rw [append_nil] at hperm
  obtain ⟨hsep, hmem⟩ := IntervalListSet.merge_separate _ hsorted
    fun iv hiv => h iv (hperm.mem_iff.mp hiv)
  exact ⟨hsep, hmem.trans (Runs.covers_perm (hperm.map _))⟩

end Xfront.Record
