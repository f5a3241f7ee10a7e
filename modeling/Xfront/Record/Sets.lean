import Xfront.Record.BitVector

/-!
# Both representations are the set

Members are those of the input intervals, and iterating gives the runs one after the other.
-/

namespace Xfront.Record
open List Option Bool RecordSetInterval
open Runs (Separate Scan IsRun)

/-- The calls of the iterator from one place on give these intervals, and then `NULL`. -/
inductive Iterates (s : RecordSet) : RecordSetIteratePtr → List RecordSetInterval → Prop
  | stop {pIter : RecordSetIteratePtr} : s.iterateSet pIter = none → Iterates s pIter []
  | next {pIter : RecordSetIteratePtr} {iv : RecordSetInterval} {next : Nat}
      {l : List RecordSetInterval} : s.iterateSet pIter = some (iv, next) →
      Iterates s (some next) l → Iterates s pIter (iv :: l)

namespace BitVectorSet
variable {s : BitVectorSet}

theorem Filled.le_of_bit (h : Filled s) {i : Nat} (hi : bit s.bitvec i = true) :
    (i : Int) ≤ s.maxMember := by
  by_contra hgt
  rw [h.beyond i (not_le.mp hgt)] at hi
  cases hi

theorem iterateSet_spec (h : Filled s) (hmax : s.maxMember < 2 ^ 16) (pIter : RecordSetIteratePtr) :
    (s.iterateSet pIter = none ∧ ∀ m, pIter.getD 0 ≤ m → bit s.bitvec m = false) ∨
      ∃ iv : RecordSetInterval, s.iterateSet pIter = some (iv, iv.last.toNat + 1) ∧
        pIter.getD 0 ≤ iv.first.toNat ∧
        (∀ m, pIter.getD 0 ≤ m → m < iv.first.toNat → bit s.bitvec m = false) ∧
        iv.first.toNat ≤ iv.last.toNat ∧
        (∀ m, iv.first.toNat ≤ m → m ≤ iv.last.toNat → bit s.bitvec m = true) ∧
        bit s.bitvec (iv.last.toNat + 1) = false := by
  have hfirst := findBit_found h (pIter.getD 0) true
  rw [iterateSet]
  cases hb : s.findBit (pIter.getD 0) true with
  | none =>
    rw [hb] at hfirst
    refine .inl ⟨rfl, fun m hm => ?_⟩
    rcases lt_or_ge s.maxMember (m : Int) with hlt | hle
    · exact h.beyond m hlt
    · exact of_not_eq_true (hfirst m hm hle)
  | some b =>
    rw [hb] at hfirst
    obtain ⟨hpb, hbit, hbefore⟩ := hfirst
    have hbmax := h.le_of_bit hbit
    have hbn : b.toUInt16.toNat = b := by
      rw [Nat.toUInt16_eq, UInt16.toNat_ofNat', Nat.mod_eq_of_lt (by omega)]
    have hlast := findBit_found h b false
    cases he : s.findBit b false with
    | none =>
      rw [he] at hlast
      have hm : s.maxMember.toNat.toUInt16.toNat = s.maxMember.toNat := by
        rw [Nat.toUInt16_eq, UInt16.toNat_ofNat', Nat.mod_eq_of_lt (by omega)]
      refine .inr ⟨⟨b.toUInt16, s.maxMember.toNat.toUInt16⟩, by dsimp only; rw [he], ?_⟩
      rw [hbn, hm]
      exact ⟨hpb, fun m h₁ h₂ => of_not_eq_true (hbefore m h₁ h₂), by omega,
        fun m h₁ h₂ => of_not_eq_false (hlast m h₁ (by omega)), h.beyond _ (by omega)⟩
    | some e =>
      rw [he] at hlast
      obtain ⟨hbe, hebit, hbetween⟩ := hlast
      have hne : b ≠ e := fun heq => by
        rw [heq, hebit] at hbit
        cases hbit
      have hprev := h.le_of_bit
        (of_not_eq_false (hbetween (e - 1) (by omega) (by omega)))
      have hm : (e - 1).toUInt16.toNat = e - 1 := by
        rw [Nat.toUInt16_eq, UInt16.toNat_ofNat', Nat.mod_eq_of_lt (by omega)]
      refine .inr ⟨⟨b.toUInt16, (e - 1).toUInt16⟩, by dsimp only; rw [he], ?_⟩
      have hback : e - 1 + 1 = e := by omega
      rw [hbn, hm, hback]
      exact ⟨hpb, fun m h₁ h₂ => of_not_eq_true (hbefore m h₁ h₂), by omega,
        fun m h₁ h₂ => of_not_eq_false (hbetween m h₁ (by omega)), hebit⟩

theorem iterates_scan (h : Filled s) (hmax : s.maxMember < 2 ^ 16) (n : Nat)
    (pIter : RecordSetIteratePtr) (hn : (s.maxMember + 1 - pIter.getD 0).toNat ≤ n) :
    ∃ l, Iterates (.bitVector s) pIter l ∧
      Scan {i | bit s.bitvec i = true} (pIter.getD 0) (l.map pair) := by
  have hmem : ∀ m, bit s.bitvec m = false → m ∉ {i | bit s.bitvec i = true} := by
    intro m hm hin
    rw [Set.mem_ofPred_eq, hm] at hin
    cases hin
  induction n generalizing pIter with
  | zero =>
    rcases iterateSet_spec h hmax pIter with ⟨hstop, hnone⟩ | ⟨iv, _, hp, _, hle, hin, _⟩
    · exact ⟨[], .stop hstop, .stop fun m hm => hmem m (hnone m hm)⟩
    · have hlast := h.le_of_bit (hin _ hle le_rfl)
      omega
  | succ n ih =>
    rcases iterateSet_spec h hmax pIter with ⟨hstop, hnone⟩ |
      ⟨iv, hnext, hp, hbefore, hle, hin, hout⟩
    · exact ⟨[], .stop hstop, .stop fun m hm => hmem m (hnone m hm)⟩
    · have hlast := h.le_of_bit (hin _ hle le_rfl)
      obtain ⟨l, hl, hscan⟩ := ih (some (iv.last.toNat + 1)) (by
        rw [getD_some]
        omega)
      exact ⟨iv :: l, .next hnext hl, .next hp (fun m h₁ h₂ => hmem m (hbefore m h₁ h₂)) hle hin
        (hmem _ hout) hscan⟩

end BitVectorSet

theorem IntervalListSet.iterates (s : IntervalListSet) (n : Nat) (pIter : RecordSetIteratePtr)
    (hn : s.intervals.length - pIter.getD 0 ≤ n) :
    Iterates (.intervalList s) pIter (s.intervals.drop (pIter.getD 0)) := by
  have hend : s.intervals.length ≤ pIter.getD 0 →
      Iterates (.intervalList s) pIter (s.intervals.drop (pIter.getD 0)) := by
    intro hle
    rw [drop_eq_nil_of_le hle]
    refine .stop ?_
    rw [RecordSet.iterateSet, IntervalListSet.iterateSet, getElem?_eq_none hle]
  induction n generalizing pIter with
  | zero => exact hend (by omega)
  | succ n ih =>
    rcases lt_or_ge (pIter.getD 0) s.intervals.length with hlt | hle
    · rw [drop_eq_getElem_cons hlt]
      refine .next (show _ = some (_, pIter.getD 0 + 1) from ?_) ?_
      · rw [RecordSet.iterateSet, IntervalListSet.iterateSet, getElem?_eq_getElem hlt]
      · refine ih (some (pIter.getD 0 + 1)) ?_ ?_
        · rw [getD_some]
          omega
        · rw [getD_some]
          intro hle
          rw [drop_eq_nil_of_le hle]
          refine .stop ?_
          rw [RecordSet.iterateSet, IntervalListSet.iterateSet]
          exact by rw [getD_some, getElem?_eq_none hle]
    · exact hend hle

structure Represents (s : RecordSet) (S : Set Nat) (seq : List RecordSetInterval) : Prop where
  member : ∀ pm, s.isMemberOfSet pm ≠ 0 ↔ pm ∈ S
  iterates : Iterates s none seq

def runsOf (ivs : List RecordSetInterval) : List RecordSetInterval :=
  IntervalListSet.merge (ivs.foldl (fun stacked iv => IntervalListSet.insert iv stacked) [])

theorem intervalListCreateSet_eq (ivs : List RecordSetInterval) :
    intervalListCreateSet ivs true true = some ⟨runsOf ivs⟩ := by
  rw [intervalListCreateSet, if_neg (by simp), if_neg (by simp)]
  rfl

variable {ivs : List RecordSetInterval}

theorem runsOf_separate (h : ∀ iv ∈ ivs, iv.first ≤ iv.last) :
    Separate ((runsOf ivs).map pair) ∧ members (runsOf ivs) = members ivs :=
  intervalListCreateSet_separate h (intervalListCreateSet_eq ivs)

theorem pair_injective : Function.Injective pair := by
  intro a b h
  rw [pair, pair, Prod.mk.injEq] at h
  obtain ⟨a₁, a₂⟩ := a
  obtain ⟨b₁, b₂⟩ := b
  rw [RecordSetInterval.mk.injEq]
  exact ⟨UInt16.toNat_inj.mp h.1, UInt16.toNat_inj.mp h.2⟩

section
variable (h : ∀ iv ∈ ivs, iv.first ≤ iv.last)
include h

theorem bitVector_represents {m : Bool} {s : BitVectorSet}
    (hs : bitVectorCreateSet ivs (bitVectorSetMemoryRequirements (maxMemberInInterval ivs)) m =
      some s) : Represents (.bitVector s) (members ivs) (runsOf ivs) := by
  obtain ⟨hfilled, hmax, hbit⟩ := bitVectorCreateSet_filled hs
  obtain ⟨l, hl, hscan⟩ := BitVectorSet.iterates_scan hfilled hmax _ none le_rfl
  have hS : {i | BitVectorSet.bit s.bitvec i = true} = members ivs := Set.ext hbit
  rw [hS] at hscan
  obtain ⟨hsep, hmem⟩ := runsOf_separate h
  have heq : l.map pair = (runsOf ivs).map pair :=
    hscan.separate.1.unique hsep (hscan.covers_eq.trans hmem.symm)
  refine ⟨fun pm => (BitVectorSet.isMemberOfSet_iff hfilled pm).trans (hbit pm), ?_⟩
  rwa [← map_injective_iff.mpr pair_injective heq]

theorem intervalList_represents
    {m₁ m₂ : Bool} {s : IntervalListSet}
    (hs : intervalListCreateSet ivs m₁ m₂ = some s) :
    Represents (.intervalList s) (members ivs) (runsOf ivs) := by
  obtain ⟨hsep, hmem⟩ := intervalListCreateSet_separate h hs
  refine ⟨fun pm => (IntervalListSet.isMemberOfSet_iff hsep pm).trans (hmem ▸ Iff.rfl), ?_⟩
  have hiter := s.iterates _ none le_rfl
  rw [getD_none, drop_zero] at hiter
  rw [intervalListCreateSet] at hs
  split at hs
  · cases hs
  split at hs
  · cases hs
  cases hs
  exact hiter

theorem recordCreateSet_represents
    {pMem : Option (BitVec 64)} {memsize : Int}
    {m₁ m₂ : Bool} {s : RecordSet} (hs : recordCreateSet ivs pMem memsize m₁ m₂ = some s) :
    Represents s (members ivs) (runsOf ivs) := by
  rw [recordCreateSet, recordSetMemoryRequirements] at hs
  split at hs
  next size create hreq =>
  split at hs
  · cases hs
  split at hreq <;> cases hreq
  · obtain ⟨s', hs', rfl⟩ := map_eq_some_iff.mp hs
    exact bitVector_represents h hs'
  · obtain ⟨s', hs', rfl⟩ := map_eq_some_iff.mp hs
    exact intervalList_represents h hs'

end

/-- Every set that is created from the intervals is their set: members are what some interval
contains, and iterating gives the maximal runs from left to right and stops. -/
theorem sets_equivalent (ivs : List RecordSetInterval) (h : ∀ iv ∈ ivs, iv.first ≤ iv.last) :
    ∃ seq : List RecordSetInterval, seq.Pairwise (fun r r' => r.last < r'.first) ∧
      (∀ a b : Nat, IsRun (members ivs) a b ↔ ∃ r ∈ seq, r.first.toNat = a ∧ r.last.toNat = b) ∧
      (∀ (allocated : Bool) (s : BitVectorSet),
        bitVectorCreateSet ivs (bitVectorSetMemoryRequirements (maxMemberInInterval ivs))
          allocated = some s → Represents (.bitVector s) (members ivs) seq) ∧
      (∀ (sortAllocated allocated : Bool) (s : IntervalListSet),
        intervalListCreateSet ivs sortAllocated allocated = some s →
          Represents (.intervalList s) (members ivs) seq) ∧
      (∀ (pMem : Option (BitVec 64)) (memsize : Int) (sortAllocated setAllocated : Bool)
        (s : RecordSet), recordCreateSet ivs pMem memsize sortAllocated setAllocated = some s →
          Represents s (members ivs) seq) ∧ ∃ s, recordCreateSet ivs none 0 true true = some s := by
  obtain ⟨hsep, hmem⟩ := runsOf_separate h
  refine ⟨runsOf ivs, ?_, fun a b => ?_, fun m s hs => bitVector_represents h hs,
    fun m₁ m₂ s hs => intervalList_represents h hs,
    fun pMem memsize m₁ m₂ s hs => recordCreateSet_represents h hs, ?_⟩
  · refine (pairwise_map.mp hsep.apart).imp fun {r r'} hgap => ?_
    rw [UInt16.lt_iff_toNat_lt]
    exact (Nat.lt_succ_self _).trans hgap
  · rw [← hmem, members, hsep.isRun_iff, List.mem_map]
    simp only [pair, Prod.mk.injEq]
  · rw [recordCreateSet]
    rcases recordSetMemoryRequirements ivs with ⟨size, create⟩
    cases create with
    | bitVector => exact ⟨_, rfl⟩
    | intervalList => exact ⟨.intervalList ⟨runsOf ivs⟩,
        congrArg (Option.map RecordSet.intervalList) (intervalListCreateSet_eq ivs)⟩

/-- Numbers up to the end of a word, and an interval that abuts on it. -/
theorem sets_equivalent_word : ∃ seq : List RecordSetInterval,
    seq.Pairwise (fun r r' => r.last < r'.first) ∧
      (∀ a b : Nat, IsRun (members [⟨64, 70⟩, ⟨3, 63⟩]) a b ↔
        ∃ r ∈ seq, r.first.toNat = a ∧ r.last.toNat = b) := by
  obtain ⟨seq, hsorted, hruns, _⟩ := sets_equivalent [⟨64, 70⟩, ⟨3, 63⟩] (by decide)
  exact ⟨seq, hsorted, hruns⟩

end Xfront.Record
