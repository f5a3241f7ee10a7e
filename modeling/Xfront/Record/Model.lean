import Mathlib

/-!
# Sets of the RECORD extension (Xext/record/set.c)

A set of numbers from a list of intervals, as a bit vector or as a list of intervals; what
takes less room is chosen. The outcomes of allocations are arguments.
-/

namespace Xfront.Record
open BitVec

structure RecordSetInterval where
  first : UInt16
  last : UInt16
  deriving DecidableEq

/-- `RecordSetIteratePtr`, where nothing is `NULL`. -/
abbrev RecordSetIteratePtr := Option Nat

def bitsPerLong : Nat := 64

abbrev Long := BitVec bitsPerLong

structure BitVectorSet where
  maxMember : Int
  bitvec : List Long

structure IntervalListSet where
  intervals : List RecordSetInterval

inductive RecordSet
  | bitVector (s : BitVectorSet)
  | intervalList (s : IntervalListSet)

def maxMemberInInterval (pIntervals : List RecordSetInterval) : Int :=
  pIntervals.foldl (fun maxMember iv =>
    if maxMember < iv.last.toNat then iv.last.toNat else maxMember) (-1)

namespace BitVectorSet
variable (s : BitVectorSet)

def long (i : Nat) : Long := s.bitvec.getD i 0

def isMemberOfSet (pm : Nat) : Long :=
  if pm > s.maxMember then 0
  else s.long (pm / bitsPerLong) &&& twoPow bitsPerLong (pm % bitsPerLong)

def skipval (bitval : Bool) : Long := if bitval then 0 else allOnes bitsPerLong

/-- Words that are equal to `skipval` are skipped; the answer is the `startbit` behind. -/
def skipLongs (maxMember : Int) (skipval : Long) : List Long → Nat → Nat
  | [], startbit => startbit
  | long :: longs, startbit =>
    if startbit ≤ maxMember ∧ long = skipval then
      skipLongs maxMember skipval longs (startbit + bitsPerLong)
    else startbit

def walkBits (bits : Long) (bitval : Bool) : Nat → Nat → Nat
  | 0, walkbit => walkbit
  | left + 1, walkbit =>
    if decide (bits &&& twoPow bitsPerLong walkbit = 0) = bitval then
      walkBits bits bitval left (walkbit + 1)
    else walkbit

/-- The end of `BitVectorFindBit`, in the word that starts at `startbit`. -/
def findInLong (iterbit : Nat) (bitval : Bool) (startbit : Nat) : Nat :=
  let walkbit := if startbit < iterbit then iterbit - startbit else 0
  startbit + walkBits (s.long (startbit / bitsPerLong)) bitval (bitsPerLong - walkbit) walkbit

def findBit (iterbit : Nat) (bitval : Bool) : Option Nat :=
  let startlong := iterbit / bitsPerLong
  let startbit := startlong * bitsPerLong
  if startbit > s.maxMember then none
  else
    let usefulbits := ~~~(twoPow bitsPerLong (iterbit - startbit) - 1)
    if s.long startlong &&& usefulbits = skipval bitval &&& usefulbits then
      let startbit := skipLongs s.maxMember (skipval bitval) (s.bitvec.drop (startlong + 1))
        (startbit + bitsPerLong)
      if startbit > s.maxMember then none else some (s.findInLong iterbit bitval startbit)
    else some (s.findInLong iterbit bitval startbit)

def iterateSet (pIter : RecordSetIteratePtr) : Option (RecordSetInterval × Nat) :=
  match s.findBit (pIter.getD 0) true with
  | none => none
  | some b =>
    let last : UInt16 := match s.findBit b false with
      | none => s.maxMember.toNat.toUInt16
      | some b => (b - 1).toUInt16
    some (⟨b.toUInt16, last⟩, last.toNat + 1)

def setBit (bitvec : List Long) (j : Nat) : List Long :=
  bitvec.modify (j / bitsPerLong) (· ||| twoPow bitsPerLong (j % bitsPerLong))

def setInterval (bitvec : List Long) (iv : RecordSetInterval) : List Long :=
  (List.range' iv.first.toNat (iv.last.toNat + 1 - iv.first.toNat)).foldl setBit bitvec

end BitVectorSet

def toInt (size : Nat) : Int := (BitVec.ofNat 32 size).toInt

/-- `sizeof(BitVectorSet)`, `sizeof(IntervalListSet)` and their alignment. -/
def setSize : Nat := 16
def setAlignment : BitVec 64 := 8

def sizeofInterval : Nat := 4

def sizeofLong : Nat := 8

def bitVectorSetMemoryRequirements (maxMember : Int) : Int :=
  let nlongs := (maxMember + bitsPerLong).toNat / bitsPerLong
  toInt (setSize + nlongs * sizeofLong)

def bitVectorCreateSet (pIntervals : List RecordSetInterval) (memsize : Int)
    (allocated : Bool) : Option BitVectorSet :=
  if ¬ allocated then none
  else
    let bitvec : List Long := List.replicate ((memsize.toNat - setSize) / sizeofLong) 0
    some ⟨maxMemberInInterval pIntervals, pIntervals.foldl BitVectorSet.setInterval bitvec⟩

namespace IntervalListSet
variable (s : IntervalListSet)

def search (pm : Nat) (lo hi : Int) : Bool :=
  if lo ≤ hi then
    let probe := (hi + lo) / 2
    match s.intervals[probe.toNat]? with
    | none => false
    | some iv =>
      if pm ≥ iv.first.toNat ∧ pm ≤ iv.last.toNat then true
      else if pm < iv.first.toNat then search pm lo (probe - 1)
      else search pm (probe + 1) hi
  else false
termination_by (hi + 1 - lo).toNat

def isMemberOfSet (pm : Nat) : Long :=
  if s.search pm 0 (s.intervals.length - 1) then 1 else 0

def iterateSet (pIter : RecordSetIteratePtr) : Option (RecordSetInterval × Nat) :=
  let pInterval := pIter.getD 0
  match s.intervals[pInterval]? with
  | some iv => some (iv, pInterval + 1)
  | none => none

def insert (iv : RecordSetInterval) : List RecordSetInterval → List RecordSetInterval
  | [] => [iv]
  | stacked :: rest =>
    if iv.first < stacked.first then iv :: stacked :: rest else stacked :: insert iv rest

def merge : List RecordSetInterval → List RecordSetInterval
  | a :: b :: rest =>
    if a.last.toNat + 1 < b.first.toNat then a :: merge (b :: rest)
    else merge ({ a with last := max a.last b.last } :: rest)
  | rest => rest
termination_by l => l.length

end IntervalListSet

def intervalListMemoryRequirements (nIntervals : Nat) : Int :=
  toInt (setSize + nIntervals * sizeofInterval)

def intervalListCreateSet (pIntervals : List RecordSetInterval) (sortAllocated allocated : Bool) :
    Option IntervalListSet :=
  if pIntervals ≠ [] ∧ ¬ sortAllocated then none
  else if ¬ allocated then none
  else
    let stackIntervals := pIntervals.foldl (fun stacked iv => IntervalListSet.insert iv stacked) []
    some ⟨IntervalListSet.merge stackIntervals⟩

inductive CreateSet
  | bitVector | intervalList
  deriving DecidableEq

def recordSetMemoryRequirements (pIntervals : List RecordSetInterval) : Int × CreateSet :=
  let maxMember := maxMemberInInterval pIntervals
  let bmsize := bitVectorSetMemoryRequirements maxMember
  let rlsize := intervalListMemoryRequirements pIntervals.length
  if (pIntervals.length > 1 ∧ maxMember ≤ 255) ∨ bmsize < rlsize then (bmsize, .bitVector)
  else (rlsize, .intervalList)

/-- With `pMem` nothing is allocated for the set. -/
def recordCreateSet (pIntervals : List RecordSetInterval) (pMem : Option (BitVec 64))
    (memsize : Int) (sortAllocated setAllocated : Bool) : Option RecordSet :=
  let (size, pCreateSet) := recordSetMemoryRequirements pIntervals
  if pMem.any fun p => p &&& (setAlignment - 1) ≠ 0 ∨ memsize < size then none
  else
    let allocated := pMem.isSome || setAllocated
    match pCreateSet with
    | .bitVector => (bitVectorCreateSet pIntervals size allocated).map .bitVector
    | .intervalList =>
      (intervalListCreateSet pIntervals sortAllocated allocated).map .intervalList

namespace RecordSet

def isMemberOfSet (pm : Nat) : RecordSet → Long
  | .bitVector s => s.isMemberOfSet pm
  | .intervalList s => s.isMemberOfSet pm

def iterateSet (pIter : RecordSetIteratePtr) :
    RecordSet → Option (RecordSetInterval × Nat)
  | .bitVector s => s.iterateSet pIter
  | .intervalList s => s.iterateSet pIter

end RecordSet

end Xfront.Record
