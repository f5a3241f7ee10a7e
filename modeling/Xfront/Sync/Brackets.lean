import Xfront.Sync.Alarm
import Xfront.Sync.Requests

/-!
# The brackets of a system counter

`SyncComputeBracketValues` tells a system counter the values next to its own that some trigger
waits for; nothing is checked while the counter moves between them.
-/

namespace Xfront.Sync
open Option CheckTrigger

open List

inductive SyncCounterType where
  | neverChanges
  | neverIncreases
  | neverDecreases
  | unrestricted
deriving DecidableEq

def llongMax : BitVec 64 := 0x7fffffffffffffff
def llongMin : BitVec 64 := 0x8000000000000000

structure Brackets where
  bracketLess : BitVec 64
  bracketGreater : BitVec 64
  pnewltval : Bool
  pnewgtval : Bool
deriving DecidableEq

namespace Brackets

def start : Brackets := ⟨llongMin, llongMax, false, false⟩

def greater (b : Brackets) (test : BitVec 64) : Brackets :=
  if test.slt b.bracketGreater then { b with bracketGreater := test, pnewgtval := true } else b

def less (b : Brackets) (test : BitVec 64) : Brackets :=
  if b.bracketLess.slt test then { b with bracketLess := test, pnewltval := true } else b

def turn (ct : SyncCounterType) (value : BitVec 64) (b : Brackets) (t : SyncTrigger) : Brackets :=
  if t.testType = positiveComparison ∧ ct ≠ .neverIncreases ∨
      t.testType = negativeComparison ∧ ct ≠ .neverDecreases then
    if value.slt t.testValue then b.greater t.testValue
    else if t.testValue.slt value then b.less t.testValue
    else b
  else if t.testType = negativeTransition ∧ ct ≠ .neverIncreases then
    if t.testValue.sle value then b.less t.testValue
    else b.greater t.testValue
  else if t.testType = positiveTransition ∧ ct ≠ .neverDecreases then
    if value.sle t.testValue then b.greater t.testValue
    else b.less t.testValue
  else b

end Brackets

/-- What `BracketValues` is called with, if it is called. -/
def syncComputeBracketValues (ct : SyncCounterType) (value : BitVec 64)
    (triglist : List SyncTrigger) : Option (Option (BitVec 64) × Option (BitVec 64)) :=
  if ct = .neverChanges then none
  else
    let b := triglist.foldl (Brackets.turn ct value) .start
    some (if b.pnewltval then some b.bracketLess else none,
      if b.pnewgtval then some b.bracketGreater else none)

section

variable {ct : SyncCounterType} {value : BitVec 64} {b : Brackets} {t : SyncTrigger}
  {triglist : List SyncTrigger}

def SyncTrigger.Above (ct : SyncCounterType) (value : BitVec 64) (t : SyncTrigger) : Prop :=
  (t.testType = positiveComparison ∧ ct ≠ .neverIncreases ∨
      t.testType = negativeComparison ∧ ct ≠ .neverDecreases ∨
      t.testType = negativeTransition ∧ ct ≠ .neverIncreases) ∧
      value.toInt < t.testValue.toInt ∨
    t.testType = positiveTransition ∧ ct ≠ .neverDecreases ∧ value.toInt ≤ t.testValue.toInt

def SyncTrigger.Below (ct : SyncCounterType) (value : BitVec 64) (t : SyncTrigger) : Prop :=
  (t.testType = positiveComparison ∧ ct ≠ .neverIncreases ∨
      t.testType = negativeComparison ∧ ct ≠ .neverDecreases ∨
      t.testType = positiveTransition ∧ ct ≠ .neverDecreases) ∧
      t.testValue.toInt < value.toInt ∨
    t.testType = negativeTransition ∧ ct ≠ .neverIncreases ∧ t.testValue.toInt ≤ value.toInt

theorem slt_iff {x y : BitVec 64} : x.slt y = true ↔ x.toInt < y.toInt := by
  rw [BitVec.slt, decide_eq_true_eq]

theorem sle_iff {x y : BitVec 64} : x.sle y = true ↔ x.toInt ≤ y.toInt := by
  rw [BitVec.sle, decide_eq_true_eq]

namespace Brackets

theorem turn_cases : (t.Above ct value ∧ turn ct value b t = b.greater t.testValue) ∨
    (t.Below ct value ∧ turn ct value b t = b.less t.testValue) ∨
    (¬ t.Above ct value ∧ ¬ t.Below ct value ∧ turn ct value b t = b) := by
  have hnt : ∀ {x : BitVec 32}, x = negativeTransition →
      x ≠ positiveComparison ∧ x ≠ negativeComparison ∧ x ≠ positiveTransition := by
    rintro x rfl
    decide
  have hpt : ∀ {x : BitVec 32}, x = positiveTransition →
      x ≠ positiveComparison ∧ x ≠ negativeComparison ∧ x ≠ negativeTransition := by
    rintro x rfl
    decide
  unfold turn SyncTrigger.Above SyncTrigger.Below
  simp only [slt_iff, sle_iff]
  split
  · next hcomp =>
    have hnot : t.testType ≠ negativeTransition ∧ t.testType ≠ positiveTransition := by
      constructor
      · intro ht
        rcases hcomp with hcomp | hcomp
        · exact (hnt ht).1 hcomp.1
        · exact (hnt ht).2.1 hcomp.1
      · intro ht
        rcases hcomp with hcomp | hcomp
        · exact (hpt ht).1 hcomp.1
        · exact (hpt ht).2.1 hcomp.1
    split
    · next hlt => exact .inl ⟨.inl ⟨hcomp.imp_right .inl, hlt⟩, rfl⟩
    · split
      · next hgt => exact .inr (.inl ⟨.inl ⟨hcomp.imp_right .inl, hgt⟩, rfl⟩)
      · next hlt hgt =>
        refine .inr (.inr ⟨?_, ?_, rfl⟩)
        · rintro (⟨-, h⟩ | ⟨h, -⟩)
          · exact hlt h
          · exact hnot.2 h
        · rintro (⟨-, h⟩ | ⟨h, -⟩)
          · exact hgt h
          · exact hnot.1 h
  next hcomp =>
  rw [not_or] at hcomp
  split
  · next hneg =>
    split
    · next hle => exact .inr (.inl ⟨.inr ⟨hneg.1, hneg.2, hle⟩, rfl⟩)
    · next hle => exact .inl ⟨.inl ⟨.inr (.inr hneg), not_le.mp hle⟩, rfl⟩
  next hneg =>
  split
  · next hpos =>
    split
    · next hle => exact .inl ⟨.inr ⟨hpos.1, hpos.2, hle⟩, rfl⟩
    · next hle => exact .inr (.inl ⟨.inl ⟨.inr (.inr hpos), not_le.mp hle⟩, rfl⟩)
  · next hpos =>
    refine .inr (.inr ⟨?_, ?_, rfl⟩)
    · rintro (⟨h | h | h, -⟩ | ⟨h, h', -⟩)
      · exact hcomp.1 h
      · exact hcomp.2 h
      · exact hneg h
      · exact hpos ⟨h, h'⟩
    · rintro (⟨h | h | h, -⟩ | ⟨h, h', -⟩)
      · exact hcomp.1 h
      · exact hcomp.2 h
      · exact hpos h
      · exact hneg ⟨h, h'⟩

/-- The brackets are the next values that count among the triggers, if there are any within the
limits. -/
structure Spec (ct : SyncCounterType) (value : BitVec 64) (triglist : List SyncTrigger)
    (b : Brackets) : Prop where
  least : ∀ t ∈ triglist, t.Above ct value → b.bracketGreater.toInt ≤ t.testValue.toInt
  greatest : ∀ t ∈ triglist, t.Below ct value → t.testValue.toInt ≤ b.bracketLess.toInt
  greaterFrom : b.pnewgtval = true → ∃ t ∈ triglist, t.Above ct value ∧
    t.testValue = b.bracketGreater ∧ b.bracketGreater.toInt < llongMax.toInt
  lessFrom : b.pnewltval = true → ∃ t ∈ triglist, t.Below ct value ∧
    t.testValue = b.bracketLess ∧ llongMin.toInt < b.bracketLess.toInt
  noGreater : b.pnewgtval = false → b.bracketGreater = llongMax
  noLess : b.pnewltval = false → b.bracketLess = llongMin

section
variable (h : Spec ct value triglist b)
include h

theorem Spec.above_snoc
    (ht : t.Above ct value → b.bracketGreater.toInt ≤ t.testValue.toInt) :
    (∀ u ∈ triglist ++ [t], u.Above ct value → b.bracketGreater.toInt ≤ u.testValue.toInt) ∧
      (b.pnewgtval = true → ∃ u ∈ triglist ++ [t], u.Above ct value ∧
        u.testValue = b.bracketGreater ∧ b.bracketGreater.toInt < llongMax.toInt) := by
  refine ⟨fun u hu habove => ?_, fun hset => ?_⟩
  · rcases mem_append.mp hu with hu | hu
    · exact h.least u hu habove
    · rw [mem_singleton.mp hu] at habove ⊢
      exact ht habove
  · obtain ⟨u, hu, hrest⟩ := h.greaterFrom hset
    exact ⟨u, mem_append_left _ hu, hrest⟩

theorem Spec.below_snoc
    (ht : t.Below ct value → t.testValue.toInt ≤ b.bracketLess.toInt) :
    (∀ u ∈ triglist ++ [t], u.Below ct value → u.testValue.toInt ≤ b.bracketLess.toInt) ∧
      (b.pnewltval = true → ∃ u ∈ triglist ++ [t], u.Below ct value ∧
        u.testValue = b.bracketLess ∧ llongMin.toInt < b.bracketLess.toInt) := by
  refine ⟨fun u hu hbelow => ?_, fun hset => ?_⟩
  · rcases mem_append.mp hu with hu | hu
    · exact h.greatest u hu hbelow
    · rw [mem_singleton.mp hu] at hbelow ⊢
      exact ht hbelow
  · obtain ⟨u, hu, hrest⟩ := h.lessFrom hset
    exact ⟨u, mem_append_left _ hu, hrest⟩

theorem Spec.greater (ht : t.Above ct value)
    (hnot : ¬ t.Below ct value) : Spec ct value (triglist ++ [t]) (b.greater t.testValue) := by
  have hmax : b.bracketGreater.toInt ≤ llongMax.toInt := by
    have hfit := fitsInt64_toInt b.bracketGreater
    rw [FitsInt64] at hfit
    have heq : llongMax.toInt = 9223372036854775807 := by decide
    omega
  obtain ⟨hgreatest, hlessFrom⟩ := h.below_snoc fun hbelow => absurd hbelow hnot
  unfold Brackets.greater
  split
  · next hlt =>
    rw [slt_iff] at hlt
    refine ⟨fun u hu habove => ?_, hgreatest, fun _ => ⟨t, by simp, ht, rfl, ?_⟩, hlessFrom,
      by simp, h.noLess⟩
    · rcases mem_append.mp hu with hu | hu
      · exact le_trans (le_of_lt hlt) (h.least u hu habove)
      · rw [mem_singleton.mp hu]
    · exact lt_of_lt_of_le hlt hmax
  · next hlt =>
    rw [slt_iff, not_lt] at hlt
    obtain ⟨hleast, hgreaterFrom⟩ := h.above_snoc fun _ => hlt
    exact ⟨hleast, hgreatest, hgreaterFrom, hlessFrom, h.noGreater, h.noLess⟩

theorem Spec.less (ht : t.Below ct value)
    (hnot : ¬ t.Above ct value) : Spec ct value (triglist ++ [t]) (b.less t.testValue) := by
  have hmin : llongMin.toInt ≤ b.bracketLess.toInt := by
    have hfit := fitsInt64_toInt b.bracketLess
    rw [FitsInt64] at hfit
    have heq : llongMin.toInt = -9223372036854775808 := by decide
    omega
  obtain ⟨hleast, hgreaterFrom⟩ := h.above_snoc fun habove => absurd habove hnot
  unfold Brackets.less
  split
  · next hlt =>
    rw [slt_iff] at hlt
    refine ⟨hleast, fun u hu hbelow => ?_, hgreaterFrom, fun _ => ⟨t, by simp, ht, rfl, ?_⟩,
      h.noGreater, by simp⟩
    · rcases mem_append.mp hu with hu | hu
      · exact le_trans (h.greatest u hu hbelow) (le_of_lt hlt)
      · rw [mem_singleton.mp hu]
    · exact lt_of_le_of_lt hmin hlt
  · next hlt =>
    rw [slt_iff, not_lt] at hlt
    obtain ⟨hgreatest, hlessFrom⟩ := h.below_snoc fun _ => hlt
    exact ⟨hleast, hgreatest, hgreaterFrom, hlessFrom, h.noGreater, h.noLess⟩

end

theorem not_below_of_above (h : t.Above ct value) : ¬ t.Below ct value := by
  intro hbelow
  rcases h with ⟨-, h⟩ | ⟨ht, -, h⟩
  · rcases hbelow with ⟨-, h'⟩ | ⟨-, -, h'⟩ <;> omega
  · rcases hbelow with ⟨-, h'⟩ | ⟨ht', -, -⟩
    · omega
    · rw [ht] at ht'
      exact absurd ht' (by decide)

theorem Spec.foldl (triglist : List SyncTrigger) :
    Spec ct value triglist (triglist.foldl (turn ct value) start) := by
  induction triglist using reverseRecOn with
  | nil => exact ⟨fun _ h => absurd h not_mem_nil, fun _ h => absurd h not_mem_nil,
      fun h => (nomatch h), fun h => (nomatch h), fun _ => rfl, fun _ => rfl⟩
  | append_singleton triglist t ih =>
    rw [foldl_append, foldl_cons, foldl_nil]
    generalize triglist.foldl (turn ct value) start = b at ih
    rcases @turn_cases ct value b t with
      ⟨habove, hturn⟩ | ⟨hbelow, hturn⟩ | ⟨habove, hbelow, hturn⟩
    · rw [hturn]
      exact ih.greater habove (not_below_of_above habove)
    · rw [hturn]
      exact ih.less hbelow fun habove => not_below_of_above habove hbelow
    · rw [hturn]
      obtain ⟨hleast, hgreaterFrom⟩ := ih.above_snoc fun h => absurd h habove
      obtain ⟨hgreatest, hlessFrom⟩ := ih.below_snoc fun h => absurd h hbelow
      exact ⟨hleast, hgreatest, hgreaterFrom, hlessFrom, ih.noGreater, ih.noLess⟩

end Brackets

def SyncCounterType.Allows (value v : BitVec 64) : SyncCounterType → Prop
  | .neverChanges => v = value
  | .neverIncreases => v.sle value
  | .neverDecreases => value.sle v
  | .unrestricted => True

/-- The counter makes the trigger true by moving to `v`. -/
def SyncTrigger.Fires (value v : BitVec 64) (t : SyncTrigger) : Prop :=
  ∃ check, checkTriggerOf t.testType = some check ∧
    check.holds (.counter v) t.testValue value = true ∧
    check.holds (.counter value) t.testValue value = false

def SyncTrigger.Rises (ct : SyncCounterType) (value : BitVec 64) (t : SyncTrigger) : Prop :=
  (t.testType = positiveComparison ∨ t.testType = positiveTransition) ∧
    ct ≠ .neverChanges ∧ ct ≠ .neverIncreases ∧ value.toInt < t.testValue.toInt

def SyncTrigger.Falls (ct : SyncCounterType) (value : BitVec 64) (t : SyncTrigger) : Prop :=
  (t.testType = negativeComparison ∨ t.testType = negativeTransition) ∧
    ct ≠ .neverChanges ∧ ct ≠ .neverDecreases ∧ t.testValue.toInt < value.toInt

variable {v : BitVec 64}

theorem SyncTrigger.fires_iff : t.Fires value v ↔
    ((t.testType = positiveComparison ∨ t.testType = positiveTransition) ∧
      value.toInt < t.testValue.toInt ∧ t.testValue.toInt ≤ v.toInt) ∨
    ((t.testType = negativeComparison ∨ t.testType = negativeTransition) ∧
      t.testValue.toInt < value.toInt ∧ v.toInt ≤ t.testValue.toInt) := by
  unfold SyncTrigger.Fires checkTriggerOf
  by_cases hpt : t.testType = positiveTransition
  · rw [hpt]
    simp [holds, BitVec.sle, BitVec.slt, positiveTransition, positiveComparison,
      negativeComparison, negativeTransition]
  by_cases hnt : t.testType = negativeTransition
  · rw [hnt]
    simp [holds, BitVec.sle, BitVec.slt, positiveTransition, positiveComparison,
      negativeComparison, negativeTransition]
  by_cases hpc : t.testType = positiveComparison
  · rw [hpc]
    simp [holds, BitVec.sle, BitVec.slt, positiveTransition, positiveComparison,
      negativeComparison, negativeTransition]
    omega
  by_cases hnc : t.testType = negativeComparison
  · rw [hnc]
    simp [holds, BitVec.sle, BitVec.slt, positiveTransition, positiveComparison,
      negativeComparison, negativeTransition]
    omega
  · simp [hpt, hnt, hpc, hnc]

def bounds (ct : SyncCounterType) (value : BitVec 64) (triglist : List SyncTrigger) :
    Option (BitVec 64) × Option (BitVec 64) :=
  (syncComputeBracketValues ct value triglist).getD (none, none)

theorem bounds_spec (h : ct ≠ .neverChanges) : ∃ b, Brackets.Spec ct value triglist b ∧
    bounds ct value triglist = (if b.pnewltval then some b.bracketLess else none,
      if b.pnewgtval then some b.bracketGreater else none) := by
  refine ⟨_, Brackets.Spec.foldl triglist, ?_⟩
  rw [bounds, syncComputeBracketValues, if_neg h]
  rfl

theorem above_le_of_bounds (h : ct ≠ .neverChanges)
    (hv : ∀ x, (bounds ct value triglist).2 = some x → v.slt x) :
    ¬ ∃ t ∈ triglist, t.Above ct value ∧ t.testValue.slt llongMax ∧ t.testValue.sle v := by
  rintro ⟨t, ht, habove, hmax, hle⟩
  obtain ⟨b, hspec, hb⟩ := @bounds_spec ct value triglist h
  rw [slt_iff] at hmax
  rw [sle_iff] at hle
  have hleast := hspec.least t ht habove
  cases hset : b.pnewgtval with
  | false =>
    rw [hspec.noGreater hset] at hleast
    omega
  | true =>
    have hlt := hv b.bracketGreater (by rw [hb, hset]; rfl)
    rw [slt_iff] at hlt
    omega

theorem below_ge_of_bounds (h : ct ≠ .neverChanges)
    (hv : ∀ x, (bounds ct value triglist).1 = some x → x.slt v) :
    ¬ ∃ t ∈ triglist, t.Below ct value ∧ llongMin.slt t.testValue ∧ v.sle t.testValue := by
  rintro ⟨t, ht, hbelow, hmin, hle⟩
  obtain ⟨b, hspec, hb⟩ := @bounds_spec ct value triglist h
  rw [slt_iff] at hmin
  rw [sle_iff] at hle
  have hgreatest := hspec.greatest t ht hbelow
  cases hset : b.pnewltval with
  | false =>
    rw [hspec.noLess hset] at hgreatest
    omega
  | true =>
    have hlt := hv b.bracketLess (by rw [hb, hset]; rfl)
    rw [slt_iff] at hlt
    omega

theorem SyncTrigger.Above.le (h : t.Above ct value) : value.toInt ≤ t.testValue.toInt := by
  rcases h with ⟨-, h⟩ | ⟨-, -, h⟩ <;> omega

theorem SyncTrigger.Below.le (h : t.Below ct value) : t.testValue.toInt ≤ value.toInt := by
  rcases h with ⟨-, h⟩ | ⟨-, -, h⟩ <;> omega

theorem bounds_from (h : ct ≠ .neverChanges) : (∀ x, (bounds ct value triglist).1 = some x →
      ∃ u ∈ triglist, u.Below ct value ∧ u.testValue = x ∧ llongMin.toInt < x.toInt) ∧
      ∀ x, (bounds ct value triglist).2 = some x →
        ∃ u ∈ triglist, u.Above ct value ∧ u.testValue = x ∧ x.toInt < llongMax.toInt := by
  obtain ⟨b, hspec, hb⟩ := @bounds_spec ct value triglist h
  rw [hb]
  refine ⟨fun x hx => ?_, fun x hx => ?_⟩
  · obtain ⟨hset, hx⟩ := ite_none_right_eq_some.mp hx
    cases hx
    exact hspec.lessFrom hset
  · obtain ⟨hset, hx⟩ := ite_none_right_eq_some.mp hx
    cases hx
    exact hspec.greaterFrom hset

theorem rises_allowed (h : t.Rises ct value) (hnone : ¬ ∃ u ∈ triglist, u.Above ct value ∧
      u.testValue.slt llongMax ∧ u.testValue.sle t.testValue) : ct.Allows value t.testValue ∧
      (∀ x, (bounds ct value triglist).1 = some x → x.slt t.testValue) ∧
      ∀ x, (bounds ct value triglist).2 = some x → t.testValue.slt x := by
  obtain ⟨-, hchanges, hincreases, hlt⟩ := h
  obtain ⟨hless, hgreater⟩ := @bounds_from ct value triglist hchanges
  refine ⟨?_, fun x hx => ?_, fun x hx => ?_⟩
  · cases ct with
    | neverChanges => exact absurd rfl hchanges
    | neverIncreases => exact absurd rfl hincreases
    | neverDecreases => exact sle_iff.mpr (le_of_lt hlt)
    | unrestricted => trivial
  · obtain ⟨u, -, hbelow, rfl, -⟩ := hless x hx
    exact slt_iff.mpr (lt_of_le_of_lt hbelow.le hlt)
  · obtain ⟨u, hu, habove, rfl, hmax⟩ := hgreater x hx
    rw [slt_iff]
    by_contra hge
    exact hnone ⟨u, hu, habove, slt_iff.mpr hmax, sle_iff.mpr (not_lt.mp hge)⟩

theorem falls_allowed (h : t.Falls ct value) (hnone : ¬ ∃ u ∈ triglist, u.Below ct value ∧
      llongMin.slt u.testValue ∧ t.testValue.sle u.testValue) : ct.Allows value t.testValue ∧
      (∀ x, (bounds ct value triglist).1 = some x → x.slt t.testValue) ∧
      ∀ x, (bounds ct value triglist).2 = some x → t.testValue.slt x := by
  obtain ⟨-, hchanges, hdecreases, hlt⟩ := h
  obtain ⟨hless, hgreater⟩ := @bounds_from ct value triglist hchanges
  refine ⟨?_, fun x hx => ?_, fun x hx => ?_⟩
  · cases ct with
    | neverChanges => exact absurd rfl hchanges
    | neverIncreases => exact sle_iff.mpr (le_of_lt hlt)
    | neverDecreases => exact absurd rfl hdecreases
    | unrestricted => trivial
  · obtain ⟨u, hu, hbelow, rfl, hmin⟩ := hless x hx
    rw [slt_iff]
    by_contra hge
    exact hnone ⟨u, hu, hbelow, slt_iff.mpr hmin, sle_iff.mpr (not_lt.mp hge)⟩
  · obtain ⟨u, -, habove, rfl, -⟩ := hgreater x hx
    exact slt_iff.mpr (lt_of_lt_of_le hlt habove.le)

theorem SyncTrigger.Fires.direction (h : t.Fires value v) (hv : ct.Allows value v) :
    (t.Rises ct value ∧ t.testValue.sle v) ∨ (t.Falls ct value ∧ v.sle t.testValue) := by
  rcases SyncTrigger.fires_iff.mp h with ⟨htype, hlt, hle⟩ | ⟨htype, hlt, hle⟩
  · refine .inl ⟨⟨htype, ?_, ?_, hlt⟩, sle_iff.mpr hle⟩
    · rintro rfl
      rw [SyncCounterType.Allows] at hv
      subst hv
      omega
    · rintro rfl
      have hfall := sle_iff.mp hv
      omega
  · refine .inr ⟨⟨htype, ?_, ?_, hlt⟩, sle_iff.mpr hle⟩
    · rintro rfl
      rw [SyncCounterType.Allows] at hv
      subst hv
      omega
    · rintro rfl
      have hrise := sle_iff.mp hv
      omega

/-- No trigger is missed between the bounds exactly when before each one that the counter may meet
on its way there is one that counts, within the limits. -/
theorem brackets_miss_iff (ct : SyncCounterType) (value : BitVec 64) (triglist : List SyncTrigger) :
    (∀ v, ct.Allows value v → (∀ x, (bounds ct value triglist).1 = some x → x.slt v) →
      (∀ x, (bounds ct value triglist).2 = some x → v.slt x) → ∀ t ∈ triglist, ¬ t.Fires value v) ↔
    (∀ t ∈ triglist, t.Rises ct value → ∃ u ∈ triglist, u.Above ct value ∧
      u.testValue.slt llongMax ∧ u.testValue.sle t.testValue) ∧
    (∀ t ∈ triglist, t.Falls ct value → ∃ u ∈ triglist, u.Below ct value ∧
      llongMin.slt u.testValue ∧ t.testValue.sle u.testValue) := by
  constructor
  · intro hnone
    constructor
    · intro t ht hrises
      by_contra hmiss
      obtain ⟨hallows, hless, hgreater⟩ := rises_allowed hrises hmiss
      refine hnone t.testValue hallows hless hgreater t ht (SyncTrigger.fires_iff.mpr ?_)
      exact .inl ⟨hrises.1, hrises.2.2.2, le_refl _⟩
    · intro t ht hfalls
      by_contra hmiss
      obtain ⟨hallows, hless, hgreater⟩ := falls_allowed hfalls hmiss
      refine hnone t.testValue hallows hless hgreater t ht (SyncTrigger.fires_iff.mpr ?_)
      exact .inr ⟨hfalls.1, hfalls.2.2.2, le_refl _⟩
  · rintro ⟨hup, hdown⟩ v hallows hless hgreater t ht hfires
    rcases hfires.direction hallows with ⟨hrises, hle⟩ | ⟨hfalls, hle⟩
    · obtain ⟨u, hu, habove, hmax, hbefore⟩ := hup t ht hrises
      refine above_le_of_bounds hrises.2.1 hgreater ⟨u, hu, habove, hmax, ?_⟩
      exact sle_iff.mpr (le_trans (sle_iff.mp hbefore) (sle_iff.mp hle))
    · obtain ⟨u, hu, hbelow, hmin, hbefore⟩ := hdown t ht hfalls
      refine below_ge_of_bounds hfalls.2.1 hless ⟨u, hu, hbelow, hmin, ?_⟩
      exact sle_iff.mpr (le_trans (sle_iff.mp hle) (sle_iff.mp hbefore))

/-- A trigger of `SERVERTIME` for a transition to 10. -/
def transitionTo10 : SyncTrigger where
  pSync := some 0
  waitValue := 10
  valueType := syncAbsolute
  testType := positiveTransition
  testValue := 10
  checkTrigger := .positiveTransition

/-- The counter is handed no bound at all, and the trigger fires on the way from 5 to 10. -/
theorem brackets_servertime : bounds .neverDecreases 5 [transitionTo10] = (none, none) ∧
      SyncCounterType.Allows 5 10 .neverDecreases ∧
      transitionTo10.checkTrigger.holds (.counter 10) transitionTo10.testValue 5 = true ∧
      checkTriggerOf transitionTo10.testType = some transitionTo10.checkTrigger := by
  refine ⟨by decide, ?_, by decide, by decide⟩
  rw [SyncCounterType.Allows]
  decide

end

end Xfront.Sync
