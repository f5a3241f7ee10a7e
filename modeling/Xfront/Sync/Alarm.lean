import Xfront.Sync.Firing

/-!
# The update of an alarm

`SyncAlarmTriggerFired` adds `delta` to the test value until the trigger is false. The loop as
arithmetic on integers, and when it ends.
-/

namespace Xfront.Sync
open Nat Option Bool BitVec

def FitsInt64 (x : Int) : Prop := -9223372036854775808 ≤ x ∧ x < 9223372036854775808

instance (x : Int) : Decidable (FitsInt64 x) := inferInstanceAs (Decidable (_ ∧ _))

theorem fitsInt64_toInt (a : BitVec 64) : FitsInt64 a.toInt := by
  have hle := @BitVec.le_two_mul_toInt 64 a
  have hlt := @BitVec.two_mul_toInt_lt 64 a
  rw [FitsInt64]
  omega

theorem checkedAdd_overflow (a b : BitVec 64) : (checkedAdd a b).2 = a.saddOverflow b := by
  rw [saddOverflow_eq, checkedAdd]
  cases a.msb <;> cases b.msb <;> cases (a + b).msb <;> rfl

theorem checkedAdd_fits {a b : BitVec 64} :
    (checkedAdd a b).2 = false ↔ FitsInt64 (a.toInt + b.toInt) := by
  rw [checkedAdd_overflow, saddOverflow, FitsInt64]
  simp only [or_eq_false_iff, decide_eq_false_iff_not]
  omega

theorem checkedAdd_toInt {a b : BitVec 64} (h : (checkedAdd a b).2 = false) :
    (checkedAdd a b).1.toInt = a.toInt + b.toInt := by
  rw [checkedAdd_overflow] at h
  exact toInt_add_of_not_saddOverflow (by rw [h]; exact Bool.false_ne_true)

def CheckTrigger.trueAt (value test : Int) : CheckTrigger → Prop
  | .positiveComparison => test ≤ value
  | .negativeComparison => value ≤ test
  | .positiveTransition => False
  | .negativeTransition => False
  | .fence => False

theorem CheckTrigger.holds_iff (check : CheckTrigger) (value test : BitVec 64) :
    check.holds (.counter value) test value = true ↔ check.trueAt value.toInt test.toInt := by
  cases check <;> simp only [CheckTrigger.holds, CheckTrigger.trueAt, BitVec.sle, BitVec.slt,
    and_eq_true, decide_eq_true_eq, false_eq_true, iff_false] <;> omega

/-- Another round of the loop is due after `k` rounds. -/
def SyncAlarm.goesOn (al : SyncAlarm) (value test : Int) (k : Nat) : Prop :=
  FitsInt64 (test + k * al.delta.toInt) ∧
    al.trigger.checkTrigger.trueAt value (test + k * al.delta.toInt)

section

variable {al : SyncAlarm} {value test next : BitVec 64} {fuel : Nat}

theorem SyncAlarm.advance_succ (al : SyncAlarm) (value test : BitVec 64) (fuel : Nat) :
    (al.goesOn value.toInt test.toInt 1 ∧ (test + al.delta).toInt = test.toInt + al.delta.toInt ∧
      al.advance value (fuel + 1) test = al.advance value fuel (test + al.delta)) ∨
    (¬al.goesOn value.toInt test.toInt 1 ∧
      al.advance value (fuel + 1) test = some (checkedAdd test al.delta)) := by
  rw [SyncAlarm.goesOn, cast_one, Int.one_mul, ← checkedAdd_fits]
  by_cases hover : (checkedAdd test al.delta).2 = false
  · have hsum := checkedAdd_toInt hover
    rw [← hsum, ← CheckTrigger.holds_iff]
    by_cases hholds : al.trigger.checkTrigger.holds (.counter value) (checkedAdd test al.delta).1
        value = true
    · refine .inl ⟨⟨hover, hholds⟩, rfl, ?_⟩
      simp only [SyncAlarm.advance, hover, hholds, Bool.not_false, Bool.and_self, if_true]
      rfl
    · refine .inr ⟨fun hand => hholds hand.2, ?_⟩
      simp only [SyncAlarm.advance, hholds, Bool.and_false, false_eq_true, if_false]
  · refine .inr ⟨fun hand => hover hand.1, ?_⟩
    rw [not_eq_false] at hover
    simp only [SyncAlarm.advance, hover, Bool.not_true, Bool.false_and, false_eq_true, if_false]
    rw [← hover]

theorem SyncAlarm.goesOn_add (h : (test + al.delta).toInt = test.toInt + al.delta.toInt) (k : Nat) :
    al.goesOn value.toInt (test + al.delta).toInt k ↔ al.goesOn value.toInt test.toInt (k + 1) := by
  have heq : test.toInt + al.delta.toInt + k * al.delta.toInt =
      test.toInt + ((k + 1 : Nat) : Int) * al.delta.toInt := by
    push_cast
    rw [Int.add_mul]
    omega
  rw [SyncAlarm.goesOn, SyncAlarm.goesOn, h, heq]

theorem SyncAlarm.advance_some {overflow : Bool}
    (h : al.advance value fuel test = some (next, overflow)) :
    ∃ k, 1 ≤ k ∧ (∀ j, 1 ≤ j → j < k → al.goesOn value.toInt test.toInt j) ∧
      ¬al.goesOn value.toInt test.toInt k ∧
      (overflow = false ↔ FitsInt64 (test.toInt + k * al.delta.toInt)) ∧
      (overflow = false → next.toInt = test.toInt + k * al.delta.toInt) := by
  induction fuel generalizing test with
  | zero => cases h
  | succ fuel ih =>
    rcases al.advance_succ value test fuel with ⟨hgo, hsum, heq⟩ | ⟨hstop, heq⟩
    · rw [heq] at h
      obtain ⟨k, hk, hbefore, hstop, hover, hnext⟩ := ih h
      rw [SyncAlarm.goesOn_add hsum] at hstop
      have hk' : (test + al.delta).toInt + k * al.delta.toInt =
          test.toInt + ((k + 1 : Nat) : Int) * al.delta.toInt := by
        push_cast
        rw [hsum, Int.add_mul]
        omega
      rw [hk'] at hover hnext
      refine ⟨k + 1, by omega, fun j hj hjk => ?_, hstop, hover, hnext⟩
      obtain ⟨j, rfl⟩ : ∃ i, j = i + 1 := ⟨j - 1, by omega⟩
      by_cases hzero : j = 0
      · subst hzero
        exact hgo
      · exact (SyncAlarm.goesOn_add hsum j).mp (hbefore j (by omega) (by omega))
    · rw [heq, some.injEq] at h
      refine ⟨1, le_refl 1, fun j hj hjk => absurd hjk (by omega), hstop, ?_, fun hover => ?_⟩
      · rw [cast_one, Int.one_mul, ← checkedAdd_fits, h]
      · have hsum := @checkedAdd_toInt test al.delta (by rw [h]; exact hover)
        rw [cast_one, Int.one_mul, ← hsum, h]

theorem SyncAlarm.advance_ends {k : Nat} (hk : 1 ≤ k) (hfuel : k ≤ fuel)
    (hstop : ¬al.goesOn value.toInt test.toInt k) : (al.advance value fuel test).isSome := by
  induction fuel generalizing test k with
  | zero => omega
  | succ fuel ih =>
    rcases al.advance_succ value test fuel with ⟨hgo, hsum, heq⟩ | ⟨-, heq⟩
    · obtain ⟨k, rfl⟩ : ∃ i, k = i + 1 := ⟨k - 1, by omega⟩
      rw [heq]
      rw [← SyncAlarm.goesOn_add hsum] at hstop
      refine ih ?_ (le_of_succ_le_succ hfuel) hstop
      rcases Nat.eq_zero_or_pos k with rfl | hpos
      · exact absurd hgo ((SyncAlarm.goesOn_add hsum 0).not.mp hstop)
      · exact hpos
    · rw [heq]
      rfl

theorem SyncAlarm.advance_hangs (hdelta : al.delta = 0)
    (htrue : al.trigger.checkTrigger.trueAt value.toInt test.toInt) :
    al.advance value fuel test = none := by
  induction fuel with
  | zero => rfl
  | succ fuel ih =>
    have hzero : test + al.delta = test := by rw [hdelta]; exact BitVec.add_zero test
    rcases al.advance_succ value test fuel with ⟨-, -, heq⟩ | ⟨hstop, -⟩
    · rw [heq, hzero, ih]
    · refine absurd ⟨?_, ?_⟩ hstop
      · rw [hdelta]
        simpa using fitsInt64_toInt test
      · rw [hdelta]
        simpa using htrue

theorem SyncAlarm.advance_isSome
    (h : al.delta ≠ 0 ∨ ¬al.trigger.checkTrigger.trueAt value.toInt test.toInt) :
    (al.advance value (2 ^ 64) test).isSome := by
  by_cases hdelta : al.delta = 0
  · refine SyncAlarm.advance_ends (le_refl 1) (Nat.one_le_two_pow) ?_
    rintro ⟨-, htrue⟩
    rw [hdelta] at htrue
    refine h.resolve_left (not_not_intro hdelta) ?_
    simpa using htrue
  · refine SyncAlarm.advance_ends Nat.one_le_two_pow (le_refl _) ?_
    rintro ⟨hfits, -⟩
    have htest := fitsInt64_toInt test
    have hne : al.delta.toInt ≠ 0 := fun h => hdelta (eq_of_toInt_eq h)
    have hcast : ((2 ^ 64 : Nat) : Int) = 18446744073709551616 := by norm_num
    rw [hcast] at hfits
    rw [FitsInt64] at hfits htest
    omega

end

def CheckTrigger.isComparison : CheckTrigger → Bool
  | .positiveComparison => true
  | .negativeComparison => true
  | .positiveTransition => false
  | .negativeTransition => false
  | .fence => false

def SyncAlarm.hangs (al : SyncAlarm) : Bool :=
  al.delta == 0 && al.trigger.checkTrigger.isComparison && !al.isComparison

def SyncAlarm.firesAgain (al : SyncAlarm) (value oldval : BitVec 64) : Bool :=
  !al.trigger.checkTrigger.isComparison && !(al.delta == 0 && al.isComparison) &&
    !(checkedAdd al.trigger.testValue al.delta).2 &&
    al.trigger.checkTrigger.holds (.counter value) (al.trigger.testValue + al.delta) oldval

theorem CheckTrigger.holds_comparison {check : CheckTrigger} (h : check.isComparison = true)
    (value test oldval : BitVec 64) : check.holds (.counter value) test oldval = true ↔
      check.trueAt value.toInt test.toInt := by
  rw [← CheckTrigger.holds_iff]
  cases check with
  | positiveComparison => rfl
  | negativeComparison => rfl
  | positiveTransition | negativeTransition | fence => cases h

theorem CheckTrigger.not_trueAt {check : CheckTrigger} (h : check.isComparison = false)
    (value test : Int) : ¬check.trueAt value test := by
  cases check with
  | positiveComparison => cases h
  | negativeComparison => cases h
  | positiveTransition | negativeTransition | fence => exact id

section

variable {al al' : SyncAlarm} {value oldval : BitVec 64}

theorem SyncAlarm.fire_some (hzero : ¬(al.delta = 0 ∧ al.isComparison = true)) :
    al.fire (some value) = (al.advance value (2 ^ 64) al.trigger.testValue).map fun r =>
      if r.2 then { al with state := .inactive } else al.setTestValue r.1 := by
  rw [SyncAlarm.fire, if_neg hzero]

theorem SyncAlarm.fire_zero (hzero : al.delta = 0 ∧ al.isComparison = true) :
    al.fire (some value) = some { al with state := .inactive } := by
  rw [SyncAlarm.fire, if_pos hzero]

theorem SyncAlarm.fire_none
    (htrue : al.trigger.checkTrigger.holds (.counter value) al.trigger.testValue oldval = true) :
    al.fire (some value) = none ↔ al.hangs = true := by
  by_cases hzero : al.delta = 0 ∧ al.isComparison = true
  · rw [SyncAlarm.fire_zero hzero, SyncAlarm.hangs, hzero.2]
    simp
  · rw [SyncAlarm.fire_some hzero, map_eq_none_iff, SyncAlarm.hangs]
    by_cases hdelta : al.delta = 0
    · have hcomp : al.isComparison = false := by simpa [hdelta] using hzero
      rw [hdelta, hcomp]
      cases hcheck : al.trigger.checkTrigger.isComparison with
      | true =>
        rw [SyncAlarm.advance_hangs hdelta
          ((CheckTrigger.holds_comparison hcheck value _ oldval).mp htrue)]
        simp
      | false =>
        have hends := @SyncAlarm.advance_isSome al value al.trigger.testValue
          (.inr (CheckTrigger.not_trueAt hcheck _ _))
        refine iff_of_false (fun h => ?_) (by simp)
        rw [h] at hends
        cases hends
    · have hends := @SyncAlarm.advance_isSome al value al.trigger.testValue (.inl hdelta)
      have hne : (al.delta == 0) = false := beq_eq_false_iff_ne.mpr hdelta
      rw [hne, Bool.false_and, Bool.false_and]
      refine iff_of_false (fun h => ?_) Bool.false_ne_true
      rw [h] at hends
      cases hends

theorem SyncAlarm.advance_transition (hcheck : al.trigger.checkTrigger.isComparison = false)
    (test : BitVec 64) : al.advance value (2 ^ 64) test = some (checkedAdd test al.delta) := by
  have hfuel : 2 ^ 64 = (2 ^ 64 - 1) + 1 := rfl
  rw [hfuel]
  rcases al.advance_succ value test (2 ^ 64 - 1) with ⟨hgo, -⟩ | ⟨-, heq⟩
  · exact absurd hgo.2 (CheckTrigger.not_trueAt hcheck _ _)
  · exact heq

theorem SyncAlarm.fire_again (hactive : al.state = .active)
    (hfire : al.fire (some value) = some al') :
    (al'.state = .active ∧ al'.trigger.checkTrigger.holds (.counter value) al'.trigger.testValue
      oldval = true) ↔ al.firesAgain value oldval = true := by
  by_cases hzero : al.delta = 0 ∧ al.isComparison = true
  · rw [SyncAlarm.fire_zero hzero] at hfire
    cases hfire
    simp [SyncAlarm.firesAgain, hzero]
  · have hzero' : (al.delta == 0 && al.isComparison) = false := by
      rw [eq_false_iff]
      simpa using hzero
    rw [SyncAlarm.fire_some hzero] at hfire
    obtain ⟨⟨next, overflow⟩, hadvance, heq⟩ := map_eq_some_iff.mp hfire
    rw [SyncAlarm.firesAgain, hzero']
    cases hcheck : al.trigger.checkTrigger.isComparison with
    | false =>
      rw [SyncAlarm.advance_transition hcheck, some.injEq] at hadvance
      rw [hadvance]
      have hnext : al.trigger.testValue + al.delta = next := congrArg Prod.fst hadvance
      cases overflow with
      | true =>
        rw [← heq]
        simp
      | false =>
        rw [← heq, hnext]
        simp [SyncAlarm.setTestValue, hactive]
    | true =>
      refine iff_of_false ?_ (by simp)
      cases overflow with
      | true =>
        rw [← heq]
        simp
      | false =>
        obtain ⟨k, -, -, hstop, hfits, hnext⟩ := SyncAlarm.advance_some hadvance
        rintro ⟨-, hholds⟩
        rw [← heq] at hholds
        refine hstop ⟨hfits.mp rfl, ?_⟩
        rw [← hnext rfl]
        exact (CheckTrigger.holds_comparison hcheck value next oldval).mp hholds

end

end Xfront.Sync
