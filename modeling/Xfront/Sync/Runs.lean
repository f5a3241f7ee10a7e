import Xfront.Sync.Once

/-!
# No trigger dangles

Over a run in which objects are destroyed, fences triggered, counters changed and groups freed in
any order, every group goes at most once and with one word to its client, unless it was freed by
itself.
-/

open Option

namespace Xfront.Sync
open Bool Prod
open Restart (visits)

section

variable {s s' s₁ s₂ : State} {view : View} {o : SyncId}

open SyncAlarm

theorem SyncAlarm.hangs_fire {al al' : SyncAlarm} {value : Option (BitVec 64)}
    (h : al.fire value = some al') : al'.hangs = al.hangs := by
  obtain ⟨state, test, rfl⟩ := fire_eq h
  rfl

theorem SyncAlarm.visitTimes_isSome {al : SyncAlarm} {value oldval : BitVec 64}
    (h : al.isTrue value oldval = true → al.hangs = false) (n : Nat) :
    (al.visitTimes value oldval n).isSome := by
  induction n generalizing al with
  | zero => rfl
  | succ n ih =>
    cases htrue : al.isTrue value oldval with
    | false =>
      rw [visitTimes_idle htrue]
      rfl
    | true =>
      have hends := h htrue
      obtain ⟨al', hfire⟩ : ∃ al', al.fire (some value) = some al' := by
        rw [← ne_none_iff_exists', ne_eq, fire_none (isTrue_iff.mp htrue).2, hends]
        exact Bool.false_ne_true
      rw [visitTimes, visit_true htrue, hfire, map_some, bind_some, isSome_map]
      exact ih fun _ => (hangs_fire hfire).trans hends

theorem Registered.changeReturns {obj : SyncObject} {oldval newval : BitVec 64}
    (h : Registered s none none view) (hobj : s.object o = some obj)
    (hbody : obj.body = .counter oldval)
    (hends : ∀ a al, s.alarm a = some al → al.trigger.pSync = some o →
      al.isTrue newval oldval = true → al.hangs = false) :
    ∃ r, s.syncChangeCounter o newval = some r := by
  obtain ⟨hwalk, hhit, hloop⟩ := h.changeWalk hobj hbody newval
  obtain ⟨r, hr⟩ := hwalk.visitAll_some (mates fun _ => rfl) hhit
    (List.nil_append _).symm (by
    intro a al hmem hal
    have hold : s.alarm a = some al := hal
    refine visitTimes_isSome (hends a al hold ?_) _
    obtain ⟨t, ht, hsync⟩ := h.known o _ hmem
    rw [State.trigger_alarm hold] at ht
    cases ht
    exact hsync)
  exact ⟨r, hloop.trans hr⟩

def eventsOf (outs : List (List Event × Option SyncError)) : List Event := outs.flatMap fst

def quietRun : List Act → List (List Event × Option SyncError) → Nat → Bool
  | act :: acts, out :: outs, g =>
    if 0 < out.1.countP (isFreed g) then act.quiet g else quietRun acts outs g
  | _, _, _ => false

theorem Registered.runSettles {acts : List Act} {outs : List (List Event × Option SyncError)}
    (h : Registered s none none view) (hrun : Run.exec State.step s acts = some (s', outs)) :
    (∃ view', Registered s' none none view') ∧
      Settles (quietRun acts outs) s (eventsOf outs) s' := by
  induction acts generalizing s view outs with
  | nil =>
    cases hrun
    exact ⟨⟨view, h⟩, Settles.refl⟩
  | cons act acts ih =>
    obtain ⟨⟨s₁, events₁, err₁⟩, hstep, hrest⟩ := bind_eq_some_iff.mp hrun
    obtain ⟨⟨s₂, outs₂⟩, hexec, heq⟩ := map_eq_some_iff.mp hrest
    cases heq
    obtain ⟨⟨view₁, h₁⟩, hsettles⟩ := h.step hstep
    obtain ⟨hkept, hsettles₂⟩ := ih h₁ hexec
    exact ⟨hkept, hsettles.andThen hsettles₂ fun g _ => rfl⟩

theorem Registered.freeCounterReturns {obj : SyncObject} (h : Registered s none none view)
    (hobj : s.object o = some obj) (hcounter : isCounter obj = true) :
    ∃ s' events, s.freeCounter o = some (s', events) ∧ s'.object o = none ∧
      ∀ a al, s.alarm a = some al → al.trigger.pSync = some o →
        ∃ al', s'.alarm a = some al' ∧ al'.state = .inactive ∧ al'.trigger.pSync = none := by
  obtain ⟨s', events, view', hdestroy, -, hobjects, -, halarms⟩ := h.destroyObject hobj
  refine ⟨s', events, (State.freeCounter_eq hobj hcounter).trans hdestroy, ?_, fun a al hal hsync =>
    ⟨al.detach, ?_, rfl, rfl⟩⟩
  · rw [State.object, hobjects, join_set_none, if_pos rfl]
  · rw [halarms a, hal, map_some, if_pos hsync]

structure Returns (s : State) : Prop where
  freeCounter : ∀ o obj, s.object o = some obj → isCounter obj = true →
    ∃ s' events, s.freeCounter o = some (s', events) ∧ s'.object o = none ∧
      ∀ a al, s.alarm a = some al → al.trigger.pSync = some o →
        ∃ al', s'.alarm a = some al' ∧ al'.state = .inactive ∧ al'.trigger.pSync = none
  destroyFence : ∀ o obj, s.object o = some obj → isCounter obj = false →
    ∃ s' events, s.syncDestroyFence o = some (s', events) ∧ s'.object o = none
  triggerFence : ∀ o obj, s.object o = some obj → isCounter obj = false →
    ∃ s' events, s.syncTriggerFence o = some (s', events) ∧ s'.lists.heads o = none
  changeCounter : ∀ o obj oldval newval, s.object o = some obj → obj.body = .counter oldval →
    (∀ a al, s.alarm a = some al → al.trigger.pSync = some o →
      al.isTrue newval oldval = true → al.hangs = false) →
    ∃ r, s.syncChangeCounter o newval = some r
  freeAwait : ∀ g u, s.await g = some u → ∃ r, s.freeAwait g = some r

theorem Registered.returns (h : Registered s none none view) : Returns s := by
  refine ⟨fun o obj hobj hcounter => h.freeCounterReturns hobj hcounter,
    fun o obj hobj hfence => ?_, fun o obj hobj hfence => ?_,
    fun o obj oldval newval hobj hbody hends => h.changeReturns hobj hbody hends,
    fun g u hu => ?_⟩
  · obtain ⟨s', events, view', hdestroy, -, hobjects, -⟩ := h.destroyObject hobj
    refine ⟨s', events, (State.syncDestroyFence_eq hobj hfence).trans hdestroy, ?_⟩
    rw [State.object, hobjects, join_set_none, if_pos rfl]
  · obtain ⟨s', events, view', htrigger, hreg, hnil, -⟩ := h.syncTriggerFence hobj hfence
    refine ⟨s', events, htrigger, ?_⟩
    rw [(hreg.holds.chain o).head, hnil]
    rfl
  · obtain ⟨s', hfree, -⟩ := h.freeAwait hu (by simp)
    exact ⟨_, hfree⟩

def NoneDangles (s : State) : Prop :=
  ∃ view, s.lists.Holds view ∧ (∀ o, ∀ p ∈ ptrs (view o), ∃ t, s.trigger p = some t ∧
    t.pSync = some o) ∧ ∀ p t o, s.trigger p = some t → t.pSync = some o →
      (∃ obj, s.object o = some obj) ∧ p ∈ ptrs (view o)

theorem Registered.noneDangles (h : Registered s none none view) : NoneDangles s := by
  refine ⟨view, h.holds, h.known, fun p t o ht ho => ⟨?_, h.listed p t o ht ho (by simp)⟩⟩
  obtain ⟨obj, hobj, -⟩ := h.live p t o ht ho
  exact ⟨obj, hobj⟩

structure Fate (g : Nat) (u : SyncAwaitUnion) (acts : List Act)
    (outs : List (List Event × Option SyncError)) (s' : State) (gone : Bool) : Prop where
  await : s'.await g = if gone then none else some u
  freed : (eventsOf outs).countP (isFreed g) = if gone then 1 else 0
  attends : (eventsOf outs).countP (isAttend g) = if gone && !quietRun acts outs g then 1 else 0
  client : ∀ c, .attend g c ∈ eventsOf outs → c = u.client

/-- No trigger dangles in a run, every step returns, and every group goes at most once. -/
theorem sync_run {acts : List Act} {outs : List (List Event × Option SyncError)}
    (h : Registered s none none view) (hrun : Run.exec State.step s acts = some (s', outs)) :
    NoneDangles s' ∧ Returns s' ∧
      ∀ g u, s.await g = some u → ∃ gone, Fate g u acts outs s' gone := by
  obtain ⟨⟨view', hreg⟩, hsettles⟩ := h.runSettles hrun
  refine ⟨hreg.noneDangles, hreg.returns, fun g u hu => ?_⟩
  obtain ⟨gone, hawait, hfreed, hattends⟩ := hsettles.groups g u hu
  exact ⟨gone, hawait, hfreed, hattends, fun c => hsettles.clients g u c hu⟩

end

def awaitTwice : List Act := [.createFence 1 false, .awaitFences 2 [some 0, some 0]]

theorem sync_run_destroyFence :
    ∃ s outs u s' outs', Run.exec State.step State.start awaitTwice = some (s, outs) ∧
      s.await 0 = some u ∧ Run.exec State.step s [.destroyFence 0] = some (s', outs') ∧
      NoneDangles s' ∧ Returns s' ∧ Fate 0 u [.destroyFence 0] outs' s' true := by
  obtain ⟨⟨s, outs⟩, hrun⟩ : ∃ r, Run.exec State.step State.start awaitTwice = some r :=
    isSome_iff_exists.mp (by rfl)
  obtain ⟨view, h⟩ := start_registered.run hrun
  have hgroup : ((Run.exec State.step State.start awaitTwice).bind fun r => r.1.await 0).isSome :=
    by rfl
  have hfreed : ((Run.exec State.step State.start awaitTwice).bind fun r =>
      (Run.exec State.step r.1 [.destroyFence 0]).map fun r =>
        (eventsOf r.2).countP (isFreed 0)) = some 1 := by rfl
  rw [hrun] at hgroup hfreed
  obtain ⟨u, hu⟩ := isSome_iff_exists.mp hgroup
  obtain ⟨⟨s', outs'⟩, hrun', hcount⟩ := map_eq_some_iff.mp hfreed
  obtain ⟨hnone, hreturns, hfates⟩ := sync_run h hrun'
  obtain ⟨gone, hfate⟩ := hfates 0 u hu
  have hgone : gone = true := by
    have hcount' := hfate.freed
    rw [hcount] at hcount'
    cases gone with
    | true => rfl
    | false => cases hcount'
  rw [hgone] at hfate
  exact ⟨s, outs, u, s', outs', hrun, hu, hrun', hnone, hreturns, hfate⟩

/-- A group that is freed by itself goes without an unblock. -/
theorem freeAwait_is_quiet :
    ∃ s outs s' outs', Run.exec State.step State.start awaitTwice = some (s, outs) ∧
      s.await 0 ≠ none ∧ Run.exec State.step s [.freeAwait 0] = some (s', outs') ∧
      s'.await 0 = none ∧ (eventsOf outs').countP (isAttend 0) = 0 := by
  obtain ⟨⟨s, outs⟩, hrun⟩ : ∃ r, Run.exec State.step State.start awaitTwice = some r :=
    isSome_iff_exists.mp (by rfl)
  have hgroup : ((Run.exec State.step State.start awaitTwice).bind fun r => r.1.await 0).isSome :=
    by rfl
  have hquiet : ((Run.exec State.step State.start awaitTwice).bind fun r =>
      (Run.exec State.step r.1 [.freeAwait 0]).map fun r =>
        (r.1.await 0, (eventsOf r.2).countP (isAttend 0))) = some (none, 0) := by rfl
  rw [hrun] at hgroup hquiet
  obtain ⟨⟨s', outs'⟩, hrun', heq⟩ := map_eq_some_iff.mp hquiet
  rw [mk.injEq] at heq
  exact ⟨s, outs, s', outs', hrun, isSome_iff_ne_none.mp hgroup, hrun', heq.1, heq.2⟩

end Xfront.Sync

/-!
## Updates of alarms

The check function of an alarm is the one of its test type, and the sign of `delta` suits it.
Then every update ends, after the least number of rounds that makes the trigger false. Only a
rejected request that gives another test type breaks this, since it is stored all the same.
-/

namespace Xfront.Sync

def CheckTrigger.suits (delta : BitVec 64) : CheckTrigger → Prop
  | .positiveTransition => 0 ≤ delta.toInt
  | .positiveComparison => 0 ≤ delta.toInt
  | .negativeTransition => delta.toInt ≤ 0
  | .negativeComparison => delta.toInt ≤ 0
  | .fence => True

/-- How an alarm with some value is updated for a counter with value `value`. -/
structure SyncAlarm.Updates (al : SyncAlarm) (value : BitVec 64) (al' : SyncAlarm) : Prop where
  zero : al.delta = 0 → al.trigger.checkTrigger.isComparison = true →
    al' = { al with state := .inactive }
  least : ¬(al.delta = 0 ∧ al.trigger.checkTrigger.isComparison = true) → ∃ k : Nat, 1 ≤ k ∧
      (∀ j : Nat, 1 ≤ j → j < k →
        al.trigger.checkTrigger.trueAt value.toInt (al.trigger.testValue.toInt + j * al.delta.toInt)) ∧
      ¬al.trigger.checkTrigger.trueAt value.toInt
        (al.trigger.testValue.toInt + k * al.delta.toInt) ∧
      (FitsInt64 (al.trigger.testValue.toInt + k * al.delta.toInt) → ∃ test : BitVec 64,
        al' = al.setTestValue test ∧ test.toInt = al.trigger.testValue.toInt + k * al.delta.toInt) ∧
      (¬FitsInt64 (al.trigger.testValue.toInt + k * al.delta.toInt) →
        al' = { al with state := .inactive })

section

variable {al al' : SyncAlarm} {value oldval : BitVec 64}

theorem SyncAlarm.Agrees.isComparison (h : al.Agrees) :
    al.isComparison = al.trigger.checkTrigger.isComparison := by
  rcases checkTriggerOf_cases h.check with ⟨ht, hc⟩ | ⟨ht, hc⟩ | ⟨ht, hc⟩ | ⟨ht, hc⟩ <;>
    rw [SyncAlarm.isComparison, ht, hc] <;> rfl

theorem SyncAlarm.Agrees.hangs (h : al.Agrees) : al.hangs = false := by
  rw [SyncAlarm.hangs, h.isComparison]
  cases al.trigger.checkTrigger.isComparison <;> simp

theorem slt_zero (delta : BitVec 64) : delta.slt 0 = false ↔ 0 ≤ delta.toInt := by
  simp [BitVec.slt]

theorem zero_slt (delta : BitVec 64) : BitVec.slt 0 delta = false ↔ delta.toInt ≤ 0 := by
  simp [BitVec.slt]

theorem SyncAlarm.Agrees.suits (h : al.Agrees) : al.trigger.checkTrigger.suits al.delta := by
  have hsign := h.sign
  rw [wrongSign, Bool.or_eq_false_iff] at hsign
  rcases checkTriggerOf_cases h.check with ⟨ht, hc⟩ | ⟨ht, hc⟩ | ⟨ht, hc⟩ | ⟨ht, hc⟩ <;>
    rw [ht] at hsign <;> rw [hc, CheckTrigger.suits]
  · exact (slt_zero _).mp (by simpa [positiveTransition, positiveComparison] using hsign.1)
  · exact (zero_slt _).mp
      (by simpa [negativeTransition, negativeComparison] using hsign.2)
  · exact (slt_zero _).mp (by simpa [positiveTransition, positiveComparison] using hsign.1)
  · exact (zero_slt _).mp
      (by simpa [negativeTransition, negativeComparison] using hsign.2)

theorem CheckTrigger.suits_ends {check : CheckTrigger} {delta : BitVec 64}
    (h : check.suits delta) (hzero : ¬(delta = 0 ∧ check.isComparison = true))
    (value test : Int) : ∃ k : Nat, 1 ≤ k ∧ ¬check.trueAt value (test + k * delta.toInt) := by
  have hne : delta ≠ 0 → delta.toInt ≠ 0 := fun hd h0 => hd (BitVec.eq_of_toInt_eq h0)
  cases check with
  | positiveTransition | negativeTransition | fence => exact ⟨1, le_refl 1, id⟩
  | positiveComparison =>
    have hpos : 1 ≤ delta.toInt := by
      have h0 := hne fun hd => hzero ⟨hd, rfl⟩
      rw [CheckTrigger.suits] at h
      omega
    refine ⟨(value - test).toNat + 1, by omega, ?_⟩
    rw [CheckTrigger.trueAt]
    have hmul : (((value - test).toNat + 1 : Nat) : Int) ≤
        (((value - test).toNat + 1 : Nat) : Int) * delta.toInt :=
      le_mul_of_one_le_right (Int.natCast_nonneg _) hpos
    omega
  | negativeComparison =>
    have hneg : 1 ≤ -delta.toInt := by
      have h0 := hne fun hd => hzero ⟨hd, rfl⟩
      rw [CheckTrigger.suits] at h
      omega
    refine ⟨(test - value).toNat + 1, by omega, ?_⟩
    rw [CheckTrigger.trueAt]
    have hmul : (((test - value).toNat + 1 : Nat) : Int) ≤
        (((test - value).toNat + 1 : Nat) : Int) * -delta.toInt :=
      le_mul_of_one_le_right (Int.natCast_nonneg _) hneg
    rw [Int.mul_neg] at hmul
    omega

theorem not_fitsInt64 {delta test : Int} (htest : FitsInt64 test) {j k : Nat} (hjk : j ≤ k)
    (hj : ¬FitsInt64 (test + j * delta)) : ¬FitsInt64 (test + k * delta) := by
  have hle : (j : Int) ≤ k := Int.ofNat_le.mpr hjk
  have hzero : (0 : Int) ≤ j := Int.natCast_nonneg j
  rw [FitsInt64] at *
  have hdir : 0 ≤ delta ∨ delta ≤ 0 := by omega
  rcases hdir with hpos | hneg
  · have hmul : (j : Int) * delta ≤ k * delta := Int.mul_le_mul_of_nonneg_right hle hpos
    have hnonneg : 0 ≤ (j : Int) * delta := Int.mul_nonneg hzero hpos
    omega
  · have hmul : (k : Int) * delta ≤ j * delta := Int.mul_le_mul_of_nonpos_right hle hneg
    have hnonpos : (j : Int) * delta ≤ 0 := Int.mul_nonpos_of_nonneg_of_nonpos hzero hneg
    omega

theorem SyncAlarm.Agrees.updates (h : al.Agrees)
    (htrue : al.trigger.checkTrigger.holds (.counter value) al.trigger.testValue oldval = true) :
    ∃ al', al.fire (some value) = some al' ∧ al.Updates value al' := by
  by_cases hzero : al.delta = 0 ∧ al.trigger.checkTrigger.isComparison = true
  · rw [← h.isComparison] at hzero
    refine ⟨_, fire_zero hzero, fun _ _ => rfl, fun hnot => absurd ?_ hnot⟩
    rw [← h.isComparison]
    exact hzero
  · have hzero' : ¬(al.delta = 0 ∧ al.isComparison = true) := by
      rw [h.isComparison]
      exact hzero
    obtain ⟨al', hfire⟩ : ∃ al', al.fire (some value) = some al' := by
      rw [← ne_none_iff_exists', ne_eq, fire_none htrue, h.hangs]
      exact Bool.false_ne_true
    refine ⟨al', hfire, fun hd hc => absurd ⟨hd, hc⟩ hzero, fun _ => ?_⟩
    rw [fire_some hzero'] at hfire
    obtain ⟨⟨next, overflow⟩, hadvance, heq⟩ := map_eq_some_iff.mp hfire
    obtain ⟨k, hk, hbefore, hstop, hfits, hnext⟩ := advance_some hadvance
    cases overflow with
    | false =>
      have hin := hfits.mp rfl
      exact ⟨k, hk, fun j hj hjk => (hbefore j hj hjk).2, fun ht => hstop ⟨hin, ht⟩,
        fun _ => ⟨next, heq.symm, hnext rfl⟩, fun hout => absurd hin hout⟩
    | true =>
      have hout : ¬FitsInt64 (al.trigger.testValue.toInt + k * al.delta.toInt) := fun hin =>
        Bool.true_eq_false.mp (hfits.mpr hin)
      have hends := CheckTrigger.suits_ends h.suits hzero value.toInt al.trigger.testValue.toInt
      classical
      obtain ⟨hpos, hfalse⟩ := Nat.find_spec hends
      -- the loop has stopped before the trigger became false
      have hle : k ≤ Nat.find hends := by
        by_contra hlt
        exact hfalse (hbefore _ hpos (Nat.lt_of_not_le hlt)).2
      have hout' := not_fitsInt64 (fitsInt64_toInt _) hle hout
      refine ⟨Nat.find hends, hpos, fun j hj hjk => ?_, hfalse, fun hin => absurd hin hout',
        fun _ => heq.symm⟩
      by_contra hnot
      exact Nat.find_min hends hjk ⟨hj, hnot⟩

end

end Xfront.Sync
