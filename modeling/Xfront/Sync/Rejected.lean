import Xfront.Sync.AlarmRequests

/-!
# Rejected changes of an alarm

`SyncChangeAlarmAttributes` stores the events that are selected, the attributes and the trigger
before the last checks are made.
-/

namespace Xfront.Sync
open Option Prod

variable {s s' : State} {client : Client} {a : Nat} {al : SyncAlarm} {c : AlarmAttributes}
  {query : SyncId → BitVec 64} {e : SyncError}

def SyncTrigger.TestSpared (t : SyncTrigger) (body : Option SyncBody) (changes : TriggerMask) :
    Prop :=
  (changes.valueType = true → t.valueType = syncRelative ∨ t.valueType = syncAbsolute) →
  changes.valueType = true ∨ changes.value = true →
  (t.valueType = syncAbsolute → t.testValue = t.waitValue) ∧
    (t.valueType ≠ syncAbsolute → ∀ value, body = some (.counter value) →
      t.testValue = value + t.waitValue)

open SyncTrigger

theorem initValue_spared {t : SyncTrigger} {body : Option SyncBody} {changes : TriggerMask}
    (hvalid : changes.valueType = true → t.valueType = syncRelative ∨ t.valueType = syncAbsolute) :
    (t.initValue body changes).1.testValue = t.testValue ↔ t.TestSpared body changes := by
  unfold initValue
  split
  next hgiven =>
    rw [Bool.or_eq_true] at hgiven
    split
    next habs =>
      constructor
      · intro hsame _ _
        exact ⟨fun _ => hsame.symm, fun hrel => absurd habs hrel⟩
      · intro hspared
        exact ((hspared hvalid hgiven).1 habs).symm
    next hrel =>
      split
      next value =>
        constructor
        · intro hsame _ _
          refine ⟨fun habs => absurd habs hrel, fun _ value' hbody => ?_⟩
          cases hbody
          exact hsame.symm
        · intro hspared
          exact ((hspared hvalid hgiven).2 hrel value rfl).symm
      all_goals
        refine iff_of_true rfl fun _ _ => ?_
        refine ⟨fun habs => absurd habs hrel, fun _ value hbody => ?_⟩
        cases hbody
  next hgiven =>
    rw [Bool.or_eq_true] at hgiven
    exact iff_of_true rfl fun _ hor => absurd hor hgiven

theorem SyncTrigger.init_error {t t' : SyncTrigger} {body : Option SyncBody}
    {changes : TriggerMask} (h : t.init body changes = (t', some e)) :
    t' = { t with testValue := t'.testValue } ∧
      (t'.testValue = t.testValue ↔ t.TestSpared body changes) := by
  unfold init at h
  split at h
  · next htype =>
    cases h
    refine ⟨rfl, iff_of_true rfl fun hvalid => ?_⟩
    simp only [Bool.and_eq_true, bne_iff_ne] at htype
    rcases hvalid htype.1.1 with hrel | habs
    · exact absurd hrel htype.1.2
    · exact absurd habs htype.2
  next htype =>
  have hvalid : changes.valueType = true →
      t.valueType = syncRelative ∨ t.valueType = syncAbsolute := by
    intro hgiven
    by_contra hnot
    rw [not_or] at hnot
    exact htype (by simp [hgiven, hnot.1, hnot.2])
  have htest : ∀ {u : SyncTrigger}, u.initTest body changes = (t', some e) → t' = u := by
    intro u hu
    unfold initTest at hu
    split at hu
    · split at hu
      · cases hu
      all_goals
        split at hu
        · cases hu
        · exact (Prod.mk.inj hu).1.symm
    · cases hu
  obtain rfl : t' = (t.initValue body changes).1 := by
    split at h
    next u err hvalue =>
      cases h
      rw [hvalue]
    next u hvalue =>
      rw [hvalue]
      exact htest h
  obtain ⟨test, hsame⟩ := t.initValue_same body changes
  refine ⟨?_, initValue_spared hvalid⟩
  rw [hsame]

def State.given (s : State) (t : SyncTrigger) (c : AlarmAttributes) :
    Except SyncError (Option SyncId) :=
  match c.counter with
  | none => .ok t.pSync
  | some none => .ok none
  | some (some o) => (s.lookup .counter o).map fun _ => some o

/-- The request leaves the alarm as it is: it is refused at once, or it selects the events that are
selected and then has deltas of the wrong sign, or gives attributes and a test value that the
alarm has already. -/
def SyncAlarm.Spared (al : SyncAlarm) (s : State) (client : Client) (c : AlarmAttributes)
    (query : SyncId → BitVec 64) : Prop :=
  (c.others || c.events.any fun v => v != 0 && v != 1) = true ∨
  (al.selectEvents client c.events = al ∧ (((c.delta.isSome || c.testType.isSome) &&
        wrongSign (c.trigger al.trigger).testType (c.delta.getD al.delta)) = true ∨
      (c.alarm al = al ∧ ∀ pSync, s.given al.trigger c = .ok pSync → al.trigger.TestSpared
          ((pSync.bind (s.queryValue query pSync).object).map SyncObject.body) c.mask)))

open State

theorem State.queryValue_keeps (s : State) (query : SyncId → BitVec 64) (pSync : Option SyncId) :
    (s.queryValue query pSync).alarms = s.alarms ∧ (s.queryValue query pSync).lists = s.lists := by
  unfold queryValue
  cases pSync with
  | none => exact ⟨rfl, rfl⟩
  | some o =>
    dsimp only
    split
    · split
      · split
        · exact ⟨rfl, rfl⟩
        · exact ⟨rfl, rfl⟩
      · exact ⟨rfl, rfl⟩
    · exact ⟨rfl, rfl⟩

theorem State.initTrigger_eq (s : State) (t : SyncTrigger) (c : AlarmAttributes)
    (query : SyncId → BitVec 64) :
    s.initTrigger t c.counter.join .counter c.mask query = match s.given t c with
      | .error e => (s, t, .error e)
      | .ok pSync =>
        match t.init ((pSync.bind (s.queryValue query pSync).object).map SyncObject.body)
            c.mask with
        | (t, some e) => (s.queryValue query pSync, t, .error e)
        | (t, none) => (s.queryValue query pSync, t, .ok pSync) := by
  obtain ⟨counter, valueType, value, testType, delta, events, others⟩ := c
  cases counter with
  | none => rfl
  | some o => cases o <;> rfl

theorem State.initTrigger_error {t t' : SyncTrigger}
    (h : s.initTrigger t c.counter.join .counter c.mask query = (s', t', .error e)) :
    s'.alarms = s.alarms ∧ s'.lists = s.lists ∧ t' = { t with testValue := t'.testValue } ∧
      (t'.testValue = t.testValue ↔ ∀ pSync, s.given t c = .ok pSync →
        t.TestSpared ((pSync.bind (s.queryValue query pSync).object).map SyncObject.body)
          c.mask) := by
  rw [s.initTrigger_eq] at h
  cases hsync : s.given t c with
  | error err =>
    rw [hsync] at h
    cases h
    exact ⟨rfl, rfl, rfl, iff_of_true rfl fun _ hok => nomatch hok⟩
  | ok pSync =>
    rw [hsync] at h
    dsimp only at h
    obtain ⟨halarms, hlists⟩ := s.queryValue_keeps query pSync
    split at h
    next u err hinit =>
      cases h
      obtain ⟨hsame, htest⟩ := init_error hinit
      refine ⟨halarms, hlists, hsame, htest.trans ?_⟩
      constructor
      · rintro hspared pSync' hok
        cases hok
        exact hspared
      · exact fun hspared => hspared pSync rfl
    next u hinit => cases (Prod.mk.inj (Prod.mk.inj h).2).2

theorem SyncAlarm.eq_of_stored {al sel : SyncAlarm} {t : SyncTrigger}
    (hsel : ∃ wanted clients, sel = { al with events := wanted, eventClients := clients })
    (ht : t = { (c.trigger al.trigger) with testValue := t.testValue }) :
    ({ (c.alarm sel) with trigger := t } : SyncAlarm) = al ↔
      sel = al ∧ c.alarm al = al ∧ t.testValue = al.trigger.testValue := by
  obtain ⟨wanted, clients, rfl⟩ := hsel
  obtain ⟨trigger, owner, delta, events, state, eventClients⟩ := al
  obtain ⟨pSync, waitValue, valueType, testType, testValue, checkTrigger⟩ := trigger
  rw [ht]
  simp only [AlarmAttributes.alarm, AlarmAttributes.trigger, SyncAlarm.mk.injEq,
    SyncTrigger.mk.injEq]
  tauto

/-- A change that fails leaves the alarm and the lists of triggers as they were exactly when it
spares the alarm. -/
theorem changeAlarm_rejected_iff (hal : s.alarm a = some al)
    (h : s.changeAlarmAttributes client a c query = some (s', some e)) :
    (s'.alarm a = some al ∧ s'.lists = s.lists) ↔ al.Spared s client c query := by
  unfold changeAlarmAttributes at h
  rw [hal, bind_some] at h
  by_cases hearly : (c.others || c.events.any fun v => v != 0 && v != 1) = true
  · rw [if_pos hearly] at h
    cases h
    exact iff_of_true ⟨hal, rfl⟩ (.inl hearly)
  rw [if_neg hearly] at h
  have hsel := al.selectEvents_same client c.events
  dsimp only at h
  have hchanged : (c.alarm (al.selectEvents client c.events)).trigger = c.trigger al.trigger ∧
      (c.alarm (al.selectEvents client c.events)).delta = c.delta.getD al.delta := by
    obtain ⟨wanted, clients, heq⟩ := hsel
    rw [heq]
    exact ⟨rfl, rfl⟩
  rw [hchanged.1, hchanged.2] at h
  have hset : ∀ (u : State) (al' : SyncAlarm), u.alarms = s.alarms → u.lists = s.lists →
      (((u.setAlarm a al').alarm a = some al ∧ (u.setAlarm a al').lists = s.lists) ↔
        al' = al) := by
    intro u al' halarms hlists
    have hu : u.alarm a = some al := by
      rw [alarm, halarms]
      exact hal
    rw [alarm_setAlarm hu, if_pos rfl, some.injEq]
    exact and_iff_left hlists
  by_cases hsign : ((c.delta.isSome || c.testType.isSome) &&
      wrongSign (c.trigger al.trigger).testType (c.delta.getD al.delta)) = true
  · rw [if_pos hsign] at h
    cases h
    rw [hset s _ rfl rfl]
    constructor
    · exact fun heq => .inr ⟨heq, .inl hsign⟩
    · rintro (habs | ⟨heq, -⟩)
      · exact absurd habs hearly
      · exact heq
  · rw [if_neg hsign] at h
    unfold storeAttributes at h
    rw [hchanged.1] at h
    split at h
    next u t err hinit =>
      obtain ⟨hs', -⟩ := mk.inj (some.inj h)
      obtain ⟨halarms, hlists, ht, htest⟩ := initTrigger_error hinit
      rw [← hs', hset u _ halarms hlists, SyncAlarm.eq_of_stored hsel ht]
      constructor
      · rintro ⟨hsame, hattrs, hvalue⟩
        have htrigger : c.trigger al.trigger = al.trigger := congrArg SyncAlarm.trigger hattrs
        rw [htrigger] at htest
        exact .inr ⟨hsame, .inr ⟨hattrs, htest.mp hvalue⟩⟩
      · rintro (habs | ⟨hsame, habs | ⟨hattrs, hspared⟩⟩)
        · exact absurd habs hearly
        · exact absurd habs hsign
        · have htrigger : c.trigger al.trigger = al.trigger := congrArg SyncAlarm.trigger hattrs
          rw [htrigger] at htest
          exact ⟨hsame, hattrs, htest.mpr hspared⟩
    next u t pSync hinit =>
      obtain ⟨u', -, hmap⟩ := bind_eq_some_iff.mp h
      obtain ⟨al', -, hmap⟩ := map_eq_some_iff.mp hmap
      cases (mk.inj hmap).2

def bareAlarm : State :=
  { start with alarms := [some (SyncAlarm.default 1)] }

def badTestType : AlarmAttributes where
  counter := none
  valueType := none
  value := none
  testType := some 9
  delta := none
  events := none
  others := false

theorem changeAlarm_rejected_iff_testType :
    ¬ (SyncAlarm.default 1).Spared bareAlarm 1 badTestType (fun _ => 0) := by
  intro hspared
  rcases hrun : bareAlarm.changeAlarmAttributes 1 0 badTestType (fun _ => 0) with _ | ⟨s', err⟩
  · have hsome : (bareAlarm.changeAlarmAttributes 1 0 badTestType (fun _ => 0)).isSome := by decide
    rw [hrun] at hsome
    cases hsome
  have herr : err = some .badValue := by
    have hmap : (bareAlarm.changeAlarmAttributes 1 0 badTestType (fun _ => 0)).map snd =
        some (some .badValue) := by decide
    rw [hrun] at hmap
    exact some.inj hmap
  rw [herr] at hrun
  have hsame := ((changeAlarm_rejected_iff
    (show bareAlarm.alarm 0 = some (SyncAlarm.default 1) from rfl) hrun).mpr hspared).1
  have hstored : (bareAlarm.changeAlarmAttributes 1 0 badTestType (fun _ => 0)).map
      (fun r => (r.1.alarm 0).map fun al => al.trigger.testType) = some (some 9) := by decide
  rw [hrun, map_some, hsame] at hstored
  cases hstored

/-- It is kept although it is refused: the alarm as a client creates it, and what is left of it. -/
theorem changeAlarm_keeps_testType :
    (State.start.createAlarm 1 ⟨none, none, none, none, none, none, false⟩ fun _ => 0).bind
        (fun r => r.1.alarm 0) = some { SyncAlarm.default 1 with state := .inactive } ∧
      ((start.createAlarm 1 ⟨none, none, none, none, none, none, false⟩ fun _ => 0).bind
        fun r => r.1.changeAlarm 1 0 badTestType fun _ => 0).map
          (fun r => (r.2.2, (r.1.alarm 0).map fun al => al.trigger.testType)) =
        some (some .badValue, some 9) := by
  decide +kernel

end Xfront.Sync
