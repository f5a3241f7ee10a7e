import Xfront.Sync.Kept

/-!
# Requests on alarms

Creating, changing and freeing an alarm keeps the triggers on their lists. An alarm that moves to
another counter is off its list for a moment.
-/

namespace Xfront.Sync
open Option List
open Linked (Addr Lists addrs)

section

variable {s s' : State} {pend : Option TriggerPtr} {view : View} {o : SyncId}

variable {a : Nat} {al : SyncAlarm}

theorem State.trigger_alarm (hal : s.alarm a = some al) :
    s.trigger (.alarm a) = some al.trigger := by
  rw [State.trigger, hal]
  rfl

variable {events : List Event}

theorem State.sendAlarmNotifyEvents_other
    (h : s.sendAlarmNotifyEvents a al = some events) : ∀ e ∈ events, isOther e = true := by
  simp only [State.sendAlarmNotifyEvents] at h
  intro e he
  cases hsync : al.trigger.pSync with
  | none =>
    rw [hsync] at h
    cases h
    rw [mem_singleton.mp he]
    rfl
  | some o =>
    rw [hsync] at h
    obtain ⟨obj, -, heq⟩ := map_eq_some_iff.mp h
    cases hbody : obj.body with
    | counter value =>
      simp only [hbody] at heq
      rw [← heq, mem_singleton] at he
      rw [he]
      rfl
    | fence triggered =>
      simp only [hbody] at heq
      rw [← heq] at he
      cases he

theorem State.alarmTriggerFired_cases (hrun : s.alarmTriggerFired a = some (s', events)) :
    (s' = s ∧ events = []) ∨ ∃ al al' value, s.alarm a = some al ∧ al.state = .active ∧
      al.fire value = some al' ∧ s' = s.setAlarm a al' ∧ ∀ e ∈ events, isOther e = true := by
  obtain ⟨al, hal, hrun⟩ := bind_eq_some_iff.mp hrun
  cases hsync : al.trigger.pSync with
  | none =>
    simp only [hsync] at hrun
    split at hrun
    · cases hrun
      exact .inl ⟨rfl, rfl⟩
    · next hactive =>
      obtain ⟨al', hfire, hrun⟩ := bind_eq_some_iff.mp hrun
      obtain ⟨events', hsend, heq⟩ := map_eq_some_iff.mp hrun
      cases heq
      exact .inr ⟨al, al', none, hal, not_not.mp hactive, hfire, rfl,
        State.sendAlarmNotifyEvents_other hsend⟩
  | some o =>
    simp only [hsync] at hrun
    obtain ⟨obj, -, hrun⟩ := bind_eq_some_iff.mp hrun
    cases hbody : obj.body with
    | fence triggered =>
      simp only [hbody] at hrun
      cases hrun
      exact .inl ⟨rfl, rfl⟩
    | counter value =>
      simp only [hbody] at hrun
      split at hrun
      · cases hrun
        exact .inl ⟨rfl, rfl⟩
      · next hactive =>
        obtain ⟨al', hfire, hrun⟩ := bind_eq_some_iff.mp hrun
        obtain ⟨events', hsend, heq⟩ := map_eq_some_iff.mp hrun
        cases heq
        exact .inr ⟨al, al', some value, hal, not_not.mp hactive, hfire, rfl,
          State.sendAlarmNotifyEvents_other hsend⟩

def Keeps (quiet : Nat → Bool) (s : State) (events : List Event) (s' : State) : Prop :=
  (∃ view', Registered s' none none view') ∧ Settles quiet s events s'

variable {quiet : Nat → Bool}

open SyncAlarm

theorem Registered.alarmTriggerFired
    (h : Registered s none none view) (hrun : s.alarmTriggerFired a = some (s', events)) :
    Keeps quiet s events s' := by
  rcases State.alarmTriggerFired_cases hrun with ⟨rfl, rfl⟩ |
    ⟨al, al', value, hal, -, hfire, rfl, hother⟩
  · exact ⟨⟨view, h⟩, Settles.refl⟩
  · obtain ⟨state, test, rfl⟩ := fire_eq hfire
    exact ⟨⟨view, h.setAlarm hal rfl (h.alarms a al hal)⟩, Settles.same rfl hother⟩

theorem Registered.moveAlarm {pSync : Option SyncId}
    (h : Registered s none none view) (hal : s.alarm a = some al)
    (hlive : ∀ o, pSync = some o → ∃ obj, s.object o = some obj ∧ isCounter obj = true) :
    ∃ s', s.moveAlarm a pSync = some s' ∧ (∃ view', Registered s' none none view') ∧
      s'.awaits = s.awaits ∧ ∀ b, s'.alarm b =
        if a = b then some { al with trigger := { al.trigger with pSync := pSync } }
        else s.alarm b := by
  rw [State.moveAlarm, hal, bind_some]
  by_cases hsame : pSync = al.trigger.pSync
  · subst hsame
    refine ⟨s, if_pos rfl, ⟨view, h⟩, rfl, fun b => ?_⟩
    split
    · next heq =>
      subst heq
      exact hal
    · rfl
  · rw [if_neg hsame]
    obtain ⟨lists, view₁, hdelete, hreg, hoff⟩ := h.deleteTrigger (State.trigger_alarm hal)
    rw [hdelete, bind_some]
    have hal₁ : State.alarm { s with lists := lists } a = some al := hal
    have hcheck := h.alarms a al hal
    have hreg₂ : Registered (State.setAlarm { s with lists := lists } a
        { al with trigger := { al.trigger with pSync := pSync } }) none (some (.alarm a)) view₁ := by
      refine ⟨hreg.holds, fun o p hp => ?_, fun p t o ht ho hne => ?_, hreg.once,
        fun p t o ht ho => ?_, hreg.full, hreg.destroyed, hreg.waits, fun b al₁ hb => ?_⟩
      · have hne : p ≠ .alarm a := by
          rintro rfl
          exact hoff o hp
        rw [State.trigger_setAlarm hal₁, if_neg hne]
        exact hreg.known o p hp
      · rw [State.trigger_setAlarm hal₁] at ht
        split at ht
        · next heq => exact absurd (congrArg some heq.symm) hne
        · exact hreg.listed p t o ht ho hne
      · rw [State.trigger_setAlarm hal₁] at ht
        split at ht
        · cases ht
          obtain ⟨obj, hobj, hcounter⟩ := hlive o ho
          refine ⟨obj, hobj, iff_of_false hcheck ?_⟩
          rw [hcounter]
          exact Bool.true_eq_false.mp
        · exact hreg.live p t o ht ho
      · rw [State.alarm_setAlarm hal₁] at hb
        split at hb
        · cases hb
          exact hcheck
        · exact hreg.alarms b al₁ hb
    have htrigger : (State.setAlarm { s with lists := lists } a
        { al with trigger := { al.trigger with pSync := pSync } }).trigger (.alarm a) =
        some { al.trigger with pSync := pSync } := by
      rw [State.trigger_setAlarm hal₁, if_pos rfl]
    obtain ⟨lists', view₂, hadd, hreg₃⟩ := hreg₂.addTrigger htrigger hoff
    exact ⟨_, hadd, ⟨view₂, hreg₃⟩, rfl, State.alarm_setAlarm hal₁ _⟩

theorem SyncAlarm.selectEvents_same (al : SyncAlarm) (client : Client)
    (events : Option (BitVec 32)) : ∃ wanted clients, al.selectEvents client events =
      { al with events := wanted, eventClients := clients } := by
  cases events with
  | none => exact ⟨al.events, al.eventClients, rfl⟩
  | some v =>
    rw [selectEvents, eventSelect]
    split
    · exact ⟨_, al.eventClients, rfl⟩
    · split
      · split
        · exact ⟨al.events, al.eventClients, rfl⟩
        · exact ⟨al.events, _, rfl⟩
      · split
        · exact ⟨al.events, _, rfl⟩
        · exact ⟨al.events, al.eventClients, rfl⟩

/-- What storing the attributes in the alarm `al'` has left in `al₁`. -/
structure Stored (s : State) (a : Nat) (al' : SyncAlarm) (given : Bool) (s' : State)
    (err : Option SyncError) (al₁ : SyncAlarm) : Prop where
  registered : ∃ view', Registered s' none none view'
  awaits : s'.awaits = s.awaits
  alarm : ∀ b, s'.alarm b = if a = b then some al₁ else s.alarm b
  testType : al₁.trigger.testType = al'.trigger.testType
  delta : al₁.delta = al'.delta
  pSync : err ≠ none → al₁.trigger.pSync = al'.trigger.pSync
  failed : err ≠ none → al₁.trigger.checkTrigger = al'.trigger.checkTrigger
  checked : err = none → if given
    then checkTriggerOf al'.trigger.testType = some al₁.trigger.checkTrigger
    else al₁.trigger.checkTrigger = al'.trigger.checkTrigger

variable {c : AlarmAttributes} {query : SyncId → BitVec 64}

theorem Registered.storeAttributes {al' : SyncAlarm}
    (h : Registered s none none view) (hal : s.alarm a = some al)
    (hsync : al'.trigger.pSync = al.trigger.pSync)
    (hcheck : al'.trigger.checkTrigger = al.trigger.checkTrigger) :
    ∃ s' err al₁, s.storeAttributes a al' c query = some (s', err) ∧
      Stored s a al' c.testType.isSome s' err al₁ ∧
      ((∃ pSync, (s.initTrigger al'.trigger c.counter.join .counter c.mask query).2.2 =
        .ok pSync) → err = none) := by
  rw [State.storeAttributes]
  generalize hinit : s.initTrigger al'.trigger c.counter.join .counter c.mask query = r
  obtain ⟨s₁, t₁, e | pSync⟩ := r
  · have hdone := h.initAlarm hal hsync hcheck hinit
    have hal₁ : s₁.alarm a = some al := by
      rw [State.alarm, hdone.alarms]
      exact hal
    refine ⟨s₁.setAlarm a { al' with trigger := t₁ }, some e, { al' with trigger := t₁ }, rfl,
      ⟨⟨view, hdone.registered.setAlarm hal₁ (hdone.pSync.trans hsync) hdone.notFence⟩,
        hdone.awaits, fun b => ?_, hdone.testType, rfl, fun _ => hdone.pSync,
        fun _ => hdone.failed e rfl, by simp⟩, by simp⟩
    rw [State.alarm_setAlarm hal₁, State.alarm, State.alarm, hdone.alarms]
  · have hdone := h.initAlarm hal hsync hcheck hinit
    have hal₁ : s₁.alarm a = some al := by
      rw [State.alarm, hdone.alarms]
      exact hal
    have hreg₁ : Registered (s₁.setAlarm a { al' with trigger := t₁ }) none none view :=
      hdone.registered.setAlarm hal₁ (hdone.pSync.trans hsync) hdone.notFence
    obtain ⟨s₂, hmove, ⟨view₂, hreg₂⟩, hawaits₂, halarm₂⟩ := hreg₁.moveAlarm
      (by rw [State.alarm_setAlarm hal₁, if_pos rfl]) (hdone.live pSync rfl)
    have hal₂ := (halarm₂ a).trans (if_pos rfl)
    refine ⟨s₂.setAlarm a { al' with
        state := .active
        trigger := { t₁ with pSync := pSync } }, none, { al' with
        state := .active
        trigger := { t₁ with pSync := pSync } }, ?_,
      ⟨⟨view₂, hreg₂.setAlarm hal₂ rfl hdone.notFence⟩, hawaits₂.trans hdone.awaits,
        fun b => ?_, hdone.testType, rfl, fun hne => absurd rfl hne, fun hne => absurd rfl hne,
        fun _ => hdone.checked pSync rfl⟩, fun _ => rfl⟩
    · simp only [hmove, bind_some, hal₂, map_some]
    · rw [State.alarm_setAlarm hal₂, halarm₂, State.alarm_setAlarm hal₁, State.alarm, State.alarm,
        hdone.alarms]
      split <;> rfl

/-- An alarm whose check function is the one of its test type, with a `delta` of a sign that suits
it. -/
structure SyncAlarm.Agrees (al : SyncAlarm) : Prop where
  check : checkTriggerOf al.trigger.testType = some al.trigger.checkTrigger
  sign : wrongSign al.trigger.testType al.delta = false

def AlarmAttributes.refused (c : AlarmAttributes) (al : SyncAlarm) : Bool :=
  c.others || c.events.any (fun v => v != 0 && v != 1) ||
    (c.delta.isSome || c.testType.isSome) &&
      wrongSign (c.trigger al.trigger).testType (c.delta.getD al.delta)

theorem Registered.changeAlarmAttributes (h : Registered s none none view)
    (hal : s.alarm a = some al) (client : Client) (c : AlarmAttributes)
    (query : SyncId → BitVec 64) :
    ∃ s' err al₁, s.changeAlarmAttributes client a c query = some (s', err) ∧
      (∃ view', Registered s' none none view') ∧ s'.awaits = s.awaits ∧
      (∀ b, s'.alarm b = if a = b then some al₁ else s.alarm b) ∧
      (err ≠ none → al₁.trigger.pSync = al.trigger.pSync) ∧
      (al.Agrees → (err = none ∨ c.refused al = true ∨
        c.testType.getD al.trigger.testType = al.trigger.testType ∨
        ∃ pSync, (s.initTrigger (c.trigger al.trigger) c.counter.join .counter c.mask query).2.2 =
          .ok pSync) → al₁.Agrees) := by
  have hself : ∀ b, s.alarm b = if a = b then some al else s.alarm b := by
    intro b
    split
    · next heq =>
      subst heq
      exact hal
    · rfl
  obtain ⟨wanted, clients, hselect⟩ := al.selectEvents_same client c.events
  rw [State.changeAlarmAttributes, hal, bind_some]
  split
  · exact ⟨s, _, al, rfl, ⟨view, h⟩, rfl, hself, fun _ => rfl, fun hagree _ => hagree⟩
  · next hbits =>
    simp only [hselect]
    split
    · exact ⟨_, _, { al with events := wanted, eventClients := clients }, rfl,
        ⟨view, h.setAlarm hal rfl (h.alarms a al hal)⟩, rfl, State.alarm_setAlarm hal _,
        fun _ => rfl, fun hagree _ => ⟨hagree.check, hagree.sign⟩⟩
    · next hsign =>
      obtain ⟨s', err, al₁, hstore, hstored, haccepted⟩ := h.storeAttributes hal
        (show (c.alarm { al with events := wanted, eventClients := clients }).trigger.pSync =
          al.trigger.pSync from rfl) rfl
      refine ⟨s', err, al₁, hstore, hstored.registered, hstored.awaits, hstored.alarm,
        hstored.pSync, fun hagree hguard => ⟨?_, ?_⟩⟩
      · rw [hstored.testType]
        cases err with
        | some e =>
          rw [hstored.failed (some_ne_none e)]
          rcases hguard with hnone | hrefused | hsame | haccept
          · cases hnone
          · rw [AlarmAttributes.refused, Bool.or_eq_true] at hrefused
            exact absurd hrefused (not_or.mpr ⟨hbits, hsign⟩)
          · exact (congrArg checkTriggerOf hsame).trans hagree.check
          · cases haccepted haccept
        | none =>
          have hchecked := hstored.checked rfl
          cases htest : c.testType with
          | some testType =>
            rw [htest] at hchecked
            exact hchecked
          | none =>
            rw [htest] at hchecked
            have hkept : al₁.trigger.checkTrigger = al.trigger.checkTrigger := hchecked
            rw [hkept, ← hagree.check, AlarmAttributes.alarm, AlarmAttributes.trigger, htest,
              getD_none]
      · rw [hstored.testType, hstored.delta]
        by_cases hgiven : (c.delta.isSome || c.testType.isSome) = true
        · rw [hgiven, Bool.true_and] at hsign
          exact Bool.eq_false_iff.mpr hsign
        · rw [Bool.or_eq_true, not_or, isSome_iff_ne_none, not_not,
            isSome_iff_ne_none, not_not] at hgiven
          rw [AlarmAttributes.alarm, AlarmAttributes.trigger, hgiven.1, hgiven.2]
          exact hagree.sign

theorem Registered.checkAlarm
    (h : Registered s none none view) (hrun : s.checkAlarm a = some (s', events)) :
    Keeps quiet s events s' := by
  obtain ⟨al, hal, hrun⟩ := bind_eq_some_iff.mp hrun
  cases hsync : al.trigger.pSync with
  | none =>
    simp only [hsync] at hrun
    exact h.alarmTriggerFired hrun
  | some o =>
    simp only [hsync] at hrun
    obtain ⟨obj, -, hrun⟩ := bind_eq_some_iff.mp hrun
    cases hbody : obj.body with
    | fence triggered =>
      simp only [hbody] at hrun
      cases hrun
    | counter value =>
      simp only [hbody] at hrun
      split at hrun
      · exact h.alarmTriggerFired hrun
      · cases hrun
        exact ⟨⟨view, h⟩, Settles.refl⟩

theorem Registered.removeAlarm (h : Registered s none pend view)
    (hpend : pend = none ∨ pend = some (.alarm a)) (hoff : ∀ o, .alarm a ∉ ptrs (view o)) :
    Registered { s with alarms := s.alarms.set a none } none none view := by
  have halarm : ∀ b, State.alarm { s with alarms := s.alarms.set a none } b =
      if a = b then none else s.alarm b := join_set_none s.alarms a
  have htrigger : ∀ p, State.trigger { s with alarms := s.alarms.set a none } p =
      if p = .alarm a then none else s.trigger p := by
    intro p
    cases p with
    | await g i =>
      rw [if_neg (by simp)]
      rfl
    | alarm b =>
      rw [State.trigger, halarm]
      by_cases hab : a = b
      · subst hab
        rw [if_pos rfl, if_pos rfl]
        rfl
      · rw [if_neg hab, if_neg (by simpa using Ne.symm hab)]
        rfl
  refine ⟨h.holds, fun o p hp => ?_, fun p t o ht ho _ => ?_, h.once, fun p t o ht ho => ?_,
    h.full, h.destroyed, h.waits, fun b al hal => ?_⟩
  · have hne : p ≠ .alarm a := by
      rintro rfl
      exact hoff o hp
    rw [htrigger, if_neg hne]
    exact h.known o p hp
  · rw [htrigger] at ht
    split at ht
    · cases ht
    · next hne =>
      refine h.listed p t o ht ho ?_
      rcases hpend with rfl | rfl
      · simp
      · exact fun heq => hne (some.inj heq).symm
  · rw [htrigger] at ht
    split at ht
    · cases ht
    · exact h.live p t o ht ho
  · rw [halarm] at hal
    split at hal
    · cases hal
    · exact h.alarms b al hal

section
variable (h : Registered s none none view)
include h

theorem Registered.newAlarm (client : Client) :
    Registered { s with alarms := s.alarms ++ [some (default client)] } none none view ∧
      ∀ a, State.alarm { s with alarms := s.alarms ++ [some (default client)] } a =
        if a = s.alarms.length then some (default client) else s.alarm a := by
  have halarm : ∀ a, State.alarm { s with
      alarms := s.alarms ++ [some (default client)] } a =
      if a = s.alarms.length then some (default client) else s.alarm a :=
    join_append s.alarms _
  have htrigger : ∀ p t o, State.trigger { s with
      alarms := s.alarms ++ [some (default client)] } p = some t → t.pSync = some o →
      s.trigger p = some t := by
    rintro (a | ⟨g, i⟩) t o ht ho
    · rw [State.trigger, halarm] at ht
      split at ht
      · cases ht
        cases ho
      · exact ht
    · exact ht
  refine ⟨⟨h.holds, fun o p hp => ?_, fun p t o ht ho => h.listed p t o (htrigger p t o ht ho) ho,
    h.once, fun p t o ht ho => h.live p t o (htrigger p t o ht ho) ho, h.full, h.destroyed,
    h.waits, fun a al hal => ?_⟩, halarm⟩
  · obtain ⟨t, ht, ho⟩ := h.known o p hp
    refine ⟨t, ?_, ho⟩
    cases p with
    | await g i => exact ht
    | alarm a =>
      have hne : a ≠ s.alarms.length := by
        rintro rfl
        rw [State.trigger, State.alarm, getElem?_eq_none (le_refl _)] at ht
        cases ht
      rw [State.trigger, halarm, if_neg hne]
      exact ht
  · rw [halarm] at hal
    split at hal
    · cases hal
      rintro ⟨⟩
    · exact h.alarms a al hal

theorem Registered.createAlarm {client : Client} {err : Option SyncError}
    (hrun : s.createAlarm client c query = some (s', events, err)) : Keeps quiet s events s' := by
  obtain ⟨hreg, halarm⟩ := h.newAlarm client
  obtain ⟨s₁, err₁, al₁, hchange, ⟨view₁, hreg₁⟩, hawaits₁, halarm₁, hfailed, -⟩ :=
    hreg.changeAlarmAttributes ((halarm _).trans (if_pos rfl)) client c query
  have hal₁ := (halarm₁ s.alarms.length).trans (if_pos rfl)
  simp only [State.createAlarm, hchange, bind_some] at hrun
  cases err₁ with
  | some e =>
    cases hrun
    -- the alarm has not been put on a list
    refine ⟨⟨view₁, hreg₁.removeAlarm (.inl rfl) fun o hp => ?_⟩,
      Settles.same hawaits₁ fun _ he => (nomatch he)⟩
    obtain ⟨t, ht, ho⟩ := hreg₁.known o _ hp
    rw [State.trigger_alarm hal₁] at ht
    cases ht
    rw [hfailed (some_ne_none e)] at ho
    cases ho
  | none =>
    simp only [hal₁, bind_some] at hrun
    cases hsync : al₁.trigger.pSync with
    | none =>
      simp only [hsync] at hrun
      cases hrun
      exact ⟨⟨view₁, hreg₁.setAlarm hal₁ rfl (hreg₁.alarms _ al₁ hal₁)⟩,
        Settles.same hawaits₁ fun _ he => (nomatch he)⟩
    | some o =>
      simp only [hsync] at hrun
      obtain ⟨⟨s₂, events₂⟩, hcheck, heq⟩ := map_eq_some_iff.mp hrun
      cases heq
      obtain ⟨hkept, hsettles⟩ : Keeps quiet s₁ _ _ := hreg₁.checkAlarm hcheck
      have hfirst : Settles quiet s [] s₁ := Settles.same hawaits₁ fun _ he => (nomatch he)
      exact ⟨hkept, hfirst.trans hsettles⟩

theorem Registered.changeAlarm {client : Client}
    {err : Option SyncError}
    (hrun : s.changeAlarm client a c query = some (s', events, err)) : Keeps quiet s events s' := by
  rw [State.changeAlarm] at hrun
  split at hrun
  · cases hrun
    exact ⟨⟨view, h⟩, Settles.refl⟩
  · next hsome =>
    obtain ⟨al, hal⟩ := ne_none_iff_exists'.mp hsome
    obtain ⟨s₁, err₁, al₁, hchange, ⟨view₁, hreg₁⟩, hawaits₁, -⟩ :=
      h.changeAlarmAttributes hal client c query
    rw [hchange, bind_some] at hrun
    have hfirst : Settles quiet s [] s₁ := Settles.same hawaits₁ fun _ he => (nomatch he)
    cases err₁ with
    | some e =>
      cases hrun
      exact ⟨⟨view₁, hreg₁⟩, hfirst⟩
    | none =>
      obtain ⟨⟨s₂, events₂⟩, hcheck, heq⟩ := map_eq_some_iff.mp hrun
      cases heq
      obtain ⟨hkept, hsettles⟩ : Keeps quiet s₁ _ _ := hreg₁.checkAlarm hcheck
      exact ⟨hkept, hfirst.trans hsettles⟩

theorem Registered.freeAlarm
    (hrun : s.freeAlarm a = some (s', events)) :
    Keeps quiet s events s' := by
  obtain ⟨al, hal, hrun⟩ := bind_eq_some_iff.mp hrun
  obtain ⟨events', hsend, hrun⟩ := bind_eq_some_iff.mp hrun
  obtain ⟨s₁, hdelete, heq⟩ := map_eq_some_iff.mp hrun
  cases heq
  obtain ⟨lists, view₁, hdelete', hreg, hoff⟩ := h.deleteTrigger (State.trigger_alarm hal)
  rw [hdelete] at hdelete'
  cases hdelete'
  exact ⟨⟨view₁, hreg.removeAlarm (.inr rfl) hoff⟩,
    Settles.same rfl (State.sendAlarmNotifyEvents_other hsend)⟩

end

end

end Xfront.Sync
