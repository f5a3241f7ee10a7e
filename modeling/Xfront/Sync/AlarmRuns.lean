import Xfront.Sync.Runs

/-!
# Runs on alarms

The fields of every alarm agree in every state of a run in which a request that gives an alarm
another test type does not fail once it is stored. Then every request returns, and every update
ends where it should.
-/

namespace Xfront.Sync
open Bool Prod

open Option

def State.counterValue (s : State) (query : SyncId → BitVec 64) (o : SyncId) :
    Option (BitVec 64) :=
  (s.object o).bind fun obj =>
  match obj.body with
  | .counter value => some (if obj.client = none then query o else value)
  | .fence _ => none

/-- A request whose counter, values and test type are in order for an alarm with the trigger `t`. -/
def AlarmAttributes.acceptable (c : AlarmAttributes) (s : State) (t : SyncTrigger)
    (query : SyncId → BitVec 64) : Bool :=
  c.counter.join.all (fun o => (s.counterValue query o).isSome) &&
  c.valueType.all (fun v => v == syncRelative || v == syncAbsolute) &&
  (!(c.valueType.isSome || c.value.isSome) || (c.trigger t).valueType == syncAbsolute ||
    ((c.counter.getD t.pSync).bind (s.counterValue query)).any fun value =>
      !(checkedAdd value (c.trigger t).waitValue).2) &&
  c.testType.all (fun testType => (checkTriggerOf testType).isSome)

/-- A change that gives an alarm another test type is not one that is stored and then fails. -/
def Act.stores (s : State) : Act → Prop
  | .changeAlarm _ a c query => ∀ al, s.alarm a = some al → c.refused al = true ∨
      c.testType.getD al.trigger.testType = al.trigger.testType ∨
      c.acceptable s al.trigger query = true
  | _ => True

def State.AllAgree (s : State) : Prop := ∀ a al, s.alarm a = some al → al.Agrees

section

variable {s s' : State} {view : View} {o : SyncId} {a : Nat} {al al' : SyncAlarm}
  {query : SyncId → BitVec 64} {c : AlarmAttributes} {events : List Event}

variable {value : BitVec 64}

theorem State.counterValue_object (h : s.counterValue query o = some value) :
    ∃ obj old, s.object o = some obj ∧ obj.body = .counter old ∧
      value = if obj.client = none then query o else old := by
  obtain ⟨obj, hobj, hbody⟩ := bind_eq_some_iff.mp h
  cases hvalue : obj.body with
  | fence triggered =>
    rw [hvalue] at hbody
    cases hbody
  | counter old =>
    rw [hvalue] at hbody
    exact ⟨obj, old, hobj, hvalue, (some.inj hbody).symm⟩

open SyncObject

theorem State.queryValue_body (h : s.counterValue query o = some value) :
    ((s.queryValue query (some o)).object o).map body = some (.counter value) := by
  obtain ⟨obj, old, hobj, hbody, rfl⟩ := State.counterValue_object h
  simp only [State.queryValue, hobj, hbody]
  split
  · rw [State.object_setObject hobj, if_pos rfl]
    rfl
  · rw [hobj, map_some, hbody]

theorem State.counterValue_lookup (h : s.counterValue query o = some value) :
    ∃ obj, s.lookup .counter o = .ok obj := by
  obtain ⟨obj, old, hobj, hbody, -⟩ := State.counterValue_object h
  refine ⟨obj, ?_⟩
  simp only [State.lookup, hobj]
  rw [if_pos (type_counter.mpr (by rw [isCounter, hbody]))]

open SyncTrigger

theorem SyncTrigger.init_ok (t : SyncTrigger) {body : Option SyncBody} {changes : TriggerMask}
    (htype : changes.valueType = true → t.valueType = syncRelative ∨ t.valueType = syncAbsolute)
    (hvalue : (changes.valueType || changes.value) = true → t.valueType = syncAbsolute ∨
      ∃ value, body = some (.counter value) ∧ (checkedAdd value t.waitValue).2 = false)
    (htest : changes.testType = true → (checkTriggerOf t.testType).isSome = true) :
    (t.init body changes).2 = none := by
  have hfirst : (changes.valueType && t.valueType != syncRelative && t.valueType != syncAbsolute) =
      false := by
    cases hgiven : changes.valueType with
    | false => rfl
    | true => rcases htype hgiven with hrel | habs <;> simp [*]
  have hsecond : (t.initValue body changes).2 = none := by
    unfold initValue
    split
    · next hgiven =>
      split
      · rfl
      · next hrel =>
        rcases hvalue hgiven with habs | ⟨value, rfl, hfits⟩
        · exact absurd habs hrel
        · simp [hfits]
    · rfl
  obtain ⟨test, hsame⟩ := t.initValue_same body changes
  rw [init, hfirst, if_neg Bool.false_ne_true]
  rw [← eta (t.initValue body changes), hsecond, hsame]
  simp only [initTest]
  split
  · next hgiven =>
    obtain ⟨check, hcheck⟩ := isSome_iff_exists.mp (htest hgiven)
    simp only [hcheck]
    split <;> rfl
  · rfl

theorem State.initTrigger_ok {t : SyncTrigger} {syncObject pSync : Option SyncId}
    {type : SyncType} {changes : TriggerMask}
    (hgiven : changes.counter = true → syncObject = pSync ∧
      ∀ o, syncObject = some o → ∃ obj, s.lookup type o = .ok obj)
    (hkept : changes.counter = false → t.pSync = pSync)
    (hinit : (t.init ((pSync.bind (s.queryValue query pSync).object).map body) changes).2 = none) :
    (s.initTrigger t syncObject type changes query).2.2 = .ok pSync := by
  have hdone : ∀ r, r = t.init ((pSync.bind (s.queryValue query pSync).object).map
      body) changes → r.2 = none := fun r hr => hr ▸ hinit
  cases hcounter : changes.counter with
  | false =>
    simp only [State.initTrigger, hcounter, false_eq_true, if_false, hkept hcounter]
    split
    · next e heq => cases hdone _ heq.symm
    · rfl
  | true =>
    obtain ⟨rfl, hlookup⟩ := hgiven hcounter
    cases syncObject with
    | none =>
      simp only [State.initTrigger, hcounter, if_true]
      split
      · next e heq => cases hdone _ heq.symm
      · rfl
    | some o =>
      obtain ⟨obj, hobj⟩ := hlookup o rfl
      simp only [State.initTrigger, hcounter, if_true, hobj, Except.map]
      split
      · next e heq => cases hdone _ heq.symm
      · rfl

theorem AlarmAttributes.acceptable_ok (h : c.acceptable s al.trigger query = true) :
    ∃ pSync, (s.initTrigger (c.trigger al.trigger) c.counter.join .counter c.mask query).2.2 =
      .ok pSync := by
  simp only [AlarmAttributes.acceptable, and_eq_true] at h
  obtain ⟨⟨⟨hcounter, htype⟩, hvalue⟩, htest⟩ := h
  have hlookup : ∀ o, c.counter.join = some o → ∃ obj, s.lookup .counter o = .ok obj := by
    intro o ho
    rw [ho] at hcounter
    obtain ⟨value, hsome⟩ := isSome_iff_exists.mp
      (show (s.counterValue query o).isSome = true from hcounter)
    exact State.counterValue_lookup hsome
  generalize hgoes : c.counter.getD al.trigger.pSync = pSync at hvalue
  have hinit : ((c.trigger al.trigger).init
      ((pSync.bind (s.queryValue query pSync).object).map body) c.mask).2 = none := by
    refine init_ok _ (fun hgiven => ?_) (fun hgiven => ?_) fun hgiven => ?_
    · obtain ⟨v, hv⟩ := isSome_iff_exists.mp hgiven
      rw [hv] at htype
      rw [AlarmAttributes.trigger, hv]
      simpa using htype
    · rw [or_eq_true, or_eq_true, not_eq_true'] at hvalue
      rcases hvalue with (hnone | habs) | hfits
      · exact absurd hgiven (eq_false_iff.mp hnone)
      · exact .inl (beq_iff_eq.mp habs)
      · obtain ⟨value, hbind, hover⟩ := (any_eq_true _ _).mp hfits
        obtain ⟨o, rfl, hcv⟩ := bind_eq_some_iff.mp hbind
        exact .inr ⟨value, State.queryValue_body hcv, by simpa using hover⟩
    · obtain ⟨testType, ht⟩ := isSome_iff_exists.mp hgiven
      rw [ht] at htest
      rw [AlarmAttributes.trigger, ht]
      exact htest
  refine ⟨pSync, State.initTrigger_ok (fun hgiven => ?_) (fun hkept => ?_) hinit⟩
  · obtain ⟨pSync', hc⟩ := isSome_iff_exists.mp hgiven
    rw [hc] at hgoes hlookup
    cases hgoes
    rw [hc]
    exact ⟨rfl, hlookup⟩
  · have hc : c.counter = none := not_isSome_iff_eq_none.mp (eq_false_iff.mp hkept)
    rw [hc] at hgoes
    exact hgoes

open SyncAlarm

theorem SyncAlarm.Agrees.fire {value : Option (BitVec 64)} (h : al.Agrees)
    (hfire : al.fire value = some al') : al'.Agrees := by
  obtain ⟨state, test, rfl⟩ := fire_eq hfire
  exact ⟨h.check, h.sign⟩

theorem SyncAlarm.Agrees.visitTimes {oldval : BitVec 64} {n m : Nat} (h : al.Agrees)
    (htimes : al.visitTimes value oldval n = some (al', m)) : al'.Agrees := by
  induction n generalizing al m with
  | zero =>
    cases htimes
    exact h
  | succ n ih =>
    obtain ⟨⟨al₁, k⟩, hvisit, hrest⟩ := bind_eq_some_iff.mp htimes
    obtain ⟨⟨al₂, m'⟩, htimes', heq⟩ := map_eq_some_iff.mp hrest
    cases heq
    refine ih ?_ htimes'
    rw [visit] at hvisit
    split at hvisit
    · obtain ⟨al₃, hfire, heq⟩ := map_eq_some_iff.mp hvisit
      cases heq
      exact h.fire hfire
    · cases hvisit
      exact h

theorem State.AllAgree.same (h : s.AllAgree) (halarms : s'.alarms = s.alarms) : s'.AllAgree := by
  intro a al hal
  refine h a al ?_
  rw [State.alarm, ← halarms]
  exact hal

theorem State.AllAgree.setAlarm (h : s.AllAgree) (hal : s.alarm a = some al) (h' : al'.Agrees) :
    (s.setAlarm a al').AllAgree := by
  intro b al₁ hb
  rw [State.alarm_setAlarm hal] at hb
  split at hb
  · cases hb
    exact h'
  · exact h b al₁ hb

theorem State.AllAgree.removeAlarm (h : s.AllAgree) (a : Nat) :
    State.AllAgree { s with alarms := s.alarms.set a none } := by
  intro b al hb
  have halarm : State.alarm { s with alarms := s.alarms.set a none } b =
      if a = b then none else s.alarm b := join_set_none s.alarms a b
  rw [halarm] at hb
  split at hb
  · cases hb
  · exact h b al hb

theorem SyncAlarm.default_agrees (client : Client) : (default client).Agrees := ⟨rfl, rfl⟩

section
variable (h : Registered s none none view)
include h

section
variable (hagree : s.AllAgree)
include hagree

theorem Registered.changeAgrees {obj : SyncObject}
    (hobj : s.object o = some obj) (hcounter : isCounter obj = true)
    (newval : BitVec 64) :
    ∃ s' events, s.syncChangeCounter o newval = some (s', events) ∧ s'.AllAgree := by
  cases hbody : obj.body with
  | fence triggered =>
    rw [isCounter, hbody] at hcounter
    cases hcounter
  | counter oldval =>
    obtain ⟨⟨s', events⟩, hrun⟩ : ∃ r, s.syncChangeCounter o newval = some r :=
      h.changeReturns hobj hbody fun a al hal _ _ => (hagree a al hal).hangs
    refine ⟨s', events, hrun, fun a al' hal' => ?_⟩
    obtain ⟨hwalk, hhit, hloop⟩ := h.changeWalk hobj hbody newval
    rw [hloop] at hrun
    obtain ⟨hvisited, -⟩ := hwalk.visited hhit (fun p hp _ => Restart.mem_of_mem_visits hp) hrun
    cases hal : s.alarm a with
    | none =>
      rw [(hvisited.strangers a hal).1] at hal'
      cases hal'
    | some al =>
      obtain ⟨al₁, hal₁, htimes⟩ := hvisited.alarms a al hal
      rw [hal'] at hal₁
      cases hal₁
      exact (hagree a al hal).visitTimes htimes

theorem Registered.checkAgrees
    (hal : s.alarm a = some al) :
    ∃ s' events, s.checkAlarm a = some (s', events) ∧ s'.AllAgree := by
  have hal' := hagree a al hal
  rw [State.checkAlarm, hal, bind_some]
  cases hsync : al.trigger.pSync with
  | none =>
    simp only [State.triggerFired, State.alarmTriggerFired, hal, bind_some, hsync]
    split
    · exact ⟨s, [], rfl, hagree⟩
    · simp only [fire, bind_some, State.sendAlarmNotifyEvents, setTestValue, hsync, map_some]
      exact ⟨_, _, rfl, hagree.setAlarm hal ⟨hal'.check, hal'.sign⟩⟩
  | some o =>
    obtain ⟨obj, hobj, hfence⟩ := h.live _ _ o (State.trigger_alarm hal) hsync
    simp only [hobj, bind_some]
    cases hbody : obj.body with
    | fence triggered => exact absurd (hfence.mpr (by rw [isCounter, hbody])) (h.alarms a al hal)
    | counter value =>
      simp only
      split
      · next hholds =>
        rw [State.triggerFired, State.alarmTriggerFired_eq hal hsync hobj hbody]
        split
        · exact ⟨s, [], rfl, hagree⟩
        · obtain ⟨al₁, hfire, -⟩ := hal'.updates hholds
          exact ⟨_, _, congrArg (Option.map _) hfire, hagree.setAlarm hal (hal'.fire hfire)⟩
      · exact ⟨s, [], rfl, hagree⟩

theorem Registered.createAlarmAgrees
    (client : Client) (c : AlarmAttributes) (query : SyncId → BitVec 64) :
    ∃ s' events err, s.createAlarm client c query = some (s', events, err) ∧ s'.AllAgree := by
  obtain ⟨hreg, halarm⟩ := h.newAlarm client
  obtain ⟨s₁, err₁, al₁, hchange, ⟨view₁, hreg₁⟩, -, halarm₁, -, hkept⟩ :=
    hreg.changeAlarmAttributes ((halarm _).trans (if_pos rfl)) client c query
  have hothers : ∀ b, b ≠ s.alarms.length → s₁.alarm b = s.alarm b := fun b hb => by
    rw [halarm₁, if_neg (Ne.symm hb), halarm, if_neg hb]
  simp only [State.createAlarm, hchange, bind_some]
  cases err₁ with
  | some e =>
    refine ⟨_, [], some e, rfl, fun b al hb => ?_⟩
    have hgone : State.alarm { s₁ with alarms := s₁.alarms.set s.alarms.length none } b =
        if s.alarms.length = b then none else s₁.alarm b := join_set_none s₁.alarms _ b
    rw [hgone] at hb
    split at hb
    · cases hb
    · next hne =>
      rw [hothers b (Ne.symm hne)] at hb
      exact hagree b al hb
  | none =>
    have hal₁ := (halarm₁ s.alarms.length).trans (if_pos rfl)
    have hnew : al₁.Agrees := hkept (default_agrees client) (.inl rfl)
    have hagree₁ : s₁.AllAgree := by
      intro b al hb
      by_cases hlast : b = s.alarms.length
      · rw [hlast, hal₁] at hb
        cases hb
        exact hnew
      · rw [hothers b hlast] at hb
        exact hagree b al hb
    simp only [hal₁, bind_some]
    cases hsync : al₁.trigger.pSync with
    | none => exact ⟨_, [], none, rfl, hagree₁.setAlarm hal₁ ⟨hnew.check, hnew.sign⟩⟩
    | some o =>
      obtain ⟨s₂, events₂, hcheck, hagree₂⟩ := hreg₁.checkAgrees hagree₁ hal₁
      exact ⟨s₂, events₂, none, congrArg (Option.map _) hcheck, hagree₂⟩

theorem Registered.changeAlarmAgrees
    {client : Client} (hstores : (Act.changeAlarm client a c query).stores s) :
    ∃ s' events err, s.changeAlarm client a c query = some (s', events, err) ∧ s'.AllAgree := by
  rw [State.changeAlarm]
  split
  · exact ⟨s, [], _, rfl, hagree⟩
  · next hsome =>
    obtain ⟨al, hal⟩ := ne_none_iff_exists'.mp hsome
    obtain ⟨s₁, err₁, al₁, hchange, ⟨view₁, hreg₁⟩, -, halarm₁, -, hkept⟩ :=
      h.changeAlarmAttributes hal client c query
    have hagree₁ : s₁.AllAgree := by
      intro b alb hb
      rw [halarm₁] at hb
      split at hb
      · cases hb
        refine hkept (hagree a al hal) ?_
        rcases hstores al hal with hrefused | hsame | haccept
        · exact .inr (.inl hrefused)
        · exact .inr (.inr (.inl hsame))
        · exact .inr (.inr (.inr (AlarmAttributes.acceptable_ok haccept)))
      · exact hagree b alb hb
    rw [hchange, bind_some]
    cases err₁ with
    | some e => exact ⟨s₁, [], some e, rfl, hagree₁⟩
    | none =>
      obtain ⟨s₂, events₂, hcheck, hagree₂⟩ :=
        hreg₁.checkAgrees hagree₁ ((halarm₁ a).trans (if_pos rfl))
      exact ⟨s₂, events₂, none, congrArg (Option.map _) hcheck, hagree₂⟩

theorem Registered.freeAlarmAgrees
    (hal : s.alarm a = some al) : ∃ s' events, s.freeAlarm a = some (s', events) ∧ s'.AllAgree := by
  obtain ⟨lists, view₁, hdelete, -⟩ := h.deleteTrigger (State.trigger_alarm hal)
  obtain ⟨events, hsend⟩ : ∃ events,
      s.sendAlarmNotifyEvents a { al with state := .destroyed } = some events := by
    simp only [State.sendAlarmNotifyEvents]
    cases hsync : al.trigger.pSync with
    | none => exact ⟨_, rfl⟩
    | some o =>
      obtain ⟨obj, hobj, -⟩ := h.live _ _ o (State.trigger_alarm hal) hsync
      exact ⟨_, congrArg (Option.map _) hobj⟩
  refine ⟨{ s with lists := lists, alarms := s.alarms.set a none }, events, ?_,
    (hagree.removeAlarm a).same rfl⟩
  rw [State.freeAlarm, hal, bind_some, hsend, bind_some, hdelete, map_some]

end

end

theorem State.onObject_agrees {type : SyncType} {act : State → Option (State × List Event)}
    (hagree : s.AllAgree) (hact : ∀ obj, s.object o = some obj → obj.type = type →
      ∃ s' events, act s = some (s', events) ∧ s'.AllAgree) :
    ∃ s' out, s.onObject type o act = some (s', out) ∧ s'.AllAgree := by
  rw [State.onObject]
  cases hlookup : s.lookup type o with
  | error e => exact ⟨s, _, rfl, hagree⟩
  | ok obj =>
    obtain ⟨hobj, htype⟩ := State.lookup_ok hlookup
    obtain ⟨s', events, hrun, hagree'⟩ := hact obj hobj htype
    exact ⟨s', _, congrArg (Option.map _) hrun, hagree'⟩

theorem Registered.destroyAgrees {obj : SyncObject} (h : Registered s none none view)
    (hagree : s.AllAgree) (hobj : s.object o = some obj) :
    ∃ s' events, s.destroyObject o = some (s', events) ∧ s'.AllAgree := by
  obtain ⟨s', events, view', hdestroy, -, -, -, halarms⟩ := h.destroyObject hobj
  refine ⟨s', events, hdestroy, fun a al hal => ?_⟩
  rw [halarms] at hal
  obtain ⟨al₀, hal₀, heq⟩ := map_eq_some_iff.mp hal
  have hold := hagree a al₀ hal₀
  split at heq
  · rw [← heq]
    exact ⟨hold.check, hold.sign⟩
  · rw [← heq]
    exact hold

theorem Registered.stepAgrees {act : Act} (h : Registered s none none view) (hagree : s.AllAgree)
    (hstores : act.stores s) : ∃ s' out, s.step act = some (s', out) ∧ s'.AllAgree := by
  cases act with
  | createCounter client initial | createFence client triggered =>
    exact ⟨_, _, rfl, hagree.same rfl⟩
  | setCounter o newvalue =>
    simp only [State.step, State.setCounter]
    cases hlookup : s.lookup .counter o with
    | error e => exact ⟨s, _, rfl, hagree⟩
    | ok obj =>
      obtain ⟨hobj, htype⟩ := State.lookup_ok hlookup
      simp only
      split
      · exact ⟨s, _, rfl, hagree⟩
      · obtain ⟨s', events, hrun, hagree'⟩ :=
          h.changeAgrees hagree hobj (type_counter.mp htype) newvalue
        exact ⟨s', _, congrArg (Option.map _) hrun, hagree'⟩
  | changeCounter o amount =>
    simp only [State.step, State.changeCounter]
    cases hlookup : s.lookup .counter o with
    | error e => exact ⟨s, _, rfl, hagree⟩
    | ok obj =>
      obtain ⟨hobj, htype⟩ := State.lookup_ok hlookup
      simp only
      split
      · exact ⟨s, _, rfl, hagree⟩
      · cases hbody : obj.body with
        | fence triggered => exact ⟨s, _, rfl, hagree⟩
        | counter value =>
          simp only
          split
          · exact ⟨s, _, rfl, hagree⟩
          · obtain ⟨s', events, hrun, hagree'⟩ := h.changeAgrees hagree hobj (type_counter.mp htype)
                (checkedAdd amount value).1
            exact ⟨s', _, congrArg (Option.map _) hrun, hagree'⟩
  | syncChangeCounter o newval =>
    simp only [State.step]
    exact State.onObject_agrees hagree fun obj hobj htype =>
      h.changeAgrees hagree hobj (type_counter.mp htype) newval
  | freeCounter o =>
    simp only [State.step]
    refine State.onObject_agrees hagree fun obj hobj htype => ?_
    rw [State.freeCounter_eq hobj (type_counter.mp htype)]
    exact h.destroyAgrees hagree hobj
  | awaitCounters client query ws =>
    obtain ⟨s', events, err, hrun, -, halarms⟩ := h.awaitConditions client .counter query ws
    exact ⟨s', _, hrun, hagree.same halarms⟩
  | awaitFences client fences =>
    obtain ⟨s', events, err, hrun, -, halarms⟩ :=
      h.awaitConditions client .fence (fun _ => 0) (fences.map fenceCondition)
    exact ⟨s', _, hrun, hagree.same halarms⟩
  | freeAwait g =>
    simp only [State.step]
    split
    · exact ⟨s, _, rfl, hagree⟩
    · next hsome =>
      obtain ⟨u, hu⟩ := ne_none_iff_exists'.mp hsome
      obtain ⟨s', hfree, hfreed, -⟩ := h.freeAwait hu (by simp)
      exact ⟨s', _, congrArg (Option.map _) hfree, hagree.same hfreed.alarms⟩
  | createAlarm client c query =>
    obtain ⟨s', events, err, hrun, hagree'⟩ := h.createAlarmAgrees hagree client c query
    exact ⟨s', _, hrun, hagree'⟩
  | changeAlarm client a c query =>
    obtain ⟨s', events, err, hrun, hagree'⟩ := h.changeAlarmAgrees hagree hstores
    exact ⟨s', _, hrun, hagree'⟩
  | freeAlarm a =>
    simp only [State.step]
    split
    · exact ⟨s, _, rfl, hagree⟩
    · next hsome =>
      obtain ⟨al, hal⟩ := ne_none_iff_exists'.mp hsome
      obtain ⟨s', events, hrun, hagree'⟩ := h.freeAlarmAgrees hagree hal
      exact ⟨s', _, congrArg (Option.map _) hrun, hagree'⟩
  | triggerFence o =>
    simp only [State.step]
    refine State.onObject_agrees hagree fun obj hobj htype => ?_
    obtain ⟨s', events, view', htrigger, -, -, -, -, halarms⟩ :=
      h.syncTriggerFence hobj (type_fence.mp htype)
    exact ⟨s', events, htrigger, hagree.same halarms⟩
  | resetFence o =>
    refine ⟨_, _, rfl, hagree.same ?_⟩
    split
    · rfl
    · split <;> rfl
  | destroyFence o =>
    simp only [State.step]
    refine State.onObject_agrees hagree fun obj hobj htype => ?_
    rw [State.syncDestroyFence_eq hobj (type_fence.mp htype)]
    exact h.destroyAgrees hagree hobj

/-- What holds of an active alarm: the sign of `delta` suits the check function, a comparison with
`delta` zero is recognised, and every update ends after the least number of rounds. -/
structure SyncAlarm.Ends (al : SyncAlarm) : Prop where
  suits : al.trigger.checkTrigger.suits al.delta
  recognised : al.delta = 0 → al.isComparison = al.trigger.checkTrigger.isComparison
  updates : ∀ value oldval,
    al.trigger.checkTrigger.holds (.counter value) al.trigger.testValue oldval = true →
    ∃ al', al.fire (some value) = some al' ∧ al.Updates value al'

/-- Every run returns in which no change is stored and then fails, and in every state that it
reaches the updates of the active alarms end. -/
theorem alarm_run {acts : List Act} (hstores : Run.Guarded State.step Act.stores State.start acts) :
    ∃ s outs, Run.exec State.step State.start acts = some (s, outs) ∧
      ∀ a al, s.alarm a = some al → al.state = .active → al.Ends := by
  have hstep : ∀ s act, ((∃ view, Registered s none none view) ∧ s.AllAgree) → act.stores s →
      ∃ s' out, s.step act = some (s', out) ∧
        (∃ view, Registered s' none none view) ∧ s'.AllAgree := by
    rintro s act ⟨⟨view, h⟩, hagree⟩ hstores
    obtain ⟨s', ⟨events, err⟩, hrun, hagree'⟩ := h.stepAgrees hagree hstores
    exact ⟨s', _, hrun, (h.step hrun).1, hagree'⟩
  obtain ⟨s, outs, hrun, -, hagree⟩ := Run.exec_invariant hstep
    ⟨⟨_, start_registered⟩, fun _ _ hal => (nomatch hal)⟩ hstores
  refine ⟨s, outs, hrun, fun a al hal _ => ?_⟩
  have h := hagree a al hal
  exact ⟨h.suits, fun _ => h.isComparison, fun value oldval htrue => h.updates htrue⟩

end

def alarmOn (c : AlarmAttributes) : List Act :=
  [.createCounter (some 1) 0,
    .createAlarm 1 { noAttributes with counter := some (some 0), value := some 5 } fun _ => 0,
    .changeAlarm 1 0 c fun _ => 0]

theorem alarm_run_delta :
    ∃ s outs al al', Run.exec State.step State.start
        (alarmOn { noAttributes with delta := some 3 }) = some (s, outs) ∧
      s.alarm 0 = some al ∧ al.state = .active ∧ al.fire (some 10) = some al' ∧
      al.Updates 10 al' := by
  obtain ⟨s, outs, hrun, hends⟩ := alarm_run
    (show Run.Guarded State.step Act.stores State.start
        (alarmOn { noAttributes with delta := some 3 }) from
      ⟨trivial, fun _ _ _ => ⟨trivial, fun _ _ _ => ⟨fun _ _ => .inr (.inl rfl), fun _ _ _ =>
        trivial⟩⟩⟩)
  have hstate : ((Run.exec State.step State.start
      (alarmOn { noAttributes with delta := some 3 })).bind fun r => r.1.alarm 0).map (fun al =>
        (al.state, al.trigger.checkTrigger.holds (.counter 10) al.trigger.testValue 0)) =
      some (.active, true) := by rfl
  rw [hrun, bind_some] at hstate
  obtain ⟨al, hal, heq⟩ := map_eq_some_iff.mp hstate
  rw [mk.injEq] at heq
  obtain ⟨al', hfire, hupdates⟩ := (hends 0 al hal heq.1).updates 10 0 heq.2
  exact ⟨s, outs, al, al', hrun, hal, heq.1, hfire, hupdates⟩

/-- A change to test type 7 fails, but is stored: the next firing does not end. -/
theorem changeAlarm_hangs :
    ∃ s outs al, Run.exec State.step State.start
        (alarmOn { noAttributes with testType := some 7, delta := some 0 }) = some (s, outs) ∧
      outs.map snd = [none, none, some .badValue] ∧
      s.alarm 0 = some al ∧ al.state = .active ∧ al.delta = 0 ∧
      al.trigger.checkTrigger.isComparison = true ∧ al.isComparison = false ∧
      al.trigger.checkTrigger.holds (.counter 10) al.trigger.testValue 0 = true ∧
      al.fire (some 10) = none := by
  have hstate : ((Run.exec State.step State.start
      (alarmOn { noAttributes with testType := some 7, delta := some 0 })).bind fun r =>
        (r.1.alarm 0).map fun al => (r, al)).map (fun (r, al) =>
          (r.2.map snd, al.state, al.delta, al.trigger.checkTrigger.isComparison, al.isComparison,
            al.trigger.checkTrigger.holds (.counter 10) al.trigger.testValue 0, al.hangs)) =
      some ([none, none, some .badValue], .active, 0, true, false, true, true) := by rfl
  obtain ⟨⟨⟨s, outs⟩, al⟩, hbind, heq⟩ := map_eq_some_iff.mp hstate
  obtain ⟨r, hrun, hmap⟩ := bind_eq_some_iff.mp hbind
  obtain ⟨al', hal, hpair⟩ := map_eq_some_iff.mp hmap
  cases hpair
  simp only [mk.injEq] at heq
  obtain ⟨houts, hactive, hdelta, hcheck, htest, hholds, hhangs⟩ := heq
  exact ⟨s, outs, al, hrun, houts, hal, hactive, hdelta, hcheck, htest, hholds,
    (SyncAlarm.fire_none hholds).mpr hhangs⟩

end Xfront.Sync
