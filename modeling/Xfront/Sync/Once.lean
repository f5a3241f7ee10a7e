import Xfront.Sync.Alarm
import Xfront.Sync.Steps

/-!
# Every trigger once

When one change of a counter fires every trigger on its list once.
-/

namespace Xfront.Sync
open List Option Prod
open Restart (visits keep againAfter)

def SyncAlarm.isTrue (al : SyncAlarm) (value oldval : BitVec 64) : Bool :=
  decide (al.state = .active) &&
    al.trigger.checkTrigger.holds (.counter value) al.trigger.testValue oldval

section

variable {al al' : SyncAlarm} {value oldval : BitVec 64}

theorem SyncAlarm.isTrue_iff : al.isTrue value oldval = true ↔ al.state = .active ∧
    al.trigger.checkTrigger.holds (.counter value) al.trigger.testValue oldval = true := by
  rw [SyncAlarm.isTrue, Bool.and_eq_true, decide_eq_true_eq]

theorem SyncAlarm.visit_idle (h : al.isTrue value oldval = false) :
    al.visit value oldval = some (al, 0) := by
  rw [SyncAlarm.visit, if_neg]
  intro hand
  rw [SyncAlarm.isTrue_iff.mpr hand] at h
  cases h

theorem SyncAlarm.visit_true (h : al.isTrue value oldval = true) :
    al.visit value oldval = (al.fire (some value)).map fun al' => (al', 1) := by
  rw [SyncAlarm.visit, if_pos (SyncAlarm.isTrue_iff.mp h)]

theorem SyncAlarm.visitTimes_idle (h : al.isTrue value oldval = false) (n : Nat) :
    al.visitTimes value oldval n = some (al, 0) := by
  induction n with
  | zero => rfl
  | succ n ih => simp only [SyncAlarm.visitTimes, SyncAlarm.visit_idle h, bind_some, ih, map_some]

theorem SyncAlarm.one_le_visitTimes (h : al.isTrue value oldval = true) {n m : Nat}
    (htimes : al.visitTimes value oldval (n + 1) = some (al', m)) : 1 ≤ m := by
  rw [SyncAlarm.visitTimes, SyncAlarm.visit_true h] at htimes
  obtain ⟨⟨al₁, k⟩, hfire, hrest⟩ := bind_eq_some_iff.mp htimes
  obtain ⟨_, -, heq⟩ := map_eq_some_iff.mp hfire
  cases heq
  obtain ⟨⟨al₂, k⟩, -, heq⟩ := map_eq_some_iff.mp hrest
  cases heq
  omega

theorem SyncAlarm.visitTimes_once (h : al.isTrue value oldval = true) (n : Nat) :
    (∃ al', al.visitTimes value oldval (n + 1) = some (al', 1)) ↔
      al.hangs = false ∧ (al.firesAgain value oldval = true → n = 0) := by
  obtain ⟨hactive, hholds⟩ := SyncAlarm.isTrue_iff.mp h
  cases hfire : al.fire (some value) with
  | none =>
    rw [(SyncAlarm.fire_none hholds).mp hfire]
    simp [SyncAlarm.visitTimes, SyncAlarm.visit_true h, hfire]
  | some al₁ =>
    have hends : al.hangs = false := by
      rw [Bool.eq_false_iff]
      intro hhangs
      rw [(SyncAlarm.fire_none hholds).mpr hhangs] at hfire
      cases hfire
    have hagain : al.firesAgain value oldval = true ↔ al₁.isTrue value oldval = true := by
      rw [SyncAlarm.isTrue_iff, SyncAlarm.fire_again hactive hfire]
    have hvisits : al.visitTimes value oldval (n + 1) =
        (al₁.visitTimes value oldval n).map fun r => (r.1, 1 + r.2) := by
      simp only [SyncAlarm.visitTimes, SyncAlarm.visit_true h, hfire, map_some, bind_some]
    rw [hvisits, hagain, hends]
    cases htrue : al₁.isTrue value oldval with
    | false =>
      rw [SyncAlarm.visitTimes_idle htrue]
      simp
    | true =>
      cases n with
      | zero => simp [SyncAlarm.visitTimes]
      | succ n =>
        refine iff_of_false ?_ (by simp)
        rintro ⟨al', hmap⟩
        obtain ⟨⟨al₂, m⟩, htimes, heq⟩ := map_eq_some_iff.mp hmap
        have hone := SyncAlarm.one_le_visitTimes htrue htimes
        rw [Prod.mk.injEq] at heq
        omega

end

def State.unblocks (s : State) (oldval newval : BitVec 64) (l : List TriggerPtr) (g : Nat) :
    Bool :=
  l.any fun p => s.unblocking oldval newval p && inGroup g p

structure FiresOnce (s : State) (o : SyncId) (oldval newval : BitVec 64) (view : View)
    (s' : State) (events : List Event) : Prop where
  attends : ∀ g, events.countP (isAttend g) =
    if s.unblocks oldval newval (ptrs (view o)) g then 1 else 0
  clients : ∀ g c, .attend g c ∈ events → ∃ u, s.await g = some u ∧ u.client = c
  freed : ∀ g, events.countP (isFreed g) =
    if s.unblocks oldval newval (ptrs (view o)) g then 1 else 0
  awaits : ∀ g, s'.await g = if s.unblocks oldval newval (ptrs (view o)) g then none else s.await g
  notifies : ∀ a, events.countP (isNotify a) =
    if .alarm a ∈ ptrs (view o) ∧ (s.alarm a).any (fun al => al.isTrue newval oldval) then 1 else 0
  lists : s'.lists.Holds (view.drop none fun
    | .alarm _ => false
    | .await g _ => s.unblocks oldval newval (ptrs (view o)) g)

section

variable {s s' : State} {o : SyncId} {value oldval : BitVec 64} {view : View}
  {hit : TriggerPtr → Bool}

theorem Walking.visit_some {p : TriggerPtr} {vs : List TriggerPtr} (h : Walking s o value view)
    (hhit : ∀ q ∈ ptrs (view o), s.hit oldval q = hit q) (hp : p ∈ ptrs (view o))
    (hends : ∀ a al, .alarm a ∈ ptrs (view o) → s.alarm a = some al →
      (al.visitTimes value oldval ((p :: vs).count (.alarm a))).isSome) :
    ∃ s' events, s.visit oldval p = some (s', events) ∧
      Walking s' o value (view.drop none fun q => hit p && mate p q) ∧
      (∀ q ∈ ptrs (view.drop none (fun q => hit p && mate p q) o), s'.hit oldval q = hit q) ∧
      ∀ a al, .alarm a ∈ ptrs (view.drop none (fun q => hit p && mate p q) o) →
        s'.alarm a = some al → (al.visitTimes value oldval (vs.count (.alarm a))).isSome := by
  obtain ⟨⟨s', events⟩, hvisit⟩ : ∃ r, s.visit oldval p = some r := by
    cases p with
    | await g i =>
      cases hg : s.hit oldval (.await g i) with
      | false => exact ⟨_, h.visit_miss hp hg⟩
      | true =>
        obtain ⟨u, s', events, -, hvisit, -⟩ := h.visit_hit hp hg
        exact ⟨_, hvisit⟩
    | alarm a =>
      obtain ⟨t, ht, -⟩ := h.registered.known o _ hp
      obtain ⟨al, hal, -⟩ := map_eq_some_iff.mp ht
      have htimes := hends a al hp hal
      rw [count_cons_self, SyncAlarm.visitTimes] at htimes
      obtain ⟨r, hr⟩ := isSome_iff_exists.mp htimes
      obtain ⟨r', hr', -⟩ := bind_eq_some_iff.mp hr
      rw [h.visit_alarm hp hal, hr']
      exact ⟨_, rfl⟩
  obtain ⟨hone, hwalk⟩ := h.visitedOne hp (hhit p hp) hvisit
  refine ⟨s', events, hvisit, hwalk, fun q hq => ?_, fun a al' hmem hal' => ?_⟩
  · obtain ⟨t, ht, -⟩ := hwalk.registered.known o q hq
    rw [(h.trigger_visit hp (hhit p hp) hvisit (by rw [ht]; simp)).2.2]
    exact hhit q (mem_drop_ptrs.mp hq).1
  · have hmem' := (mem_drop_ptrs.mp hmem).1
    obtain ⟨t, ht, -⟩ := h.registered.known o _ hmem'
    obtain ⟨al, hal, -⟩ := map_eq_some_iff.mp ht
    have htimes := hends a al hmem' hal
    obtain ⟨al₁, hal₁, hvisited⟩ := hone.alarms a al hal
    rw [hal'] at hal₁
    cases hal₁
    split at hvisited
    · next hpa =>
      subst hpa
      rw [count_cons_self, SyncAlarm.visitTimes, hvisited, bind_some, isSome_map] at htimes
      exact htimes
    · next hpa =>
      rw [count_cons_of_ne hpa] at htimes
      rw [hvisited.1]
      exact htimes

theorem visitAll_cons_some {p : TriggerPtr} {ps : List TriggerPtr} {events : List Event}
    {r : State × List Event} (hvisit : s.visit oldval p = some (s', events))
    (hrest : s'.visitAll oldval ps = some r) : ∃ r', s.visitAll oldval (p :: ps) = some r' := by
  simp only [visitAll_cons, hvisit, bind_some, hrest, map_some]
  exact ⟨_, rfl⟩

theorem Walking.visitAll_some {pre rest : List TriggerPtr} (h : Walking s o value view)
    (hm : Restart.Mates hit mate)
    (hhit : ∀ p ∈ ptrs (view o), s.hit oldval p = hit p) (hview : ptrs (view o) = pre ++ rest)
    (hends : ∀ a al, .alarm a ∈ ptrs (view o) → s.alarm a = some al →
      (al.visitTimes value oldval ((visits hit mate pre rest).count (.alarm a))).isSome) :
    ∃ r, s.visitAll oldval (visits hit mate pre rest) = some r := by
  induction pre, rest using Restart.visits_induction hit mate generalizing s view with
  | hnil pre =>
    rw [Restart.visits_nil]
    exact ⟨_, rfl⟩
  | hover pre p rest hp hs ih =>
    rw [Restart.visits_over hp hs] at hends ⊢
    obtain ⟨s', events, hvisit, hwalk, hhit', hends'⟩ :=
      h.visit_some hhit (by rw [hview]; simp) hends
    have hview' : ptrs (view.drop none (fun q => hit p && mate p q) o) =
        keep mate p (pre ++ rest) := by
      rw [ptrs_drop, hview, hp]
      simp [keep, hm.refl p hp]
    obtain ⟨r, hr⟩ := ih hwalk hhit' (by rw [hview']; rfl) hends'
    exact visitAll_cons_some hvisit hr
  | hon pre p rest hp hs ih =>
    rw [Restart.visits_on hp hs] at hends ⊢
    obtain ⟨s', events, hvisit, hwalk, hhit', hends'⟩ :=
      h.visit_some hhit (by rw [hview]; simp) hends
    have hview' : ptrs (view.drop none (fun q => hit p && mate p q) o) =
        keep mate p pre ++ keep mate p rest := by
      rw [ptrs_drop, hview, hp]
      simp [keep, hm.refl p hp]
    obtain ⟨r, hr⟩ := ih hwalk hhit' hview' hends'
    exact visitAll_cons_some hvisit hr
  | hmiss pre p rest hp ih =>
    rw [Restart.visits_miss hp] at hends ⊢
    obtain ⟨s', events, hvisit, hwalk, hhit', hends'⟩ :=
      h.visit_some hhit (by rw [hview]; simp) hends
    have hview' : ptrs (view.drop none (fun q => hit p && mate p q) o) = (pre ++ [p]) ++ rest := by
      rw [ptrs_drop, hview, hp]
      simp
    obtain ⟨r, hr⟩ := ih hwalk hhit' hview' hends'
    exact visitAll_cons_some hvisit hr

theorem unblocks_eq (s : State) (oldval newval : BitVec 64) (l : List TriggerPtr) (g : Nat) :
    s.unblocks oldval newval l g =
      l.any fun p => s.unblocking oldval newval p && mate p (.await g 0) := by
  rw [State.unblocks]
  congr 1
  funext p
  cases p with
  | alarm a => rfl
  | await g' i => rw [inGroup, mate, inGroup, BEq.comm]

def NotRefired (s : State) (oldval newval : BitVec 64) (l : List TriggerPtr) (a : Nat)
    (al : SyncAlarm) : Prop :=
  al.hangs = false ∧ (al.firesAgain newval oldval = true →
    againAfter (s.unblocking oldval newval) mate (.alarm a) l = false)

theorem Registered.visitTimes_iff {newval : BitVec 64} (h : Registered s none none view) {a : Nat}
    {al : SyncAlarm} (hmem : .alarm a ∈ ptrs (view o)) (htrue : al.isTrue newval oldval = true) :
    (∃ al', al.visitTimes newval oldval ((visits (s.unblocking oldval newval) mate []
      (ptrs (view o))).count (.alarm a)) = some (al', 1)) ↔
      NotRefired s oldval newval (ptrs (view o)) a al := by
  have hmiss : s.unblocking oldval newval (.alarm a) = false := rfl
  have halarm : ∀ p, s.unblocking oldval newval p = true → mate p (.alarm a) = false := by
    rintro (b | ⟨g, i⟩) _ <;> rfl
  have hone : 1 ≤ (visits (s.unblocking oldval newval) mate [] (ptrs (view o))).count
      (.alarm a) := Restart.one_le_count halarm hmem
  have htwo : 2 ≤ (visits (s.unblocking oldval newval) mate [] (ptrs (view o))).count
      (.alarm a) ↔ againAfter (s.unblocking oldval newval) mate (.alarm a) (ptrs (view o)) = true :=
    Restart.two_le_count halarm hmiss (by simp) (h.once o) hmem
  obtain ⟨n, hn⟩ : ∃ n, (visits (s.unblocking oldval newval) mate [] (ptrs (view o))).count
      (.alarm a) = n + 1 := ⟨_, (Nat.succ_pred_eq_of_pos hone).symm⟩
  rw [hn] at htwo ⊢
  rw [SyncAlarm.visitTimes_once htrue, NotRefired, ← Bool.not_eq_true, ← Bool.not_eq_true, ← htwo]
  have hzero : n = 0 ↔ ¬2 ≤ n + 1 := by omega
  rw [hzero]

theorem Registered.firesOnce {newval : BitVec 64} {obj : SyncObject} {events : List Event}
    (h : Registered s none none view) (hobj : s.object o = some obj)
    (hbody : obj.body = .counter oldval) (hrun : s.syncChangeCounter o newval = some (s', events))
    (hnotifies : ∀ a al, s.alarm a = some al → events.countP (isNotify a) =
      if .alarm a ∈ ptrs (view o) ∧ al.isTrue newval oldval = true then 1 else 0) :
    FiresOnce s o oldval newval view s' events := by
  obtain ⟨hwalk, hhit, hloop⟩ := h.changeWalk hobj hbody newval
  have hon : ∀ p ∈ visits (s.unblocking oldval newval) mate [] (ptrs (view o)), p ∈ ptrs (view o) :=
    fun p hp => Restart.mem_of_mem_visits hp
  rw [hloop] at hrun
  obtain ⟨hvisited, hwalk'⟩ := hwalk.visited hhit (fun p hp _ => hon p hp) hrun
  have hcount : ∀ g, (visits (s.unblocking oldval newval) mate [] (ptrs (view o))).countP
      (fun p => s.unblocking oldval newval p && mate p (.await g 0)) =
      if s.unblocks oldval newval (ptrs (view o)) g then 1 else 0 := by
    intro g
    rw [Restart.countP_hit (mates fun _ => rfl) (by simp), unblocks_eq]
  have hunblocked : ∀ g, unblocked (s.unblocking oldval newval)
      (visits (s.unblocking oldval newval) mate [] (ptrs (view o))) g =
      s.unblocks oldval newval (ptrs (view o)) g := by
    intro g
    rw [Bool.eq_iff_iff, unblocked, dropped, ← countP_pos_iff.trans List.any_eq_true.symm, hcount]
    split <;> simp_all
  refine ⟨fun g => ?_, hvisited.clients, fun g => ?_, fun g => ?_, fun a => ?_, ?_⟩
  · rw [hvisited.attends, hcount]
  · rw [hvisited.freed, hcount]
  · rw [hvisited.awaits, hunblocked]
    rfl
  · cases hal : s.alarm a with
    | none =>
      rw [(hvisited.strangers a hal).2, if_neg (by simp)]
    | some al =>
      rw [hnotifies a al hal, any_some]
  · have hgone : dropped (s.unblocking oldval newval)
        (visits (s.unblocking oldval newval) mate [] (ptrs (view o))) = fun
        | .alarm _ => false
        | .await g _ => s.unblocks oldval newval (ptrs (view o)) g := by
      funext q
      cases q with
      | alarm a =>
        rw [dropped, List.any_eq_false]
        rintro (b | ⟨g, i⟩) _ <;> simp [mate, inGroup]
      | await g i =>
        have hsame : dropped (s.unblocking oldval newval) (visits (s.unblocking oldval newval) mate
            [] (ptrs (view o))) (.await g i) = unblocked (s.unblocking oldval newval)
            (visits (s.unblocking oldval newval) mate [] (ptrs (view o))) g := by
          rw [unblocked, dropped, dropped]
          congr 1
          funext p
          cases p <;> rfl
        exact hsame.trans (hunblocked g)
    rw [← hgone]
    exact hwalk'.registered.holds

/-- One change of a counter fires every trigger once when no alarm that is true adds zero for
ever, and the walk starts over behind none that is still true after it has fired. -/
theorem syncChangeCounter_once_iff {newval : BitVec 64} {obj : SyncObject}
    (h : Registered s none none view) (hobj : s.object o = some obj)
    (hbody : obj.body = .counter oldval) :
    (∃ s' events, s.syncChangeCounter o newval = some (s', events) ∧
      FiresOnce s o oldval newval view s' events) ↔
    ∀ a al, .alarm a ∈ ptrs (view o) → s.alarm a = some al → al.isTrue newval oldval = true →
      NotRefired s oldval newval (ptrs (view o)) a al := by
  obtain ⟨hwalk, hhit, hloop⟩ := h.changeWalk hobj hbody newval
  constructor
  · rintro ⟨s', events, hrun, honce⟩ a al hmem hal htrue
    rw [hloop] at hrun
    obtain ⟨hvisited, -⟩ := hwalk.visited hhit (fun p hp _ => Restart.mem_of_mem_visits hp) hrun
    obtain ⟨al', -, htimes⟩ := hvisited.alarms a al hal
    rw [honce.notifies, hal, any_some, if_pos ⟨hmem, htrue⟩] at htimes
    exact (h.visitTimes_iff hmem htrue).mp ⟨al', htimes⟩
  · intro hnot
    have htimes : ∀ a al, .alarm a ∈ ptrs (view o) → s.alarm a = some al →
        ∃ al', al.visitTimes newval oldval ((visits (s.unblocking oldval newval) mate []
          (ptrs (view o))).count (.alarm a)) =
          some (al', if al.isTrue newval oldval = true then 1 else 0) := by
      intro a al hmem hal
      cases htrue : al.isTrue newval oldval with
      | false => exact ⟨al, SyncAlarm.visitTimes_idle htrue _⟩
      | true => exact (h.visitTimes_iff hmem htrue).mpr (hnot a al hmem hal htrue)
    obtain ⟨⟨s', events⟩, hrun⟩ := hwalk.visitAll_some (mates fun _ => rfl) hhit rfl (by
      intro a al hmem hal
      obtain ⟨al', hal'⟩ := htimes a al hmem hal
      rw [hal']
      rfl)
    rw [← hloop] at hrun
    refine ⟨s', events, hrun, h.firesOnce hobj hbody hrun fun a al hal => ?_⟩
    rw [hloop] at hrun
    obtain ⟨hvisited, -⟩ := hwalk.visited hhit (fun p hp _ => Restart.mem_of_mem_visits hp) hrun
    obtain ⟨al₁, -, hvisits⟩ := hvisited.alarms a al hal
    by_cases hmem : .alarm a ∈ ptrs (view o)
    · obtain ⟨al', hal'⟩ := htimes a al hmem hal
      rw [hal', some.injEq, mk.injEq] at hvisits
      rw [← hvisits.2]
      simp only [hmem, true_and]
    · rw [count_eq_zero_of_not_mem fun hin => hmem (Restart.mem_of_mem_visits hin),
        SyncAlarm.visitTimes, some.injEq, mk.injEq] at hvisits
      rw [← hvisits.2, if_neg fun hand => hmem hand.1]

end

def noAttributes : AlarmAttributes :=
  { counter := none
    valueType := none
    value := none
    testType := none
    delta := none
    events := none
    others := false }

def atLeastFive : WaitCondition :=
  { counter := some 0
    valueType := syncAbsolute
    waitValue := 5
    testType := positiveComparison
    eventThreshold := 0 }

def alarmActs (testType : BitVec 32) : List Act :=
  [.createCounter (some 1) 0, .awaitCounters 2 (fun _ => 0) [atLeastFive, atLeastFive],
    .createAlarm 1 { noAttributes with
      counter := some (some 0)
      value := some 5
      testType := some testType } fun _ => 0]

/-- A comparison alarm is false after it has fired. -/
theorem syncChangeCounter_once_comparison :
    ∃ s outs view s' events, Run.exec State.step State.start (alarmActs positiveComparison) =
        some (s, outs) ∧ s.syncChangeCounter 0 10 = some (s', events) ∧
      FiresOnce s 0 0 10 view s' events := by
  obtain ⟨⟨s, outs⟩, hrun⟩ : ∃ r, Run.exec State.step State.start
      (alarmActs positiveComparison) = some r := isSome_iff_exists.mp (by rfl)
  obtain ⟨view, h⟩ := start_registered.run hrun
  have hobject : (Run.exec State.step State.start (alarmActs positiveComparison)).bind
      (fun r => r.1.object 0) = some ⟨some 1, false, .counter 0⟩ := by rfl
  have halarm : (Run.exec State.step State.start (alarmActs positiveComparison)).map
      (fun r => r.1.alarms.all fun al => al.all fun al =>
        !al.hangs && !al.firesAgain 10 0) = some true := by rfl
  rw [hrun] at hobject halarm
  have hall : ∀ a al, s.alarm a = some al → al.hangs = false ∧ al.firesAgain 10 0 = false := by
    intro a al hal
    have hmem : some al ∈ s.alarms := mem_of_getElem? (join_eq_some_iff.mp hal)
    have htest := List.all_eq_true.mp (some.inj halarm) _ hmem
    simpa using htest
  obtain ⟨s', events, hchange, honce⟩ := (syncChangeCounter_once_iff h hobject rfl).mpr
    fun a al _ hal _ => ⟨(hall a al hal).1, fun hagain => by
      rw [(hall a al hal).2] at hagain
      cases hagain⟩
  exact ⟨s, outs, view, s', events, hrun, hchange, honce⟩

/-- The walk starts over behind a transition alarm that is true at its next value, too. -/
theorem syncChangeCounter_fires_twice : ∃ s outs view obj s' events,
      Run.exec State.step State.start (alarmActs positiveTransition) = some (s, outs) ∧
      Registered s none none view ∧ s.object 0 = some obj ∧ obj.body = .counter 0 ∧
      s.syncChangeCounter 0 10 = some (s', events) ∧ events.countP (isNotify 0) = 2 ∧
      ¬FiresOnce s 0 0 10 view s' events := by
  obtain ⟨⟨s, outs⟩, hrun⟩ : ∃ r, Run.exec State.step State.start
      (alarmActs positiveTransition) = some r := isSome_iff_exists.mp (by rfl)
  obtain ⟨view, h⟩ := start_registered.run hrun
  have hobject : (Run.exec State.step State.start (alarmActs positiveTransition)).bind
      (fun r => r.1.object 0) = some ⟨some 1, false, .counter 0⟩ := by rfl
  have hevents : (Run.exec State.step State.start (alarmActs positiveTransition)).bind
      (fun r => (r.1.syncChangeCounter 0 10).map fun r => r.2.countP (isNotify 0)) = some 2 := by
    rfl
  rw [hrun] at hobject hevents
  obtain ⟨⟨s', events⟩, hchange, htwice⟩ := map_eq_some_iff.mp hevents
  refine ⟨s, outs, view, _, s', events, hrun, h, hobject, rfl, hchange, htwice, fun honce => ?_⟩
  have hnotifies := honce.notifies 0
  rw [htwice] at hnotifies
  split at hnotifies <;> cases hnotifies

end Xfront.Sync
