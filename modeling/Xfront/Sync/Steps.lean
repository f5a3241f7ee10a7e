import Xfront.Sync.AlarmRequests
import Xfront.Sync.Change

/-!
# Steps

Every request keeps the triggers on their lists and settles the groups: one that goes is freed
once, and its client is told once unless the group was freed by itself.
-/

namespace Xfront.Sync
open List Option
open Linked (Addr Lists addrs)

section

variable {s s' : State} {view : View} {o : SyncId} {events : List Event}

theorem Registered.syncChangeCounter {newval : BitVec 64}
    (h : Registered s none none view) (hrun : s.syncChangeCounter o newval = some (s', events)) :
    Keeps (fun _ => false) s events s' := by
  obtain ⟨obj, hobj, hbody⟩ := bind_eq_some_iff.mp hrun
  cases hvalue : obj.body with
  | fence triggered =>
    simp only [hvalue] at hbody
    cases hbody
  | counter oldval =>
    obtain ⟨hwalk, hhit, hloop⟩ := h.changeWalk hobj hvalue newval
    rw [hloop] at hrun
    obtain ⟨hvisited, hwalk'⟩ :=
      hwalk.visited hhit (fun p hp _ => Restart.mem_of_mem_visits hp) hrun
    exact ⟨⟨_, hwalk'.registered⟩, ⟨hvisited.settles.groups, hvisited.settles.clients,
      hvisited.settles.gone, hvisited.settles.length⟩⟩

theorem Registered.createGroup (h : Registered s none none view) (client : Client) :
    Registered { s with awaits := s.awaits ++ [some { client := client, awaits := [] }] } none none
      view := by
  have hawait : ∀ g, State.await { s with
      awaits := s.awaits ++ [some { client := client, awaits := [] }] } g =
      if g = s.awaits.length then some { client := client, awaits := [] } else s.await g :=
    join_append s.awaits _
  have htrigger : ∀ p, State.trigger { s with
      awaits := s.awaits ++ [some { client := client, awaits := [] }] } p = s.trigger p := by
    rintro (a | ⟨g, i⟩)
    · rfl
    · rw [State.trigger, hawait]
      split
      · next heq =>
        rw [State.trigger, State.await, heq, getElem?_eq_none (le_refl _)]
        rfl
      · rfl
  refine ⟨h.holds, fun o p hp => ?_, fun p t o ht => ?_, h.once, fun p t o ht => ?_, h.full,
    h.destroyed, fun g u hu aw haw => ?_, h.alarms⟩
  · rw [htrigger]
    exact h.known o p hp
  · rw [htrigger] at ht
    exact h.listed p t o ht
  · rw [htrigger] at ht
    exact h.live p t o ht
  · rw [hawait] at hu
    split at hu
    · cases hu
      cases haw
    · exact h.waits g u hu aw haw

variable {g : Nat} {u : SyncAwaitUnion}

theorem State.await_setAwait (hu : s.await g = some u) (u' : SyncAwaitUnion) (g' : Nat) :
    (s.setAwait g u').await g' = if g = g' then some u' else s.await g' :=
  join_set_some u' hu g'

theorem Registered.appendCondition {obj : SyncObject}
    (h : Registered s none none view) (hu : s.await g = some u) (aw : SyncAwait)
    (hsync : aw.trigger.pSync = some o) (hobj : s.object o = some obj)
    (hcheck : aw.trigger.checkTrigger = .fence ↔ isCounter obj = false) :
    Registered (s.setAwait g { u with awaits := u.awaits ++ [aw] }) none
        (some (.await g u.awaits.length)) view ∧
      (s.setAwait g { u with awaits := u.awaits ++ [aw] }).trigger (.await g u.awaits.length) =
        some aw.trigger ∧
      ∀ o', .await g u.awaits.length ∉ ptrs (view o') := by
  have hnew : s.trigger (.await g u.awaits.length) = none := by
    rw [State.trigger, hu, bind_some, getElem?_eq_none (le_refl _)]
    rfl
  have htrigger : ∀ p, (s.setAwait g { u with awaits := u.awaits ++ [aw] }).trigger p =
      if p = .await g u.awaits.length then some aw.trigger else s.trigger p := by
    rintro (a | ⟨g', i⟩)
    · rw [if_neg (by simp)]
      rfl
    · rw [State.trigger, State.await_setAwait hu]
      by_cases hg : g = g'
      · subst hg
        rw [if_pos rfl, bind_some, State.trigger, hu, bind_some]
        rcases lt_trichotomy i u.awaits.length with hlt | rfl | hgt
        · rw [getElem?_append_left hlt, if_neg (by simp; omega)]
        · simp
        · rw [if_neg (by simp; omega), getElem?_eq_none (le_of_lt hgt),
            getElem?_eq_none (by rw [length_append, length_singleton]; omega)]
      · rw [if_neg hg, if_neg (by simp [Ne.symm hg])]
        rfl
  have hoff : ∀ o', .await g u.awaits.length ∉ ptrs (view o') := by
    intro o' hp
    obtain ⟨t, ht, -⟩ := h.known o' _ hp
    rw [hnew] at ht
    cases ht
  refine ⟨⟨h.holds, fun o' p hp => ?_, fun p t o' ht ho hne => ?_, h.once, fun p t o' ht ho => ?_,
    h.full, h.destroyed, fun g' u' hu' aw' haw' => ?_, h.alarms⟩, ?_, hoff⟩
  · have hne : p ≠ .await g u.awaits.length := by
      rintro rfl
      exact hoff o' hp
    rw [htrigger, if_neg hne]
    exact h.known o' p hp
  · rw [htrigger] at ht
    split at ht
    · next heq => exact absurd (congrArg some heq.symm) hne
    · exact h.listed p t o' ht ho (by simp)
  · rw [htrigger] at ht
    split at ht
    · cases ht
      rw [hsync] at ho
      cases ho
      exact ⟨obj, hobj, hcheck⟩
    · exact h.live p t o' ht ho
  · rw [State.await_setAwait hu] at hu'
    split at hu'
    · cases hu'
      rcases mem_append.mp haw' with haw' | haw'
      · exact h.waits g u hu aw' haw'
      · rw [mem_singleton.mp haw', hsync]
        exact some_ne_none o
    · exact h.waits g' u' hu' aw' haw'
  · rw [htrigger, if_pos rfl]

structure Extends (s : State) (g : Nat) (s' : State) : Prop where
  registered : ∃ view', Registered s' none none view'
  group : ∃ u, s'.await g = some u
  others : ∀ g', g' ≠ g → s'.await g' = s.await g'
  length : s'.awaits.length = s.awaits.length
  alarms : s'.alarms = s.alarms

theorem Registered.initConditionAct
    (h : Registered s none none view) (hu : s.await g = some u) (type : SyncType)
    (query : SyncId → BitVec 64) (w : WaitCondition) :
    ∃ s' err, s.initCondition g type query w = some (s', err) ∧ Extends s g s' := by
  unfold State.initCondition
  rw [hu, bind_some]
  cases hw : w.counter with
  | none => exact ⟨s, _, rfl, ⟨view, h⟩, ⟨u, hu⟩, fun _ _ => rfl, rfl, rfl⟩
  | some o =>
    simp only
    generalize hinit : s.initTrigger _ (some o) type allTrigger query = r
    obtain ⟨s₁, t₁, e | pSync⟩ := r
    · obtain ⟨hreg, halarms, hawaits, -⟩ := h.initCondition hinit
      have hawait : ∀ g', s₁.await g' = s.await g' := fun g' => by
        rw [State.await, hawaits, State.await]
      exact ⟨s₁, some e, rfl, ⟨view, hreg⟩, ⟨u, (hawait g).trans hu⟩, fun g' _ => hawait g',
        by rw [hawaits], halarms⟩
    · obtain ⟨hreg, halarms, hawaits, hok⟩ := h.initCondition hinit
      obtain ⟨rfl, obj, hobj, hcheck⟩ := hok pSync rfl
      have hawait : ∀ g', s₁.await g' = s.await g' := fun g' => by
        rw [State.await, hawaits, State.await]
      obtain ⟨hreg₂, htrigger, hoff⟩ := hreg.appendCondition ((hawait g).trans hu)
        { trigger := { t₁ with pSync := some o }, eventThreshold := w.eventThreshold } rfl hobj
        hcheck
      obtain ⟨lists, view₂, hadd, hreg₃⟩ := hreg₂.addTrigger htrigger hoff
      refine ⟨_, none, congrArg (Option.map _) hadd, ⟨view₂, hreg₃⟩,
        ⟨_, (State.await_setAwait ((hawait g).trans hu) _ g).trans (if_pos rfl)⟩,
        fun g' hne => ?_, ?_, halarms⟩
      · exact ((State.await_setAwait ((hawait g).trans hu) _ g').trans
          (if_neg (Ne.symm hne))).trans (hawait g')
      · rw [← hawaits]
        exact length_set

theorem Registered.initConditions (type : SyncType)
    (query : SyncId → BitVec 64) (ws : List WaitCondition)
    (h : Registered s none none view) (hu : s.await g = some u) :
    ∃ s' err, s.initConditions g type query ws = some (s', err) ∧ Extends s g s' := by
  induction ws generalizing s view u with
  | nil => exact ⟨s, none, rfl, ⟨view, h⟩, ⟨u, hu⟩, fun _ _ => rfl, rfl, rfl⟩
  | cons w ws ih =>
    obtain ⟨s₁, err₁, hinit, hone⟩ := h.initConditionAct hu type query w
    rw [State.initConditions, hinit, bind_some]
    cases err₁ with
    | some e => exact ⟨s₁, some e, rfl, hone⟩
    | none =>
      obtain ⟨view₁, hreg₁⟩ := hone.registered
      obtain ⟨u₁, hu₁⟩ := hone.group
      obtain ⟨s₂, err₂, hrest, hall⟩ := ih hreg₁ hu₁
      exact ⟨s₂, err₂, hrest, hall.registered, hall.group,
        fun g' hne => (hall.others g' hne).trans (hone.others g' hne),
        hall.length.trans hone.length, hall.alarms.trans hone.alarms⟩

theorem Registered.awaitEpilogue {i : Nat} {awaits : List SyncAwait}
    (h : Registered s none none view) (hu : s.await g = some u)
    (hlive : ∀ aw ∈ awaits, ∃ o obj, aw.trigger.pSync = some o ∧ s.object o = some obj) :
    ∃ s' events, s.awaitEpilogue g i awaits = some (s', events) ∧
      Keeps (fun _ => false) s events s' ∧ s'.alarms = s.alarms := by
  induction awaits generalizing i with
  | nil => exact ⟨s, [], rfl, ⟨⟨view, h⟩, Settles.refl⟩, rfl⟩
  | cons aw awaits ih =>
    obtain ⟨o, obj, hsync, hobj⟩ := hlive aw mem_cons_self
    have hcheck : ∀ value, s.check aw.trigger value =
        some (aw.trigger.checkTrigger.holds obj.body aw.trigger.testValue value) := by
      intro value
      rw [State.check, hsync]
      exact congrArg (Option.map _) hobj
    simp only [State.awaitEpilogue, hsync, bind_some, hobj, hcheck]
    generalize CheckTrigger.holds _ _ _ _ = holds
    cases holds with
    | true =>
      obtain ⟨s₁, events₁, hfire, hunblocks, hfreed, hreg⟩ := h.awaitTriggerFired hu (by simp)
      exact ⟨s₁, events₁, hfire, ⟨⟨_, hreg⟩, Settles.fired hu hunblocks hfreed⟩, hfreed.alarms⟩
    | false => exact ih fun aw' haw' => hlive aw' (mem_cons_of_mem aw haw')

theorem Registered.awaitConditions (h : Registered s none none view) (client : Client)
    (type : SyncType) (query : SyncId → BitVec 64) (ws : List WaitCondition) :
    ∃ s' events err, s.awaitConditions client type query ws = some (s', events, err) ∧
      Keeps (fun _ => false) s events s' ∧ s'.alarms = s.alarms := by
  rw [State.awaitConditions]
  split
  · exact ⟨s, [], _, rfl, ⟨⟨view, h⟩, Settles.refl⟩, rfl⟩
  · have hawait : ∀ g, State.await { s with
        awaits := s.awaits ++ [some { client := client, awaits := [] }] } g =
        if g = s.awaits.length then some { client := client, awaits := [] } else s.await g :=
      join_append s.awaits _
    obtain ⟨s₁, err₁, hinit, hextends⟩ := (h.createGroup client).initConditions type query ws
      (by rw [hawait, if_pos rfl])
    obtain ⟨view₁, hreg₁⟩ := hextends.registered
    obtain ⟨u, hu⟩ := hextends.group
    have hlength : s.awaits.length ≤ s₁.awaits.length := by
      rw [hextends.length, length_append]
      omega
    have hfirst : Settles (fun _ => false) s [] s₁ := by
      refine Settles.none (fun g hlt => ?_) hlength fun _ he => (nomatch he)
      rw [hextends.others g (ne_of_lt hlt), hawait, if_neg (ne_of_lt hlt)]
    simp only [hinit, bind_some]
    cases err₁ with
    | some e =>
      obtain ⟨s₂, hfree, hfreed, hreg₂⟩ := hreg₁.freeAwait hu fun _ heq => (nomatch heq)
      refine ⟨s₂, [.awaitFreed s.awaits.length], some e, congrArg (Option.map _) hfree,
        ⟨⟨_, hreg₂⟩, hfirst.andThen (Settles.freed hu hfreed) fun g hlt => ?_⟩,
        hfreed.alarms.trans hextends.alarms⟩
      exact (beq_eq_false_iff_ne.mpr (ne_of_lt hlt)).symm
    | none =>
      obtain ⟨s₂, events₂, hepilogue, ⟨hkept, hsettles⟩, halarms⟩ :=
        hreg₁.awaitEpilogue (i := 0) hu fun aw haw => by
          obtain ⟨j, hj⟩ := mem_iff_getElem?.mp haw
          obtain ⟨o, obj, hsync, hobj, -⟩ := hreg₁.conditions hu hj
          exact ⟨o, obj, hsync, hobj⟩
      refine ⟨s₂, events₂, none, ?_, ⟨hkept, hfirst.trans hsettles⟩, halarms.trans hextends.alarms⟩
      simp only [hu, bind_some, hepilogue, map_some]

def Act.quiet : Act → Nat → Bool
  | .freeAwait g, g' => g' == g
  | _, _ => false

theorem Registered.onObject {type : SyncType} {act : State → Option (State × List Event)}
    {quiet : Nat → Bool} {err : Option SyncError} (h : Registered s none none view)
    (hact : ∀ obj s' events, s.object o = some obj → obj.type = type →
      act s = some (s', events) → Keeps quiet s events s')
    (hrun : s.onObject type o act = some (s', events, err)) : Keeps quiet s events s' := by
  unfold State.onObject at hrun
  split at hrun
  · cases hrun
    exact ⟨⟨view, h⟩, Settles.refl⟩
  · next obj hlookup =>
    obtain ⟨⟨s₁, events₁⟩, hstep, heq⟩ := map_eq_some_iff.mp hrun
    cases heq
    obtain ⟨hobj, htype⟩ := State.lookup_ok hlookup
    exact hact obj _ _ hobj htype hstep

theorem Registered.step {act : Act} {err : Option SyncError}
    (h : Registered s none none view) (hrun : s.step act = some (s', events, err)) :
    Keeps act.quiet s events s' := by
  cases act with
  | createCounter client initial | createFence client triggered =>
    cases hrun
    exact ⟨⟨view, h.createObject rfl⟩, Settles.same rfl fun _ he => (nomatch he)⟩
  | setCounter o newvalue =>
    simp only [State.step, State.setCounter] at hrun
    split at hrun
    · cases hrun
      exact ⟨⟨view, h⟩, Settles.refl⟩
    · split at hrun
      · cases hrun
        exact ⟨⟨view, h⟩, Settles.refl⟩
      · obtain ⟨⟨s₁, events₁⟩, hchange, heq⟩ := map_eq_some_iff.mp hrun
        cases heq
        exact h.syncChangeCounter hchange
  | changeCounter o amount =>
    simp only [State.step, State.changeCounter] at hrun
    split at hrun
    · cases hrun
      exact ⟨⟨view, h⟩, Settles.refl⟩
    · split at hrun
      · cases hrun
        exact ⟨⟨view, h⟩, Settles.refl⟩
      · split at hrun
        · cases hrun
          exact ⟨⟨view, h⟩, Settles.refl⟩
        · split at hrun
          · cases hrun
            exact ⟨⟨view, h⟩, Settles.refl⟩
          · obtain ⟨⟨s₁, events₁⟩, hchange, heq⟩ := map_eq_some_iff.mp hrun
            cases heq
            exact h.syncChangeCounter hchange
  | syncChangeCounter o newval =>
    simp only [State.step] at hrun
    exact h.onObject (fun _ _ _ _ _ hchange => h.syncChangeCounter hchange) hrun
  | freeCounter o =>
    simp only [State.step] at hrun
    refine h.onObject (fun obj s₁ events₁ hobj htype hfree => ?_) hrun
    rw [State.freeCounter_eq hobj (SyncObject.type_counter.mp htype)] at hfree
    obtain ⟨s₂, events₂, view₂, hdestroy, hreg, -, hsettles, -⟩ := h.destroyObject hobj
    rw [hfree] at hdestroy
    cases hdestroy
    exact ⟨⟨view₂, hreg⟩, hsettles⟩
  | awaitCounters client query ws =>
    obtain ⟨s₁, events₁, err₁, hawait, hkeeps, -⟩ := h.awaitConditions client .counter query ws
    rw [State.step, State.procAwait, hawait] at hrun
    cases hrun
    exact hkeeps
  | awaitFences client fences =>
    obtain ⟨s₁, events₁, err₁, hawait, hkeeps, -⟩ :=
      h.awaitConditions client .fence (fun _ => 0) (fences.map fenceCondition)
    rw [State.step, State.procAwaitFence, hawait] at hrun
    cases hrun
    exact hkeeps
  | freeAwait g =>
    simp only [State.step] at hrun
    split at hrun
    · cases hrun
      exact ⟨⟨view, h⟩, Settles.refl⟩
    · next hne =>
      obtain ⟨u, hu⟩ := ne_none_iff_exists'.mp hne
      obtain ⟨s₁, hfree, hfreed, hreg⟩ := h.freeAwait hu fun _ heq => (nomatch heq)
      rw [hfree] at hrun
      cases hrun
      exact ⟨⟨_, hreg⟩, Settles.freed hu hfreed⟩
  | createAlarm client c query => exact h.createAlarm hrun
  | changeAlarm client a c query => exact h.changeAlarm hrun
  | freeAlarm a =>
    simp only [State.step] at hrun
    split at hrun
    · cases hrun
      exact ⟨⟨view, h⟩, Settles.refl⟩
    · obtain ⟨⟨s₁, events₁⟩, hfree, heq⟩ := map_eq_some_iff.mp hrun
      cases heq
      exact h.freeAlarm hfree
  | triggerFence o =>
    simp only [State.step] at hrun
    refine h.onObject (fun obj s₁ events₁ hobj htype htrigger => ?_) hrun
    obtain ⟨s₂, events₂, view₂, htrigger', hreg, -, -, hsettles, -⟩ :=
      h.syncTriggerFence hobj (SyncObject.type_fence.mp htype)
    rw [htrigger] at htrigger'
    cases htrigger'
    exact ⟨⟨view₂, hreg⟩, hsettles⟩
  | resetFence o =>
    simp only [State.step, State.resetFence] at hrun
    split at hrun
    · cases hrun
      exact ⟨⟨view, h⟩, Settles.refl⟩
    · next obj hlookup =>
      split at hrun
      · next hbody =>
        cases hrun
        refine ⟨⟨view, h.setBody (State.lookup_ok hlookup).1 ?_⟩,
          Settles.same rfl fun _ he => (nomatch he)⟩
        rw [isCounter, isCounter, hbody]
      all_goals
        cases hrun
        exact ⟨⟨view, h⟩, Settles.refl⟩
  | destroyFence o =>
    simp only [State.step] at hrun
    refine h.onObject (fun obj s₁ events₁ hobj htype hfree => ?_) hrun
    rw [State.syncDestroyFence_eq hobj (SyncObject.type_fence.mp htype)] at hfree
    obtain ⟨s₂, events₂, view₂, hdestroy, hreg, -, hsettles, -⟩ := h.destroyObject hobj
    rw [hfree] at hdestroy
    cases hdestroy
    exact ⟨⟨view₂, hreg⟩, hsettles⟩

theorem start_registered : Registered State.start none none fun _ => [] := by
  have hnone : ∀ p, State.start.trigger p = none := by
    rintro (a | ⟨g, i⟩) <;> rfl
  refine ⟨Linked.Lists.empty_holds, fun _ _ hp => (nomatch hp), fun p t o ht => ?_,
    fun _ => nodup_nil, fun p t o ht => ?_, fun _ _ _ hx => (nomatch hx),
    fun _ _ hobj => (nomatch hobj), fun _ _ hu => (nomatch hu), fun _ _ hal => (nomatch hal)⟩
  · rw [hnone] at ht
    cases ht
  · rw [hnone] at ht
    cases ht

theorem Registered.run {acts : List Act} {outs : List (List Event × Option SyncError)}
    (h : Registered s none none view) (hrun : Run.exec State.step s acts = some (s', outs)) :
    ∃ view', Registered s' none none view' := by
  have hstep : ∀ (s : State) (act : Act) (s' : State) (o : List Event × Option SyncError),
      (∃ view, Registered s none none view) → True → s.step act = some (s', o) →
      ∃ view', Registered s' none none view' := by
    rintro s act s' ⟨events, err⟩ ⟨view, h⟩ - hstep
    exact (h.step hstep).1
  have hkept := Run.exec_keeps hstep ⟨view, h⟩ (Run.guarded_true s acts) hrun
  exact hkept

end

end Xfront.Sync
