import Xfront.Sync.Registered

/-!
# Firing a trigger

What it does to fire an Await group or an alarm, with every trigger on its list before and after.
-/

namespace Xfront.Sync
open List Option Bool
open Linked (Addr Lists addrs)

def inGroup (g : Nat) : TriggerPtr → Bool
  | .alarm _ => false
  | .await g' _ => g' == g

def isCondition (g i n : Nat) : TriggerPtr → Bool
  | .alarm _ => false
  | .await g' j => g' == g && decide (i ≤ j) && decide (j < i + n)

theorem isCondition_zero (g i : Nat) (p : TriggerPtr) : isCondition g i 0 p = false := by
  cases p with
  | alarm a => rfl
  | await g' j =>
    simp only [isCondition, add_zero, and_eq_false_iff, decide_eq_false_iff_not]
    omega

theorem isCondition_succ (g i n : Nat) (p : TriggerPtr) :
    isCondition g i (n + 1) p = ((p == .await g i) || isCondition g (i + 1) n p) := by
  cases p with
  | alarm a => rfl
  | await g' j =>
    rw [Bool.eq_iff_iff]
    simp only [isCondition, and_eq_true, or_eq_true, beq_iff_eq, decide_eq_true_eq,
      TriggerPtr.await.injEq]
    constructor
    · rintro ⟨⟨rfl, hlo⟩, hhi⟩
      by_cases hj : j = i
      · exact .inl ⟨rfl, hj⟩
      · exact .inr ⟨⟨rfl, by omega⟩, by omega⟩
    · rintro (⟨rfl, rfl⟩ | ⟨⟨rfl, hlo⟩, hhi⟩)
      · exact ⟨⟨rfl, le_refl _⟩, by omega⟩
      · exact ⟨⟨rfl, by omega⟩, by omega⟩

theorem frames_trans {l₁ l₂ l₃ : Lists SyncId (Option TriggerPtr)} {view view' : View}
    (h : l₁.Frames l₂ view) (h' : l₂.Frames l₃ view')
    (hsub : ∀ o, ∀ a ∈ addrs (view' o), a ∈ addrs (view o)) : l₁.Frames l₃ view := by
  intro a ha
  rw [h' a fun o hmem => ha o (hsub o a hmem), h a ha]

variable {s : State}

theorem freeConditions_spec {d : Option SyncId} {view : View} {g i : Nat}
    {awaits : List SyncAwait} {lists : Lists SyncId (Option TriggerPtr)}
    (hlists : lists.Holds view) (honce : ∀ o, (ptrs (view o)).Nodup)
    (hdestroyed : ∀ o obj, s.object o = some obj → (obj.beingDestroyed = true ↔ d = some o))
    (hconds : ∀ j aw, awaits[j]? = some aw → ∃ o obj, aw.trigger.pSync = some o ∧
      s.object o = some obj ∧ ∀ o', .await g (i + j) ∈ ptrs (view o') → o' = o) :
    ∃ lists', freeConditions s g i awaits lists = some lists' ∧
      lists'.Holds (view.drop d (isCondition g i awaits.length)) ∧ lists.Frames lists' view := by
  induction awaits generalizing i view lists with
  | nil =>
    refine ⟨lists, rfl, ?_, fun _ _ => rfl⟩
    have hsame : view.drop d (isCondition g i 0) = view :=
      funext fun o => drop_none d fun p _ => isCondition_zero g i p
    rw [length_nil, hsame]
    exact hlists
  | cons aw awaits ih =>
    obtain ⟨o, obj, hsync, hobj, honly⟩ := hconds 0 aw rfl
    rw [add_zero] at honly
    have hview := drop_one (d := d) honly (honce o)
    obtain ⟨lists₁, hstep, hlists₁, hframes₁⟩ : ∃ lists₁,
        (if obj.beingDestroyed then lists.writeFirst o (isPtr (.await g i)) none
          else lists.unlinkFirst o (isPtr (.await g i))) = some lists₁ ∧
        lists₁.Holds (view.drop d (· == .await g i)) ∧ lists.Frames lists₁ view := by
      rw [hview]
      by_cases hd : d = some o
      · rw [if_pos ((hdestroyed o obj hobj).mpr hd), if_pos hd]
        exact hlists.writeFirst o _ none
      · rw [if_neg (fun h => hd ((hdestroyed o obj hobj).mp h)), if_neg hd]
        exact hlists.unlinkFirst o _
    have honce₁ : ∀ o', (ptrs (view.drop d (· == .await g i) o')).Nodup := by
      intro o'
      rw [ptrs_drop]
      exact (honce o').filter _
    obtain ⟨lists', hrest, hlists', hframes⟩ := ih (i := i + 1) hlists₁ honce₁ (by
      intro j aw' haw
      obtain ⟨o', obj', hsync', hobj', honly'⟩ := hconds (j + 1) aw' haw
      refine ⟨o', obj', hsync', hobj', fun o'' hmem => honly' o'' ?_⟩
      rw [ptrs_drop] at hmem
      have hmem := (mem_filter.mp hmem).1
      rwa [add_assoc, add_comm 1] at hmem)
    refine ⟨lists', ?_, ?_, frames_trans hframes₁ hframes fun _ _ => addrs_drop⟩
    · rw [freeConditions, hsync]
      simp only [hobj, bind_some, hstep, hrest]
    · have hall : view.drop d (isCondition g i (aw :: awaits).length) =
          (view.drop d (· == .await g i)).drop d (isCondition g (i + 1) awaits.length) := by
        rw [drop_drop]
        exact funext fun o' => drop_congr d fun p _ => isCondition_succ g i awaits.length p
      rw [hall]
      exact hlists'

theorem join_set_none {α : Type} (l : List (Option α)) (i j : Nat) :
    ((l.set i none)[j]?).join = if i = j then none else (l[j]?).join := by
  rw [getElem?_set]
  split
  · split <;> rfl
  · rfl

theorem join_set_some {α : Type} {l : List (Option α)} {i : Nat} (x : α) {y : α}
    (h : (l[i]?).join = some y) (j : Nat) :
    ((l.set i (some x))[j]?).join = if i = j then some x else (l[j]?).join := by
  have hlt : i < l.length := by
    by_contra hge
    rw [getElem?_eq_none (Nat.le_of_not_lt hge)] at h
    cases h
  rw [getElem?_set]
  split
  · rfl
  · rfl

structure Freed (s : State) (g : Nat) (view : View) (s' : State) : Prop where
  objects : s'.objects = s.objects
  alarms : s'.alarms = s.alarms
  awaits : s'.awaits = s.awaits.set g none
  frames : s.lists.Frames s'.lists view

section

variable {s s' : State} {g : Nat} {view : View}

theorem Freed.object (h : Freed s g view s') (o : SyncId) : s'.object o = s.object o := by
  rw [State.object, h.objects, State.object]

theorem Freed.alarm (h : Freed s g view s') (a : Nat) : s'.alarm a = s.alarm a := by
  rw [State.alarm, h.alarms, State.alarm]

theorem Freed.await (h : Freed s g view s') (g' : Nat) :
    s'.await g' = if g = g' then none else s.await g' := by
  rw [State.await, h.awaits, join_set_none]
  rfl

theorem Freed.trigger (h : Freed s g view s') (p : TriggerPtr) :
    s'.trigger p = if inGroup g p then none else s.trigger p := by
  cases p with
  | alarm a =>
    rw [State.trigger, h.alarm, inGroup]
    rfl
  | await g' i =>
    rw [State.trigger, h.await, inGroup]
    by_cases hg : g = g'
    · subst hg
      simp
    · rw [if_neg hg, if_neg (by simpa using Ne.symm hg)]
      rfl

end

variable {pend : Option TriggerPtr} {u : SyncAwaitUnion}

theorem Registered.conditions {d : Option SyncId}
    {view : View} (h : Registered s d pend view) {g : Nat}
    (hu : s.await g = some u) {j : Nat} {aw : SyncAwait} (haw : u.awaits[j]? = some aw) :
    ∃ o obj, aw.trigger.pSync = some o ∧ s.object o = some obj ∧
      ∀ o', .await g j ∈ ptrs (view o') → o' = o := by
  have htrigger : s.trigger (.await g j) = some aw.trigger := by
    rw [State.trigger, hu, bind_some, haw]
    rfl
  obtain ⟨o, ho⟩ := ne_none_iff_exists'.mp (h.waits g u hu aw (mem_of_getElem? haw))
  obtain ⟨obj, hobj, -⟩ := h.live _ _ o htrigger ho
  refine ⟨o, obj, ho, hobj, fun o' hmem => ?_⟩
  obtain ⟨t, ht, hsync⟩ := h.known o' _ hmem
  rw [htrigger] at ht
  cases ht
  rw [ho] at hsync
  exact (some.inj hsync).symm

variable {o : SyncId}

theorem mem_drop_ptrs {d : Option SyncId} {gone : TriggerPtr → Bool} {view : View}
    {p : TriggerPtr} : p ∈ ptrs (view.drop d gone o) ↔ p ∈ ptrs (view o) ∧ gone p = false := by
  rw [ptrs_drop, mem_filter, not_eq_true']

theorem Registered.freeAwait {d : Option SyncId}
    {view : View} (h : Registered s d pend view) {g : Nat}
    (hu : s.await g = some u) (hpend : ∀ p, pend = some p → inGroup g p = true) :
    ∃ s', s.freeAwait g = some (s', [.awaitFreed g]) ∧ Freed s g view s' ∧
      Registered s' d none (view.drop d (inGroup g)) := by
  obtain ⟨lists, hfree, hlists, hframes⟩ := @freeConditions_spec s d view g 0 u.awaits s.lists
    h.holds h.once h.destroyed (by
      intro j aw haw
      rw [zero_add]
      exact h.conditions hu haw)
  have hview : view.drop d (isCondition g 0 u.awaits.length) = view.drop d (inGroup g) := by
    refine funext fun o => drop_congr d fun p hp => ?_
    cases p with
    | alarm a => rfl
    | await g' j =>
      rw [isCondition, inGroup]
      by_cases hg : g' = g
      · subst hg
        obtain ⟨t, ht, -⟩ := h.known o _ hp
        rw [State.trigger, hu, bind_some] at ht
        obtain ⟨aw, haw, -⟩ := map_eq_some_iff.mp ht
        have hlt := (List.getElem?_eq_some_iff.mp haw).1
        simp [hlt]
      · simp [hg]
  rw [hview] at hlists
  refine ⟨{ s with lists := lists, awaits := s.awaits.set g none }, ?_, ?_, ?_⟩
  · rw [State.freeAwait, hu, bind_some, hfree]
    rfl
  · exact ⟨rfl, rfl, rfl, hframes⟩
  · have hfreed : Freed s g view { s with lists := lists, awaits := s.awaits.set g none } :=
      ⟨rfl, rfl, rfl, hframes⟩
    have hkept : ∀ p t, State.trigger { s with lists := lists, awaits := s.awaits.set g none } p =
        some t → inGroup g p = false ∧ s.trigger p = some t := by
      intro p t ht
      rw [hfreed.trigger] at ht
      split at ht
      · cases ht
      · next hp => exact ⟨by simpa using hp, ht⟩
    refine ⟨hlists, ?_, ?_, ?_, ?_, ?_, ?_, ?_, ?_⟩
    · intro o p hp
      obtain ⟨hmem, hg⟩ := mem_drop_ptrs.mp hp
      rw [hfreed.trigger, hg]
      exact h.known o p hmem
    · intro p t o ht ho _
      obtain ⟨hg, ht⟩ := hkept p t ht
      refine mem_drop_ptrs.mpr ⟨h.listed p t o ht ho ?_, hg⟩
      intro hp
      rw [hpend p hp] at hg
      cases hg
    · intro o
      rw [ptrs_drop]
      exact (h.once o).filter _
    · intro p t o ht ho
      rw [hfreed.object]
      exact h.live p t o (hkept p t ht).2 ho
    · intro o hd x hx
      rw [View.drop, if_neg hd] at hx
      exact h.full o hd x (mem_filter.mp hx).1
    · intro o obj hobj
      rw [hfreed.object] at hobj
      exact h.destroyed o obj hobj
    · intro g' u' hu'
      rw [hfreed.await] at hu'
      split at hu'
      · cases hu'
      · exact h.waits g' u' hu'
    · intro a al hal
      rw [hfreed.alarm] at hal
      exact h.alarms a al hal

theorem mapM_some {α β : Type} {f : α → Option β} {l : List α} (h : ∀ x ∈ l, ∃ y, f x = some y) :
    ∃ ys, l.mapM f = some ys := by
  induction l with
  | nil => exact ⟨[], rfl⟩
  | cons x l ih =>
    obtain ⟨y, hy⟩ := h x mem_cons_self
    obtain ⟨ys, hys⟩ := ih fun z hz => h z (mem_cons_of_mem x hz)
    exact ⟨y :: ys, by rw [mapM_cons, hy, hys]; rfl⟩

def Unblocks (g : Nat) (client : Client) (events : List Event) : Prop :=
  ∃ notifies, events = notifies ++ [.attend g client, .awaitFreed g] ∧
    ∀ e ∈ notifies, ∃ es, e = .counterNotify client es

theorem Registered.awaitTriggerFired {d : Option SyncId}
    {view : View} (h : Registered s d pend view) {g : Nat}
    (hu : s.await g = some u) (hpend : ∀ p, pend = some p → inGroup g p = true) :
    ∃ s' events, s.awaitTriggerFired g = some (s', events) ∧ Unblocks g u.client events ∧
      Freed s g view s' ∧ Registered s' d none (view.drop d (inGroup g)) := by
  obtain ⟨s', hfree, hfreed, hreg⟩ := h.freeAwait hu hpend
  obtain ⟨notifies, hnotifies⟩ : ∃ notifies, u.awaits.mapM s.counterNotify = some notifies := by
    refine mapM_some fun aw haw => ?_
    obtain ⟨j, hj⟩ := mem_iff_getElem?.mp haw
    obtain ⟨o, obj, hsync, hobj, -⟩ := h.conditions hu hj
    rw [State.counterNotify, hsync, bind_some, hobj]
    exact ⟨_, rfl⟩
  refine ⟨s', _, ?_, ⟨if (numberEvents (notifies.filterMap id)).isEmpty then []
    else [.counterNotify u.client (numberEvents (notifies.filterMap id))], rfl, ?_⟩, hfreed, hreg⟩
  · rw [State.awaitTriggerFired, hu, bind_some, hnotifies, bind_some, hfree]
    rfl
  · intro e he
    split at he
    · cases he
    · exact ⟨_, mem_singleton.mp he⟩

theorem State.alarm_setAlarm {a : Nat} {al : SyncAlarm} (hal : s.alarm a = some al)
    (al' : SyncAlarm) (b : Nat) :
    (s.setAlarm a al').alarm b = if a = b then some al' else s.alarm b :=
  join_set_some al' hal b

theorem State.trigger_setAlarm {a : Nat} {al : SyncAlarm} (hal : s.alarm a = some al)
    (al' : SyncAlarm) (p : TriggerPtr) : (s.setAlarm a al').trigger p =
      if p = .alarm a then some al'.trigger else s.trigger p := by
  cases p with
  | alarm b =>
    rw [State.trigger, State.alarm_setAlarm hal]
    by_cases hb : a = b
    · subst hb
      simp
    · rw [if_neg hb, if_neg (by simpa using Ne.symm hb)]
      rfl
  | await g i =>
    rw [if_neg (by simp)]
    rfl

theorem Registered.setAlarm {d : Option SyncId}
    {view : View} (h : Registered s d pend view) {a : Nat} {al al' : SyncAlarm}
    (hal : s.alarm a = some al) (hsync : al'.trigger.pSync = al.trigger.pSync)
    (hcheck : al'.trigger.checkTrigger ≠ .fence) : Registered (s.setAlarm a al') d pend view := by
  have hold : s.trigger (.alarm a) = some al.trigger := by
    rw [State.trigger, hal]
    rfl
  refine ⟨h.holds, ?_, ?_, h.once, ?_, h.full, h.destroyed, h.waits, ?_⟩
  · intro o p hp
    obtain ⟨t, ht, ho⟩ := h.known o p hp
    rw [State.trigger_setAlarm hal]
    split
    · next heq =>
      subst heq
      rw [hold] at ht
      cases ht
      exact ⟨_, rfl, hsync.trans ho⟩
    · exact ⟨t, ht, ho⟩
  · intro p t o ht ho hpend
    rw [State.trigger_setAlarm hal] at ht
    split at ht
    · next heq =>
      subst heq
      cases ht
      exact h.listed _ _ o hold (hsync.symm.trans ho) hpend
    · exact h.listed p t o ht ho hpend
  · intro p t o ht ho
    rw [State.trigger_setAlarm hal] at ht
    split at ht
    · next heq =>
      subst heq
      cases ht
      obtain ⟨obj, hobj, hfence⟩ := h.live _ _ o hold (hsync.symm.trans ho)
      have hnot : al.trigger.checkTrigger ≠ .fence := h.alarms a al hal
      refine ⟨obj, hobj, iff_of_false hcheck ?_⟩
      exact fun hf => hnot (hfence.mpr hf)
    · exact h.live p t o ht ho
  · intro b al₁ hb
    rw [State.alarm_setAlarm hal] at hb
    split at hb
    · cases hb
      exact hcheck
    · exact h.alarms b al₁ hb

theorem SyncAlarm.fire_eq {al al' : SyncAlarm} {value : Option (BitVec 64)}
    (h : al.fire value = some al') :
    ∃ state test, al' = { al with
      state := state, trigger := { al.trigger with testValue := test } } := by
  cases value with
  | none =>
    cases h
    exact ⟨_, al.trigger.testValue, rfl⟩
  | some value =>
    rw [SyncAlarm.fire] at h
    split at h
    · cases h
      exact ⟨_, al.trigger.testValue, rfl⟩
    · obtain ⟨⟨test, overflow⟩, -, rfl⟩ := map_eq_some_iff.mp h
      cases overflow
      · exact ⟨al.state, test, rfl⟩
      · exact ⟨.inactive, al.trigger.testValue, rfl⟩

def SyncAlarm.notify (a : Nat) (al al' : SyncAlarm) (value : BitVec 64) : Event :=
  .alarmNotify a al.trigger.testValue value al'.state
    ((if al.events then [al.client] else []) ++ al.eventClients)

variable {obj : SyncObject}

theorem State.alarmTriggerFired_eq {a : Nat} {al : SyncAlarm}
    {value : BitVec 64} (hal : s.alarm a = some al)
    (hsync : al.trigger.pSync = some o) (hobj : s.object o = some obj)
    (hbody : obj.body = .counter value) :
    s.alarmTriggerFired a = if al.state ≠ .active then some (s, []) else
      (al.fire (some value)).map fun al' => (s.setAlarm a al', [al.notify a al' value]) := by
  simp only [State.alarmTriggerFired, hal, bind_some, hsync, hobj, hbody]
  split
  · rfl
  · cases hfire : al.fire (some value) with
    | none => rfl
    | some al' =>
      obtain ⟨state, test, rfl⟩ := SyncAlarm.fire_eq hfire
      simp only [bind_some, State.sendAlarmNotifyEvents, SyncAlarm.setTestValue, hsync,
        hobj, map_some, hbody, SyncAlarm.notify]
      rfl

theorem State.object_setObject (hobj : s.object o = some obj) (obj' : SyncObject) (o' : SyncId) :
    (s.setObject o obj').object o' = if o = o' then some obj' else s.object o' :=
  join_set_some obj' hobj o'

theorem State.trigger_setObject (s : State) (o : SyncId) (obj : SyncObject) (p : TriggerPtr) :
    (s.setObject o obj).trigger p = s.trigger p := rfl

theorem Registered.setBody {d : Option SyncId}
    {view : View} (h : Registered s d pend view) {body : SyncBody}
    (hobj : s.object o = some obj)
    (hbody : isCounter { obj with body := body } = isCounter obj) :
    Registered (s.setObject o { obj with body := body }) d pend view := by
  refine ⟨h.holds, h.known, h.listed, h.once, ?_, h.full, ?_, h.waits, h.alarms⟩
  · intro p t o' ht ho
    obtain ⟨obj', hobj', hfence⟩ := h.live p t o' ht ho
    rw [State.object_setObject hobj]
    split
    · next heq =>
      subst heq
      rw [hobj] at hobj'
      cases hobj'
      exact ⟨_, rfl, by rw [hbody]; exact hfence⟩
    · exact ⟨obj', hobj', hfence⟩
  · intro o' obj' hobj'
    rw [State.object_setObject hobj] at hobj'
    split at hobj'
    · next heq =>
      subst heq
      cases hobj'
      exact h.destroyed _ obj hobj
    · exact h.destroyed o' obj' hobj'

end Xfront.Sync
