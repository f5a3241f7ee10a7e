import Xfront.Sync.Settles

/-!
# Destroying an object

`FreeCounter` and `miSyncDestroyFence` take the triggers off the list of the object one by one.
-/

namespace Xfront.Sync
open List Option Function Nat Prod State
open Linked (Addr Lists addrs)

section

variable {s : State} {d : Option SyncId} {pend : Option TriggerPtr} {view : View} {o : SyncId}

theorem Registered.setLists {lists : Lists SyncId (Option TriggerPtr)}
    (h : Registered s d pend view) (hlists : lists.Holds view) :
    Registered { s with lists := lists } d pend view :=
  ⟨hlists, h.known, h.listed, h.once, h.live, h.full, h.destroyed, h.waits, h.alarms⟩

variable {obj : SyncObject}

theorem Registered.mark (h : Registered s none none view) (hobj : s.object o = some obj) :
    Registered (s.setObject o { obj with beingDestroyed := true }) (some o) none view := by
  refine ⟨h.holds, h.known, h.listed, h.once, fun p t o' ht ho => ?_, fun o' _ => h.full o' (by simp),
    fun o' obj' hobj' => ?_, h.waits, h.alarms⟩
  · obtain ⟨obj', hobj', hfence⟩ := h.live p t o' ht ho
    rw [object_setObject hobj]
    split
    · next heq =>
      subst heq
      rw [hobj] at hobj'
      cases hobj'
      exact ⟨_, rfl, hfence⟩
    · exact ⟨obj', hobj', hfence⟩
  · rw [object_setObject hobj] at hobj'
    split at hobj'
    · next heq =>
      subst heq
      cases hobj'
      simp
    · next hne =>
      rw [h.destroyed o' obj' hobj']
      simp [hne]

variable {v : Option TriggerPtr} {rest : List (Addr × Option TriggerPtr)}

theorem Registered.advance {a : Addr} (h : Registered s (some o) none view)
    (hview : view o = (a, v) :: rest) : s.lists.heap.read a = some ⟨v, rest.head?.map fst⟩ ∧
      Registered (s.setHead o (rest.head?.map fst)) (some o) v (update view o rest) ∧
      (∀ o', a ∉ addrs (update view o rest o')) ∧
      ∀ p, v = some p → ∀ o', p ∉ ptrs (update view o rest o') := by
  obtain ⟨q, hread, hholds, hoff⟩ := h.holds.advance hview
  have hq : q = rest.head?.map fst := by
    have hhead := (hholds.chain o).head
    simp only [update_self] at hhead
    exact hhead
  rw [hq] at hread hholds
  have hsub : ∀ o', (ptrs (update view o rest o')).Sublist (ptrs (view o')) := by
    intro o'
    by_cases ho : o' = o
    · subst ho
      rw [update_self, hview]
      exact (sublist_cons_self _ rest).filterMap _
    · rw [update_of_ne ho]
  refine ⟨hread, ⟨hholds, ?_, ?_, ?_, h.live, ?_, h.destroyed, h.waits, h.alarms⟩, hoff, ?_⟩
  · intro o' p hp
    exact h.known o' p ((hsub o').subset hp)
  · intro p t o' ht ho hpend
    have hp := h.listed p t o' ht ho (by simp)
    by_cases heq : o' = o
    · subst heq
      rw [update_self]
      rw [hview] at hp
      cases v with
      | none => exact hp
      | some r =>
        rw [ptrs_some] at hp
        exact mem_of_ne_of_mem (fun hpr => hpend (congrArg some hpr.symm)) hp
    · rw [update_of_ne heq]
      exact hp
  · intro o'
    exact (h.once o').sublist (hsub o')
  · intro o' ho
    rw [update_of_ne fun heq => ho (by rw [heq])]
    exact h.full o' ho
  · rintro p rfl o' hp
    obtain ⟨t, ht, hsync⟩ := h.known o' p ((hsub o').subset hp)
    obtain ⟨t', ht', hsync'⟩ := h.known o p (by rw [hview, ptrs_some]; exact mem_cons_self)
    rw [ht] at ht'
    cases ht'
    rw [hsync] at hsync'
    cases hsync'
    have honce := h.once o
    rw [hview, ptrs_some, nodup_cons] at honce
    rw [update_self] at hp
    exact honce.1 hp

def SyncAlarm.detach (al : SyncAlarm) : SyncAlarm :=
  { al with state := .inactive, trigger := { al.trigger with pSync := none } }

theorem Registered.alarmCounterDestroyed {a : Nat} {al : SyncAlarm}
    (h : Registered s d (some (.alarm a)) view) (hal : s.alarm a = some al)
    (hoff : ∀ o, .alarm a ∉ ptrs (view o)) :
    ∃ events, s.alarmCounterDestroyed a = some (s.setAlarm a al.detach, events) ∧
      Registered (s.setAlarm a al.detach) d none view ∧ ∀ e ∈ events, isOther e = true := by
  have htrigger : s.trigger (.alarm a) = some al.trigger := by
    rw [State.trigger, hal]
    rfl
  obtain ⟨events, hsend, hother⟩ : ∃ events,
      s.sendAlarmNotifyEvents a { al with state := .inactive } = some events ∧
        ∀ e ∈ events, isOther e = true := by
    rw [State.sendAlarmNotifyEvents]
    cases hsync : al.trigger.pSync with
    | none => exact ⟨_, rfl, fun e he => by rw [mem_singleton.mp he]; rfl⟩
    | some o =>
      obtain ⟨obj, hobj, -⟩ := h.live _ _ o htrigger hsync
      cases hbody : obj.body with
      | counter value =>
        refine ⟨_, by simp only [hobj, map_some, hbody]; rfl, fun e he => ?_⟩
        rw [mem_singleton.mp he]
        rfl
      | fence triggered =>
        exact ⟨[], by simp only [hobj, map_some, hbody], by simp⟩
  refine ⟨events, ?_, ⟨h.holds, ?_, ?_, h.once, ?_, h.full, h.destroyed, h.waits, ?_⟩, hother⟩
  · rw [State.alarmCounterDestroyed, hal, bind_some, hsend]
    rfl
  · intro o p hp
    have hne : p ≠ .alarm a := by
      rintro rfl
      exact hoff o hp
    rw [State.trigger_setAlarm hal, if_neg hne]
    exact h.known o p hp
  · intro p t o ht ho _
    rw [State.trigger_setAlarm hal] at ht
    split at ht
    · cases ht
      cases ho
    · next hne => exact h.listed p t o ht ho fun heq => hne (some.inj heq).symm
  · intro p t o ht ho
    rw [State.trigger_setAlarm hal] at ht
    split at ht
    · cases ht
      cases ho
    · exact h.live p t o ht ho
  · intro b al₁ hb
    rw [State.alarm_setAlarm hal] at hb
    split at hb
    · cases hb
      exact h.alarms a al hal
    · exact h.alarms b al₁ hb

structure Called (s : State) (v : Option TriggerPtr) (s' : State) (events : List Event) :
    Prop where
  objects : s'.objects = s.objects
  settles : Settles (fun _ => false) s events s'
  alarms : ∀ a, s'.alarm a = (s.alarm a).map fun al => if v = some (.alarm a) then al.detach else al

theorem Registered.call (h : Registered s d v view) (hknown : ∀ p, v = some p → s.trigger p ≠ none)
    (hoff : ∀ p, v = some p → ∀ o, p ∉ ptrs (view o)) :
    ∃ s' events view', s.callDestroyed v = some (s', events) ∧
      Registered s' d none view' ∧ Called s v s' events ∧ s.lists.Frames s'.lists view ∧
      (∀ o a, a ∈ addrs (view' o) → a ∈ addrs (view o)) ∧
      ∀ o, d = some o → (addrs (view' o)) = addrs (view o) ∧
        (ptrs (view' o)).Sublist (ptrs (view o)) ∧
        ∀ a, .alarm a ∈ ptrs (view o) → .alarm a ∈ ptrs (view' o) := by
  cases v with
  | none =>
    refine ⟨s, [], view, rfl, h, ⟨rfl, Settles.refl, fun a => ?_⟩, fun _ _ => rfl,
      fun _ _ ha => ha, fun _ _ => ⟨rfl, List.Sublist.refl _, fun _ ha => ha⟩⟩
    simp
  | some p =>
    obtain ⟨t, ht⟩ := ne_none_iff_exists'.mp (hknown p rfl)
    cases p with
    | alarm b =>
      obtain ⟨al, hal, -⟩ := map_eq_some_iff.mp ht
      obtain ⟨events, hcall, hreg, hother⟩ := h.alarmCounterDestroyed hal (hoff _ rfl)
      refine ⟨_, events, view, hcall, hreg, ⟨rfl, Settles.same rfl hother, fun a => ?_⟩,
        fun _ _ => rfl, fun _ _ ha => ha, fun _ _ => ⟨rfl, List.Sublist.refl _, fun _ ha => ha⟩⟩
      rw [alarm_setAlarm hal]
      by_cases hba : b = a
      · subst hba
        rw [if_pos rfl, hal, map_some, if_pos rfl]
      · simp [hba]
    | await g i =>
      obtain ⟨u, hu, -⟩ := bind_eq_some_iff.mp ht
      obtain ⟨s', events, hcall, hunblocks, hfreed, hreg⟩ := h.awaitTriggerFired hu (by
        rintro _ ⟨⟩
        exact beq_self_eq_true g)
      refine ⟨s', events, view.drop d (inGroup g), hcall, hreg, ⟨hfreed.objects,
        Settles.fired hu hunblocks hfreed, fun a => ?_⟩, hfreed.frames,
        fun _ _ ha => addrs_drop ha, fun o ho => ⟨?_, ?_, fun a ha => ?_⟩⟩
      · rw [hfreed.alarm]
        simp
      · rw [View.drop, if_pos ho, addrs, List.map_map]
        rfl
      · rw [ptrs_drop]
        exact filter_sublist
      · exact mem_drop_ptrs.mpr ⟨ha, rfl⟩

structure Destroys (s : State) (detached : List TriggerPtr) (s' : State) (events : List Event) :
    Prop where
  objects : s'.objects = s.objects
  settles : Settles (fun _ => false) s events s'
  alarms : ∀ a, s'.alarm a = (s.alarm a).map fun al => if .alarm a ∈ detached then al.detach else al

variable {fuel : Nat}

theorem Registered.destroyLoop
    (h : Registered s (some o) none view) (hview : view o = rest) (hfuel : rest.length ≤ fuel) :
    ∃ s' events view', s.destroyLoop o fuel (rest.head?.map fst) = some (s', events) ∧
      Registered s' (some o) none view' ∧ view' o = [] ∧ Destroys s (ptrs rest) s' events := by
  induction fuel generalizing s view rest with
  | zero =>
    obtain rfl : rest = [] := length_eq_zero_iff.mp (le_zero.mp hfuel)
    exact ⟨s, [], view, rfl, h, hview, rfl, Settles.refl, fun a => by simp [ptrs_nil]⟩
  | succ fuel ih =>
    cases rest with
    | nil =>
      exact ⟨s, [], view, rfl, h, hview, rfl, Settles.refl, fun a => by simp [ptrs_nil]⟩
    | cons x rest =>
      obtain ⟨a, v⟩ := x
      obtain ⟨hread, hreg₁, haddr, hptr⟩ := h.advance hview
      have hknown : ∀ p, v = some p → s.trigger p ≠ none := by
        rintro p rfl
        obtain ⟨t, ht, -⟩ := h.known o p (by rw [hview, ptrs_some]; exact mem_cons_self)
        rw [ht]
        exact some_ne_none t
      obtain ⟨s₂, events₁, view₂, hcall, hreg₂, hcalled, hframes, hsub, hkeep⟩ :=
        hreg₁.call hknown hptr
      obtain ⟨haddrs, hsublist, halarms⟩ := hkeep o rfl
      rw [update_self] at haddrs hsublist halarms
      have hread₂ : s₂.lists.heap.read a = some ⟨v, rest.head?.map fst⟩ := by
        rw [hframes a haddr]
        exact hread
      have hfree := hreg₂.holds.free fun o' ha => haddr o' (hsub o' a ha)
      have hreg₃ : Registered (s₂.freeNode a) (some o) none view₂ := hreg₂.setLists hfree
      have hlen : (view₂ o).length ≤ fuel := by
        have hlen' := congrArg length haddrs
        rw [addrs, addrs, length_map, length_map] at hlen'
        rw [length_cons] at hfuel
        omega
      have hhead : (view₂ o).head?.map fst = rest.head?.map fst := by
        have hhead' := congrArg head? haddrs
        rw [addrs, addrs, head?_map, head?_map] at hhead'
        exact hhead'
      obtain ⟨s₃, events₂, view₃, hloop, hreg', hnil, hdestroys⟩ := ih hreg₃ rfl hlen
      rw [hhead] at hloop
      refine ⟨s₃, events₁ ++ events₂, view₃, ?_, hreg', hnil,
        hdestroys.objects.trans hcalled.objects, ?_, fun b => ?_⟩
      · rw [head?_cons, map_some, destroyLoop, hread]
        simp only [bind_some, hcall, hread₂, hloop, map_some]
      · have hsettles : Settles (fun _ => false) s₂ events₂ s₃ :=
          ⟨hdestroys.settles.groups, hdestroys.settles.clients, hdestroys.settles.gone,
            hdestroys.settles.length⟩
        have hcalls : Settles (fun _ => false) s events₁ s₂ :=
          ⟨hcalled.settles.groups, hcalled.settles.clients, hcalled.settles.gone,
            hcalled.settles.length⟩
        exact hcalls.trans hsettles
      · have halarm₃ : s₃.alarm b = (s₂.alarm b).map fun al =>
            if .alarm b ∈ ptrs (view₂ o) then al.detach else al := hdestroys.alarms b
        have halarm₂ : s₂.alarm b = (s.alarm b).map fun al =>
            if v = some (.alarm b) then al.detach else al := hcalled.alarms b
        have honce := h.once o
        rw [hview] at honce
        have hrest : .alarm b ∈ ptrs (view₂ o) ↔ .alarm b ∈ ptrs rest :=
          ⟨fun hmem => hsublist.subset hmem, halarms b⟩
        rw [halarm₃, halarm₂, Option.map_map]
        congr 1
        funext al
        simp only [comp_apply, hrest]
        cases v with
        | none =>
          rw [if_neg (some_ne_none _).symm]
          rfl
        | some p =>
          rw [ptrs_some, nodup_cons] at honce
          simp only [ptrs_some, mem_cons, some.injEq]
          by_cases hp : p = .alarm b
          · subst hp
            rw [if_pos rfl, if_neg honce.1, if_pos (.inl rfl)]
          · rw [if_neg hp]
            simp only [Ne.symm hp, false_or]

theorem Registered.remove (h : Registered s (some o) none view) (hnil : view o = []) :
    Registered { s with objects := s.objects.set o none } none none view := by
  have hobject : ∀ o', object { s with objects := s.objects.set o none } o' =
      if o = o' then none else s.object o' := join_set_none s.objects o
  refine ⟨h.holds, h.known, h.listed, h.once, fun p t o' ht ho => ?_, fun o' _ => ?_,
    fun o' obj hobj => ?_, h.waits, h.alarms⟩
  · rw [hobject]
    split
    · next heq =>
      subst heq
      have hp := h.listed p t o ht ho (by simp)
      rw [hnil] at hp
      cases hp
    · exact h.live p t o' ht ho
  · by_cases heq : o = o'
    · subst heq
      rw [hnil]
      exact fun x hx => nomatch hx
    · exact h.full o' (by simpa using heq)
  · rw [hobject] at hobj
    split at hobj
    · cases hobj
    · next hne =>
      rw [h.destroyed o' obj hobj]
      simp [hne]

theorem Registered.destroyObject (h : Registered s none none view) (hobj : s.object o = some obj) :
    ∃ s' events view', s.destroyObject o = some (s', events) ∧ Registered s' none none view' ∧
      s'.objects = s.objects.set o none ∧ Settles (fun _ => false) s events s' ∧ ∀ a, s'.alarm a =
        (s.alarm a).map fun al => if al.trigger.pSync = some o then al.detach else al := by
  have hmark := h.mark hobj
  obtain ⟨s', events, view', hloop, hreg, hnil, hdestroys⟩ :=
    hmark.destroyLoop rfl (h.holds.length_le o)
  refine ⟨_, events, view', ?_, hreg.remove hnil, ?_, ?_, fun a => ?_⟩
  · rw [State.destroyObject, hobj, bind_some, (h.holds.chain o).head, hloop, map_some]
  · simp only [hdestroys.objects, State.setObject, set_set]
  · exact ⟨hdestroys.settles.groups, hdestroys.settles.clients, hdestroys.settles.gone,
      hdestroys.settles.length⟩
  · have halarm : s'.alarm a = (s.alarm a).map fun al =>
        if .alarm a ∈ ptrs (view o) then al.detach else al := hdestroys.alarms a
    refine halarm.trans ?_
    cases hal : s.alarm a with
    | none => rfl
    | some al =>
      have htrigger : s.trigger (.alarm a) = some al.trigger := by
        rw [State.trigger, hal]
        rfl
      have hiff : .alarm a ∈ ptrs (view o) ↔ al.trigger.pSync = some o := by
        refine ⟨fun hmem => ?_, fun hsync => h.listed _ _ o htrigger hsync (by simp)⟩
        obtain ⟨t, ht, ho⟩ := h.known o _ hmem
        rw [htrigger] at ht
        cases ht
        exact ho
      simp only [map_some, hiff]

theorem State.freeCounter_eq (hobj : s.object o = some obj)
    (hcounter : isCounter obj = true) : s.freeCounter o = s.destroyObject o := by
  rw [freeCounter, hobj, bind_some, if_pos hcounter]

theorem State.syncDestroyFence_eq (hobj : s.object o = some obj)
    (hfence : isCounter obj = false) : s.syncDestroyFence o = s.destroyObject o := by
  rw [syncDestroyFence, hobj, bind_some, hfence]
  rfl

section
variable (h : Registered s none none view)
include h

section
variable (hobj : s.object o = some obj)
include hobj

theorem Registered.fenceTrigger
    (hbody : obj.body = .fence true) {p : TriggerPtr}
    (hp : p ∈ ptrs (view o)) :
    ∃ g i t, p = .await g i ∧ s.trigger p = some t ∧ s.check t 0 = some true := by
  obtain ⟨t, ht, hsync⟩ := h.known o p hp
  obtain ⟨obj', hobj', hfence⟩ := h.live p t o ht hsync
  rw [hobj] at hobj'
  cases hobj'
  have hcheck : t.checkTrigger = .fence := hfence.mpr (by rw [isCounter, hbody])
  cases p with
  | alarm a =>
    obtain ⟨al, hal, rfl⟩ := map_eq_some_iff.mp ht
    exact absurd hcheck (h.alarms a al hal)
  | await g i =>
    refine ⟨g, i, t, rfl, ht, ?_⟩
    rw [check, hsync]
    simp only [hobj, map_some, hcheck, hbody]
    rfl

theorem Registered.firstTrue
    (hbody : obj.body = .fence true) :
    s.firstTrue s.lists.heap.size (s.lists.heads o) = some (ptrs (view o)).head? := by
  have hchain := h.holds.chain o
  have hlen := h.holds.length_le o
  cases hview : view o with
  | nil =>
    rw [hview] at hchain
    rw [show s.lists.heads o = none from hchain]
    cases s.lists.heap.size <;> rfl
  | cons x rest =>
    obtain ⟨a, _ | p⟩ := x
    · exact absurd rfl (h.full o (by simp) (a, none) (by rw [hview]; exact mem_cons_self))
    · rw [hview] at hchain hlen
      obtain ⟨hhead, q, hread, -⟩ := hchain
      obtain ⟨g, i, t, -, ht, hcheck⟩ := h.fenceTrigger (p := p) hobj hbody
        (by rw [hview, ptrs_some]; exact mem_cons_self)
      obtain ⟨fuel, hfuel⟩ : ∃ n, s.lists.heap.size = n + 1 := by
        rw [length_cons] at hlen
        exact ⟨s.lists.heap.size - 1, by omega⟩
      rw [hhead, hfuel, State.firstTrue, hread]
      simp only [bind_some, ht, hcheck, if_true]
      rfl

theorem Registered.triggerLoop
    (hbody : obj.body = .fence true)
    (hfuel : (ptrs (view o)).length < fuel) :
    ∃ s' events view', s.triggerLoop o fuel = some (s', events) ∧ Registered s' none none view' ∧
      view' o = [] ∧ s'.objects = s.objects ∧ Settles (fun _ => false) s events s' ∧
      s'.alarms = s.alarms := by
  induction fuel generalizing s view with
  | zero => omega
  | succ fuel ih =>
    rw [triggerLoop, h.firstTrue hobj hbody, bind_some]
    cases hptrs : ptrs (view o) with
    | nil =>
      refine ⟨s, [], view, rfl, h, ?_, rfl, Settles.refl, rfl⟩
      cases hview : view o with
      | nil => rfl
      | cons x rest =>
        obtain ⟨a, _ | p⟩ := x
        · exact absurd rfl (h.full o (by simp) (a, none) (by rw [hview]; exact mem_cons_self))
        · rw [hview, ptrs_some] at hptrs
          cases hptrs
    | cons p ps =>
      have hp : p ∈ ptrs (view o) := by
        rw [hptrs]
        exact mem_cons_self
      obtain ⟨g, i, t, rfl, ht, -⟩ := h.fenceTrigger hobj hbody hp
      obtain ⟨u, hu, -⟩ := bind_eq_some_iff.mp ht
      obtain ⟨s₁, events₁, hfire, hunblocks, hfreed, hreg⟩ :=
        h.awaitTriggerFired hu fun _ heq => nomatch heq
      have hless : (ptrs (view.drop none (inGroup g) o)).length < fuel := by
        have hle : (ps.filter fun q => !inGroup g q).length ≤ ps.length := length_filter_le _ _
        rw [ptrs_drop, hptrs, filter_cons, inGroup, beq_self_eq_true]
        rw [hptrs, length_cons] at hfuel
        simp only [Bool.not_true, Bool.false_eq_true, if_false]
        omega
      obtain ⟨s', events, view', hloop, hreg', hnil, hobjects, hsettles, halarms⟩ :=
        ih hreg (by rw [hfreed.object]; exact hobj) hless
      refine ⟨s', events₁ ++ events, view', ?_, hreg', hnil, hobjects.trans hfreed.objects,
        (Settles.fired hu hunblocks hfreed).trans hsettles, halarms.trans hfreed.alarms⟩
      simp only [head?_cons, triggerFired, hfire, bind_some, hloop, map_some]

theorem Registered.syncTriggerFence
    (hfence : isCounter obj = false) :
    ∃ s' events view', s.syncTriggerFence o = some (s', events) ∧ Registered s' none none view' ∧
      view' o = [] ∧ s'.objects = (s.setObject o { obj with body := .fence true }).objects ∧
      Settles (fun _ => false) s events s' ∧ s'.alarms = s.alarms := by
  obtain ⟨triggered, hbody⟩ : ∃ b, obj.body = .fence b := by
    rw [isCounter] at hfence
    cases hb : obj.body with
    | counter value => rw [hb] at hfence; cases hfence
    | fence b => exact ⟨b, rfl⟩
  have hreg : Registered (s.setObject o { obj with body := .fence true }) none none view :=
    h.setBody hobj (by rw [isCounter, isCounter, hbody])
  have hfuel : (ptrs (view o)).length < s.lists.heap.size + 1 := by
    have hptrs : (ptrs (view o)).length ≤ (view o).length := length_filterMap_le _ _
    exact lt_succ_of_le (le_trans hptrs (h.holds.length_le o))
  obtain ⟨s', events, view', hloop, hreg', hnil, hobjects, hsettles, halarms⟩ :=
    hreg.triggerLoop (by rw [State.object_setObject hobj, if_pos rfl]) rfl hfuel
  refine ⟨s', events, view', ?_, hreg', hnil, hobjects,
    ⟨hsettles.groups, hsettles.clients, hsettles.gone, hsettles.length⟩, halarms⟩
  rw [State.syncTriggerFence, hobj, bind_some, hbody]
  exact hloop

end

end

end

end Xfront.Sync
