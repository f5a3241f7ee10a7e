import Xfront.Sync.Settles
import Xfront.Sync.Walk

/-!
# Changing a counter

What a whole walk of `SyncChangeCounter` does to groups, alarms and lists.
-/

namespace Xfront.Sync
open List Option
open Linked (Addr Lists addrs)
open Restart (visits again againAfter)

def SyncAlarm.visitTimes (al : SyncAlarm) (value oldval : BitVec 64) :
    Nat → Option (SyncAlarm × Nat)
  | 0 => some (al, 0)
  | n + 1 => (al.visit value oldval).bind fun (al', k) =>
    (al'.visitTimes value oldval n).map fun (al'', m) => (al'', k + m)

def dropped (hit : TriggerPtr → Bool) (vs : List TriggerPtr) (q : TriggerPtr) : Bool :=
  vs.any fun p => hit p && mate p q

def unblocked (hit : TriggerPtr → Bool) (vs : List TriggerPtr) (g : Nat) : Bool :=
  dropped hit vs (.await g 0)

structure Visited (s : State) (value oldval : BitVec 64) (hit : TriggerPtr → Bool)
    (vs : List TriggerPtr) (s' : State) (events : List Event) : Prop where
  alarms : ∀ a al, s.alarm a = some al → ∃ al', s'.alarm a = some al' ∧
    al.visitTimes value oldval (vs.count (.alarm a)) = some (al', events.countP (isNotify a))
  strangers : ∀ a, s.alarm a = none → s'.alarm a = none ∧ events.countP (isNotify a) = 0
  attends : ∀ g, events.countP (isAttend g) = vs.countP fun p => hit p && mate p (.await g 0)
  freed : ∀ g, events.countP (isFreed g) = vs.countP fun p => hit p && mate p (.await g 0)
  clients : ∀ g c, .attend g c ∈ events → ∃ u, s.await g = some u ∧ u.client = c
  awaits : ∀ g, s'.await g = if unblocked hit vs g then none else s.await g
  settles : Settles (fun _ => false) s events s'

structure VisitedOne (s : State) (value oldval : BitVec 64) (hit : TriggerPtr → Bool)
    (p : TriggerPtr) (s' : State) (events : List Event) : Prop where
  alarms : ∀ a al, s.alarm a = some al → ∃ al', s'.alarm a = some al' ∧
    if p = .alarm a then al.visit value oldval = some (al', events.countP (isNotify a))
    else al' = al ∧ events.countP (isNotify a) = 0
  strangers : ∀ a, s.alarm a = none → s'.alarm a = none ∧ events.countP (isNotify a) = 0
  attends : ∀ g, events.countP (isAttend g) = if hit p && mate p (.await g 0) then 1 else 0
  freed : ∀ g, events.countP (isFreed g) = if hit p && mate p (.await g 0) then 1 else 0
  clients : ∀ g c, .attend g c ∈ events → ∃ u, s.await g = some u ∧ u.client = c
  awaits : ∀ g, s'.await g = if hit p && mate p (.await g 0) then none else s.await g
  settles : Settles (fun _ => false) s events s'

theorem Visited.cons {s s₁ s₂ : State} {value oldval : BitVec 64} {hit : TriggerPtr → Bool}
    {p : TriggerPtr} {vs : List TriggerPtr} {events₁ events₂ : List Event}
    (hone : VisitedOne s value oldval hit p s₁ events₁)
    (hrest : Visited s₁ value oldval hit vs s₂ events₂) :
    Visited s value oldval hit (p :: vs) s₂ (events₁ ++ events₂) := by
  refine ⟨?_, ?_, ?_, ?_, ?_, ?_, hone.settles.trans hrest.settles⟩
  · intro a al hal
    obtain ⟨al₁, hal₁, hvisit⟩ := hone.alarms a al hal
    obtain ⟨al₂, hal₂, htimes⟩ := hrest.alarms a al₁ hal₁
    refine ⟨al₂, hal₂, ?_⟩
    rw [countP_append]
    split at hvisit
    · next hpa =>
      subst hpa
      simp only [count_cons_self, SyncAlarm.visitTimes, hvisit, bind_some, htimes, map_some]
    · next hpa =>
      obtain ⟨rfl, hzero⟩ := hvisit
      rw [count_cons_of_ne hpa, hzero, zero_add]
      exact htimes
  · intro a hal
    obtain ⟨hal₁, hzero₁⟩ := hone.strangers a hal
    obtain ⟨hal₂, hzero₂⟩ := hrest.strangers a hal₁
    exact ⟨hal₂, by rw [countP_append, hzero₁, hzero₂]⟩
  · intro g
    rw [countP_append, hone.attends, hrest.attends, countP_cons, add_comm]
  · intro g
    rw [countP_append, hone.freed, hrest.freed, countP_cons, add_comm]
  · intro g c hmem
    rcases mem_append.mp hmem with hmem | hmem
    · exact hone.clients g c hmem
    · obtain ⟨u, hu, hc⟩ := hrest.clients g c hmem
      rw [hone.awaits] at hu
      split at hu
      · cases hu
      · exact ⟨u, hu, hc⟩
  · intro g
    rw [hrest.awaits, hone.awaits, unblocked, unblocked, dropped, dropped, any_cons]
    cases hit p && mate p (.await g 0) with
    | false => rfl
    | true =>
      rw [Bool.true_or]
      split <;> rfl

section

variable {s s' : State} {o : SyncId} {value oldval : BitVec 64} {view : View}
  {hit : TriggerPtr → Bool} {p : TriggerPtr} {events : List Event}

theorem VisitedOne.refl (hmiss : hit p = false)
    (hal : ∀ a al, p = .alarm a → s.alarm a = some al → al.visit value oldval = some (al, 0)) :
    VisitedOne s value oldval hit p s [] := by
  refine ⟨fun a al h => ⟨al, h, ?_⟩, fun a h => ⟨h, rfl⟩, fun g => ?_, fun g => ?_,
    fun g c hmem => (nomatch hmem), fun g => ?_, Settles.refl⟩
  · split
    · next hp => exact hal a al hp h
    · exact ⟨rfl, rfl⟩
  · rw [hmiss]
    rfl
  · rw [hmiss]
    rfl
  · rw [hmiss]
    rfl

theorem VisitedOne.alarm {a : Nat} {al al' : SyncAlarm} (hmiss : hit (.alarm a) = false)
    (hal : s.alarm a = some al) (hvisit : al.visit value oldval = some (al', 1)) :
    VisitedOne s value oldval hit (.alarm a) (s.setAlarm a al') [al.notify a al' value] := by
  have hcount : ∀ b, [al.notify a al' value].countP (isNotify b) = if a = b then 1 else 0 := by
    intro b
    by_cases hab : a = b
    · simp [SyncAlarm.notify, isNotify, hab]
    · simp [SyncAlarm.notify, isNotify, hab]
  refine ⟨fun b al₁ hal₁ => ?_, fun b hb => ?_, fun g => ?_, fun g => ?_, fun g c hmem => ?_,
    fun g => ?_, Settles.same rfl fun e he => ?_⟩
  · rw [State.alarm_setAlarm hal, hcount]
    by_cases hab : a = b
    · subst hab
      rw [hal] at hal₁
      cases hal₁
      exact ⟨al', if_pos rfl, by rw [if_pos rfl, if_pos rfl]; exact hvisit⟩
    · rw [if_neg hab, if_neg hab]
      refine ⟨al₁, hal₁, ?_⟩
      rw [if_neg (by simpa using hab)]
      exact ⟨rfl, rfl⟩
  · have hab : a ≠ b := by
      rintro rfl
      rw [hal] at hb
      cases hb
    rw [State.alarm_setAlarm hal, hcount, if_neg hab, if_neg hab]
    exact ⟨hb, rfl⟩
  · rw [hmiss]
    rfl
  · rw [hmiss]
    rfl
  · simp [SyncAlarm.notify] at hmem
  · rw [hmiss]
    rfl
  · rw [mem_singleton.mp he]
    rfl

theorem VisitedOne.await {g i : Nat} {u : SyncAwaitUnion} (hhit : hit (.await g i) = true)
    (hu : s.await g = some u) (hunblocks : Unblocks g u.client events)
    (hfreed : Freed s g view s') : VisitedOne s value oldval hit (.await g i) s' events := by
  obtain ⟨hattends, hfrees, hnotifies, hclients⟩ := hunblocks.counts
  have hiff : ∀ g', (hit (.await g i) && mate (.await g i) (.await g' 0)) = true ↔ g = g' := by
    intro g'
    rw [hhit, Bool.true_and, mate, inGroup, beq_iff_eq]
    exact eq_comm
  refine ⟨fun a al hal => ?_, fun a hal => ?_, fun g' => ?_, fun g' => ?_, fun g' c hmem => ?_,
    fun g' => ?_, Settles.fired hu hunblocks hfreed⟩
  · refine ⟨al, by rw [hfreed.alarm]; exact hal, ?_⟩
    rw [if_neg (by simp)]
    exact ⟨rfl, hnotifies a⟩
  · exact ⟨by rw [hfreed.alarm]; exact hal, hnotifies a⟩
  · simp only [hattends, hiff]
  · simp only [hfrees, hiff]
  · obtain ⟨rfl, rfl⟩ := hclients g' c hmem
    exact ⟨u, hu, rfl⟩
  · simp only [hfreed.await, hiff]

theorem Walking.visitedOne (h : Walking s o value view) (hp : p ∈ ptrs (view o))
    (hhit : s.hit oldval p = hit p) (hvisit : s.visit oldval p = some (s', events)) :
    VisitedOne s value oldval hit p s' events ∧
      Walking s' o value (view.drop none fun q => hit p && mate p q) := by
  have hkeep : hit p = false → (view.drop none fun q => hit p && mate p q) = view := by
    intro hmiss
    exact funext fun o' => drop_none none fun q _ => by rw [hmiss]; rfl
  rcases h.visit_cases hp hvisit with ⟨hmiss, rfl, rfl, hal⟩ |
    ⟨a, al, al', rfl, hal, hvisit', rfl, rfl, hwalk⟩ | ⟨g, i, u, rfl, htrue, hu, hunblocks, hfreed, hwalk⟩
  · rw [hkeep (hhit.symm.trans hmiss)]
    exact ⟨VisitedOne.refl (hhit.symm.trans hmiss) hal, h⟩
  · have hmiss : hit (.alarm a) = false := hhit.symm
    rw [hkeep hmiss]
    exact ⟨VisitedOne.alarm hmiss hal hvisit', hwalk⟩
  · have hhit' := hhit.symm.trans htrue
    refine ⟨VisitedOne.await hhit' hu hunblocks hfreed, ?_⟩
    rw [hhit']
    exact hwalk

theorem Walking.trigger_visit (h : Walking s o value view) (hp : p ∈ ptrs (view o))
    (hhit : s.hit oldval p = hit p) (hvisit : s.visit oldval p = some (s', events))
    {q : TriggerPtr} (hq : s'.trigger q ≠ none) :
    s.trigger q ≠ none ∧ (hit p && mate p q) = false ∧ s'.hit oldval q = s.hit oldval q := by
  rcases h.visit_cases hp hvisit with ⟨hmiss, rfl, rfl, -⟩ |
    ⟨a, al, al', rfl, hal, -, rfl, rfl, -⟩ | ⟨g, i, u, rfl, htrue, -, -, hfreed, -⟩
  · exact ⟨hq, by rw [← hhit, hmiss]; rfl, rfl⟩
  · have hmiss : hit (.alarm a) = false := hhit.symm
    refine ⟨?_, by rw [hmiss]; rfl, by cases q <;> rfl⟩
    rw [State.trigger_setAlarm hal] at hq
    split at hq
    · next heq =>
      rw [heq, State.trigger, hal]
      exact some_ne_none _
    · exact hq
  · rw [hfreed.trigger] at hq
    split at hq
    · exact absurd rfl hq
    · next hgone =>
      rw [Bool.not_eq_true] at hgone
      exact ⟨hq, by rw [mate, hgone, Bool.and_false], hfreed.hit hgone⟩

theorem Walking.visited {vs : List TriggerPtr}
    (h : Walking s o value view) (hhit : ∀ p ∈ ptrs (view o), s.hit oldval p = hit p)
    (hon : ∀ p ∈ vs, s.trigger p ≠ none → p ∈ ptrs (view o))
    (hrun : s.visitAll oldval vs = some (s', events)) : Visited s value oldval hit vs s' events ∧
      Walking s' o value (view.drop none (dropped hit vs)) := by
  induction vs generalizing s view events with
  | nil =>
    cases hrun
    refine ⟨⟨fun a al hal => ⟨al, hal, rfl⟩, fun a hal => ⟨hal, rfl⟩, fun _ => rfl, fun _ => rfl,
      fun _ _ hmem => (nomatch hmem), fun g => rfl, Settles.refl⟩, ?_⟩
    have hsame : view.drop none (dropped hit []) = view := funext fun o => drop_false none view o
    rw [hsame]
    exact h
  | cons p vs ih =>
    rw [visitAll_cons] at hrun
    obtain ⟨⟨s₁, events₁⟩, hvisit, hrest⟩ := bind_eq_some_iff.mp hrun
    obtain ⟨⟨s₂, events₂⟩, hall, heq⟩ := map_eq_some_iff.mp hrest
    cases heq
    have hp : p ∈ ptrs (view o) := by
      obtain ⟨t, ht, -⟩ := bind_eq_some_iff.mp hvisit
      exact hon p mem_cons_self (by rw [ht]; simp)
    obtain ⟨hone, hwalk⟩ := h.visitedOne hp (hhit p hp) hvisit
    have hhit₁ : ∀ q ∈ ptrs (view.drop none (fun q => hit p && mate p q) o),
        s₁.hit oldval q = hit q := by
      intro q hq
      obtain ⟨t, ht, -⟩ := hwalk.registered.known o q hq
      rw [(h.trigger_visit hp (hhit p hp) hvisit (by rw [ht]; simp)).2.2]
      exact hhit q (mem_drop_ptrs.mp hq).1
    have hon₁ : ∀ q ∈ vs, s₁.trigger q ≠ none →
        q ∈ ptrs (view.drop none (fun q => hit p && mate p q) o) := by
      intro q hq halive
      obtain ⟨hold, hgone, -⟩ := h.trigger_visit hp (hhit p hp) hvisit halive
      exact mem_drop_ptrs.mpr ⟨hon q (mem_cons_of_mem p hq) hold, hgone⟩
    obtain ⟨hvisited, hwalk'⟩ := ih hwalk hhit₁ hon₁ hall
    rw [drop_drop] at hwalk'
    exact ⟨hvisited.cons hone, hwalk'⟩

/-- A trigger on the list of a counter that changes from `oldval` to `newval` is true. -/
def State.trueFor (s : State) (oldval newval : BitVec 64) (p : TriggerPtr) : Bool :=
  (s.trigger p).any fun t => t.checkTrigger.holds (.counter newval) t.testValue oldval

def State.unblocking (s : State) (oldval newval : BitVec 64) : TriggerPtr → Bool
  | .alarm _ => false
  | .await g i => s.trueFor oldval newval (.await g i)

theorem Registered.changeWalk {obj : SyncObject} (h : Registered s none none view)
    (hobj : s.object o = some obj) (hbody : obj.body = .counter oldval) (newval : BitVec 64) :
    Walking (s.setObject o { obj with body := .counter newval }) o newval view ∧
      (∀ p ∈ ptrs (view o), (s.setObject o { obj with body := .counter newval }).hit oldval p =
        s.unblocking oldval newval p) ∧
      s.syncChangeCounter o newval =
        (s.setObject o { obj with body := .counter newval }).visitAll oldval
          (visits (s.unblocking oldval newval) mate [] (ptrs (view o))) := by
  have hwalk : Walking (s.setObject o { obj with body := .counter newval }) o newval view := by
    refine ⟨h.setBody hobj ?_, ⟨{ obj with body := .counter newval }, ?_, rfl⟩⟩
    · rw [isCounter, isCounter, hbody]
    · rw [State.object_setObject hobj, if_pos rfl]
  have hhit : ∀ p ∈ ptrs (view o), (s.setObject o { obj with body := .counter newval }).hit
      oldval p = s.unblocking oldval newval p := by
    intro p hp
    cases p with
    | alarm a => rfl
    | await g i =>
      obtain ⟨t, ht, -⟩ := hwalk.registered.known o _ hp
      rw [hwalk.hit_eq hp ht, State.unblocking, State.trueFor]
      rw [State.trigger_setObject] at ht
      rw [ht]
      rfl
  refine ⟨hwalk, hhit, ?_⟩
  have hfuel : (visits (s.unblocking oldval newval) mate [] (ptrs (view o))).length ≤
      (s.lists.heap.size + 1) * (s.lists.heap.size + 1) := by
    have hvisits := @Restart.length_visits_le _ (s.unblocking oldval newval) mate
      [] (ptrs (view o))
    have hptrs : (ptrs (view o)).length ≤ (view o).length := length_filterMap_le _ _
    have hsize := h.holds.length_le o
    rw [length_nil, zero_add] at hvisits
    generalize (ptrs (view o)).length = n at *
    nlinarith
  have hloop := hwalk.changeLoop hhit (nil_append _).symm rfl rfl hfuel
  rw [State.syncChangeCounter, hobj, bind_some, hbody, (h.holds.chain o).head]
  exact hloop

end

end Xfront.Sync
