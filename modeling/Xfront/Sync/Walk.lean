import Xfront.Sync.Firing
import Xfront.Lib.Restart

/-!
# The walk of a counter change

`SyncChangeCounter` walks along a list from which firing triggers take others.
-/

namespace Xfront.Sync
open List Option Nat Prod
open Linked (Addr Lists addrs)
open Restart (visits keep startsOver)

def State.visit (s : State) (oldval : BitVec 64) (p : TriggerPtr) : Option (State × List Event) :=
  (s.trigger p).bind fun t =>
  (s.check t oldval).bind fun holds => if holds then s.triggerFired p else some (s, [])

def State.visitAll (s : State) (oldval : BitVec 64) :
    List TriggerPtr → Option (State × List Event)
  | [] => some (s, [])
  | p :: ps => (s.visit oldval p).bind fun (s, events) =>
    (s.visitAll oldval ps).map fun (s, events') => (s, events ++ events')

def State.isTrue (s : State) (oldval : BitVec 64) (p : TriggerPtr) : Bool :=
  (s.trigger p).any fun t => s.check t oldval == some true

def State.hit (s : State) (oldval : BitVec 64) : TriggerPtr → Bool
  | .alarm _ => false
  | .await g i => s.isTrue oldval (.await g i)

def mate : TriggerPtr → TriggerPtr → Bool
  | .alarm _, _ => false
  | .await g _, q => inGroup g q

theorem mates {hit : TriggerPtr → Bool} (hhit : ∀ a, hit (.alarm a) = false) :
    Restart.Mates hit mate := by
  constructor
  · intro p q r hp hq hpr hqr x
    cases p with
    | alarm a => rw [hhit] at hp; cases hp
    | await g i =>
      cases q with
      | alarm b => rw [hhit] at hq; cases hq
      | await g' j =>
        cases r with
        | alarm c => cases hpr
        | await g'' k =>
          rw [mate, inGroup, beq_iff_eq] at hpr hqr
          rw [mate, mate, ← hpr, ← hqr]
  · rintro (a | ⟨g, i⟩) hp
    · rw [hhit] at hp
      cases hp
    · rw [mate, inGroup, beq_self_eq_true]

structure Walking (s : State) (o : SyncId) (value : BitVec 64) (view : View) : Prop where
  registered : Registered s none none view
  counter : ∃ obj, s.object o = some obj ∧ obj.body = .counter value

def SyncAlarm.visit (al : SyncAlarm) (value oldval : BitVec 64) : Option (SyncAlarm × Nat) :=
  if al.state = .active ∧
      al.trigger.checkTrigger.holds (.counter value) al.trigger.testValue oldval = true then
    (al.fire (some value)).map fun al' => (al', 1)
  else some (al, 0)

section

variable {s : State} {o : SyncId} {value oldval : BitVec 64} {view : View} {p : TriggerPtr}

theorem Walking.trigger (h : Walking s o value view) (oldval : BitVec 64) (hp : p ∈ ptrs (view o)) :
    ∃ t, s.trigger p = some t ∧
      s.check t oldval = some (t.checkTrigger.holds (.counter value) t.testValue oldval) := by
  obtain ⟨t, ht, hsync⟩ := h.registered.known o p hp
  obtain ⟨obj, hobj, hbody⟩ := h.counter
  refine ⟨t, ht, ?_⟩
  rw [State.check, hsync]
  simp only [hobj, map_some, hbody]

variable {g i : Nat}

theorem Walking.hit_eq (h : Walking s o value view) {t : SyncTrigger}
    (hp : .await g i ∈ ptrs (view o)) (ht : s.trigger (.await g i) = some t) :
    s.hit oldval (.await g i) = t.checkTrigger.holds (.counter value) t.testValue oldval := by
  obtain ⟨t', ht', hcheck⟩ := h.trigger oldval hp
  rw [ht] at ht'
  cases ht'
  rw [State.hit, State.isTrue, ht, any_some, hcheck, Bool.eq_iff_iff, beq_iff_eq, some.injEq]

variable {a : Nat}

section
variable (h : Walking s o value view)
include h

theorem Walking.visit_alarm {al : SyncAlarm}
    (hp : .alarm a ∈ ptrs (view o)) (hal : s.alarm a = some al) :
    s.visit oldval (.alarm a) = (al.visit value oldval).map fun (al', n) =>
      if n = 1 then (s.setAlarm a al', [al.notify a al' value]) else (s, []) := by
  obtain ⟨t, ht, hcheck⟩ := h.trigger oldval hp
  obtain ⟨t', ht', hsync⟩ := h.registered.known o _ hp
  obtain ⟨obj, hobj, hbody⟩ := h.counter
  have htal : s.trigger (.alarm a) = some al.trigger := by
    rw [State.trigger, hal]
    rfl
  rw [htal] at ht ht'
  cases ht
  cases ht'
  rw [State.visit, htal, bind_some, hcheck, bind_some, State.triggerFired,
    State.alarmTriggerFired_eq hal hsync hobj hbody, SyncAlarm.visit]
  by_cases hholds : al.trigger.checkTrigger.holds (.counter value) al.trigger.testValue
      oldval = true
  · by_cases hactive : al.state = .active
    · rw [if_pos hholds, if_neg (not_not_intro hactive), if_pos ⟨hactive, hholds⟩, Option.map_map]
      rfl
    · rw [if_pos hholds, if_pos hactive, if_neg fun hand => hactive hand.1]
      rfl
  · rw [if_neg hholds, if_neg fun hand => hholds hand.2]
    rfl

theorem Walking.visit_miss
    (hp : .await g i ∈ ptrs (view o)) (hmiss : s.hit oldval (.await g i) = false) :
    s.visit oldval (.await g i) = some (s, []) := by
  obtain ⟨t, ht, hcheck⟩ := h.trigger oldval hp
  rw [h.hit_eq hp ht] at hmiss
  rw [State.visit, ht, bind_some, hcheck, bind_some, hmiss]
  rfl

theorem Walking.visit_hit
    (hp : .await g i ∈ ptrs (view o)) (hhit : s.hit oldval (.await g i) = true) :
    ∃ u s' events, s.await g = some u ∧ s.visit oldval (.await g i) = some (s', events) ∧
      Unblocks g u.client events ∧ Freed s g view s' ∧
      Walking s' o value (view.drop none (inGroup g)) := by
  obtain ⟨t, ht, hcheck⟩ := h.trigger oldval hp
  rw [h.hit_eq hp ht] at hhit
  obtain ⟨u, hu, -⟩ := bind_eq_some_iff.mp ht
  obtain ⟨s', events, hfire, hunblocks, hfreed, hreg⟩ :=
    h.registered.awaitTriggerFired hu fun _ h => nomatch h
  refine ⟨u, s', events, hu, ?_, hunblocks, hfreed, hreg, ?_⟩
  · rw [State.visit, ht, bind_some, hcheck, bind_some, hhit, if_pos rfl]
    exact hfire
  · obtain ⟨obj, hobj, hbody⟩ := h.counter
    exact ⟨obj, by rw [hfreed.object]; exact hobj, hbody⟩

theorem Walking.setAlarm {al al' : SyncAlarm}
    (hal : s.alarm a = some al) (hfire : al.fire (some value) = some al') :
    Walking (s.setAlarm a al') o value view := by
  obtain ⟨state, test, rfl⟩ := SyncAlarm.fire_eq hfire
  exact ⟨h.registered.setAlarm hal rfl (h.registered.alarms a al hal), h.counter⟩

end

theorem changeLoop_visit {fuel : Nat} {a : Addr} {q : Option Addr}
    {t : SyncTrigger} {b : Bool} (hread : s.lists.heap.read a = some ⟨some p, q⟩)
    (ht : s.trigger p = some t) (hcheck : s.check t oldval = some b) :
    s.changeLoop o oldval (fuel + 1) (some a) = (s.visit oldval p).bind fun (s', events) =>
        (if b then s'.resume o q else some q).bind fun ptl =>
          (s'.changeLoop o oldval fuel ptl).map fun (s'', events') => (s'', events ++ events') := by
  rw [State.changeLoop, hread, bind_some, bind_some, ht, bind_some, hcheck,
    bind_some, State.visit, ht, bind_some, hcheck, bind_some]
  cases b with
  | true => rfl
  | false =>
    simp only [Bool.false_eq_true, if_false, bind_some, nil_append]
    cases s.changeLoop o oldval fuel q <;> rfl

theorem resume_of_mem (hholds : s.lists.Holds view) {q : Option Addr}
    (hq : ∀ a, q = some a → a ∈ addrs (view o)) : s.resume o q = some q := by
  cases q with
  | none => rfl
  | some a =>
    rw [State.resume, hholds.onList, map_some, decide_eq_true (hq a rfl)]
    rfl

theorem resume_of_not_mem (hholds : s.lists.Holds view) {a : Addr} (ha : a ∉ addrs (view o)) :
    s.resume o (some a) = some ((view o).head?.map fst) := by
  rw [State.resume, hholds.onList, map_some, decide_eq_false ha, (hholds.chain o).head]
  rfl

theorem ptrs_append (l₁ l₂ : List (Addr × Option TriggerPtr)) :
    ptrs (l₁ ++ l₂) = ptrs l₁ ++ ptrs l₂ := filterMap_append

theorem cons_of_ptrs {l : List (Addr × Option TriggerPtr)} (hfull : ∀ x ∈ l, x.2 ≠ none)
    {ps : List TriggerPtr} (h : ptrs l = p :: ps) :
    ∃ a l', l = (a, some p) :: l' ∧ ptrs l' = ps := by
  cases l with
  | nil => cases h
  | cons x l =>
    obtain ⟨a, _ | q⟩ := x
    · exact absurd rfl (hfull _ mem_cons_self)
    · rw [ptrs_some] at h
      cases h
      exact ⟨a, l, rfl, rfl⟩

theorem ptrs_drop_keep (g i : Nat) (l : List (Addr × Option TriggerPtr)) :
    ptrs (l.filter fun x => !isGone (inGroup g) x.2) = keep mate (.await g i) (ptrs l) :=
  ptrs_filter (inGroup g) l

variable {s' : State}

theorem Freed.hit (h : Freed s g view s')
    (hp : inGroup g p = false) : s'.hit oldval p = s.hit oldval p := by
  cases p with
  | alarm a => rfl
  | await g' i =>
    have hcheck : ∀ t, s'.check t oldval = s.check t oldval := fun t => by
      simp only [State.check, h.object]
    rw [State.hit, State.isTrue, h.trigger, hp, State.hit, State.isTrue]
    simp only [hcheck, Bool.false_eq_true, if_false]

variable {front back : List (Addr × Option TriggerPtr)}

theorem Walking.node (h : Walking s o value view)
    {rest : List TriggerPtr} (hview : view o = front ++ back) (hback : ptrs back = p :: rest) :
    ∃ a back', back = (a, some p) :: back' ∧ ptrs back' = rest ∧ p ∈ ptrs (view o) ∧
      s.lists.heap.read a = some ⟨some p, back'.head?.map fst⟩ := by
  have hfull := h.registered.full o (by simp)
  obtain ⟨a, back', rfl, hrest⟩ := cons_of_ptrs
    (fun x hx => hfull x (by rw [hview]; exact mem_append_right front hx)) hback
  have hchain := h.registered.holds.chain o
  rw [hview] at hchain
  obtain ⟨q, hread, hnext⟩ := hchain.split
  refine ⟨a, back', rfl, hrest, ?_, ?_⟩
  · rw [hview, ptrs_append, hback]
    exact mem_append_right _ mem_cons_self
  · rw [hread, hnext.head]

theorem visitAll_cons {ps : List TriggerPtr} :
    s.visitAll oldval (p :: ps) = (s.visit oldval p).bind fun (s, events) =>
      (s.visitAll oldval ps).map fun (s, events') => (s, events ++ events') := rfl

theorem Walking.visit_cases (h : Walking s o value view)
    (hp : p ∈ ptrs (view o)) {events : List Event} (hvisit : s.visit oldval p = some (s', events)) :
    (s.hit oldval p = false ∧ s' = s ∧ events = [] ∧
      ∀ a al, p = .alarm a → s.alarm a = some al → al.visit value oldval = some (al, 0)) ∨
    (∃ a al al', p = .alarm a ∧ s.alarm a = some al ∧ al.visit value oldval = some (al', 1) ∧
      s' = s.setAlarm a al' ∧ events = [al.notify a al' value] ∧ Walking s' o value view) ∨
    (∃ g i u, p = .await g i ∧ s.hit oldval p = true ∧ s.await g = some u ∧
      Unblocks g u.client events ∧ Freed s g view s' ∧
      Walking s' o value (view.drop none (inGroup g))) := by
  cases p with
  | await g i =>
    cases hhit : s.hit oldval (.await g i) with
    | false =>
      rw [h.visit_miss hp hhit] at hvisit
      cases hvisit
      exact .inl ⟨rfl, rfl, rfl, fun a al heq => (nomatch heq)⟩
    | true =>
      obtain ⟨u, s₁, events₁, hu, hvisit₁, hunblocks, hfreed, hwalk⟩ := h.visit_hit hp hhit
      rw [hvisit] at hvisit₁
      cases hvisit₁
      exact .inr (.inr ⟨g, i, u, rfl, rfl, hu, hunblocks, hfreed, hwalk⟩)
  | alarm a =>
    obtain ⟨t, ht, -⟩ := h.registered.known o _ hp
    obtain ⟨al, hal, -⟩ := map_eq_some_iff.mp ht
    rw [h.visit_alarm hp hal] at hvisit
    obtain ⟨⟨al', n⟩, hal', hvisit⟩ := map_eq_some_iff.mp hvisit
    have hal'' := hal'
    rw [SyncAlarm.visit] at hal'
    split at hal'
    · obtain ⟨al₁, hfire, heq⟩ := map_eq_some_iff.mp hal'
      cases heq
      cases hvisit
      exact .inr (.inl ⟨a, al, al', rfl, hal, hal'', rfl, rfl, h.setAlarm hal hfire⟩)
    · cases hal'
      cases hvisit
      refine .inl ⟨rfl, rfl, rfl, ?_⟩
      rintro _ al₁ ⟨⟩ hal₁
      rw [hal] at hal₁
      cases hal₁
      exact hal''

theorem Walking.visit_keeps (h : Walking s o value view)
    (hp : p ∈ ptrs (view o)) (hmiss : s.hit oldval p = false) {events : List Event}
    (hvisit : s.visit oldval p = some (s', events)) : Walking s' o value view ∧ s'.lists = s.lists ∧
      ∀ p', s'.hit oldval p' = s.hit oldval p' := by
  rcases h.visit_cases hp hvisit with ⟨-, rfl, -⟩ | ⟨a, al, al', -, -, -, rfl, -, hwalk⟩ |
    ⟨g, i, u, -, hhit, -⟩
  · exact ⟨h, rfl, fun _ => rfl⟩
  · exact ⟨hwalk, rfl, fun p' => by cases p' <;> rfl⟩
  · rw [hmiss] at hhit
    cases hhit

theorem drop_group (g : Nat) (view : View) (o : SyncId) :
    view.drop none (inGroup g) o = (view o).filter fun x => !isGone (inGroup g) x.2 :=
  if_neg (by simp)

theorem ptrs_drop_group (g i : Nat) (view : View) (o : SyncId) :
    ptrs (view.drop none (inGroup g) o) = keep mate (.await g i) (ptrs (view o)) := by
  rw [drop_group, ptrs_drop_keep]

theorem not_mem_drop (hholds : s.lists.Holds view) {r : TriggerPtr}
    (hmem : (a, some r) ∈ view o) (hr : inGroup g r = true) :
    a ∉ addrs (view.drop none (inGroup g) o) := by
  intro ha
  rw [drop_group] at ha
  obtain ⟨⟨b, v⟩, hx, hb⟩ := List.mem_map.mp ha
  obtain ⟨hx, hgone⟩ := mem_filter.mp hx
  obtain rfl : b = a := hb
  have hsame := inj_on_of_nodup_map (hholds.nodup o) hx hmem rfl
  cases hsame
  rw [isGone, hr] at hgone
  cases hgone

theorem mem_drop {r : TriggerPtr} (hmem : (a, some r) ∈ view o) (hr : inGroup g r = false) :
    a ∈ addrs (view.drop none (inGroup g) o) := by
  rw [drop_group]
  refine List.mem_map_of_mem (f := fst) (mem_filter.mpr ⟨hmem, ?_⟩)
  rw [isGone, hr]
  rfl

theorem Walking.changeLoop_hit (h : Walking s o value view) (fuel : Nat)
    (hview : view o = front ++ (a, some (.await g i)) :: back)
    (hhit : s.hit oldval (.await g i) = true) :
    ∃ s' events, s.visit oldval (.await g i) = some (s', events) ∧ Freed s g view s' ∧
      Walking s' o value (view.drop none (inGroup g)) ∧ s.changeLoop o oldval (fuel + 1) (some a) =
        (s'.changeLoop o oldval fuel (if startsOver mate (.await g i) (ptrs back) then
            (view.drop none (inGroup g) o).head?.map fst
          else back.head?.map fst)).map fun (s'', events') => (s'', events ++ events') := by
  have hback : ptrs ((a, some (TriggerPtr.await g i)) :: back) = .await g i :: ptrs back := rfl
  obtain ⟨a', back', heq, -, hmem, hread⟩ := h.node hview hback
  cases heq
  obtain ⟨t, ht, hcheck⟩ := h.trigger oldval hmem
  rw [← h.hit_eq hmem ht, hhit] at hcheck
  obtain ⟨u, s', events, -, hvisit, -, hfreed, hwalk⟩ := h.visit_hit hmem hhit
  refine ⟨s', events, hvisit, hfreed, hwalk, ?_⟩
  have hfull : ∀ x ∈ back, x.2 ≠ none := fun x hx =>
    h.registered.full o (by simp) x (by rw [hview]; simp [hx])
  have hnext : ∀ x ∈ back, x ∈ view o := fun x hx => by
    rw [hview]
    simp [hx]
  have hresume : s'.resume o (back.head?.map fst) = some
      (if startsOver mate (.await g i) (ptrs back) then
        (view.drop none (inGroup g) o).head?.map fst
      else back.head?.map fst) := by
    cases back with
    | nil => rfl
    | cons x back =>
      obtain ⟨b, _ | r⟩ := x
      · exact absurd rfl (hfull _ mem_cons_self)
      · have hr := hnext _ mem_cons_self
        rw [ptrs_some, startsOver, head?_cons, head?_cons, any_some, mate, map_some]
        cases hg : inGroup g r with
        | true =>
          rw [if_pos rfl]
          exact resume_of_not_mem hwalk.registered.holds
            (not_mem_drop h.registered.holds hr hg)
        | false =>
          rw [if_neg (by simp)]
          refine resume_of_mem hwalk.registered.holds ?_
          rintro _ ⟨⟩
          exact mem_drop hr hg
  rw [changeLoop_visit hread ht hcheck, hvisit]
  simp only [bind_some, if_true, hresume]

theorem Walking.changeLoop {hit : TriggerPtr → Bool} {pre rest : List TriggerPtr}
    {fuel : Nat} (h : Walking s o value view)
    (hhit : ∀ p ∈ ptrs (view o), s.hit oldval p = hit p) (hview : view o = front ++ back)
    (hfront : ptrs front = pre) (hback : ptrs back = rest)
    (hfuel : (visits hit mate pre rest).length ≤ fuel) :
    s.changeLoop o oldval fuel (back.head?.map fst) =
      s.visitAll oldval (visits hit mate pre rest) := by
  induction pre, rest using Restart.visits_induction hit mate generalizing s view front back fuel with
  | hnil pre =>
    have hfull := h.registered.full o (by simp)
    cases back with
    | nil =>
      rw [Restart.visits_nil]
      cases fuel <;> rfl
    | cons x back =>
      obtain ⟨a, _ | q⟩ := x
      · exact absurd rfl (hfull (a, none) (by rw [hview]; simp))
      · cases hback
  | hover pre p rest hp hs ih =>
    obtain ⟨a, back', rfl, hrest, hmem, hread⟩ := h.node hview hback
    have hshit := (hhit p hmem).trans hp
    cases p with
    | alarm b => cases hshit
    | await g i =>
      rw [Restart.visits_over hp hs] at hfuel ⊢
      obtain ⟨fuel, rfl⟩ : ∃ k, fuel = k + 1 := by
        rw [length_cons] at hfuel
        exact ⟨fuel - 1, by omega⟩
      obtain ⟨s', events, hvisit, hfreed, hwalk, hloop⟩ := h.changeLoop_hit fuel hview hshit
      have hnew : ptrs (view.drop none (inGroup g) o) = keep mate (.await g i) (pre ++ rest) := by
        rw [ptrs_drop_group g i, hview, ptrs_append, hfront, hback, Restart.keep_append,
          Restart.keep_append]
        simp [keep, mate, inGroup]
      have hrest' := ih hwalk (fun p' hp' => (hfreed.hit (mem_drop_ptrs.mp hp').2).trans
        (hhit p' (mem_drop_ptrs.mp hp').1)) (nil_append _).symm rfl hnew
        (le_of_succ_le_succ hfuel)
      rw [head?_cons, map_some, hloop, visitAll_cons, hvisit, hrest, if_pos hs, hrest']
      rfl
  | hon pre p rest hp hs ih =>
    obtain ⟨a, back', rfl, hrest, hmem, hread⟩ := h.node hview hback
    have hshit := (hhit p hmem).trans hp
    cases p with
    | alarm b => cases hshit
    | await g i =>
      rw [Restart.visits_on hp hs] at hfuel ⊢
      obtain ⟨fuel, rfl⟩ : ∃ k, fuel = k + 1 := by
        rw [length_cons] at hfuel
        exact ⟨fuel - 1, by omega⟩
      obtain ⟨s', events, hvisit, hfreed, hwalk, hloop⟩ := h.changeLoop_hit fuel hview hshit
      have hsplit : view.drop none (inGroup g) o =
          (front.filter fun x => !isGone (inGroup g) x.2) ++
            back'.filter fun x => !isGone (inGroup g) x.2 := by
        rw [drop_group, hview, filter_append, filter_cons]
        simp [isGone, inGroup]
      have hhead : (back'.filter fun x => !isGone (inGroup g) x.2).head?.map fst =
          back'.head?.map fst := by
        have hfull := h.registered.full o (by simp)
        rw [hview] at hfull
        cases back' with
        | nil => rfl
        | cons x back =>
          obtain ⟨b, _ | r⟩ := x
          · exact absurd rfl (hfull (b, none) (by simp))
          · rw [← hrest, ptrs_some, startsOver, head?_cons, any_some, mate] at hs
            rw [filter_cons, isGone, hs]
            rfl
      have hrest' := ih hwalk (fun p' hp' => (hfreed.hit (mem_drop_ptrs.mp hp').2).trans
        (hhit p' (mem_drop_ptrs.mp hp').1)) hsplit
        (by rw [ptrs_drop_keep g i, hfront]) (by rw [ptrs_drop_keep g i, hrest])
        (le_of_succ_le_succ hfuel)
      rw [hhead] at hrest'
      rw [head?_cons, map_some, hloop, visitAll_cons, hvisit, hrest, if_neg (by simp [hs]), hrest']
      rfl
  | hmiss pre p rest hp ih =>
    obtain ⟨a, back', rfl, hrest, hmem, hread⟩ := h.node hview hback
    obtain ⟨t, ht, hcheck⟩ := h.trigger oldval hmem
    have hshit := (hhit p hmem).trans hp
    rw [Restart.visits_miss hp] at hfuel ⊢
    obtain ⟨fuel, rfl⟩ : ∃ k, fuel = k + 1 := by
      rw [length_cons] at hfuel
      exact ⟨fuel - 1, by omega⟩
    rw [head?_cons, map_some, changeLoop_visit hread ht hcheck, visitAll_cons]
    cases hvisit : s.visit oldval p with
    | none => rfl
    | some r =>
      obtain ⟨s', events⟩ := r
      obtain ⟨hwalk, hlists, hsame⟩ := h.visit_keeps hmem hshit hvisit
      have hresume : (if t.checkTrigger.holds (.counter value) t.testValue oldval then
          s'.resume o (back'.head?.map fst) else some (back'.head?.map fst)) =
          some (back'.head?.map fst) := by
        split
        · refine resume_of_mem (by rw [hlists]; exact h.registered.holds) fun b hb => ?_
          obtain ⟨x, hx, rfl⟩ := map_eq_some_iff.mp hb
          rw [hview]
          refine List.mem_map_of_mem (mem_append_right front (mem_cons_of_mem _ ?_))
          exact mem_of_mem_head? hx
        · rfl
      have hview' : view o = (front ++ [(a, some p)]) ++ back' := by
        rw [hview, append_assoc]
        rfl
      have hrest' := ih hwalk (fun p' hp' => (hsame p').trans (hhit p' hp')) hview'
        (by rw [ptrs_append, hfront]; rfl) hrest (le_of_succ_le_succ hfuel)
      simp only [bind_some, hresume, hrest']

end

end Xfront.Sync
