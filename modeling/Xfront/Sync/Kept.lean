import Xfront.Sync.Destroy
import Xfront.Sync.Requests

/-!
# Triggers that come and go

New objects, and triggers that are initialized, taken off their lists and put on others, with
every other trigger on its list.
-/

namespace Xfront.Sync
open List Option Function Bool SyncTrigger State SyncObject
open Linked (Addr Lists addrs)

section

variable {s s' : State} {pend : Option TriggerPtr} {view : View} {o : SyncId}

theorem join_append {α : Type} (l : List (Option α)) (x : Option α) (i : Nat) :
    ((l ++ [x])[i]?).join = if i = l.length then x else (l[i]?).join := by
  rcases Nat.lt_trichotomy i l.length with hlt | rfl | hgt
  · rw [List.getElem?_append_left hlt, if_neg (ne_of_lt hlt)]
  · rw [List.getElem?_append_right (le_refl _), Nat.sub_self, if_pos rfl]
    rfl
  · rw [if_neg (Nat.ne_of_gt hgt), List.getElem?_eq_none (le_of_lt hgt),
      List.getElem?_eq_none (by rw [length_append, length_singleton]; omega)]

variable {obj : SyncObject}

theorem Registered.createObject (h : Registered s none none view)
    (hobj : obj.beingDestroyed = false) :
    Registered { s with objects := s.objects ++ [some obj] } none none view := by
  have hobject : ∀ o, object { s with objects := s.objects ++ [some obj] } o =
      if o = s.objects.length then some obj else s.object o := join_append s.objects (some obj)
  refine ⟨h.holds, h.known, h.listed, h.once, fun p t o ht ho => ?_, h.full,
    fun o obj' hobj' => ?_, h.waits, h.alarms⟩
  · obtain ⟨obj', hobj', hfence⟩ := h.live p t o ht ho
    have hlt : o ≠ s.objects.length := by
      rintro rfl
      rw [object, getElem?_eq_none (le_refl _)] at hobj'
      cases hobj'
    rw [hobject, if_neg hlt]
    exact ⟨obj', hobj', hfence⟩
  · rw [hobject] at hobj'
    split at hobj'
    · cases hobj'
      rw [hobj]
      simp
    · exact h.destroyed o obj' hobj'

theorem Registered.queryValue (h : Registered s none none view) (query : SyncId → BitVec 64)
    (pSync : Option SyncId) : Registered (s.queryValue query pSync) none none view := by
  cases pSync with
  | none => exact h
  | some o =>
    simp only [State.queryValue]
    cases hobj : s.object o with
    | none => exact h
    | some obj =>
      cases hbody : obj.body with
      | fence triggered => simpa only [hbody] using h
      | counter value =>
        simp only [hbody]
        split
        · exact h.setBody hobj (by rw [isCounter, isCounter, hbody])
        · exact h

theorem State.queryValue_object (hobj : s.object o = some obj)
    (query : SyncId → BitVec 64) (pSync : Option SyncId) :
    ∃ obj', (s.queryValue query pSync).object o = some obj' ∧ isCounter obj' = isCounter obj := by
  cases pSync with
  | none => exact ⟨obj, hobj, rfl⟩
  | some o' =>
    simp only [queryValue]
    cases hobj' : s.object o' with
    | none => exact ⟨obj, hobj, rfl⟩
    | some obj' =>
      cases hbody : obj'.body with
      | fence triggered => exact ⟨obj, by simpa only [hbody] using hobj, rfl⟩
      | counter value =>
        simp only [hbody]
        split
        · rw [object_setObject hobj']
          split
          · next heq =>
            subst heq
            rw [hobj] at hobj'
            cases hobj'
            exact ⟨_, rfl, by rw [isCounter, isCounter, hbody]⟩
          · exact ⟨obj, hobj, rfl⟩
        · exact ⟨obj, hobj, rfl⟩

theorem State.queryValue_same (s : State) (query : SyncId → BitVec 64) (pSync : Option SyncId) :
    (s.queryValue query pSync).alarms = s.alarms ∧ (s.queryValue query pSync).awaits = s.awaits ∧
      (s.queryValue query pSync).lists = s.lists := by
  cases pSync with
  | none => exact ⟨rfl, rfl, rfl⟩
  | some o =>
    simp only [queryValue]
    split
    · split
      · split
        · exact ⟨rfl, rfl, rfl⟩
        · exact ⟨rfl, rfl, rfl⟩
      · exact ⟨rfl, rfl, rfl⟩
    · exact ⟨rfl, rfl, rfl⟩

variable {t : SyncTrigger} {p : TriggerPtr}

theorem Registered.addTrigger (h : Registered s none (some p) view) (ht : s.trigger p = some t)
    (hoff : ∀ o, p ∉ ptrs (view o)) :
    ∃ lists view', s.addTrigger p = some { s with lists := lists } ∧
      Registered { s with lists := lists } none none view' := by
  cases hsync : t.pSync with
  | none =>
    refine ⟨s.lists, view, ?_, h.holds, h.known, fun q t' o ht' ho _ => ?_, h.once, h.live, h.full,
      h.destroyed, h.waits, h.alarms⟩
    · rw [State.addTrigger, ht, bind_some, hsync]
    · refine h.listed q t' o ht' ho ?_
      rintro ⟨⟩
      rw [ht] at ht'
      cases ht'
      rw [hsync] at ho
      cases ho
  | some o =>
    obtain ⟨obj, hobj, -⟩ := h.live p t o ht hsync
    have hnot : ∀ x ∈ view o, isPtr p x.2 = false := by
      rintro ⟨a, v⟩ hx
      rw [isPtr, beq_eq_false_iff_ne]
      rintro rfl
      exact hoff o (mem_ptrs.mpr ⟨a, hx⟩)
    have hfind : Linked.find s.lists.heap (isPtr p) s.lists.heap.size none (s.lists.heads o) =
        some none := by
      rcases h.holds.find o (isPtr p) with ⟨-, hfind⟩ | ⟨front, a, v, back, hsplit, -, hv, -⟩
      · exact hfind
      · rw [hnot (a, v) (by rw [hsplit]; simp)] at hv
        cases hv
    have hptrs : ∀ o', ptrs (update view o ((s.lists.heap.size, some p) :: view o) o') =
        if o' = o then p :: ptrs (view o) else ptrs (view o') := by
      intro o'
      by_cases heq : o' = o
      · subst heq
        rw [update_self, if_pos rfl, ptrs_some]
      · rw [update_of_ne heq, if_neg heq]
    refine ⟨s.lists.push o (some p), _, ?_, h.holds.push o (some p), fun o' q hq => ?_,
      fun q t' o' ht' ho _ => ?_, fun o' => ?_, h.live, fun o' hd x hx => ?_, h.destroyed, h.waits,
      h.alarms⟩
    · rw [State.addTrigger, ht, bind_some, hsync]
      simp only [hobj, bind_some, hfind, map_some]
    · rw [hptrs] at hq
      split at hq
      · next heq =>
        subst heq
        rcases mem_cons.mp hq with rfl | hq
        · exact ⟨t, ht, hsync⟩
        · exact h.known _ q hq
      · exact h.known o' q hq
    · rw [hptrs]
      by_cases hqp : q = p
      · subst hqp
        have hsame : State.trigger { s with lists := s.lists.push o (some q) } q = some t := ht
        rw [hsame] at ht'
        cases ht'
        rw [hsync] at ho
        cases ho
        rw [if_pos rfl]
        exact mem_cons_self
      · have hq := h.listed q t' o' ht' ho fun heq => hqp (some.inj heq).symm
        split
        · next heq =>
          subst heq
          exact mem_cons_of_mem p hq
        · exact hq
    · rw [hptrs]
      split
      · exact nodup_cons.mpr ⟨hoff o, h.once o⟩
      · exact h.once o'
    · by_cases heq : o' = o
      · subst heq
        rw [update_self] at hx
        rcases mem_cons.mp hx with rfl | hx
        · exact some_ne_none p
        · exact h.full o' hd x hx
      · rw [update_of_ne heq] at hx
        exact h.full o' hd x hx

theorem Registered.deleteTrigger (h : Registered s none none view) (ht : s.trigger p = some t) :
    ∃ lists view', s.deleteTrigger p = some { s with lists := lists } ∧
      Registered { s with lists := lists } none (some p) view' ∧ ∀ o, p ∉ ptrs (view' o) := by
  have hon : ∀ o, p ∈ ptrs (view o) → t.pSync = some o := by
    intro o hp
    obtain ⟨t', ht', hsync⟩ := h.known o p hp
    rw [ht] at ht'
    cases ht'
    exact hsync
  cases hsync : t.pSync with
  | none =>
    refine ⟨s.lists, view, ?_, ⟨h.holds, h.known, fun q t' o ht' ho _ => ?_, h.once, h.live, h.full,
      h.destroyed, h.waits, h.alarms⟩, fun o hp => ?_⟩
    · rw [State.deleteTrigger, ht, bind_some, hsync]
    · exact h.listed q t' o ht' ho (by simp)
    · have hnone := hon o hp
      rw [hsync] at hnone
      cases hnone
  | some o =>
    obtain ⟨obj, hobj, -⟩ := h.live p t o ht hsync
    obtain ⟨lists, hunlink, hholds, -⟩ := h.holds.unlinkFirst o (isPtr p)
    have honly : ∀ o', p ∈ ptrs (view o') → o' = o := by
      intro o' hp
      have hsome := hon o' hp
      rw [hsync] at hsome
      exact (some.inj hsome).symm
    have hdrop := drop_one (d := none) honly (h.once o)
    rw [if_neg (by simp)] at hdrop
    rw [← hdrop] at hholds
    refine ⟨lists, view.drop none (· == p), ?_, ⟨hholds, fun o' q hq => ?_,
      fun q t' o' ht' ho hne => ?_, fun o' => ?_, h.live, fun o' hd x hx => ?_, h.destroyed,
      h.waits, h.alarms⟩, fun o' hp => ?_⟩
    · rw [State.deleteTrigger, ht, bind_some, hsync]
      simp only [hobj, bind_some, hunlink, map_some]
    · exact h.known o' q (mem_drop_ptrs.mp hq).1
    · refine mem_drop_ptrs.mpr ⟨h.listed q t' o' ht' ho (by simp), ?_⟩
      rw [beq_eq_false_iff_ne]
      rintro rfl
      exact hne rfl
    · rw [ptrs_drop]
      exact (h.once o').filter _
    · rw [View.drop, if_neg hd] at hx
      exact h.full o' hd x (mem_filter.mp hx).1
    · have hgone := (mem_drop_ptrs.mp hp).2
      rw [beq_self_eq_true] at hgone
      cases hgone

theorem SyncTrigger.initValue_same (t : SyncTrigger) (body : Option SyncBody)
    (changes : TriggerMask) : ∃ test, (t.initValue body changes).1 = { t with testValue := test } := by
  unfold initValue
  split
  · split
    · exact ⟨_, rfl⟩
    · split
      · exact ⟨_, rfl⟩
      · exact ⟨t.testValue, rfl⟩
      · exact ⟨t.testValue, rfl⟩
  · exact ⟨t.testValue, rfl⟩

variable {testType : BitVec 32} {check : CheckTrigger}

theorem checkTriggerOf_cases (h : checkTriggerOf testType = some check) :
    (testType = positiveTransition ∧ check = .positiveTransition) ∨
    (testType = negativeTransition ∧ check = .negativeTransition) ∨
    (testType = positiveComparison ∧ check = .positiveComparison) ∨
    (testType = negativeComparison ∧ check = .negativeComparison) := by
  simp only [checkTriggerOf] at h
  split at h
  · next htype => exact .inl ⟨htype, (some.inj h).symm⟩
  · split at h
    · next htype => exact .inr (.inl ⟨htype, (some.inj h).symm⟩)
    · split at h
      · next htype => exact .inr (.inr (.inl ⟨htype, (some.inj h).symm⟩))
      · split at h
        · next htype => exact .inr (.inr (.inr ⟨htype, (some.inj h).symm⟩))
        · cases h

theorem checkTriggerOf_ne_fence (h : checkTriggerOf testType = some check) : check ≠ .fence := by
  rintro rfl
  rcases checkTriggerOf_cases h with ⟨-, hc⟩ | ⟨-, hc⟩ | ⟨-, hc⟩ | ⟨-, hc⟩ <;> cases hc

theorem SyncTrigger.init_same (t : SyncTrigger) (body : Option SyncBody) (changes : TriggerMask) :
    ∃ test check, (t.init body changes).1 = { t with testValue := test, checkTrigger := check } ∧
      (check = t.checkTrigger ∨ (check = .fence ↔ ∃ b, body = some (.fence b))) ∧
      ((t.init body changes).2 = none → changes.testType = true →
        (check = .fence ↔ ∃ b, body = some (.fence b))) := by
  obtain ⟨test, hvalue⟩ := t.initValue_same body changes
  rw [init]
  split
  · exact ⟨t.testValue, t.checkTrigger, rfl, .inl rfl, fun h => nomatch h⟩
  · cases hinit : t.initValue body changes with
    | mk t' err =>
      rw [hinit] at hvalue
      obtain rfl : t' = { t with testValue := test } := hvalue
      cases err with
      | some e => exact ⟨test, t.checkTrigger, rfl, .inl rfl, fun h => nomatch h⟩
      | none =>
        simp only [initTest]
        split
        · split
          · exact ⟨test, .fence, rfl, .inr (by simp), fun _ _ => by simp⟩
          all_goals
            split
            · next check hcheck =>
              have hne := checkTriggerOf_ne_fence hcheck
              refine ⟨test, check, rfl, .inr ?_, fun _ _ => ?_⟩
              · simp [hne]
              · simp [hne]
            · exact ⟨test, t.checkTrigger, rfl, .inl rfl, fun h => nomatch h⟩
        · next hoff => exact ⟨test, t.checkTrigger, rfl, .inl rfl, fun _ h => absurd h hoff⟩

theorem SyncTrigger.init_check (t : SyncTrigger) {body : Option SyncBody} (changes : TriggerMask)
    (hbody : ∀ b, body ≠ some (.fence b)) :
    ((t.init body changes).2 ≠ none → (t.init body changes).1.checkTrigger = t.checkTrigger) ∧
    ((t.init body changes).2 = none → if changes.testType
      then checkTriggerOf t.testType = some (t.init body changes).1.checkTrigger
      else (t.init body changes).1.checkTrigger = t.checkTrigger) := by
  obtain ⟨test, hvalue⟩ := t.initValue_same body changes
  rw [init]
  split
  · exact ⟨fun _ => rfl, fun h => nomatch h⟩
  · cases hinit : t.initValue body changes with
    | mk t' err =>
      rw [hinit] at hvalue
      obtain rfl : t' = { t with testValue := test } := hvalue
      cases err with
      | some e => exact ⟨fun _ => rfl, fun h => nomatch h⟩
      | none =>
        simp only [initTest]
        cases htest : changes.testType with
        | false =>
          simp only [false_eq_true, if_false]
          exact ⟨fun _ => trivial, fun _ => trivial⟩
        | true =>
          simp only [if_true]
          cases body with
          | none =>
            cases hcheck : checkTriggerOf t.testType with
            | none => exact ⟨fun _ => rfl, fun h => nomatch h⟩
            | some check => exact ⟨fun h => absurd rfl h, fun _ => rfl⟩
          | some b =>
            cases b with
            | fence triggered => exact absurd rfl (hbody triggered)
            | counter value =>
              cases hcheck : checkTriggerOf t.testType with
              | none => exact ⟨fun _ => rfl, fun h => nomatch h⟩
              | some check => exact ⟨fun h => absurd rfl h, fun _ => rfl⟩

variable {type : SyncType}

theorem State.lookup_ok (h : s.lookup type o = .ok obj) : s.object o = some obj ∧ obj.type = type := by
  unfold State.lookup at h
  split at h
  · split at h
    · next hobj htype =>
      cases h
      exact ⟨hobj, htype⟩
    · cases h
  · cases h

theorem SyncObject.type_counter : obj.type = .counter ↔ isCounter obj = true := by
  rw [type, isCounter]
  cases obj.body <;> simp

theorem SyncObject.type_fence : obj.type = .fence ↔ isCounter obj = false := by
  rw [type, isCounter]
  cases obj.body <;> simp

def Initializes (s : State) (t : SyncTrigger) (syncObject : Option SyncId) (type : SyncType)
    (changes : TriggerMask) (pSync : Option SyncId) : Prop :=
  (changes.counter = true ∧ pSync = syncObject ∧
    ∀ o, syncObject = some o → ∃ obj, s.object o = some obj ∧ obj.type = type) ∨
  (changes.counter = false ∧ pSync = t.pSync)

variable {t₁ : SyncTrigger} {query : SyncId → BitVec 64} {s₁ : State}
  {r : Except SyncError (Option SyncId)}

variable {syncObject : Option SyncId} {changes : TriggerMask}

theorem State.initTrigger_cases (h : s.initTrigger t syncObject type changes query = (s₁, t₁, r)) :
    (s₁ = s ∧ t₁ = t ∧ ∃ e, r = .error e) ∨
    ∃ pSync, Initializes s t syncObject type changes pSync ∧ s₁ = s.queryValue query pSync ∧
      t₁ = (t.init ((pSync.bind s₁.object).map body) changes).1 ∧ ((∃ e, r = .error e ∧
          (t.init ((pSync.bind s₁.object).map body) changes).2 = some e) ∨ r = .ok pSync ∧
          (t.init ((pSync.bind s₁.object).map body) changes).2 = none) := by
  simp only [initTrigger] at h
  split at h
  · cases h
    exact .inl ⟨rfl, rfl, _, rfl⟩
  · next pSync hsync =>
    have hinit : Initializes s t syncObject type changes pSync := by
      split at hsync
      · next hcounter =>
        refine .inl ⟨hcounter, ?_⟩
        cases syncObject with
        | none =>
          cases hsync
          exact ⟨rfl, by simp⟩
        | some o =>
          cases hlookup : s.lookup type o with
          | error e =>
            simp only [hlookup, Except.map] at hsync
            cases hsync
          | ok obj =>
            simp only [hlookup, Except.map] at hsync
            cases hsync
            refine ⟨rfl, ?_⟩
            rintro _ ⟨⟩
            exact ⟨obj, lookup_ok hlookup⟩
      · next hcounter =>
        cases hsync
        exact .inr ⟨by simpa using hcounter, rfl⟩
    refine .inr ⟨pSync, hinit, ?_⟩
    split at h
    · next t' e heq =>
      cases h
      exact ⟨rfl, by rw [heq], .inl ⟨e, rfl, by rw [heq]⟩⟩
    · next t' heq =>
      cases h
      exact ⟨rfl, by rw [heq], .inr ⟨rfl, by rw [heq]⟩⟩

theorem Registered.initCondition (h : Registered s none none view)
    (hinit : s.initTrigger t (some o) type allTrigger query = (s₁, t₁, r)) :
    Registered s₁ none none view ∧ s₁.alarms = s.alarms ∧ s₁.awaits = s.awaits ∧
      ∀ pSync, r = .ok pSync → pSync = some o ∧ ∃ obj, s₁.object o = some obj ∧
        (t₁.checkTrigger = .fence ↔ isCounter obj = false) := by
  rcases initTrigger_cases hinit with ⟨rfl, rfl, e, rfl⟩ | ⟨pSync, hsync, rfl, rfl, hr⟩
  · exact ⟨h, rfl, rfl, fun _ hr => nomatch hr⟩
  · obtain ⟨halarms, hawaits, -⟩ := queryValue_same s query pSync
    refine ⟨h.queryValue query pSync, halarms, hawaits, fun pSync' hr' => ?_⟩
    rcases hr with ⟨e, rfl, -⟩ | ⟨rfl, hnone⟩
    · cases hr'
    cases hr'
    rcases hsync with ⟨-, rfl, hlive⟩ | ⟨hfalse, -⟩
    · obtain ⟨obj, hobj, -⟩ := hlive o rfl
      obtain ⟨obj', hobj', -⟩ := queryValue_object hobj query (some o)
      obtain ⟨test, check, hsame, -, hcheck⟩ :=
        t.init_same ((Option.bind (some o) (s.queryValue query (some o)).object).map
          body) allTrigger
      refine ⟨rfl, obj', hobj', ?_⟩
      rw [hsame, hcheck hnone rfl, bind_some, hobj', isCounter, map_some]
      cases obj'.body <;> simp
    · cases hfalse

/-- What initializing the trigger `t` of an alarm has done. -/
structure AlarmInit (s : State) (view : View) (t : SyncTrigger) (changes : TriggerMask)
    (s₁ : State) (t₁ : SyncTrigger) (r : Except SyncError (Option SyncId)) : Prop where
  registered : Registered s₁ none none view
  alarms : s₁.alarms = s.alarms
  awaits : s₁.awaits = s.awaits
  pSync : t₁.pSync = t.pSync
  testType : t₁.testType = t.testType
  notFence : t₁.checkTrigger ≠ .fence
  failed : ∀ e, r = .error e → t₁.checkTrigger = t.checkTrigger
  checked : ∀ pSync, r = .ok pSync → if changes.testType
    then checkTriggerOf t.testType = some t₁.checkTrigger else t₁.checkTrigger = t.checkTrigger
  live : ∀ pSync, r = .ok pSync → ∀ o, pSync = some o →
    ∃ obj, s₁.object o = some obj ∧ isCounter obj = true

theorem Registered.initAlarm {a : Nat} {al : SyncAlarm} (h : Registered s none none view)
    (hal : s.alarm a = some al) (hsync : t.pSync = al.trigger.pSync)
    (hcheck : t.checkTrigger = al.trigger.checkTrigger)
    (hinit : s.initTrigger t syncObject .counter changes query = (s₁, t₁, r)) :
    AlarmInit s view t changes s₁ t₁ r := by
  have hnot : t.checkTrigger ≠ .fence := by
    rw [hcheck]
    exact h.alarms a al hal
  rcases initTrigger_cases hinit with ⟨rfl, rfl, e, rfl⟩ | ⟨pSync, hpSync, rfl, rfl, hr⟩
  · exact ⟨h, rfl, rfl, rfl, rfl, hnot, fun _ _ => rfl, fun _ hr => (nomatch hr),
      fun _ hr => (nomatch hr)⟩
  · obtain ⟨halarms, hawaits, -⟩ := queryValue_same s query pSync
    -- the trigger stays on a counter or moves to one
    have hcounter : ∀ o, pSync = some o →
        ∃ obj, (s.queryValue query pSync).object o = some obj ∧ isCounter obj = true := by
      rintro o rfl
      obtain ⟨obj, hobj, htype⟩ : ∃ obj, s.object o = some obj ∧ isCounter obj = true := by
        rcases hpSync with ⟨-, heq, hlive⟩ | ⟨-, heq⟩
        · obtain ⟨obj, hobj, htype⟩ := hlive o heq.symm
          exact ⟨obj, hobj, type_counter.mp htype⟩
        · have htrigger : s.trigger (.alarm a) = some al.trigger := by
            rw [trigger, hal]
            rfl
          obtain ⟨obj, hobj, hfence⟩ := h.live _ _ o htrigger (hsync.symm.trans heq.symm)
          refine ⟨obj, hobj, ?_⟩
          rw [← not_eq_false, ← hfence]
          exact h.alarms a al hal
      obtain ⟨obj', hobj', hsame⟩ := queryValue_object hobj query (some o)
      exact ⟨obj', hobj', hsame.trans htype⟩
    have hbody : ∀ b, (pSync.bind (s.queryValue query pSync).object).map body ≠
        some (.fence b) := by
      intro b hb
      cases pSync with
      | none => cases hb
      | some o =>
        obtain ⟨obj, hobj, htype⟩ := hcounter o rfl
        rw [bind_some, hobj, map_some, some.injEq] at hb
        rw [isCounter, hb] at htype
        cases htype
    obtain ⟨test, check, hsame, hkept, -⟩ := t.init_same
      ((pSync.bind (s.queryValue query pSync).object).map body) changes
    obtain ⟨hfailed, hchecked⟩ := t.init_check changes hbody
    refine ⟨h.queryValue query pSync, halarms, hawaits, by rw [hsame], by rw [hsame], ?_,
      fun e he => ?_, fun pSync' hok => ?_, ?_⟩
    · rw [hsame]
      rcases hkept with rfl | hiff
      · exact hnot
      · refine fun hfence => ?_
        obtain ⟨b, hb⟩ := hiff.mp hfence
        exact hbody b hb
    · rcases hr with ⟨e', rfl, herr⟩ | ⟨rfl, -⟩
      · exact hfailed (by rw [herr]; exact some_ne_none e')
      · cases he
    · rcases hr with ⟨e, rfl, -⟩ | ⟨rfl, hnone⟩
      · cases hok
      · exact hchecked hnone
    · rintro pSync' hr' o rfl
      rcases hr with ⟨e, rfl, -⟩ | ⟨rfl, -⟩
      · cases hr'
      · cases hr'
        exact hcounter o rfl

end

end Xfront.Sync
