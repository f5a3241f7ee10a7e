import Xfront.Sync.Model

/-!
# Triggers on their lists

Every trigger with an object is on that object's list once, and the lists hold no other trigger.
-/

namespace Xfront.Sync
open List Function Bool
open Linked (Addr Lists addrs)

abbrev View := SyncId → List (Addr × Option TriggerPtr)

def ptrs (l : List (Addr × Option TriggerPtr)) : List TriggerPtr := l.filterMap Prod.snd

/-- `d` is the object that is being destroyed, `pend` a trigger that was taken off its list. -/
structure Registered (s : State) (d : Option SyncId) (pend : Option TriggerPtr) (view : View) :
    Prop where
  holds : s.lists.Holds view
  known : ∀ o, ∀ p ∈ ptrs (view o), ∃ t, s.trigger p = some t ∧ t.pSync = some o
  listed : ∀ p t o, s.trigger p = some t → t.pSync = some o → pend ≠ some p → p ∈ ptrs (view o)
  once : ∀ o, (ptrs (view o)).Nodup
  live : ∀ p t o, s.trigger p = some t → t.pSync = some o → ∃ obj, s.object o = some obj ∧
    (t.checkTrigger = .fence ↔ isCounter obj = false)
  full : ∀ o, d ≠ some o → ∀ x ∈ view o, x.2 ≠ none
  destroyed : ∀ o obj, s.object o = some obj → (obj.beingDestroyed = true ↔ d = some o)
  waits : ∀ g u, s.await g = some u → ∀ aw ∈ u.awaits, aw.trigger.pSync ≠ none
  alarms : ∀ a al, s.alarm a = some al → al.trigger.checkTrigger ≠ .fence

def isGone (gone : TriggerPtr → Bool) : Option TriggerPtr → Bool
  | none => false
  | some p => gone p

def forget (gone : TriggerPtr → Bool) : Option TriggerPtr → Option TriggerPtr
  | none => none
  | some p => if gone p then none else some p

/-- Triggers are dropped from the lists; nodes of the object that is being destroyed stay. -/
def View.drop (d : Option SyncId) (gone : TriggerPtr → Bool) (view : View) : View := fun o =>
  if d = some o then (view o).map fun x => (x.1, forget gone x.2)
  else (view o).filter fun x => !isGone gone x.2

theorem ptrs_nil : ptrs [] = [] := rfl

theorem ptrs_none (a : Addr) (l : List (Addr × Option TriggerPtr)) :
    ptrs ((a, none) :: l) = ptrs l := rfl

theorem ptrs_some (a : Addr) (p : TriggerPtr) (l : List (Addr × Option TriggerPtr)) :
    ptrs ((a, some p) :: l) = p :: ptrs l := rfl

variable {l : List (Addr × Option TriggerPtr)} {p : TriggerPtr}

theorem mem_ptrs : p ∈ ptrs l ↔ ∃ a, (a, some p) ∈ l := by
  rw [ptrs, mem_filterMap]
  constructor
  · rintro ⟨⟨a, v⟩, hx, rfl⟩
    exact ⟨a, hx⟩
  · rintro ⟨a, hx⟩
    exact ⟨(a, some p), hx, rfl⟩

theorem ptrs_forget (gone : TriggerPtr → Bool) (l : List (Addr × Option TriggerPtr)) :
    ptrs (l.map fun x => (x.1, forget gone x.2)) = (ptrs l).filter fun p => !gone p := by
  induction l with
  | nil => rfl
  | cons x l ih =>
    obtain ⟨a, _ | p⟩ := x
    · exact ih
    · rw [map_cons, ptrs_some, forget, filter_cons]
      cases hp : gone p
      · simp only [false_eq_true, if_false, Bool.not_false, if_true, ptrs_some, ih]
      · simp only [if_true, Bool.not_true, false_eq_true, if_false, ptrs_none, ih]

theorem ptrs_filter (gone : TriggerPtr → Bool) (l : List (Addr × Option TriggerPtr)) :
    ptrs (l.filter fun x => !isGone gone x.2) = (ptrs l).filter fun p => !gone p := by
  induction l with
  | nil => rfl
  | cons x l ih =>
    obtain ⟨a, _ | p⟩ := x
    · exact ih
    · rw [filter_cons, ptrs_some, isGone, filter_cons]
      cases hp : gone p
      · simp only [Bool.not_false, if_true, ptrs_some, ih]
      · simp only [Bool.not_true, false_eq_true, if_false, ih]

theorem ptrs_drop (d : Option SyncId) (gone : TriggerPtr → Bool) (view : View) (o : SyncId) :
    ptrs (view.drop d gone o) = (ptrs (view o)).filter fun p => !gone p := by
  rw [View.drop]
  split
  · exact ptrs_forget gone (view o)
  · exact ptrs_filter gone (view o)

variable {gone : TriggerPtr → Bool} {view : View} {o : SyncId}

theorem addrs_drop {d : Option SyncId}
    {a : Addr} (ha : a ∈ addrs (view.drop d gone o)) : a ∈ addrs (view o) := by
  rw [View.drop] at ha
  split at ha
  · rw [addrs, map_map] at ha
    exact ha
  · obtain ⟨x, hx, rfl⟩ := mem_map.mp ha
    exact mem_map_of_mem (mem_filter.mp hx).1

theorem drop_drop (d : Option SyncId) (p q : TriggerPtr → Bool) (view : View) :
    (view.drop d p).drop d q = view.drop d fun x => p x || q x := by
  funext o
  simp only [View.drop]
  split
  · rw [map_map]
    refine map_congr_left fun x _ => ?_
    obtain ⟨a, _ | t⟩ := x
    · rfl
    · simp only [comp_apply, forget]
      by_cases hp : p t = true <;> by_cases hq : q t = true <;> simp [hp, hq]
  · rw [filter_filter]
    refine filter_congr fun x _ => ?_
    obtain ⟨a, _ | t⟩ := x
    · rfl
    · simp only [isGone]
      cases p t <;> cases q t <;> rfl

theorem drop_congr (d : Option SyncId) {gone' : TriggerPtr → Bool}
    (h : ∀ p ∈ ptrs (view o), gone p = gone' p) : view.drop d gone o = view.drop d gone' o := by
  rw [View.drop, View.drop]
  split
  · refine map_congr_left ?_
    rintro ⟨a, _ | p⟩ hx
    · rfl
    · simp only [forget, h p (mem_ptrs.mpr ⟨a, hx⟩)]
  · refine filter_congr ?_
    rintro ⟨a, _ | p⟩ hx
    · rfl
    · simp only [isGone, h p (mem_ptrs.mpr ⟨a, hx⟩)]

theorem drop_false (d : Option SyncId) (view : View) (o : SyncId) :
    view.drop d (fun _ => false) o = view o := by
  rw [View.drop]
  split
  · have hsame : ∀ x ∈ view o, (x.1, forget (fun _ => false) x.2) = x := by
      rintro ⟨a, _ | p⟩ _ <;> rfl
    rw [map_congr_left hsame, map_id']
  · refine filter_eq_self.mpr ?_
    rintro ⟨a, _ | p⟩ _ <;> rfl

theorem drop_none (d : Option SyncId)
    (h : ∀ p ∈ ptrs (view o), gone p = false) : view.drop d gone o = view o := by
  rw [drop_congr d h, drop_false]

theorem eraseP_eq_filter (honce : (ptrs l).Nodup) :
    (l.eraseP fun x => isPtr p x.2) = l.filter fun x => !isGone (· == p) x.2 := by
  induction l with
  | nil => rfl
  | cons x l ih =>
    obtain ⟨a, _ | q⟩ := x
    · rw [eraseP_cons_of_neg (by simp [isPtr]), ih honce]
      rfl
    · rw [ptrs_some, nodup_cons] at honce
      by_cases hq : q = p
      · subst hq
        have hrest : l.filter (fun x => !isGone (· == q) x.2) = l := by
          refine filter_eq_self.mpr ?_
          rintro ⟨b, _ | r⟩ hx
          · rfl
          · have hne : r ≠ q := fun h => honce.1 (h ▸ mem_ptrs.mpr ⟨b, hx⟩)
            simp [isGone, hne]
        rw [eraseP_cons_of_pos (by simp [isPtr]), filter_cons, hrest]
        simp [isGone]
      · rw [eraseP_cons_of_neg (by simp [isPtr, hq]), ih honce.2, filter_cons]
        simp [isGone, hq]

theorem setFirst_eq_map (honce : (ptrs l).Nodup) :
    Linked.setFirst (isPtr p) none l = l.map fun x => (x.1, forget (· == p) x.2) := by
  induction l with
  | nil => rfl
  | cons x l ih =>
    obtain ⟨a, _ | q⟩ := x
    · rw [Linked.setFirst, if_neg (by simp [isPtr]), ih honce]
      rfl
    · rw [ptrs_some, nodup_cons] at honce
      rw [Linked.setFirst, map_cons]
      by_cases hq : q = p
      · subst hq
        have hrest : l.map (fun x => (x.1, forget (· == q) x.2)) = l := by
          have hsame : ∀ x ∈ l, (x.1, forget (· == q) x.2) = x := by
            rintro ⟨b, _ | r⟩ hx
            · rfl
            · have hne : r ≠ q := fun h => honce.1 (h ▸ mem_ptrs.mpr ⟨b, hx⟩)
              simp [forget, hne]
          rw [map_congr_left hsame, map_id']
        rw [if_pos (by simp [isPtr]), hrest]
        simp [forget]
      · rw [if_neg (by simp [isPtr, hq]), ih honce.2]
        simp [forget, hq]

theorem drop_one {d : Option SyncId}
    (honly : ∀ o', p ∈ ptrs (view o') → o' = o) (honce : (ptrs (view o)).Nodup) :
    view.drop d (· == p) = update view o (if d = some o then Linked.setFirst (isPtr p) none (view o)
        else (view o).eraseP fun x => isPtr p x.2) := by
  funext o'
  by_cases ho : o' = o
  · subst ho
    rw [update_self, eraseP_eq_filter honce, setFirst_eq_map honce]
    rfl
  · rw [update_of_ne ho]
    have hnone : ∀ q ∈ ptrs (view o'), (q == p) = false := by
      intro q hq
      rw [beq_eq_false_iff_ne]
      rintro rfl
      exact ho (honly o' hq)
    exact drop_none d hnone

end Xfront.Sync
