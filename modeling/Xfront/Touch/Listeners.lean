import Xfront.Touch.Model

/-!
# Copies of grabs are freed once

Every copy that was made for a touch is held by a listener, freed, or lost.
-/

namespace Xfront.Touch
open List Option
open Resource (XID)

def copies (listeners : List TouchListener) : List GrabCopy := listeners.filterMap TouchListener.grab

theorem copies_append (l l' : List TouchListener) : copies (l ++ l') = copies l ++ copies l' :=
  filterMap_append ..

theorem copies_eq_nil {l : List TouchListener} : copies l = [] ↔ ∀ x ∈ l, x.grab = none :=
  filterMap_eq_nil_iff

def firstHalf (n : Nat) : Nat := (n + 1) / 2

namespace TouchPointInfo
variable {ti : TouchPointInfo}

theorem touchRemoveListener_spec (ti : TouchPointInfo) (resource : XID) :
    ∃ before after removed, ti.current = before ++ removed ++ after ∧ removed.length ≤ 1 ∧
      (ti.touchRemoveListener resource).2.1.current = before ++ after ∧
      (ti.touchRemoveListener resource).2.2 = copies removed ∧
      (ti.touchRemoveListener resource).2.1.numGrabs = ti.numGrabs - (copies removed).length ∧
      (ti.touchRemoveListener resource).2.1.active = ti.active ∧
      (ti.listeners = none → (ti.touchRemoveListener resource).2.1 = ti) := by
  have hnull : ti.listeners = none → ti.current = [] := fun h => by rw [current, h]; rfl
  rw [touchRemoveListener]
  cases hf : ti.current.find? fun l => l.listener = resource with
  | none => exact ⟨ti.current, [], [], by simp, by simp, by simp, rfl, by simp [copies], rfl,
      fun _ => rfl⟩
  | some l =>
    obtain ⟨hp, before, after, he, hbefore⟩ := find?_eq_some_iff_append.mp hf
    have herase : ti.current.eraseP (fun l => l.listener = resource) = before ++ after := by
      rw [he, eraseP_append_right _ (fun x hx => by simpa using hbefore x hx), eraseP_cons, hp]
      rfl
    have hl : ti.listeners ≠ none := fun h => by
      rw [hnull h] at hf
      cases hf
    refine ⟨before, after, [l], by simp [he], by simp, ?_⟩
    dsimp only
    cases hg : l.grab with
    | none => exact ⟨herase, by simp [copies, hg], by simp [copies, hg], rfl, fun h => absurd h hl⟩
    | some copy =>
      exact ⟨herase, by simp [copies, hg], by simp [copies, hg], rfl, fun h => absurd h hl⟩

theorem touchRemoveListener_first {first : TouchListener} {rest : List TouchListener}
    (h : ti.current = first :: rest) : (ti.touchRemoveListener first.listener).2.1.current = rest ∧
      (ti.touchRemoveListener first.listener).2.2 = copies [first] ∧
      (ti.touchRemoveListener first.listener).2.1.numGrabs = ti.numGrabs - (copies [first]).length ∧
      (ti.touchRemoveListener first.listener).2.1.active = ti.active := by
  have hf : ti.current.find? (fun l => l.listener = first.listener) = some first := by
    rw [h, find?_cons_of_pos (by simp)]
  have he : ti.current.eraseP (fun l => l.listener = first.listener) = rest := by
    rw [h, eraseP_cons_of_pos (by simp)]
  rw [touchRemoveListener, hf]
  dsimp only
  cases hg : first.grab with
  | none | some copy => exact ⟨he, by simp [copies, hg], by simp [copies, hg], rfl⟩

theorem removeFirst_spec (rounds i : Nat) (ti : TouchPointInfo) (h : ti.numListeners ≤ rounds + i) :
    (removeFirst rounds i ti).1.current = ti.current.drop (firstHalf (ti.numListeners - i)) ∧
      (removeFirst rounds i ti).2 = copies (ti.current.take (firstHalf (ti.numListeners - i))) := by
  induction rounds generalizing i ti with
  | zero =>
    have hz : firstHalf (ti.numListeners - i) = 0 := by
      rw [firstHalf]
      omega
    rw [hz, drop_zero, take_zero]
    exact ⟨rfl, rfl⟩
  | succ rounds ih =>
    rw [removeFirst]
    cases hc : ti.current with
    | nil => simp [hc, copies]
    | cons first rest =>
      have hn : ti.numListeners = rest.length + 1 := by rw [numListeners, hc, length_cons]
      dsimp only
      split
      · next hi =>
        obtain ⟨hcur, hfreed, _, _⟩ := touchRemoveListener_first hc
        have hn' : (ti.touchRemoveListener first.listener).2.1.numListeners = rest.length := by
          rw [numListeners, hcur]
        obtain ⟨h₁, h₂⟩ := ih (i + 1) (ti.touchRemoveListener first.listener).2.1 (by omega)
        rw [hcur, hn'] at h₁ h₂
        have hhalf : firstHalf (ti.numListeners - i) = firstHalf (rest.length - (i + 1)) + 1 := by
          rw [firstHalf, firstHalf]
          omega
        rw [hhalf, drop_succ_cons, take_succ_cons]
        refine ⟨h₁, ?_⟩
        rw [h₂, hfreed, ← copies_append]
        rfl
      · next hi =>
        have hz : firstHalf (ti.numListeners - i) = 0 := by
          rw [firstHalf]
          omega
        rw [hz, drop_zero, take_zero]
        exact ⟨hc, rfl⟩

theorem touchEndTouch_freed (ti : TouchPointInfo) :
    ti.touchEndTouch.2 = copies (ti.current.take (firstHalf ti.numListeners)) := by
  have h := (removeFirst_spec ti.numListeners 0 ti (le_refl _)).2
  rwa [Nat.sub_zero] at h

theorem removeFirst_nil (rounds i : Nat) (h : ti.listeners = none) :
    removeFirst rounds i ti = (ti, []) := by
  cases rounds with
  | zero => rfl
  | succ rounds =>
    have hc : ti.current = [] := by rw [current, h]; rfl
    rw [removeFirst, hc]

theorem touchFreeTouchPoint_active (h : ti.active = true) :
    ti.touchFreeTouchPoint = ti.touchEndTouch := by
  rw [touchFreeTouchPoint, if_pos h]
  have hnil : removeFirst ti.touchEndTouch.1.numListeners 0 ti.touchEndTouch.1 =
    (ti.touchEndTouch.1, []) := removeFirst_nil _ _ rfl
  dsimp only
  rw [hnil, append_nil]
  rfl

theorem touchFreeTouchPoint_idle (h : ti.active = false) (hl : ti.listeners = none) :
    ti.touchFreeTouchPoint = (ti, []) := by
  rw [touchFreeTouchPoint, if_neg (by simp [h])]
  dsimp only
  rw [removeFirst_nil _ _ hl, append_nil]
  rw [← hl]

end TouchPointInfo

namespace TouchRecord
variable {t : TouchRecord}

structure Sound (t : TouchRecord) (lost : List GrabCopy) : Prop where
  ledger : (copies t.info.current ++ (t.freed ++ lost)).Perm (range t.made)
  order : t.info.current.Sublist t.added
  grabs : t.info.active = true → t.info.numGrabs = (copies t.info.current).length + t.failed
  idle : t.info.active = false → t.info.listeners = none ∧ t.info.numGrabs = 0
  live : t.info.active = true → lost = []

theorem init_sound (initialized : Bool) : Sound { info := touchInitTouchPoint initialized } [] := by
  cases initialized <;> exact ⟨.refl _, .refl _, nofun, fun _ => ⟨rfl, rfl⟩, nofun⟩

variable {lost : List GrabCopy}

theorem begin_sound (h : Sound t lost) (hidle : t.info.active = false)
    (sourceid : Nat) (touchid : BitVec 32) (emulatePointer : Bool) :
    Sound (t.begin sourceid touchid emulatePointer) [] := by
  obtain ⟨hl, hg⟩ := h.idle hidle
  have hcur : (t.begin sourceid touchid emulatePointer).info.current = [] := by
    rw [TouchPointInfo.current, begin, hl]
    rfl
  refine ⟨?_, ?_, fun _ => ?_, nofun, fun _ => rfl⟩
  · rw [hcur]
    exact .refl _
  · rw [hcur]
    exact nil_sublist _
  · rw [hcur]
    exact hg

theorem buildSprite_sound (h : Sound t lost)
    (hactive : t.info.active = true) (hl : t.info.listeners = none) (spriteTraceGood : Nat)
    (traced allocated : Bool) :
    Sound { t with info := t.info.touchBuildSprite spriteTraceGood traced allocated } lost := by
  have hcur : t.info.current = [] := by rw [TouchPointInfo.current, hl]; rfl
  have hbuilt : (t.info.touchBuildSprite spriteTraceGood traced allocated).current = [] ∧
      (t.info.touchBuildSprite spriteTraceGood traced allocated).numGrabs = t.info.numGrabs ∧
      (t.info.touchBuildSprite spriteTraceGood traced allocated).active = true := by
    rw [TouchPointInfo.touchBuildSprite]
    split
    · exact ⟨hcur, rfl, hactive⟩
    split
    · exact ⟨hcur, rfl, hactive⟩
    split <;> exact ⟨rfl, rfl, hactive⟩
  obtain ⟨hnil, hgrabs, hact⟩ := hbuilt
  have hg := h.grabs hactive
  have hledger := h.ledger
  rw [hcur] at hg hledger
  refine ⟨?_, ?_, fun _ => ?_, fun hidle => ?_, fun _ => h.live hactive⟩
  · rw [hnil]
    exact hledger
  · rw [hnil]
    exact nil_sublist _
  · rw [hnil, hgrabs]
    exact hg
  · rw [hact] at hidle
    cases hidle

theorem addListener_sound (h : Sound t lost) {l : TouchListener}
    {grab allocated : Bool} {t' : TouchRecord} (ht : t.addListener l grab allocated = some t') :
    Sound t' lost := by
  rw [addListener, TouchPointInfo.touchAddListener] at ht
  cases hl : t.info.listeners with
  | none =>
    rw [hl] at ht
    cases ht
  | some listeners =>
    rw [hl] at ht
    cases ht
    have hcur : t.info.current = listeners := by rw [TouchPointInfo.current, hl]; rfl
    have hactive : t.info.active = true := by
      cases ha : t.info.active with
      | true => rfl
      | false =>
        rw [(h.idle ha).1] at hl
        cases hl
    have hledger := h.ledger
    have horder := h.order
    have hgrabs := h.grabs hactive
    rw [hcur] at hledger horder hgrabs
    refine ⟨?_, ?_, fun _ => ?_, fun hidle => ?_, fun _ => h.live hactive⟩
    · rw [TouchPointInfo.current, getD_some, copies_append]
      cases grab <;> cases allocated
      · simpa [copies] using hledger
      · simpa [copies] using hledger
      · simpa [copies] using hledger
      · simp only [copies, filterMap_cons, filterMap_nil, Bool.and_self, if_true]
        rw [range_succ, append_assoc]
        refine (perm_middle).trans ?_
        exact (hledger.cons _).trans (perm_append_singleton _ _).symm
    · rw [TouchPointInfo.current, getD_some]
      refine horder.append ?_
      cases grab <;> cases allocated <;> exact .refl _
    · rw [TouchPointInfo.current, getD_some, copies_append]
      cases grab <;> cases allocated
      · simpa [copies] using hgrabs
      · simpa [copies] using hgrabs
      all_goals
        simp only [copies] at hgrabs ⊢
        simp
        omega
    · rw [hactive] at hidle
      cases hidle

theorem removeListener_sound (h : Sound t lost) (resource : XID) :
    Sound (t.removeListener resource) lost := by
  obtain ⟨before, after, removed, hcur, _, hnew, hfreed, hgrabs, hactive, hnull⟩ :=
    t.info.touchRemoveListener_spec resource
  have hledger := h.ledger
  have horder := h.order
  rw [hcur] at hledger horder
  rw [removeListener]
  refine ⟨?_, ?_, fun ha => ?_, fun ha => ?_, fun ha => h.live (hactive ▸ ha)⟩
  · dsimp only
    rw [hnew, hfreed]
    refine List.Perm.trans ?_ hledger
    rw [perm_iff_count]
    intro g
    simp only [copies_append, count_append]
    omega
  · dsimp only
    rw [hnew]
    refine List.Sublist.trans ?_ horder
    exact ((sublist_append_left _ _).append (.refl _))
  · dsimp only at ha ⊢
    rw [hnew, hgrabs, h.grabs (hactive ▸ ha), hcur, copies_append, copies_append, copies_append]
    simp only [length_append]
    omega
  · dsimp only at ha ⊢
    obtain ⟨hl, hg⟩ := h.idle (hactive ▸ ha)
    rw [hnull hl]
    exact ⟨hl, hg⟩

def leftBehind (t : TouchRecord) : List GrabCopy :=
  copies (t.info.current.drop (firstHalf t.info.numListeners))

theorem endTouch_sound (h : Sound t lost) : Sound t.endTouch (lost ++ t.leftBehind) := by
  have hsplit : copies t.info.current =
      copies (t.info.current.take (firstHalf t.info.numListeners)) ++ t.leftBehind := by
    rw [leftBehind, ← copies_append, take_append_drop]
  have hledger := h.ledger
  rw [hsplit] at hledger
  refine ⟨?_, nil_sublist _, nofun, fun _ => ⟨rfl, rfl⟩, nofun⟩
  rw [endTouch]
  dsimp only
  rw [t.info.touchEndTouch_freed]
  refine List.Perm.trans ?_ hledger
  rw [perm_iff_count]
  intro g
  have hnil : copies t.info.touchEndTouch.1.current = [] := rfl
  simp only [hnil, count_append, count_nil]
  omega

theorem freeTouchPoint_eq (h : Sound t lost) :
    t.freeTouchPoint = if t.info.active then t.endTouch else t := by
  cases ha : t.info.active with
  | true =>
    rw [freeTouchPoint, TouchPointInfo.touchFreeTouchPoint_active ha]
    rfl
  | false =>
    rw [freeTouchPoint, TouchPointInfo.touchFreeTouchPoint_idle ha (h.idle ha).1]
    dsimp only
    rw [append_nil]
    rfl

end TouchRecord

end Xfront.Touch
