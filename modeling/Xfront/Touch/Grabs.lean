import Xfront.Touch.Listeners

/-!
# Runs of the touch points of a device

In every run the copies are accounted for. Nothing is lost while every copy is allocated and
no touch ends with a copy in the second half of its listeners.
-/

namespace Xfront.Touch
open List Option Call
open Run (exec Guarded)
open TouchRecord (Sound)

def Call.At : Call → Nat → TouchRecord → TouchRecord → Prop
  | .beginTouch sourceid touchid emulatePointer _ _, _, t, t' =>
    t.info.active = false ∧ t' = t.begin sourceid touchid emulatePointer
  | .buildSprite j spriteTraceGood traced allocated, i, t, t' =>
    j = i ∧ t.info.active = true ∧ t.info.listeners = none ∧
      t' = { t with info := t.info.touchBuildSprite spriteTraceGood traced allocated }
  | .addListener j l grab allocated, i, t, t' => j = i ∧ t.addListener l grab allocated = some t'
  | .removeListener j resource, i, t, t' => j = i ∧ t' = t.removeListener resource
  | .endTouch j, i, t, t' => j = i ∧ t' = t.endTouch
  | .freeTouchPoint j, i, t, t' => j = i ∧ t' = t.freeTouchPoint

variable {touches : List TouchRecord} {i : Nat} {touches' : List TouchRecord} {u : Unit}

theorem atTouch_cases {f : TouchRecord → Option TouchRecord}
    (h : atTouch touches i f = some (touches', u)) :
    ∃ t t', touches[i]? = some t ∧ f t = some t' ∧ ∀ x ∈ touches', x ∈ touches ∨ x = t' := by
  rw [atTouch] at h
  cases ht : touches[i]? with
  | none =>
    rw [ht] at h
    cases h
  | some t =>
    rw [ht] at h
    obtain ⟨t', hf, he⟩ := map_eq_some_iff.mp h
    cases he
    exact ⟨t, t', rfl, hf, fun x hx => mem_or_eq_of_mem_set hx⟩

variable {c : Call}

theorem Call.step_cases (h : c.step touches = some (touches', u)) :
    ∀ x ∈ touches', x ∈ touches ∨ (∃ b, x = { info := touchInitTouchPoint b }) ∨
      (∃ sourceid touchid emulatePointer,
        x = TouchRecord.begin { info := touchInitTouchPoint true } sourceid touchid
          emulatePointer) ∨ ∃ i t, touches[i]? = some t ∧ c.At i t x := by
  cases c with
  | beginTouch sourceid touchid emulatePointer enlarged initialized =>
    cases h
    intro x hx
    rw [touchBeginTouch] at hx
    split at hx
    · exact .inl hx
    split at hx
    · next i hi =>
      obtain ⟨hlt, hidle, _⟩ := findIdx?_eq_some_iff_getElem.mp hi
      have hget := getElem?_eq_getElem hlt
      rw [modify_eq_set_getElem?, hget, Option.map_eq_map, map_some, getD_some] at hx
      rcases mem_or_eq_of_mem_set hx with hx | rfl
      · exact .inl hx
      · exact .inr (.inr (.inr ⟨i, touches[i], hget, by simpa using hidle, rfl⟩))
    · split at hx
      · exact .inl hx
      rcases mem_append.mp hx with hx | hx
      · exact .inl hx
      · rw [mem_singleton.mp hx]
        cases initialized with
        | true => exact .inr (.inr (.inl ⟨sourceid, touchid, emulatePointer, rfl⟩))
        | false => exact .inr (.inl ⟨false, rfl⟩)
  | buildSprite i spriteTraceGood traced allocated =>
    obtain ⟨t, t', ht, hf, hall⟩ := atTouch_cases h
    intro x hx
    rcases hall x hx with hx | rfl
    · exact .inl hx
    split at hf
    · next hguard =>
      cases hf
      exact .inr (.inr (.inr ⟨i, t, ht, rfl, hguard.1, hguard.2, rfl⟩))
    · cases hf
  | addListener i l grab allocated =>
    obtain ⟨t, t', ht, hf, hall⟩ := atTouch_cases h
    intro x hx
    rcases hall x hx with hx | rfl
    · exact .inl hx
    · exact .inr (.inr (.inr ⟨i, t, ht, rfl, hf⟩))
  | removeListener i resource | endTouch i | freeTouchPoint i =>
    obtain ⟨t, t', ht, hf, hall⟩ := atTouch_cases h
    intro x hx
    rcases hall x hx with hx | rfl
    · exact .inl hx
    · exact .inr (.inr (.inr ⟨i, t, ht, rfl, (some.inj hf).symm⟩))

variable {t : TouchRecord} {t' : TouchRecord}

theorem Call.at_sound {lost : List GrabCopy}
    (h : Sound t lost) (hc : c.At i t t') : ∃ lost', Sound t' lost' := by
  cases c with
  | beginTouch sourceid touchid emulatePointer _ _ =>
    obtain ⟨hidle, rfl⟩ := hc
    exact ⟨[], TouchRecord.begin_sound h hidle ..⟩
  | buildSprite j spriteTraceGood traced allocated =>
    obtain ⟨_, hactive, hl, rfl⟩ := hc
    exact ⟨lost, TouchRecord.buildSprite_sound h hactive hl ..⟩
  | addListener j l grab allocated => exact ⟨lost, TouchRecord.addListener_sound h hc.2⟩
  | removeListener j resource =>
    obtain ⟨_, rfl⟩ := hc
    exact ⟨lost, TouchRecord.removeListener_sound h resource⟩
  | endTouch j =>
    obtain ⟨_, rfl⟩ := hc
    exact ⟨_, TouchRecord.endTouch_sound h⟩
  | freeTouchPoint j =>
    obtain ⟨_, rfl⟩ := hc
    rw [TouchRecord.freeTouchPoint_eq h]
    split
    · exact ⟨_, TouchRecord.endTouch_sound h⟩
    · exact ⟨lost, h⟩

/-- A grab that comes with a listener is copied, and a touch that ends has no copy in the
second half of its listeners. -/
def Call.Meets (touches : List TouchRecord) : Call → Prop
  | .addListener _ _ grab allocated => grab = true → allocated = true
  | .endTouch i | .freeTouchPoint i => ∀ t, touches[i]? = some t →
    ∀ l ∈ t.info.current.drop (firstHalf t.info.numListeners), l.grab = none
  | _ => True

def TouchRecord.Clean (t : TouchRecord) : Prop := Sound t [] ∧ t.failed = 0

theorem TouchRecord.endTouch_clean (h : t.Clean)
    (hc : ∀ l ∈ t.info.current.drop (firstHalf t.info.numListeners), l.grab = none) :
    t.endTouch.Clean := by
  have hend := endTouch_sound h.1
  rw [leftBehind, copies_eq_nil.mpr hc] at hend
  exact ⟨hend, h.2⟩

theorem Call.at_clean
    (hm : c.Meets touches) (hi : touches[i]? = some t) (h : t.Clean) (hc : c.At i t t') :
    t'.Clean := by
  cases c with
  | beginTouch sourceid touchid emulatePointer _ _ =>
    obtain ⟨hidle, rfl⟩ := hc
    exact ⟨TouchRecord.begin_sound h.1 hidle .., rfl⟩
  | buildSprite j spriteTraceGood traced allocated =>
    obtain ⟨_, hactive, hl, rfl⟩ := hc
    exact ⟨TouchRecord.buildSprite_sound h.1 hactive hl .., h.2⟩
  | addListener j l grab allocated =>
    refine ⟨TouchRecord.addListener_sound h.1 hc.2, ?_⟩
    obtain ⟨info, _, rfl⟩ := map_eq_some_iff.mp hc.2
    have hno : (grab && !allocated) = false := by
      cases hg : grab with
      | false => rfl
      | true => rw [hm hg]; rfl
    simpa [hno] using h.2
  | removeListener j resource =>
    obtain ⟨_, rfl⟩ := hc
    exact ⟨TouchRecord.removeListener_sound h.1 resource, h.2⟩
  | endTouch j =>
    obtain ⟨rfl, rfl⟩ := hc
    exact TouchRecord.endTouch_clean h (hm t hi)
  | freeTouchPoint j =>
    obtain ⟨rfl, rfl⟩ := hc
    rw [TouchRecord.freeTouchPoint_eq h.1]
    split
    · exact TouchRecord.endTouch_clean h (hm t hi)
    · exact h

variable {n : Nat} {calls : List Call} {outs : List Unit}

theorem run_sound (h : exec step (initTouches n) calls = some (touches, outs)) :
    ∀ t ∈ touches, ∃ lost, Sound t lost := by
  let inv (touches : List TouchRecord) : Prop := ∀ t ∈ touches, ∃ lost, Sound t lost
  refine Run.exec_keeps (show ∀ s c s' u, inv s → True → step s c = some (s', u) → inv s'
    from ?_) ?_ (Run.guarded_true _ _) h
  · intro s c s' u hs _ hstep x hx
    rcases step_cases hstep x hx with hx | ⟨b, rfl⟩ | ⟨_, _, _, rfl⟩ | ⟨i, t, hi, hat⟩
    · exact hs x hx
    · exact ⟨[], TouchRecord.init_sound b⟩
    · exact ⟨[], TouchRecord.begin_sound (TouchRecord.init_sound true) rfl ..⟩
    · obtain ⟨lost, hsound⟩ := hs t (mem_of_getElem? hi)
      exact at_sound hsound hat
  · intro t ht
    rw [eq_of_mem_replicate ht]
    exact ⟨[], TouchRecord.init_sound true⟩

theorem run_clean (hg : Guarded step (fun touches c => c.Meets touches) (initTouches n) calls)
    (h : exec step (initTouches n) calls = some (touches, outs)) : ∀ t ∈ touches, t.Clean := by
  let inv (touches : List TouchRecord) : Prop := ∀ t ∈ touches, t.Clean
  refine Run.exec_keeps (show ∀ s c s' u, inv s → c.Meets s → step s c = some (s', u) → inv s'
    from ?_) ?_ hg h
  · intro s c s' u hs hm hstep x hx
    rcases step_cases hstep x hx with hx | ⟨b, rfl⟩ | ⟨_, _, _, rfl⟩ | ⟨i, t, hi, hat⟩
    · exact hs x hx
    · exact ⟨TouchRecord.init_sound b, rfl⟩
    · exact ⟨TouchRecord.begin_sound (TouchRecord.init_sound true) rfl .., rfl⟩
    · exact at_clean hm hi (hs t (mem_of_getElem? hi)) hat
  · intro t ht
    rw [eq_of_mem_replicate ht]
    exact ⟨TouchRecord.init_sound true, rfl⟩

def TouchRecord.Released (t : TouchRecord) : Prop := ∀ g < t.made, t.freed.count g = 1

theorem count_range {g : Nat} (h : g < n) : (range n).count g = 1 :=
  (nodup_range.count).trans (if_pos (mem_range.mpr h))

namespace TouchRecord
variable {t : TouchRecord} {lost : List GrabCopy}

theorem Sound.freed_once (h : Sound t lost) : t.freed.Nodup ∧ ∀ g ∈ t.freed, g < t.made := by
  have hsub : t.freed.Sublist (copies t.info.current ++ (t.freed ++ lost)) :=
    (sublist_append_left _ _).trans (sublist_append_right _ _)
  refine ⟨(h.ledger.nodup_iff.mpr nodup_range).sublist hsub, fun g hg => ?_⟩
  exact mem_range.mp (h.ledger.mem_iff.mp (hsub.subset hg))

theorem Sound.released_iff (h : Sound t lost) (hidle : t.info.active = false) :
    t.Released ↔ lost = [] := by
  have hcur : copies t.info.current = [] := by
    rw [TouchPointInfo.current, (h.idle hidle).1]
    rfl
  have hledger := h.ledger
  rw [hcur, nil_append] at hledger
  have hcount : ∀ g < t.made, t.freed.count g + lost.count g = 1 := fun g hg => by
    rw [← count_append, hledger.count_eq, count_range hg]
  constructor
  · intro hrel
    rw [eq_nil_iff_forall_not_mem]
    intro g hg
    have hlt : g < t.made := mem_range.mp (hledger.mem_iff.mp (mem_append_right _ hg))
    have hone := hcount g hlt
    have hpos := count_pos_iff.mpr hg
    have hfreed := hrel g hlt
    omega
  · rintro rfl g hg
    have hone := hcount g hg
    rwa [count_nil, add_zero] at hone

theorem Sound.endTouch_released_iff (h : Sound t lost) (hactive : t.info.active = true) :
    t.endTouch.Released ↔
      ∀ l ∈ t.info.current.drop (firstHalf t.info.numListeners), l.grab = none := by
  rw [(endTouch_sound h).released_iff rfl, h.live hactive, nil_append, leftBehind, copies_eq_nil]

theorem Sound.numGrabs_iff (h : Sound t lost) (hactive : t.info.active = true) :
    t.info.numGrabs = (copies t.info.current).length ↔ t.failed = 0 := by
  rw [h.grabs hactive]
  omega

theorem Clean.numGrabs (h : t.Clean) : t.info.numGrabs = (copies t.info.current).length := by
  cases ha : t.info.active with
  | true => exact (h.1.numGrabs_iff ha).mpr h.2
  | false =>
    obtain ⟨hl, hg⟩ := h.1.idle ha
    rw [hg, TouchPointInfo.current, hl]
    rfl

end TouchRecord

def grabListener (resource : Resource.XID) : TouchListener :=
  ⟨resource, 0, .grab, .awaitingBegin, .xi2, 1, none⟩

def grabbedTouch (n : Nat) : List Call :=
  [.beginTouch 2 7 false true true, .buildSprite 0 3 true true] ++
    (range n).map (fun i => .addListener 0 (grabListener (BitVec.ofNat 32 i)) true true) ++ [.endTouch 0]

end Xfront.Touch
