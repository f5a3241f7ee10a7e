import Mathlib

/-!
# The state of the buttons (Xext/xinput/exevents.c)

`UpdateDeviceState` for button events on a slave or a floating device. The buttons that are down,
their number and the mask of the first five logical buttons are kept apart from each other.
-/

namespace Xfront.Buttons
open BitVec Finset

variable {α : Type}

def maxValuators : Nat := 36
def button1Mask : BitVec 16 := 0x100#16
def pointerMotionMask : BitVec 32 := 0x40#32
def deviceButtonMotionMask : BitVec 32 := 0x2000#32

structure ValuatorClass (α : Type) where
  numAxes : Nat
  axisVal : Nat → α
  motionHintWindow : Option Nat

/-- `map` leads from physical buttons to logical ones. -/
structure ButtonClass where
  buttonsDown : BitVec 8
  state : BitVec 16
  motionMask : BitVec 32
  down : BitVec 256
  map : Nat → BitVec 8

/-- `motionFilter` is the mask that `SetMaskForEvent` keeps for motion events of the device. -/
structure Device (α : Type) where
  valuator : Option (ValuatorClass α)
  button : Option ButtonClass
  motionFilter : BitVec 32

/-- A press or a release of the button `key`, with the valuators it reports. -/
structure Event (α : Type) where
  press : Bool
  key : Nat
  mask : Nat → Bool
  data : Nat → α

inductive Processing where
  | default
  | dontProcess
deriving DecidableEq

def buttonIsDown (b : ButtonClass) (key : Nat) : Bool := b.down.getLsbD key

def setButtonDown (b : ButtonClass) (key : Nat) : ButtonClass :=
  { b with down := b.down ||| twoPow 256 key }

def setButtonUp (b : ButtonClass) (key : Nat) : ButtonClass :=
  { b with down := b.down &&& ~~~twoPow 256 key }

def stateBit (logical : BitVec 8) : BitVec 16 := (button1Mask >>> 1) <<< logical.toNat

def increaseButtonCount (b : ButtonClass) (key : Nat) : ButtonClass :=
  { b with
    buttonsDown := b.buttonsDown + 1
    motionMask := deviceButtonMotionMask
    state := if b.map key ≤ 5 then b.state ||| stateBit (b.map key) else b.state }

def decreaseButtonCount (b : ButtonClass) (key : Nat) : ButtonClass :=
  let counts := decide (1 ≤ b.buttonsDown)
  let buttonsDown := if counts then b.buttonsDown - 1 else b.buttonsDown
  { b with
    buttonsDown
    motionMask := if counts && decide (buttonsDown = 0) then 0 else b.motionMask
    state := if b.map key ≤ 5 then b.state &&& ~~~stateBit (b.map key) else b.state }

/-- `UpdateDeviceMotionMask`, with `motionHintWindow` cleared before. -/
def Device.recount (dev : Device α) (b : ButtonClass) : Device α :=
  { valuator := dev.valuator.map fun v => { v with motionHintWindow := none }
    button := some b
    motionFilter := pointerMotionMask ||| b.state.setWidth 32 ||| b.motionMask }

def rejects (dev : Device α) (event : Event α) : Bool :=
  (List.range maxValuators).any fun i =>
    event.mask i && (dev.valuator.all fun v => decide (v.numAxes ≤ i))

def setAxes (v : ValuatorClass α) (event : Event α) : ValuatorClass α :=
  { v with axisVal := fun i =>
      if i < maxValuators ∧ event.mask i then event.data i else v.axisVal i }

def updateDeviceState (dev : Device α) (event : Event α) : Device α × Processing :=
  if rejects dev event then (dev, .dontProcess)
  else
    let dev := { dev with valuator := dev.valuator.map (setAxes · event) }
    match dev.button with
    | none => (dev, .dontProcess)
    | some b =>
      if event.press then
        if buttonIsDown b event.key then (dev, .dontProcess)
        else
          let b := setButtonDown b event.key
          if b.map event.key = 0 then ({ dev with button := some b }, .dontProcess)
          else (dev.recount (increaseButtonCount b event.key), .default)
      else if !buttonIsDown b event.key then (dev, .dontProcess)
      else
        let b := setButtonUp b event.key
        if b.map event.key = 0 then ({ dev with button := some b }, .dontProcess)
        else (dev.recount (decreaseButtonCount b event.key), .default)

def run (dev : Device α) (events : List (Event α)) : Device α :=
  events.foldl (fun dev event => (updateDeviceState dev event).1) dev

def held (b : ButtonClass) : Finset Nat :=
  (Finset.range 256).filter fun k => b.down.getLsbD k = true ∧ b.map k ≠ 0

structure Mirrors (b : ButtonClass) : Prop where
  count : b.buttonsDown.toNat = (held b).card
  state : ∀ l : Fin 5, b.state.getLsbD (8 + l) = true ↔ ∃ k ∈ held b, (b.map k).toNat = l + 1
  motion : b.motionMask = deviceButtonMotionMask ↔ 0 < b.buttonsDown

/-- A release that is processed is not the one of a button whose logical button, one of the first
five, another one that is down is mapped to as well. -/
def Single (dev : Device α) (event : Event α) : Prop :=
  ∀ b, dev.button = some b → rejects dev event = false → event.press = false →
    b.down.getLsbD event.key = true → b.map event.key ≠ 0 → b.map event.key ≤ 5 →
    ∀ k < 256, k ≠ event.key → b.down.getLsbD k = true → b.map k ≠ b.map event.key

def AllSingle : Device α → List (Event α) → Prop
  | _, [] => True
  | dev, event :: events => Single dev event ∧ AllSingle (updateDeviceState dev event).1 events

variable {b : ButtonClass} {key : Nat}

theorem mem_held {k : Nat} : k ∈ held b ↔ k < 256 ∧ b.down.getLsbD k = true ∧ b.map k ≠ 0 := by
  simp [held]

theorem down_setButtonDown (hkey : key < 256) (k : Nat) :
    (setButtonDown b key).down.getLsbD k = (b.down.getLsbD k || decide (key = k)) := by
  simp [setButtonDown, getLsbD_twoPow, hkey]

theorem down_setButtonUp (k : Nat) :
    (setButtonUp b key).down.getLsbD k = (b.down.getLsbD k && !decide (key = k)) := by
  by_cases hk : k < 256
  · simp [setButtonUp, hk, eq_comm]
  · simp [getLsbD_of_ge _ _ (Nat.le_of_not_lt hk)]

theorem held_setButtonDown (hkey : key < 256) (hmap : b.map key ≠ 0) :
    held (setButtonDown b key) = insert key (held b) := by
  ext k
  rw [mem_insert, mem_held, mem_held, down_setButtonDown hkey]
  by_cases h : k = key
  · subst h
    simpa [setButtonDown, hkey] using hmap
  · simp [setButtonDown, h, Ne.symm h]

theorem held_setButtonUp : held (setButtonUp b key) = (held b).erase key := by
  ext k
  rw [mem_erase, mem_held, mem_held, down_setButtonUp]
  by_cases h : k = key
  · simp [h]
  · simp [setButtonUp, h, Ne.symm h]

theorem held_unmapped (hkey : key < 256) (hmap : b.map key = 0) :
    held (setButtonDown b key) = held b ∧ held (setButtonUp b key) = held b := by
  constructor
  · ext k
    rw [mem_held, mem_held, down_setButtonDown hkey]
    by_cases h : k = key
    · simp [setButtonDown, h, hmap]
    · simp [setButtonDown, Ne.symm h]
  · rw [held_setButtonUp]
    exact erase_eq_of_notMem fun h => (mem_held.mp h).2.2 hmap

theorem card_held_le (hzero : b.down.getLsbD 0 = false) : (held b).card ≤ 255 := by
  have hsub : held b ⊆ (range 256).erase 0 := by
    intro k hk
    obtain ⟨hlt, hdown, -⟩ := mem_held.mp hk
    refine mem_erase.mpr ⟨?_, mem_range.mpr hlt⟩
    rintro rfl
    rw [hzero] at hdown
    cases hdown
  have hcard := card_le_card hsub
  rw [card_erase_of_mem (by simp), card_range] at hcard
  exact hcard

theorem stateBit_getLsbD (logical : BitVec 8) (l : Fin 5) :
    (stateBit logical).getLsbD (8 + l) = decide (logical.toNat = l + 1) := by
  have hone : ∀ j < 16, (button1Mask >>> 1).getLsbD j = decide (j = 7) := by decide
  have hl := l.isLt
  rw [stateBit, getLsbD_shiftLeft, decide_eq_true (show 8 + l.val < 16 by omega),
    Bool.true_and, hone _ (by omega)]
  by_cases h : logical.toNat = l + 1
  · rw [h, decide_eq_true rfl, decide_eq_false (by omega), decide_eq_true (by omega)]
    rfl
  · rw [decide_eq_false h]
    by_cases hlt : 8 + l.val < logical.toNat
    · rw [decide_eq_true hlt]
      rfl
    · rw [decide_eq_false (show ¬8 + l.val - logical.toNat = 7 by omega), Bool.and_false]

theorem increase_state (l : Fin 5) : (increaseButtonCount b key).state.getLsbD (8 + l) =
      (b.state.getLsbD (8 + l) || decide ((b.map key).toNat = l + 1)) := by
  rw [increaseButtonCount]
  split
  · rw [getLsbD_or, stateBit_getLsbD]
  · next h =>
    have hmap : 5 < (b.map key).toNat := by simpa [le_def] using h
    rw [decide_eq_false (by omega), Bool.or_false]

theorem decrease_state (l : Fin 5) : (decreaseButtonCount b key).state.getLsbD (8 + l) =
      (b.state.getLsbD (8 + l) && !decide ((b.map key).toNat = l + 1)) := by
  have hl := l.isLt
  rw [decreaseButtonCount]
  dsimp only
  split
  · rw [getLsbD_and, getLsbD_not, stateBit_getLsbD,
      decide_eq_true (show 8 + l.val < 16 by omega), Bool.true_and]
  · next h =>
    have hmap : 5 < (b.map key).toNat := by simpa [le_def] using h
    rw [decide_eq_false (by omega), Bool.not_false, Bool.and_true]

def Real (b : ButtonClass) : Prop := b.down.getLsbD 0 = false

theorem mirrors_congr {b' : ButtonClass} (h : Mirrors b) (hheld : held b' = held b)
    (hmap : b'.map = b.map) (hcount : b'.buttonsDown = b.buttonsDown) (hstate : b'.state = b.state)
    (hmotion : b'.motionMask = b.motionMask) : Mirrors b' := by
  obtain ⟨hc, hs, hm⟩ := h
  refine ⟨?_, fun l => ?_, ?_⟩
  · rw [hcount, hheld, hc]
  · rw [hstate, hheld, hmap]
    exact hs l
  · rw [hmotion, hcount, hm]

theorem mirrors_press (h : Mirrors b) (hreal : Real b) (hkey : 1 ≤ key ∧ key < 256)
    (hup : b.down.getLsbD key = false) (hmap : b.map key ≠ 0) :
    Mirrors (increaseButtonCount (setButtonDown b key) key) := by
  have hnot : key ∉ held b := fun hk => by
    rw [(mem_held.mp hk).2.1] at hup
    cases hup
  have hheld : held (increaseButtonCount (setButtonDown b key) key) = insert key (held b) :=
    held_setButtonDown hkey.2 hmap
  have hroom : (insert key (held b)).card ≤ 255 := by
    rw [← held_setButtonDown hkey.2 hmap]
    apply card_held_le
    rw [down_setButtonDown hkey.2, hreal, decide_eq_false (by omega)]
    rfl
  have hcard := card_insert_of_notMem hnot
  have hcount : (b.buttonsDown + 1).toNat = (held b).card + 1 := by
    rw [toNat_add, h.count]
    change ((held b).card + 1) % 256 = _
    omega
  refine ⟨?_, fun l => ?_, ?_⟩
  · rw [hheld, hcard]
    exact hcount
  · rw [increase_state, hheld, Bool.or_eq_true, decide_eq_true_eq]
    have hs := h.state l
    simp only [mem_insert]
    constructor
    · rintro (hbit | hbit)
      · obtain ⟨k, hk, hl⟩ := hs.mp hbit
        exact ⟨k, .inr hk, hl⟩
      · exact ⟨key, .inl rfl, hbit⟩
    · rintro ⟨k, rfl | hk, hl⟩
      · exact .inr hl
      · exact .inl (hs.mpr ⟨k, hk, hl⟩)
  · refine iff_of_true rfl ?_
    rw [lt_def]
    change 0 < (b.buttonsDown + 1).toNat
    omega

theorem mirrors_release_iff (h : Mirrors b) (hkey : key < 256)
    (hdown : b.down.getLsbD key = true) (hmap : b.map key ≠ 0) :
    Mirrors (decreaseButtonCount (setButtonUp b key) key) ↔
      (b.map key ≤ 5 → ∀ k < 256, k ≠ key → b.down.getLsbD k = true → b.map k ≠ b.map key) := by
  have hin : key ∈ held b := mem_held.mpr ⟨hkey, hdown, hmap⟩
  have hheld : held (decreaseButtonCount (setButtonUp b key) key) = (held b).erase key :=
    held_setButtonUp
  have hcard := card_erase_of_mem hin
  have hpos : 0 < (held b).card := card_pos.mpr ⟨key, hin⟩
  have hcounts : 1 ≤ b.buttonsDown := by
    rw [le_def, h.count]
    exact hpos
  have hcount : (b.buttonsDown - 1).toNat = (held b).card - 1 := by
    rw [toNat_sub_of_le hcounts, h.count]
    rfl
  have hbuttons : (decreaseButtonCount (setButtonUp b key) key).buttonsDown = b.buttonsDown - 1 :=
    if_pos (decide_eq_true hcounts)
  have hmask : (decreaseButtonCount (setButtonUp b key) key).motionMask =
      if b.buttonsDown - 1 = 0 then 0 else b.motionMask := by
    have hc : decide (1 ≤ b.buttonsDown) = true := decide_eq_true hcounts
    change (if (decide (1 ≤ b.buttonsDown) && decide ((if decide (1 ≤ b.buttonsDown) = true then
      b.buttonsDown - 1 else b.buttonsDown) = 0)) = true then 0 else b.motionMask) = _
    rw [hc, if_pos rfl, Bool.true_and]
    simp only [decide_eq_true_eq]
  have hwas : b.motionMask = deviceButtonMotionMask :=
    h.motion.mpr (by rw [lt_def, h.count]; exact hpos)
  constructor
  · intro hm hle k hk hne hkdown heq
    have hlt : (b.map key).toNat - 1 < 5 := by
      have hle' : (b.map key).toNat ≤ 5 := hle
      omega
    have hpos' : 0 < (b.map key).toNat := by
      rw [Nat.pos_iff_ne_zero]
      exact fun he => hmap (eq_of_toNat_eq he)
    -- the button that is still down has the bit that was cleared
    have hbit := (hm.state ⟨(b.map key).toNat - 1, hlt⟩).mpr ⟨k, by
      rw [hheld]
      exact mem_erase.mpr ⟨hne, mem_held.mpr ⟨hk, hkdown, heq ▸ hmap⟩⟩, by
      change (b.map k).toNat = (b.map key).toNat - 1 + 1
      rw [heq]
      omega⟩
    rw [decrease_state] at hbit
    have hself : decide (((setButtonUp b key).map key).toNat = (b.map key).toNat - 1 + 1) = true :=
      decide_eq_true (show (b.map key).toNat = _ by omega)
    rw [hself, Bool.not_true, Bool.and_false] at hbit
    cases hbit
  · intro halone
    refine ⟨?_, fun l => ?_, ?_⟩
    · rw [hheld, hcard, hbuttons, hcount]
    · rw [decrease_state, hheld, Bool.and_eq_true, Bool.not_eq_true', decide_eq_false_iff_not]
      have hs := h.state l
      have hl := l.isLt
      constructor
      · rintro ⟨hbit, hne⟩
        obtain ⟨k, hk, hmapk⟩ := hs.mp hbit
        refine ⟨k, mem_erase.mpr ⟨?_, hk⟩, hmapk⟩
        rintro rfl
        exact hne hmapk
      · rintro ⟨k, hk, hmapk⟩
        obtain ⟨hne, hk⟩ := mem_erase.mp hk
        refine ⟨hs.mpr ⟨k, hk, hmapk⟩, fun hself => ?_⟩
        obtain ⟨hlt, hkdown, -⟩ := mem_held.mp hk
        have hself : (b.map key).toNat = l + 1 := hself
        refine halone ?_ k hlt hne hkdown (eq_of_toNat_eq ?_)
        · rw [le_def, hself]
          change l.val + 1 ≤ 5
          omega
        · rw [hself]
          exact hmapk
    · rw [hmask, hbuttons]
      by_cases hlast : b.buttonsDown - 1 = 0
      · rw [if_pos hlast, hlast]
        decide
      · rw [if_neg hlast]
        refine iff_of_true hwas ?_
        rw [lt_def]
        exact Nat.pos_of_ne_zero fun he => hlast (eq_of_toNat_eq he)

def Device.Mirrored (dev : Device α) : Prop := ∀ b, dev.button = some b → Mirrors b

def Device.Real (dev : Device α) : Prop := ∀ b, dev.button = some b → Buttons.Real b

variable {dev : Device α}

theorem real_update {event : Event α} (hreal : dev.Real)
    (hkey : 1 ≤ event.key ∧ event.key < 256) : (updateDeviceState dev event).1.Real := by
  have hother : decide (event.key = 0) = false := decide_eq_false (by omega)
  intro b' hb'
  rw [updateDeviceState] at hb'
  split at hb'
  · exact hreal b' hb'
  · cases hb : dev.button with
    | none => simp [hb] at hb'
    | some b =>
      have hold : b.down.getLsbD 0 = false := hreal b hb
      have hset : (setButtonDown b event.key).down.getLsbD 0 = false := by
        rw [down_setButtonDown hkey.2, hold, hother]
        rfl
      have hclear : (setButtonUp b event.key).down.getLsbD 0 = false := by
        rw [down_setButtonUp, hold]
        rfl
      simp only [hb] at hb'
      split at hb' <;> split at hb'
      · cases hb'
        exact hold
      · split at hb' <;> cases hb' <;> exact hset
      · cases hb'
        exact hold
      · split at hb' <;> cases hb' <;> exact hclear

theorem mirrored_update_iff {event : Event α} (h : dev.Mirrored) (hreal : dev.Real)
    (hkey : 1 ≤ event.key ∧ event.key < 256) :
    (updateDeviceState dev event).1.Mirrored ↔ Single dev event := by
  rw [updateDeviceState]
  cases hrejects : rejects dev event with
  | true =>
    rw [if_pos rfl]
    exact iff_of_true h fun b _ hno => nomatch hrejects.symm.trans hno
  | false =>
    rw [if_neg Bool.false_ne_true]
    cases hb : dev.button with
    | none => exact iff_of_true (fun b hb' => by simp at hb') fun b hb' => by simp [hb] at hb'
    | some b =>
      have hm := h b hb
      have hr := hreal b hb
      have hnew : ∀ {b' : ButtonClass} {dev' : Device α}, dev'.button = some b' →
          (dev'.Mirrored ↔ Mirrors b') := fun hb' =>
        ⟨fun hall => hall _ hb', fun hb'' b'' he => Option.some.inj (hb'.symm.trans he) ▸ hb''⟩
      have hsingle : Single dev event ↔ (event.press = false → b.down.getLsbD event.key = true →
          b.map event.key ≠ 0 → b.map event.key ≤ 5 →
          ∀ k < 256, k ≠ event.key → b.down.getLsbD k = true → b.map k ≠ b.map event.key) :=
        ⟨fun hs => hs b hb hrejects, fun hs b' hb' _ => Option.some.inj (hb.symm.trans hb') ▸ hs⟩
      rw [hsingle]
      have hunmapped := @held_unmapped b event.key hkey.2
      simp only [buttonIsDown]
      cases hpress : event.press with
      | true =>
        rw [if_pos rfl]
        refine iff_of_true ?_ fun hno => nomatch hno
        cases hdown : b.down.getLsbD event.key with
        | true => exact (hnew rfl).mpr hm
        | false =>
          rw [if_neg Bool.false_ne_true]
          split
          · next hmap =>
            exact (hnew rfl).mpr (mirrors_congr hm (hunmapped hmap).1 rfl rfl rfl rfl)
          · next hmap => exact (hnew rfl).mpr (mirrors_press hm hr hkey hdown hmap)
      | false =>
        rw [if_neg Bool.false_ne_true]
        cases hdown : b.down.getLsbD event.key with
        | false => exact iff_of_true ((hnew rfl).mpr hm) fun _ hno => nomatch hno
        | true =>
          rw [Bool.not_true, if_neg Bool.false_ne_true]
          split
          · next hmap =>
            refine iff_of_true ?_ fun _ _ hno => absurd hmap hno
            exact (hnew rfl).mpr (mirrors_congr hm (hunmapped hmap).2 rfl rfl rfl rfl)
          · next hmap =>
            refine (hnew rfl).trans ((mirrors_release_iff hm hkey.2 hdown hmap).trans ?_)
            exact ⟨fun hs _ _ _ => hs, fun hs => hs rfl rfl hmap⟩

theorem run_mirrored_iff (h : dev.Mirrored) (hreal : dev.Real)
    (events : List (Event α)) (hkeys : ∀ event ∈ events, 1 ≤ event.key ∧ event.key < 256) :
    (∀ n, (run dev (events.take n)).Mirrored) ↔ AllSingle dev events := by
  induction events generalizing dev with
  | nil => exact iff_of_true (fun n => by rw [List.take_nil]; exact h) trivial
  | cons event events ih =>
    rw [List.forall_mem_cons] at hkeys
    have hstep := mirrored_update_iff h hreal hkeys.1
    have hreal' := real_update hreal hkeys.1
    rw [AllSingle]
    constructor
    · intro hall
      have hfirst := hall 1
      have hmirrored : (updateDeviceState dev event).1.Mirrored := by simpa [run] using hfirst
      exact ⟨hstep.mp hmirrored, (ih hmirrored hreal' hkeys.2).mp fun n => hall (n + 1)⟩
    · rintro ⟨hsingle, hrest⟩ n
      cases n with
      | zero => exact h
      | succ n => exact (ih (hstep.mpr hsingle) hreal' hkeys.2).mpr hrest n

def initButtonClass (map : Nat → BitVec 8) : ButtonClass := ⟨0, 0, 0, 0, map⟩

theorem mirrors_init (map : Nat → BitVec 8) : Mirrors (initButtonClass map) := by
  have hheld : held (initButtonClass map) = ∅ := by
    ext k
    simp [mem_held, initButtonClass]
  have hmotion : (0 : BitVec 32) = deviceButtonMotionMask ↔ (0 : BitVec 8) < 0 := by decide
  refine ⟨?_, fun l => ?_, hmotion⟩
  · rw [hheld]
    rfl
  · rw [hheld]
    simp [initButtonClass]

theorem updateDeviceState_mirrored (dev : Device α) (map : Nat → BitVec 8)
    (hnew : dev.button = some (initButtonClass map)) (events : List (Event α))
    (hkeys : ∀ event ∈ events, 1 ≤ event.key ∧ event.key < 256) :
    (∀ n, (run dev (events.take n)).Mirrored) ↔ AllSingle dev events := by
  refine run_mirrored_iff ?_ ?_ events hkeys
  · intro b hb
    rw [← Option.some.inj (hnew.symm.trans hb)]
    exact mirrors_init map
  · intro b hb
    rw [← Option.some.inj (hnew.symm.trans hb)]
    exact getLsbD_zero

/-- A device without valuators, all of whose buttons are mapped to the first one. -/
def mouse : Device Unit := ⟨none, some (initButtonClass fun _ => 1), 0⟩

def pressOf (key : Nat) : Event Unit := ⟨true, key, fun _ => false, fun _ => ()⟩

def releaseOf (key : Nat) : Event Unit := ⟨false, key, fun _ => false, fun _ => ()⟩

theorem updateDeviceState_mirrored_mouse :
    (∀ n, (run mouse ([pressOf 1, releaseOf 1].take n)).Mirrored) ↔
      AllSingle mouse [pressOf 1, releaseOf 1] :=
  updateDeviceState_mirrored mouse (fun _ => 1) rfl [pressOf 1, releaseOf 1] (by decide)

theorem mouse_not_mirrored : ¬(run mouse [pressOf 1, pressOf 2, releaseOf 1]).Mirrored := by
  intro h
  obtain ⟨b, hb, hbit, hdown, hmap⟩ : ∃ b, (run mouse [pressOf 1, pressOf 2, releaseOf 1]).button =
      some b ∧ b.state.getLsbD (8 + (0 : Fin 5)) = false ∧ b.down.getLsbD 2 = true ∧
      b.map 2 = 1 := ⟨_, rfl, by decide, by decide, rfl⟩
  have hstate := ((h b hb).state 0).mpr
    ⟨2, mem_held.mpr ⟨by decide, hdown, by rw [hmap]; decide⟩, by rw [hmap]; rfl⟩
  rw [hbit] at hstate
  cases hstate

end Xfront.Buttons
