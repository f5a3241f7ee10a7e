import Mathlib

/-!
# The values of the axes in chains of events (dix/eventconvert.c, dix/enterleave.c)

The events of XI 1 hold 32 bytes. The values of the axes of a device follow its event in
`DeviceValuator` events, six to an event; the state of a device is sent in such a chain too.
-/

namespace Xfront.Valuators

open List

variable {α β : Type} {first n i num : Nat}

def maxValuators : Nat := 36
def moreEvents : BitVec 8 := 0x80#8

/-- `deviceState` is `none` where the code leaves it as it was. -/
structure DeviceValuator where
  deviceid : BitVec 8
  deviceState : Option (BitVec 16)
  numValuators : Nat
  firstValuator : Nat
  valuators : List (BitVec 32)

def DeviceValuator.axes (e : DeviceValuator) : List (Nat × BitVec 32) :=
  (range' e.firstValuator e.numValuators).zip e.valuators

def hasMore (deviceid : BitVec 8) : Bool := deviceid.getLsbD 7

theorem hasMore_or (deviceid : BitVec 8) : hasMore (deviceid ||| moreEvents) = true := by
  rw [hasMore, BitVec.getLsbD_or, show moreEvents.getLsbD 7 = true by decide, Bool.or_true]

theorem hasMore_false {deviceid : BitVec 8} (h : deviceid.toNat < 128) :
    hasMore deviceid = false := by
  rw [hasMore, ← BitVec.testBit_toNat]
  exact Nat.testBit_lt_two_pow h

theorem hasMore_iff (deviceid : BitVec 8) : hasMore deviceid = false ↔ deviceid.toNat < 128 := by
  refine ⟨fun h => ?_, hasMore_false⟩
  rw [hasMore, ← BitVec.testBit_toNat] at h
  by_contra hle
  have hdiv : deviceid.toNat / 2 ^ 7 = 1 := by omega
  rw [Nat.testBit_eq_decide_div_mod_eq, hdiv] at h
  exact absurd h (by decide)

/-- The axes `first .. first + n` with their values. -/
def valuesFrom (value : Nat → BitVec 32) (first n : Nat) : List (Nat × BitVec 32) :=
  (range' first n).map fun a => (a, value a)

theorem valuesFrom_append (value : Nat → BitVec 32) (first m n : Nat) :
    valuesFrom value first m ++ valuesFrom value (first + m) n =
      valuesFrom value first (m + n) := by
  rw [valuesFrom, valuesFrom, ← map_append, range'_append_1, valuesFrom]

theorem axes_eq {e : DeviceValuator} (value : Nat → BitVec 32)
    (h : e.valuators = (range e.numValuators).map fun j => value (e.firstValuator + j)) :
    e.axes = valuesFrom value e.firstValuator e.numValuators := by
  have hvalues : e.valuators = (range' e.firstValuator e.numValuators).map value := by
    rw [h, range'_eq_map_range, map_map]
    rfl
  calc
    e.axes = ((range' e.firstValuator e.numValuators).map id).zip
        ((range' e.firstValuator e.numValuators).map value) := by
      rw [map_id, ← hvalues, DeviceValuator.axes]
    _ = valuesFrom value e.firstValuator e.numValuators := zip_map' ..

/-- All events but the last one have `MORE_EVENTS` set. -/
def Chained (more : β → Bool) (l : List β) : Prop :=
  ∀ j e, l[j]? = some e → (more e = true ↔ j + 1 < l.length)

theorem chained_nil (more : β → Bool) : Chained more [] := fun _ _ h => nomatch h

theorem chained_cons {more : β → Bool} {e : β} {l : List β} (he : more e = true ↔ l ≠ [])
    (hl : Chained more l) : Chained more (e :: l) := by
  intro j x hx
  cases j with
  | zero =>
    rw [getElem?_cons_zero] at hx
    cases hx
    rw [he, length_cons, ← length_pos_iff]
    omega
  | succ j =>
    rw [getElem?_cons_succ] at hx
    rw [hl j x hx, length_cons]
    omega

inductive EventType where
  | motion
  | buttonPress
  | buttonRelease
  | keyPress
  | keyRelease
  | proximityIn
  | proximityOut
  | other
deriving DecidableEq

inductive XiType where
  | unset
  | deviceMotionNotify
  | deviceButtonPress
  | deviceButtonRelease
  | deviceKeyPress
  | deviceKeyRelease
  | proximityIn
  | proximityOut

structure DeviceEvent (α : Type) where
  type : EventType
  time : BitVec 32
  deviceid : Nat
  detail : BitVec 32
  root : BitVec 32
  rootX : BitVec 16
  rootY : BitVec 16
  corestate : BitVec 32
  keyRepeat : Bool
  mask : BitVec 40
  data : Nat → α

structure DeviceKeyButtonPointer where
  type : XiType
  detail : BitVec 8
  sequenceNumber : BitVec 16
  time : BitVec 32
  root : BitVec 32
  rootX : BitVec 16
  rootY : BitVec 16
  state : BitVec 16
  deviceid : BitVec 8

inductive XEvent where
  | keyButtonPointer (e : DeviceKeyButtonPointer)
  | valuator (e : DeviceValuator)

open XEvent

def XEvent.more : XEvent → Bool
  | .keyButtonPointer e => hasMore e.deviceid
  | .valuator e => hasMore e.deviceid

def XEvent.axes : XEvent → List (Nat × BitVec 32)
  | .keyButtonPointer _ => []
  | .valuator e => e.axes

/-- The state field of the keyboard and the state of the buttons of a device, if it has them. -/
structure InputDevice where
  key : Option (BitVec 16)
  button : Option (BitVec 16)

inductive Status where
  | success
  | badMatch
  | badImplementation
deriving DecidableEq

/-- `xi` are the events that were written, `count` is their number for the caller. -/
structure Conversion where
  status : Status
  count : Nat
  xi : List XEvent

def scanValuators (mask : BitVec 40) : Nat → Option (Nat × Nat)
  | 0 => none
  | i + 1 =>
    if mask.getLsbD i then some (((scanValuators mask i).elim i (·.1)), i)
    else scanValuators mask i

/-- The first valuator and the number of valuators; without one `first` is not set. -/
def countValuators (mask : BitVec 40) : Option (Nat × Nat) :=
  (scanValuators mask 40).map fun p => (p.1, p.2 - p.1 + 1)

/-- The next event goes behind the ones that are written; `none` is a write past the end. -/
def write (size : Nat) (written : List β) (e : β) : Option (List β) :=
  if written.length < size then some (written ++ [e]) else none

def stateOf (lookup : Nat → Option InputDevice) (deviceid : Nat) : BitVec 16 :=
  match lookup deviceid with
  | none => 0
  | some dev => dev.key.getD 0 ||| dev.button.getD 0

variable (toInt32 : α → BitVec 32) (lookup : Nat → Option InputDevice) (ev : DeviceEvent α)

def valuatorEvent (first num i : Nat) : DeviceValuator :=
  let numValuators := if num - i > 6 then 6 else num - i
  let deviceid := BitVec.ofNat 8 ev.deviceid
  { deviceid := if i + 6 < num then deviceid ||| moreEvents else deviceid
    deviceState := some (stateOf lookup ev.deviceid)
    numValuators
    firstValuator := first + i
    valuators := (range numValuators).map fun j => toInt32 (ev.data (first + i + j)) }

def getValuatorEvents (size first num i : Nat) (written : List XEvent) : Option (List XEvent) :=
  if i < num then do
    let written ← write size written (.valuator (valuatorEvent toInt32 lookup ev first num i))
    getValuatorEvents size first num (i + 6) written
  else some written
termination_by num - i

def xiType : EventType → XiType
  | .motion => .deviceMotionNotify
  | .buttonPress => .deviceButtonPress
  | .buttonRelease => .deviceButtonRelease
  | .keyPress => .deviceKeyPress
  | .keyRelease => .deviceKeyRelease
  | .proximityIn => .proximityIn
  | .proximityOut => .proximityOut
  | .other => .unset

def keyButtonPointer (numEvents : Nat) : DeviceKeyButtonPointer :=
  let deviceid := BitVec.ofNat 8 ev.deviceid
  { type := xiType ev.type
    detail := ev.detail.setWidth 8
    sequenceNumber := if ev.type = .keyPress ∧ ev.keyRepeat then 1 else 0
    time := ev.time
    root := ev.root
    rootX := ev.rootX
    rootY := ev.rootY
    state := ev.corestate.setWidth 16
    deviceid := if numEvents > 1 then deviceid ||| moreEvents else deviceid }

def withoutValuators : EventType → Option Status
  | .keyPress | .keyRelease | .buttonPress | .buttonRelease => none
  | .motion | .proximityIn | .proximityOut => some .badMatch
  | .other => some .badImplementation

def writeEvents (first num : Nat) : Option Conversion := do
  let numEvents := (num + 5) / 6 + 1
  let written ← write numEvents [] (XEvent.keyButtonPointer (keyButtonPointer ev numEvents))
  let xi ← if numEvents > 1 then getValuatorEvents toInt32 lookup ev numEvents first num 0 written
    else some written
  some ⟨.success, numEvents, xi⟩

def eventToKeyButtonPointer : Option Conversion :=
  if ev.detail.toNat > 0xFF ∨ ev.deviceid ≥ 0x80 then some ⟨.success, 0, []⟩
  else match countValuators ev.mask with
    | none => match withoutValuators ev.type with
      | some status => some ⟨status, 0, []⟩
      | none => writeEvents toInt32 lookup ev 0 0
    | some (first, num) => writeEvents toInt32 lookup ev first num

/-- The valuators of the mask lie in `first .. first + n`, and the ends of this range do. -/
def Spans (mask : BitVec 40) (first n : Nat) : Prop :=
  (∀ i, mask.getLsbD i = true → first ≤ i ∧ i < first + n) ∧
    (0 < n → mask.getLsbD first = true ∧ mask.getLsbD (first + n - 1) = true)

variable {mask : BitVec 40}

theorem scanValuators_none {k : Nat} (h : scanValuators mask k = none) :
    ∀ i < k, mask.getLsbD i = false := by
  induction k with
  | zero => exact fun i hi => absurd hi (Nat.not_lt_zero i)
  | succ k ih =>
    rw [scanValuators] at h
    split at h
    · cases h
    next hk =>
      intro i hi
      rcases Nat.lt_succ_iff_lt_or_eq.mp hi with hi | rfl
      · exact ih h i hi
      · exact Bool.eq_false_iff.mpr hk

theorem scanValuators_some {k f l : Nat} (h : scanValuators mask k = some (f, l)) :
    mask.getLsbD f = true ∧ mask.getLsbD l = true ∧ l < k ∧
      ∀ i < k, mask.getLsbD i = true → f ≤ i ∧ i ≤ l := by
  induction k generalizing f l with
  | zero => cases h
  | succ k ih =>
    rw [scanValuators] at h
    split at h
    next hk =>
      cases h
      cases hs : scanValuators mask k with
      | none =>
        refine ⟨hk, hk, Nat.lt_succ_self _, fun i hi hbit => ?_⟩
        rcases Nat.lt_succ_iff_lt_or_eq.mp hi with hi | rfl
        · rw [scanValuators_none hs i hi] at hbit
          cases hbit
        · exact ⟨le_refl i, le_refl i⟩
      | some p =>
        obtain ⟨hf, hl, hlt, hall⟩ := ih (f := p.1) (l := p.2) hs
        refine ⟨hf, hk, Nat.lt_succ_self _, fun i hi hbit => ?_⟩
        rcases Nat.lt_succ_iff_lt_or_eq.mp hi with hi | rfl
        · exact ⟨(hall i hi hbit).1, le_of_lt hi⟩
        · exact ⟨le_of_lt (lt_of_le_of_lt (hall p.2 hlt hl).1 hlt), le_refl i⟩
    next hk =>
      obtain ⟨hf, hl, hlt, hall⟩ := ih h
      refine ⟨hf, hl, Nat.lt_succ_of_lt hlt, fun i hi hbit => ?_⟩
      rcases Nat.lt_succ_iff_lt_or_eq.mp hi with hi | rfl
      · exact hall i hi hbit
      · exact absurd hbit hk

theorem countValuators_spans (h : Spans mask first n) :
    countValuators mask = if n = 0 then none else some (first, n) := by
  have hbit : ∀ i, mask.getLsbD i = true → i < 40 := fun i => BitVec.lt_of_getLsbD
  rw [countValuators]
  cases hs : scanValuators mask 40 with
  | none =>
    by_cases hn : n = 0
    · rw [if_pos hn]
      rfl
    · have hfirst := (h.2 (by omega)).1
      rw [scanValuators_none hs first (hbit first hfirst)] at hfirst
      cases hfirst
  | some p =>
    obtain ⟨hf, hl, hlt, hall⟩ := scanValuators_some (f := p.1) (l := p.2) hs
    have hp := h.1 p.1 hf
    have hp' := h.1 p.2 hl
    obtain ⟨hfirst, hlast⟩ := h.2 (by omega)
    have hlo := hall first (hbit _ hfirst) hfirst
    have hhi := hall (first + n - 1) (hbit _ hlast) hlast
    rw [if_neg (by omega), Option.map_some, show p.1 = first by omega,
      show p.2 - first + 1 = n by omega]

section

variable {toInt32 : α → BitVec 32} {lookup : Nat → Option InputDevice} {ev : DeviceEvent α}

def DeviceEvent.value (toInt32 : α → BitVec 32) (ev : DeviceEvent α) (axis : Nat) : BitVec 32 :=
  toInt32 (ev.data axis)

theorem write_eq {size : Nat} {written : List β} (h : written.length < size) (e : β) :
    write size written e = some (written ++ [e]) := if_pos h

theorem valuatorEvent_axes (first num i : Nat) :
    (valuatorEvent toInt32 lookup ev first num i).axes =
      valuesFrom (ev.value toInt32) (first + i) (min (num - i) 6) := by
  have hnum : (valuatorEvent toInt32 lookup ev first num i).numValuators = min (num - i) 6 := by
    show (if num - i > 6 then 6 else num - i) = min (num - i) 6
    split <;> omega
  rw [axes_eq (ev.value toInt32) rfl, hnum]
  rfl

theorem toNat_deviceid (h : ev.deviceid < 128) : (BitVec.ofNat 8 ev.deviceid).toNat < 128 := by
  rw [BitVec.toNat_ofNat, Nat.mod_eq_of_lt (by omega)]
  exact h

theorem valuatorEvent_more (h : ev.deviceid < 128) (first num i : Nat) :
    hasMore (valuatorEvent toInt32 lookup ev first num i).deviceid = true ↔ i + 6 < num := by
  rw [valuatorEvent]
  split
  next hlt => exact iff_of_true (hasMore_or _) hlt
  next hle =>
    rw [hasMore_false (toNat_deviceid h)]
    exact iff_of_false Bool.false_ne_true hle

/-- The events of a chain carry the axes `first .. first + n`. -/
structure Carries (value : Nat → BitVec 32) (first n : Nat) (es : List XEvent) : Prop where
  length : es.length = (n + 5) / 6
  axes : es.flatMap axes = valuesFrom value first n
  more : Chained more es

theorem getValuatorEvents_carries (hid : ev.deviceid < 128) (first num : Nat) {size : Nat} (i : Nat)
    (written : List XEvent) (hsize : written.length + (num - i + 5) / 6 ≤ size) :
    ∃ es, getValuatorEvents toInt32 lookup ev size first num i written = some (written ++ es) ∧
      Carries (ev.value toInt32) (first + i) (num - i) es := by
  induction hrest : num - i using Nat.strongRecOn generalizing i written with
  | _ rest ih =>
    rw [getValuatorEvents]
    by_cases hi : i < num
    · -- One event takes up to six axes, the ones behind it the others.
      have hwrite := @write_eq XEvent size written (by omega)
        (valuator (valuatorEvent toInt32 lookup ev first num i))
      obtain ⟨es, hes, hcarries⟩ := ih (num - (i + 6)) (by omega) (i + 6)
        (written ++ [.valuator (valuatorEvent toInt32 lookup ev first num i)])
        (by rw [length_append, length_singleton]; omega) rfl
      have hlength := hcarries.length
      refine ⟨.valuator (valuatorEvent toInt32 lookup ev first num i) :: es, ?_, ?_, ?_, ?_⟩
      · rw [if_pos hi, hwrite, Option.bind_eq_bind, Option.bind_some, hes, append_assoc,
          singleton_append]
      · rw [length_cons]
        omega
      · rw [flatMap_cons, hcarries.axes, axes, valuatorEvent_axes]
        by_cases hlast : num - i ≤ 6
        · rw [min_eq_left hlast, show num - (i + 6) = 0 by omega, hrest]
          exact append_nil _
        · rw [min_eq_right (by omega), ← add_assoc, valuesFrom_append,
            show 6 + (num - (i + 6)) = rest by omega]
      · refine chained_cons ?_ hcarries.more
        rw [more, valuatorEvent_more hid, ← length_pos_iff]
        omega
    · rw [if_neg hi]
      have hnil : rest = 0 := by omega
      subst hnil
      exact ⟨[], by rw [append_nil], rfl, rfl, chained_nil _⟩

/-- The chain of a device event with `n` axes from `first` on. -/
structure Conversion.Chain (value : Nat → BitVec 32) (first n : Nat) (c : Conversion) : Prop where
  status : c.status = .success
  count : c.count = 1 + (n + 5) / 6
  written : c.xi.length = c.count
  more : Chained more c.xi
  axes : c.xi.flatMap axes = valuesFrom value first n

theorem writeEvents_chain (hid : ev.deviceid < 128) (first num : Nat) :
    ∃ c, writeEvents toInt32 lookup ev first num = some c ∧
      c.Chain (ev.value toInt32) first num := by
  obtain ⟨es, hes, hcarries⟩ := @getValuatorEvents_carries α toInt32 lookup ev hid first num
    ((num + 5) / 6 + 1) 0
    [.keyButtonPointer (keyButtonPointer ev ((num + 5) / 6 + 1))]
    (by rw [length_singleton]; omega)
  have hlength := hcarries.length
  have hmore : hasMore (keyButtonPointer ev ((num + 5) / 6 + 1)).deviceid = true ↔
      (num + 5) / 6 + 1 > 1 := by
    rw [keyButtonPointer]
    dsimp only
    split
    next hlt => exact iff_of_true (hasMore_or _) hlt
    next hle =>
      rw [hasMore_false (toNat_deviceid hid)]
      exact iff_of_false Bool.false_ne_true hle
  have hwrites : writeEvents toInt32 lookup ev first num = some ⟨.success, (num + 5) / 6 + 1,
      .keyButtonPointer (keyButtonPointer ev ((num + 5) / 6 + 1)) :: es⟩ := by
    rw [writeEvents]
    rw [write_eq (Nat.succ_pos _), nil_append, Option.bind_eq_bind, Option.bind_some]
    split
    · rw [hes]
      rfl
    next hle =>
      rw [length_eq_zero_iff.mp (show es.length = 0 by omega)]
      rfl
  refine ⟨_, hwrites, rfl, add_comm _ _, ?_, ?_, ?_⟩
  · show es.length + 1 = (num + 5) / 6 + 1
    omega
  · refine chained_cons ?_ hcarries.more
    rw [more, hmore, ← length_pos_iff]
    omega
  · rw [flatMap_cons, axes, nil_append, hcarries.axes]
    rfl

/-- What is answered for a device event with `n` axes from `first` on. -/
def Converted (toInt32 : α → BitVec 32) (ev : DeviceEvent α) (first n : Nat) (c : Conversion) :
    Prop :=
  match if n = 0 then withoutValuators ev.type else none with
  | some status => c = ⟨status, 0, []⟩
  | none => c.Chain (ev.value toInt32) first n

theorem eventToKeyButtonPointer_converted (lookup : Nat → Option InputDevice)
    (toInt32 : α → BitVec 32) (ev : DeviceEvent α) (first n : Nat) (hid : ev.deviceid < 128)
    (hdetail : ev.detail.toNat < 256) (hspans : Spans ev.mask first n) :
    ∃ c, eventToKeyButtonPointer toInt32 lookup ev = some c ∧ Converted toInt32 ev first n c := by
  rw [eventToKeyButtonPointer, if_neg (by omega), countValuators_spans hspans]
  cases n with
  | zero =>
    rw [if_pos rfl]
    dsimp only
    cases hstatus : withoutValuators ev.type with
    | some status =>
      refine ⟨⟨status, 0, []⟩, rfl, ?_⟩
      rw [Converted, if_pos rfl, hstatus]
    | none =>
      obtain ⟨c, hc, hchain⟩ := @writeEvents_chain α toInt32 lookup ev hid 0 0
      refine ⟨c, hc, ?_⟩
      rw [Converted, if_pos rfl, hstatus]
      exact ⟨hchain.status, hchain.count, hchain.written, hchain.more, hchain.axes⟩
  | succ n =>
    rw [if_neg (Nat.succ_ne_zero n)]
    obtain ⟨c, hc, hchain⟩ := @writeEvents_chain α toInt32 lookup ev hid first (n + 1)
    refine ⟨c, hc, ?_⟩
    rw [Converted, if_neg (Nat.succ_ne_zero n)]
    exact hchain

end

theorem eventToKeyButtonPointer_converted_motion :
    ∃ c, eventToKeyButtonPointer (BitVec.ofInt 32) (fun _ => none)
        ⟨.motion, 0, 2, 0, 0, 0, 0, 0, false, 0x102#40, fun a => (a : Int)⟩ = some c ∧
      Converted (BitVec.ofInt 32)
        ⟨.motion, 0, 2, 0, 0, 0, 0, 0, false, 0x102#40, fun a => (a : Int)⟩ 1 8 c :=
  eventToKeyButtonPointer_converted _ _ _ 1 8 (by decide) (by decide)
    ⟨fun i h => (by decide : ∀ i < 40, (0x102#40).getLsbD i = true → 1 ≤ i ∧ i < 1 + 8) i
      (BitVec.lt_of_getLsbD h) h, fun _ => by decide⟩

structure KeyClass where
  down : BitVec 256
  minKeyCode : Nat
  maxKeyCode : Nat
  minKeyCode_le : minKeyCode ≤ maxKeyCode
  maxKeyCode_lt : maxKeyCode < 256

structure ButtonClass where
  numButtons : Nat
  down : BitVec 256
  numButtons_lt : numButtons < 256

structure ValuatorClass (α : Type) where
  numAxes : Nat
  axisVal : Nat → α
  mode : BitVec 8
  numAxes_le : numAxes ≤ maxValuators

structure Device (α : Type) where
  id : BitVec 8
  key : Option KeyClass
  button : Option ButtonClass
  valuator : Option (ValuatorClass α)

/-- `buttons` and `keys` are `none` where the code leaves them as they were. -/
structure DeviceStateNotify where
  deviceid : BitVec 8
  time : BitVec 32
  classesReported : BitVec 8
  numKeys : Nat
  numButtons : Nat
  numValuators : Nat
  buttons : Option (BitVec 32)
  keys : Option (BitVec 32)
  valuators : List (BitVec 32)

inductive Notify where
  | deviceState (e : DeviceStateNotify)
  | buttonState (deviceid : BitVec 8) (buttons : BitVec 224)
  | keyState (deviceid : BitVec 8) (keys : BitVec 224)
  | valuator (e : DeviceValuator)

def Notify.deviceid : Notify → BitVec 8
  | .deviceState e => e.deviceid
  | .buttonState deviceid _ => deviceid
  | .keyState deviceid _ => deviceid
  | .valuator e => e.deviceid

def Notify.setMore : Notify → Notify
  | .deviceState e => .deviceState { e with deviceid := e.deviceid ||| moreEvents }
  | .buttonState deviceid buttons => .buttonState (deviceid ||| moreEvents) buttons
  | .keyState deviceid keys => .keyState (deviceid ||| moreEvents) keys
  | .valuator e => .valuator { e with deviceid := e.deviceid ||| moreEvents }

def Notify.more (e : Notify) : Bool := hasMore e.deviceid

/-- The events in front of the pointer `ev`, and the event it points to. -/
structure Sev where
  before : List Notify
  ev : Notify

def Sev.events (s : Sev) : List Notify := s.before ++ [s.ev]

def sevSize : Nat := 3 + (maxValuators + 6) / 6

/-- The event gets `MORE_EVENTS`, and the pointer moves on; `none` is a move past the end. -/
def Sev.next (s : Sev) (e : Notify) : Option Sev :=
  if s.before.length + 1 < sevSize then some ⟨s.before ++ [s.ev.setMore], e⟩ else none

section

variable (toInt32 : α → BitVec 32) (time : BitVec 32) (dev : Device α)

def fixDeviceValuator (v : ValuatorClass α) (first : Nat) : DeviceValuator :=
  let nval := v.numAxes - first
  let numValuators := if nval < 6 then nval else 6
  { deviceid := dev.id
    deviceState := none
    numValuators
    firstValuator := first
    valuators := (range numValuators).map fun j => toInt32 (v.axisVal (first + j)) }

def fixDeviceStateNotify : DeviceStateNotify :=
  let numValuators := dev.valuator.elim 0 fun v => if v.numAxes < 3 then v.numAxes else 3
  { deviceid := dev.id
    time
    classesReported := (if dev.button.isSome then 1#8 <<< 1 else 0) |||
      (if dev.key.isSome then 1#8 <<< 0 else 0) |||
      (dev.valuator.elim 0#8 fun v => 1#8 <<< 2 ||| v.mode <<< 6)
    numKeys := dev.key.elim 0 fun k => k.maxKeyCode - k.minKeyCode
    numButtons := dev.button.elim 0 (·.numButtons)
    numValuators
    buttons := dev.button.map fun b => b.down.setWidth 32
    keys := dev.key.map fun k => k.down.setWidth 32
    valuators := dev.valuator.elim [] fun v =>
      (range numValuators).map fun j => toInt32 (v.axisVal j) }

def nbuttons : Nat := dev.button.elim 0 (·.numButtons)
def nkeys : Nat := dev.key.elim 0 fun k => k.maxKeyCode - k.minKeyCode

def evcount : Nat :=
  1 + (if nbuttons dev > 32 then 1 else 0) + (if nkeys dev > 32 then 1 else 0) +
    dev.valuator.elim 0 fun v => (((v.numAxes : Int) - 3 + 6) / 6).toNat

def buttonState : Option Notify := dev.button.bind fun b =>
  if nbuttons dev > 32 then some (.buttonState dev.id (b.down.extractLsb' 32 224)) else none

def keyState : Option Notify := dev.key.bind fun k =>
  if nkeys dev > 32 then some (.keyState dev.id (k.down.extractLsb' 32 224)) else none

def Sev.nextIf (s : Sev) : Option Notify → Option Sev
  | some e => s.next e
  | none => some s

def valuatorSteps (v : ValuatorClass α) (first nval : Nat) (s : Sev) : Option Sev :=
  if 0 < nval then do
    let s ← s.next (.valuator (fixDeviceValuator toInt32 dev v first))
    valuatorSteps v (first + 6) (nval - 6) s
  else some s
termination_by nval

/-- The first `evcount` slots are delivered; `sev` are the events that were written. -/
structure Delivery where
  evcount : Nat
  sev : List Notify

/-- `selected` says that a client selects `DeviceStateNotify` on the window. -/
def deliverStateNotifyEvent (selected : Bool) : Option (Option Delivery) :=
  if !selected then some none
  else if evcount dev > sevSize then some none
  else do
    let s ← Sev.nextIf ⟨[], .deviceState (fixDeviceStateNotify toInt32 time dev)⟩ (buttonState dev)
    let s ← s.nextIf (keyState dev)
    let s ← match dev.valuator with
      | some v => valuatorSteps toInt32 dev v 3 (v.numAxes - 3) s
      | none => some s
    some (some ⟨evcount dev, s.events⟩)

end

def Notify.axes : Notify → List (Nat × BitVec 32)
  | .deviceState e => (range e.numValuators).zip e.valuators
  | .valuator e => e.axes
  | _ => []

def Notify.buttonBits (i : Nat) : Notify → List Bool
  | .deviceState e => if i < 32 then (e.buttons.map (·.getLsbD i)).toList else []
  | .buttonState _ buttons => if 32 ≤ i then [buttons.getLsbD (i - 32)] else []
  | _ => []

def Notify.keyBits (i : Nat) : Notify → List Bool
  | .deviceState e => if i < 32 then (e.keys.map (·.getLsbD i)).toList else []
  | .keyState _ keys => if 32 ≤ i then [keys.getLsbD (i - 32)] else []
  | _ => []

/-- The events that were written are the ones that are delivered, and they report every axis, every
button and every key of the device. -/
structure Complete (toInt32 : α → BitVec 32) (dev : Device α) (d : Delivery) : Prop where
  evcount : d.evcount = d.sev.length
  size : d.sev.length ≤ sevSize
  more : Chained Notify.more d.sev
  axes : d.sev.flatMap Notify.axes =
    dev.valuator.elim [] fun v => valuesFrom (fun a => toInt32 (v.axisVal a)) 0 v.numAxes
  buttons : ∀ b ∈ dev.button, ∀ i ≤ b.numButtons,
    d.sev.flatMap (Notify.buttonBits i) = [b.down.getLsbD i]
  keys : ∀ k ∈ dev.key, ∀ i, k.minKeyCode ≤ i → i ≤ k.maxKeyCode →
    d.sev.flatMap (Notify.keyBits i) = [k.down.getLsbD i]

theorem axes_setMore (e : Notify) : e.setMore.axes = e.axes := by cases e <;> rfl

theorem buttonBits_setMore (i : Nat) (e : Notify) :
    e.setMore.buttonBits i = e.buttonBits i := by cases e <;> rfl

theorem keyBits_setMore (i : Nat) (e : Notify) : e.setMore.keyBits i = e.keyBits i := by
  cases e <;> rfl

theorem more_setMore (e : Notify) : e.setMore.more = true := by
  cases e <;> exact hasMore_or _

/-- The events are those of `l`, all but the last one marked. -/
def Sev.Holds (s : Sev) (l : List Notify) : Prop :=
  ∃ before, l = before ++ [s.ev] ∧ s.before = before.map Notify.setMore

section

variable {s : Sev} {l : List Notify}

theorem next_holds (h : s.Holds l) (hsize : l.length < sevSize) (e : Notify) :
    ∃ s', s.next e = some s' ∧ s'.Holds (l ++ [e]) := by
  obtain ⟨before, rfl, hbefore⟩ := h
  rw [length_append, length_singleton] at hsize
  refine ⟨⟨s.before ++ [s.ev.setMore], e⟩, ?_, before ++ [s.ev], rfl, ?_⟩
  · rw [Sev.next, if_pos (by rw [hbefore, length_map]; exact hsize)]
  · rw [map_append, hbefore]
    rfl

theorem nextIf_holds (h : s.Holds l) (hsize : l.length < sevSize) (e : Option Notify) :
    ∃ s', s.nextIf e = some s' ∧ s'.Holds (l ++ e.toList) := by
  cases e with
  | none => exact ⟨s, rfl, by rwa [Option.toList_none, append_nil]⟩
  | some e => exact next_holds h hsize e

theorem length_holds (h : s.Holds l) : s.events.length = l.length := by
  obtain ⟨before, rfl, hbefore⟩ := h
  rw [Sev.events, hbefore, length_append, length_map, length_append]

theorem flatMap_holds {γ : Type} {f : Notify → List γ} (hf : ∀ e, f e.setMore = f e)
    (h : s.Holds l) : s.events.flatMap f = l.flatMap f := by
  obtain ⟨before, rfl, hbefore⟩ := h
  rw [Sev.events, hbefore, flatMap_append, flatMap_append, flatMap_map]
  simp only [hf]

theorem chained_iff (h : s.Holds l) : Chained Notify.more s.events ↔ s.ev.more = false := by
  obtain ⟨before, rfl, hbefore⟩ := h
  have hlength : s.events.length = before.length + 1 := by
    rw [Sev.events, hbefore, length_append, length_map, length_singleton]
  rw [Chained, hlength, Sev.events, hbefore]
  constructor
  · intro h
    have hlast := h before.length s.ev (by
      rw [getElem?_append_right (le_of_eq (length_map _)), length_map, Nat.sub_self]
      rfl)
    exact Bool.eq_false_iff.mpr fun hmore => lt_irrefl _ (hlast.mp hmore)
  · intro hlast j e he
    by_cases hj : j < before.length
    · rw [getElem?_append_left (by rwa [length_map]), getElem?_map] at he
      obtain ⟨x, -, rfl⟩ := Option.map_eq_some_iff.mp he
      exact iff_of_true (more_setMore x) (Nat.succ_lt_succ hj)
    · rw [getElem?_append_right (by rw [length_map]; omega), length_map] at he
      have he' := mem_of_getElem? he
      rw [mem_singleton] at he'
      rw [he', hlast]
      exact iff_of_false Bool.false_ne_true (by omega)

end

section

variable {toInt32 : α → BitVec 32} {time : BitVec 32} {dev : Device α} {s : Sev} {l : List Notify}

theorem length_buttonState (dev : Device α) :
    (buttonState dev).toList.length = if nbuttons dev > 32 then 1 else 0 := by
  unfold buttonState nbuttons
  cases dev.button with
  | none => rfl
  | some b =>
    rw [Option.bind_some]
    split <;> rfl

theorem length_keyState (dev : Device α) :
    (keyState dev).toList.length = if nkeys dev > 32 then 1 else 0 := by
  unfold keyState nkeys
  cases dev.key with
  | none => rfl
  | some k =>
    rw [Option.bind_some]
    split <;> rfl

theorem fixDeviceValuator_axes (v : ValuatorClass α) (first : Nat) :
    (fixDeviceValuator toInt32 dev v first).axes =
      valuesFrom (fun a => toInt32 (v.axisVal a)) first (min (v.numAxes - first) 6) := by
  have hnum : (fixDeviceValuator toInt32 dev v first).numValuators = min (v.numAxes - first) 6 := by
    show (if v.numAxes - first < 6 then v.numAxes - first else 6) = min (v.numAxes - first) 6
    split <;> omega
  rw [axes_eq (fun a => toInt32 (v.axisVal a)) rfl, hnum]
  rfl

/-- The valuator events behind the other events carry the axes from `first` on. -/
theorem valuatorSteps_holds (v : ValuatorClass α) {nval first : Nat}
    (hnval : nval = v.numAxes - first) (h : s.Holds l)
    (hsize : l.length + (nval + 5) / 6 ≤ sevSize) :
    ∃ s', ∃ es : List DeviceValuator, valuatorSteps toInt32 dev v first nval s = some s' ∧
      s'.Holds (l ++ es.map .valuator) ∧ es.length = (nval + 5) / 6 ∧
      es.flatMap DeviceValuator.axes = valuesFrom (fun a => toInt32 (v.axisVal a)) first nval ∧
      ∀ e ∈ es, e.deviceid = dev.id := by
  induction nval using Nat.strongRecOn generalizing first s l with
  | _ nval ih =>
    rw [valuatorSteps]
    by_cases hpos : 0 < nval
    · obtain ⟨s₁, hs₁, hholds⟩ := next_holds h (by omega)
        (.valuator (fixDeviceValuator toInt32 dev v first))
      obtain ⟨s₂, es, hs₂, hes, hlength, haxes, hid⟩ := ih (nval - 6) (by omega)
        (show nval - 6 = v.numAxes - (first + 6) by omega) hholds (by
          rw [length_append, length_singleton]
          omega)
      refine ⟨s₂, fixDeviceValuator toInt32 dev v first :: es, ?_, ?_, ?_, ?_, ?_⟩
      · rw [if_pos hpos, hs₁, Option.bind_eq_bind, Option.bind_some, hs₂]
      · rw [map_cons, ← singleton_append, ← append_assoc]
        exact hes
      · rw [length_cons]
        omega
      · rw [flatMap_cons, haxes, fixDeviceValuator_axes, ← hnval]
        by_cases hlast : nval ≤ 6
        · rw [min_eq_left hlast, show nval - 6 = 0 by omega]
          exact append_nil _
        · rw [min_eq_right (by omega), valuesFrom_append, show 6 + (nval - 6) = nval by omega]
      · exact forall_mem_cons.mpr ⟨rfl, hid⟩
    · obtain rfl : nval = 0 := by omega
      exact ⟨s, [], rfl, by rwa [map_nil, append_nil], rfl, rfl, forall_mem_nil _⟩

/-- The bits of `down` that reach the first event, and the others if there is an event for them. -/
def splitBits (down : BitVec 256) (more : Prop) [Decidable more] (i : Nat) : List Bool :=
  (if i < 32 then [down.getLsbD i] else []) ++ if more ∧ 32 ≤ i then [down.getLsbD i] else []

theorem splitBits_eq_iff (down : BitVec 256) (more : Prop) [Decidable more] (i : Nat) :
    splitBits down more i = [down.getLsbD i] ↔ i < 32 ∨ more := by
  unfold splitBits
  by_cases hi : i < 32
  · rw [if_pos hi, if_neg (by omega), append_nil]
    exact iff_of_true rfl (.inl hi)
  · rw [if_neg hi, nil_append]
    by_cases hmore : more
    · rw [if_pos ⟨hmore, by omega⟩]
      exact iff_of_true rfl (.inr hmore)
    · rw [if_neg fun h => hmore h.1]
      exact iff_of_false (cons_ne_nil _ _).symm fun h => h.elim hi hmore

theorem splitBits_eq (down : BitVec 256) (more : Prop) [Decidable more] {i : Nat} (hi : i < 256) :
    ((if i < 32 then ((some (down.setWidth 32)).map (·.getLsbD i)).toList else []) ++
      if more then (if 32 ≤ i then [(down.extractLsb' 32 224).getLsbD (i - 32)] else []) else []) =
      splitBits down more i := by
  unfold splitBits
  congr 1
  · split
    next hlow =>
      rw [Option.map_some, BitVec.getLsbD_setWidth, decide_eq_true hlow, Bool.true_and,
        Option.toList_some]
    · rfl
  · by_cases hmore : more
    · rw [if_pos hmore]
      by_cases hhigh : 32 ≤ i
      · rw [if_pos hhigh, if_pos ⟨hmore, hhigh⟩, BitVec.getLsbD_extractLsb',
          show 32 + (i - 32) = i by omega, decide_eq_true (by omega), Bool.true_and]
      · rw [if_neg hhigh, if_neg fun h => hhigh h.2]
    · rw [if_neg hmore, if_neg fun h => hmore h.1]

def plain (toInt32 : α → BitVec 32) (time : BitVec 32) (dev : Device α)
    (es : List DeviceValuator) : List Notify :=
  .deviceState (fixDeviceStateNotify toInt32 time dev) :: (buttonState dev).toList ++
    (keyState dev).toList ++ es.map .valuator

theorem plain_buttonBits {b : ButtonClass} (hb : dev.button = some b) (es : List DeviceValuator)
    {i : Nat} (hi : i < 256) : (plain toInt32 time dev es).flatMap (Notify.buttonBits i) =
      splitBits b.down (b.numButtons > 32) i := by
  have hkeys : (keyState dev).toList.flatMap (Notify.buttonBits i) = [] := by
    unfold keyState
    cases dev.key with
    | none => rfl
    | some k =>
      rw [Option.bind_some]
      split <;> rfl
  have hvaluators : (es.map Notify.valuator).flatMap (Notify.buttonBits i) = [] := by
    rw [flatMap_map]
    exact flatMap_eq_nil_iff.mpr fun _ _ => rfl
  have hfirst : (fixDeviceStateNotify toInt32 time dev).buttons = some (b.down.setWidth 32) := by
    rw [fixDeviceStateNotify, hb, Option.map_some]
  rw [plain, flatMap_append, flatMap_append, hvaluators, hkeys, append_nil, append_nil,
    flatMap_cons, Notify.buttonBits, hfirst, ← splitBits_eq b.down _ hi, buttonState, nbuttons, hb,
    Option.bind_some, Option.elim_some]
  congr 1
  split
  · rw [Option.toList_some, flatMap_singleton, Notify.buttonBits]
  · rfl

theorem plain_keyBits {k : KeyClass} (hk : dev.key = some k) (es : List DeviceValuator)
    {i : Nat} (hi : i < 256) : (plain toInt32 time dev es).flatMap (Notify.keyBits i) =
      splitBits k.down (k.maxKeyCode - k.minKeyCode > 32) i := by
  have hbuttons : (buttonState dev).toList.flatMap (Notify.keyBits i) = [] := by
    unfold buttonState
    cases dev.button with
    | none => rfl
    | some b =>
      rw [Option.bind_some]
      split <;> rfl
  have hvaluators : (es.map Notify.valuator).flatMap (Notify.keyBits i) = [] := by
    rw [flatMap_map]
    exact flatMap_eq_nil_iff.mpr fun _ _ => rfl
  have hfirst : (fixDeviceStateNotify toInt32 time dev).keys = some (k.down.setWidth 32) := by
    rw [fixDeviceStateNotify, hk, Option.map_some]
  rw [plain, flatMap_append, flatMap_append, hvaluators, append_nil, flatMap_cons, hbuttons,
    append_nil, Notify.keyBits, hfirst, ← splitBits_eq k.down _ hi, keyState, nkeys, hk,
    Option.bind_some, Option.elim_some]
  congr 1
  split
  · rw [Option.toList_some, flatMap_singleton, Notify.keyBits]
  · rfl

theorem plain_axes (es : List DeviceValuator) : (plain toInt32 time dev es).flatMap Notify.axes =
    (dev.valuator.elim [] fun v => valuesFrom (fun a => toInt32 (v.axisVal a)) 0 (min v.numAxes 3))
      ++ es.flatMap DeviceValuator.axes := by
  have hbuttons : (buttonState dev).toList.flatMap Notify.axes = [] := by
    unfold buttonState
    cases dev.button with
    | none => rfl
    | some b =>
      rw [Option.bind_some]
      split <;> rfl
  have hkeys : (keyState dev).toList.flatMap Notify.axes = [] := by
    unfold keyState
    cases dev.key with
    | none => rfl
    | some k =>
      rw [Option.bind_some]
      split <;> rfl
  have hvaluators : (es.map Notify.valuator).flatMap Notify.axes =
      es.flatMap DeviceValuator.axes := by
    rw [flatMap_map]
    rfl
  rw [plain, flatMap_append, flatMap_append, flatMap_cons, hbuttons, hkeys, hvaluators, append_nil,
    append_nil]
  congr 1
  rw [Notify.axes, fixDeviceStateNotify]
  dsimp only
  cases dev.valuator with
  | none => rfl
  | some v =>
    rw [Option.elim_some, Option.elim_some, Option.elim_some,
      show (if v.numAxes < 3 then v.numAxes else 3) = min v.numAxes 3 by split <;> omega,
      valuesFrom, ← range_eq_range']
    conv_lhs => rw [← map_id (range (min v.numAxes 3)), map_map]
    exact zip_map' ..

theorem evcount_eq_iff {es : List DeviceValuator}
    (hes : es.length = dev.valuator.elim 0 fun v => (v.numAxes - 3 + 5) / 6) :
    evcount dev = (plain toInt32 time dev es).length ↔ ∀ v ∈ dev.valuator, v.numAxes % 6 ≠ 3 := by
  have hlength : (plain toInt32 time dev es).length =
      1 + (if nbuttons dev > 32 then 1 else 0) + (if nkeys dev > 32 then 1 else 0) + es.length := by
    rw [plain, length_append, length_append, length_cons, length_map, length_buttonState,
      length_keyState]
    omega
  rw [hlength, evcount, hes, Nat.add_left_cancel_iff]
  cases dev.valuator with
  | none => exact iff_of_true rfl fun _ h => nomatch h
  | some v =>
    have hall : (∀ w ∈ some v, w.numAxes % 6 ≠ 3) ↔ v.numAxes % 6 ≠ 3 :=
      ⟨fun h => h v rfl, fun h w hw => Option.some.inj hw ▸ h⟩
    rw [hall, Option.elim_some, Option.elim_some]
    omega

theorem evcount_le (dev : Device α) : evcount dev < sevSize := by
  have hle : (dev.valuator.elim 0 fun v => (((v.numAxes : Int) - 3 + 6) / 6).toNat) ≤ 6 := by
    cases dev.valuator with
    | none => exact Nat.zero_le 6
    | some v =>
      have hle := v.numAxes_le
      rw [maxValuators] at hle
      rw [Option.elim_some]
      omega
  rw [evcount, show sevSize = 10 by decide]
  split <;> split <;> omega

theorem plain_deviceid {es : List DeviceValuator} (hes : ∀ e ∈ es, e.deviceid = dev.id) :
    ∀ e ∈ plain toInt32 time dev es, e.deviceid = dev.id := by
  intro e he
  rw [plain, mem_append, mem_append, mem_cons, Option.mem_toList, Option.mem_toList] at he
  rcases he with ((rfl | he) | he) | he
  · rfl
  · obtain ⟨b, -, hb⟩ := Option.bind_eq_some_iff.mp he
    split at hb
    · cases hb
      rfl
    · cases hb
  · obtain ⟨k, -, hk⟩ := Option.bind_eq_some_iff.mp he
    split at hk
    · cases hk
      rfl
    · cases hk
  · obtain ⟨x, hx, rfl⟩ := mem_map.mp he
    exact hes x hx

end

/-- No button and no key that the device has is left out, and the count is that of the events. -/
def Reported (dev : Device α) : Prop :=
  dev.id.toNat < 128 ∧ (∀ v ∈ dev.valuator, v.numAxes % 6 ≠ 3) ∧
    (∀ b ∈ dev.button, b.numButtons ≠ 32) ∧
    ∀ k ∈ dev.key, k.maxKeyCode - k.minKeyCode ≤ 32 → k.maxKeyCode < 32

theorem deliverStateNotifyEvent_holds (toInt32 : α → BitVec 32) (time : BitVec 32)
    (dev : Device α) : ∃ s : Sev, ∃ es : List DeviceValuator,
      deliverStateNotifyEvent toInt32 time dev true = some (some ⟨evcount dev, s.events⟩) ∧
      s.Holds (plain toInt32 time dev es) ∧
      es.length = (dev.valuator.elim 0 fun v => (v.numAxes - 3 + 5) / 6) ∧
      es.flatMap DeviceValuator.axes = (dev.valuator.elim [] fun v =>
        valuesFrom (fun a => toInt32 (v.axisVal a)) 3 (v.numAxes - 3)) ∧
      ∀ e ∈ es, e.deviceid = dev.id := by
  have hcount := evcount_le dev
  have hsize : sevSize = 10 := by decide
  have hb : (buttonState dev).toList.length ≤ 1 := by
    rw [length_buttonState]
    split <;> omega
  have hk : (keyState dev).toList.length ≤ 1 := by
    rw [length_keyState]
    split <;> omega
  obtain ⟨s₁, hs₁, hholds₁⟩ := nextIf_holds
    (s := ⟨[], .deviceState (fixDeviceStateNotify toInt32 time dev)⟩) ⟨[], rfl, rfl⟩
    (by rw [nil_append, length_singleton]; omega) (buttonState dev)
  obtain ⟨s₂, hs₂, hholds₂⟩ := nextIf_holds hholds₁
    (by rw [nil_append, length_append, length_singleton]; omega) (keyState dev)
  unfold deliverStateNotifyEvent plain
  rw [Bool.not_true, if_neg Bool.false_ne_true, if_neg (by omega), Option.bind_eq_bind, hs₁,
    Option.bind_some, hs₂, Option.bind_some]
  cases hv : dev.valuator with
  | none => exact ⟨s₂, [], rfl, by rwa [map_nil, append_nil], rfl, rfl, forall_mem_nil _⟩
  | some v =>
    have hle := v.numAxes_le
    rw [maxValuators] at hle
    obtain ⟨s₃, es, hs₃, hholds₃, hrest⟩ := @valuatorSteps_holds α toInt32 dev s₂ _ v _ 3 rfl
      hholds₂ (by
        rw [nil_append, length_append, length_append, length_singleton]
        omega)
    refine ⟨s₃, es, ?_, hholds₃, hrest⟩
    dsimp only
    rw [hs₃]
    rfl

theorem deliverStateNotifyEvent_complete_iff (toInt32 : α → BitVec 32) (time : BitVec 32)
    (dev : Device α) : ∃ d, deliverStateNotifyEvent toInt32 time dev true = some (some d) ∧
      (Complete toInt32 dev d ↔ Reported dev) := by
  obtain ⟨s, es, hdeliver, hholds, hlength, haxes, hid⟩ :=
    deliverStateNotifyEvent_holds toInt32 time dev
  have hevents := length_holds hholds
  have hcount := @evcount_eq_iff α toInt32 time dev es hlength
  have hmore : Chained Notify.more s.events ↔ dev.id.toNat < 128 := by
    obtain ⟨before, hplain, -⟩ := id hholds
    have hev := @plain_deviceid α toInt32 time dev es hid s.ev
      (hplain ▸ mem_append_right _ (mem_singleton_self _))
    rw [chained_iff hholds, Notify.more, hev, hasMore_iff]
  have hbuttons : ∀ b ∈ dev.button, ∀ i < 256,
      (s.events.flatMap (Notify.buttonBits i) = [b.down.getLsbD i] ↔
        i < 32 ∨ b.numButtons > 32) := fun b hb i hi => by
    rw [flatMap_holds (buttonBits_setMore i) hholds, plain_buttonBits hb es hi, splitBits_eq_iff]
  have hkeys : ∀ k ∈ dev.key, ∀ i < 256, (s.events.flatMap (Notify.keyBits i) = [k.down.getLsbD i] ↔
        i < 32 ∨ k.maxKeyCode - k.minKeyCode > 32) := fun k hk i hi => by
    rw [flatMap_holds (keyBits_setMore i) hholds, plain_keyBits hk es hi, splitBits_eq_iff]
  refine ⟨_, hdeliver, fun h => ⟨hmore.mp h.more, hcount.mp (h.evcount.trans hevents), ?_, ?_⟩,
    fun h => ⟨?_, ?_, hmore.mpr h.1, ?_, ?_, ?_⟩⟩
  · intro b hb hnum
    rcases (hbuttons b hb 32 (by omega)).mp (h.buttons b hb 32 (by omega)) with hlt | hlt
    · omega
    · omega
  · intro k hk hnum
    have hle := k.minKeyCode_le
    rcases (hkeys k hk _ k.maxKeyCode_lt).mp (h.keys k hk _ hle (le_refl _)) with hlt | hlt
    · exact hlt
    · omega
  · exact (hcount.mpr h.2.1).trans hevents.symm
  · have hle := evcount_le dev
    have heq := hcount.mpr h.2.1
    show s.events.length ≤ sevSize
    omega
  · show s.events.flatMap Notify.axes = _
    rw [flatMap_holds axes_setMore hholds, plain_axes, haxes]
    cases dev.valuator with
    | none => rfl
    | some v =>
      rw [Option.elim_some, Option.elim_some, Option.elim_some]
      by_cases hv : v.numAxes ≤ 3
      · rw [min_eq_left hv, Nat.sub_eq_zero_of_le hv]
        exact append_nil _
      · have happend := valuesFrom_append (fun a => toInt32 (v.axisVal a)) 0 3 (v.numAxes - 3)
        rw [zero_add] at happend
        rw [min_eq_right (by omega), happend, show 3 + (v.numAxes - 3) = v.numAxes by omega]
  · intro b hb i hi
    have hlt := b.numButtons_lt
    have hne := h.2.2.1 b hb
    exact (hbuttons b hb i (by omega)).mpr (by omega)
  · intro k hk i hmin hmax
    have hlt := k.maxKeyCode_lt
    have hshort := h.2.2.2 k hk
    exact (hkeys k hk i (by omega)).mpr (by omega)

def threeAxes : Device Int :=
  ⟨2, none, none, some ⟨3, fun a => a, 0, by decide⟩⟩

theorem threeAxes_incomplete :
    ¬ ∃ d, deliverStateNotifyEvent (BitVec.ofInt 32) 0 threeAxes true = some (some d) ∧
      Complete (BitVec.ofInt 32) threeAxes d := by
  rintro ⟨d, hd, hcomplete⟩
  have hdeliver : deliverStateNotifyEvent (BitVec.ofInt 32) 0 threeAxes true =
      some (some ⟨2, [.deviceState (fixDeviceStateNotify (BitVec.ofInt 32) 0 threeAxes)]⟩) := by
    simp [deliverStateNotifyEvent, threeAxes, valuatorSteps, evcount, nbuttons, nkeys, sevSize,
      maxValuators, buttonState, keyState, Sev.nextIf, Sev.events]
  rw [hdeliver] at hd
  cases hd
  exact absurd hcomplete.evcount (by decide)

end Xfront.Valuators
