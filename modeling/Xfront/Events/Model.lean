import Xfront.Barriers.Model

/-!
# Generating events

`getevents.c`: what a driver reports becomes a list of internal events. A slave that
was not the last one used by its master is announced by a DeviceChanged event; pointer
events go through the pointer barriers and are followed by emulated scroll buttons.
The positions of the sprite and the values of the valuators are floating point: they
are part of a call here, with the operations on them a parameter.
-/

namespace Xfront.Events
open List

open Barriers

structure Doubles where
  V : Type
  ofInt : Int → V
  add : V → V → V
  sub : V → V → V
  mul : V → V → V
  lt : V → V → Bool
  eq : V → V → Bool

def maxValuators : Nat := 36
def maxButtons : Nat := 256

structure ValuatorMask (V : Type) where
  size : Nat
  valuators : Nat → Option V

namespace ValuatorMask

variable {V : Type}

def zero : ValuatorMask V := { size := 0, valuators := fun _ => none }

def isset (mask : ValuatorMask V) (i : Nat) : Bool :=
  decide (i < mask.size) && (mask.valuators i).isSome

def numValuators (mask : ValuatorMask V) : Nat :=
  (range (min mask.size maxValuators)).countP fun i => (mask.valuators i).isSome

def setDouble (mask : ValuatorMask V) (i : Nat) (v : V) : ValuatorMask V where
  size := max (i + 1) mask.size
  valuators := fun j => if j = i then some v else mask.valuators j

end ValuatorMask

inductive ScrollType
  | none
  | vertical
  | horizontal
deriving DecidableEq

structure AxisInfo (V : Type) where
  scrollType : ScrollType
  increment : V

structure ValuatorClass (V : Type) where
  numAxes : Nat
  axes : Nat → AxisInfo V
  hScrollAxis : Option Nat
  vScrollAxis : Option Nat

structure KbdFeedback where
  autoRepeat : Bool
  autoRepeats : Nat → Bool

inductive DeviceType
  | masterPointer
  | masterKeyboard
  | slave
deriving DecidableEq

inductive MasterKind
  | pointer
  | keyboard
deriving DecidableEq

/-- `key` is the modifier map of a device with keys; `directTouch` is there for a device with
touches. -/
structure Device (V : Type) where
  type : DeviceType
  master : Option Nat
  paired : Option Nat
  enabled : Bool
  key : Option (Nat → BitVec 8)
  focus : Bool
  kbdfeed : Option KbdFeedback
  button : Bool
  valuator : Option (ValuatorClass V)
  proximity : Bool
  directTouch : Option Bool
  gesture : Bool

structure DDXTouchPoint where
  active : Bool
  ddxId : BitVec 32
  clientId : BitVec 32
  emulatePointer : Bool
deriving DecidableEq

open DDXTouchPoint

def DDXTouchPoint.init : DDXTouchPoint where
  active := false
  ddxId := 0
  clientId := 0
  emulatePointer := false

inductive EventType
  | keyPress
  | keyRelease
  | buttonPress
  | buttonRelease
  | motion
  | proximityIn
  | proximityOut
  | touchBegin
  | touchUpdate
  | touchEnd
  | gesturePinchBegin
  | gesturePinchUpdate
  | gesturePinchEnd
  | gestureSwipeBegin
  | gestureSwipeUpdate
  | gestureSwipeEnd
deriving DecidableEq

inductive InternalEvent
  | deviceChanged (masterid sourceid : Nat) (kind : MasterKind)
  | raw (type : EventType) (deviceid detail : Nat) (emulated : Bool)
  | device (type : EventType) (deviceid detail : Nat) (emulated : Bool)
  | touch (type : EventType) (deviceid : Nat) (touchid flags : BitVec 32) (emulated : Bool)
  | gesture (type : EventType) (deviceid numTouches : Nat) (cancelled : Bool)
  | barrier (event : BarrierEvent)
deriving DecidableEq

/-- What the generators change: the last slave of each master, the keys that are posted as down,
the touches of each device, and the barriers. -/
structure State where
  lastSlave : Nat → Option Nat
  postdown : Nat → Nat → Bool
  touches : Nat → List DDXTouchPoint
  nextClientId : BitVec 32
  barriers : List PointerBarrierClient

section

variable (D : Doubles) (devs : Nat → Device D.V)

def inputDevIsMaster (dev : Nat) : Bool := (devs dev).type ≠ .slave

/-- `GetMaster` for `MASTER_POINTER` and `MASTER_KEYBOARD`. -/
def getMaster (dev : Nat) (which : MasterKind) : Option Nat :=
  let master := if inputDevIsMaster D devs dev then some dev else (devs dev).master
  master.bind fun master =>
    match which with
    | .keyboard =>
      if (devs master).type ≠ .masterKeyboard then (devs master).paired else some master
    | .pointer =>
      if (devs master).type ≠ .masterPointer then (devs master).paired else some master

def inputDevIsFloating (dev : Nat) : Bool :=
  !inputDevIsMaster D devs dev && (getMaster D devs dev .keyboard).isNone

def updateFromMaster (s : State) (dev : Nat) (type : MasterKind) : State × List InternalEvent :=
  match getMaster D devs dev type with
  | none => (s, [])
  | some master =>
    if s.lastSlave master ≠ some dev then
      ({ s with lastSlave := fun m => if m = master then some dev else s.lastSlave m },
        [.deviceChanged master dev type])
    else (s, [])

inductive KeyboardType
  | keyPress
  | keyRelease
  | enterNotify
  | leaveNotify
  | other
deriving DecidableEq

def refusesRepeat (s : State) (pDev : Nat) (press : Bool) (modmap : Nat → BitVec 8)
    (kbdfeed : KbdFeedback) (keyCode : Nat) : Bool :=
  press && s.postdown pDev keyCode &&
    (!kbdfeed.autoRepeat || !kbdfeed.autoRepeats keyCode || modmap keyCode != 0)

def setPostdown (s : State) (pDev keyCode : Nat) (down : Bool) : State :=
  { s with
    postdown := fun d k => if d = pDev ∧ k = keyCode then down else s.postdown d k }

def getKeyboardEvents (s : State) (pDev : Nat) (type : KeyboardType) (keyCode : Nat) :
    State × List InternalEvent :=
  let focus := type == .enterNotify || type == .leaveNotify
  let press := type == .keyPress || type == .enterNotify
  let release := type == .keyRelease || type == .leaveNotify
  let dev := devs pDev
  if !dev.enabled then (s, [])
  else match dev.key, dev.kbdfeed with
  | some modmap, some kbdfeed =>
    if !dev.focus || (!press && !release) || decide (keyCode < 8) || decide (keyCode > 255) then
      (s, [])
    else
      let (s', changed) := updateFromMaster D devs s pDev .keyboard
      if refusesRepeat s' pDev press modmap kbdfeed keyCode then (s', [])
      else
        let type := if press then EventType.keyPress else .keyRelease
        (setPostdown s' pDev keyCode press,
          changed ++ (if focus then [] else [.raw type pDev keyCode false]) ++
            [.device type pDev keyCode false])
  | _, _ => (s, [])

inductive ProximityType
  | proximityIn
  | proximityOut
  | other
deriving DecidableEq

/-- `masked` says whether there is a mask at all. -/
def getProximityEvents (s : State) (pDev : Nat) (type : ProximityType) (masked : Bool) :
    State × List InternalEvent :=
  let dev := devs pDev
  if !dev.enabled then (s, [])
  else if type == .other || !masked then (s, [])
  else if dev.valuator.isNone || !dev.proximity then (s, [])
  else
    let (s', changed) := updateFromMaster D devs s pDev .pointer
    (s', changed ++
      [.device (if type == .proximityIn then .proximityIn else .proximityOut) pDev 0 false])

inductive TouchType
  | touchBegin
  | touchUpdate
  | touchEnd
  | other
deriving DecidableEq

def setTouches (s : State) (pDev : Nat) (touches : List DDXTouchPoint) : State :=
  { s with touches := fun d => if d = pDev then touches else s.touches d }

def takeTouch (new : DDXTouchPoint) : List DDXTouchPoint → Option (List DDXTouchPoint)
  | [] => none
  | ti :: rest => if ti.active then (takeTouch new rest).map (ti :: ·) else some (new :: rest)

/-- `TouchBeginDDXTouch`; `room` says whether the array can grow when it is full. -/
def touchBeginDDXTouch (s : State) (pDev : Nat) (ddxId : BitVec 32) (direct emulates room : Bool) :
    State × Option DDXTouchPoint :=
  let touches := s.touches pDev
  let size := touches.length + touches.length / 2 + 1
  let full := touches.all active
  let touches := if full && room then
    touches ++ replicate (size - touches.length) init else touches
  let new : DDXTouchPoint :=
    { active := true
      ddxId := ddxId
      clientId := s.nextClientId
      emulatePointer := emulates && direct && !touches.any active }
  match takeTouch new touches with
  | none => (setTouches s pDev touches, none)
  | some touches =>
    let next := s.nextClientId + 1
    ({ setTouches s pDev touches with nextClientId := if next = 0 then 1 else next }, some new)

def touchFindByDDXID (s : State) (pDev : Nat) (ddxId : BitVec 32) (create direct emulates room :
    Bool) : State × Option DDXTouchPoint :=
  match (s.touches pDev).find? fun ti => ti.active && ti.ddxId == ddxId with
  | some ti => (s, some ti)
  | none => if create then touchBeginDDXTouch s pDev ddxId direct emulates room else (s, none)

def touchEndDDXTouch (s : State) (pDev : Nat) (ddxId : BitVec 32) : State :=
  setTouches s pDev ((s.touches pDev).map fun ti =>
    if ti.active && ti.ddxId == ddxId then { ti with active := false } else ti)

/-- A touch as the driver reports it; `emulates` is the server's setting for emulated pointers. -/
structure TouchCall (V : Type) where
  ddxTouchid : BitVec 32
  type : TouchType
  flags : BitVec 32
  mask : Option (ValuatorMask V)
  emulates : Bool
  room : Bool

def TouchCall.rejected {V : Type} (call : TouchCall V) : Bool :=
  match call.type with
  | .touchBegin => !call.mask.any fun mask => mask.isset 0 && mask.isset 1
  | .touchUpdate => false
  | .touchEnd => false
  | .other => true

def getTouchEvents (s : State) (pDev : Nat) (call : TouchCall D.V) : State × List InternalEvent :=
  let dev := devs pDev
  if !dev.enabled || dev.valuator.isNone then (s, [])
  else match dev.directTouch with
  | none => (s, [])
  | some direct =>
    match touchFindByDDXID s pDev call.ddxTouchid (call.type == .touchBegin) direct call.emulates
        call.room with
    | (s', none) => (s', [])
    | (s', some ti) =>
      let (s'', changed) := if inputDevIsMaster D devs pDev then (s', [])
        else updateFromMaster D devs s' pDev .pointer
      if call.rejected then (s'', [])
      else
        let type := match call.type with
          | .touchUpdate => EventType.touchUpdate
          | .touchEnd => .touchEnd
          | _ => .touchBegin
        let sent := if call.type = .touchEnd then touchEndDDXTouch s'' pDev call.ddxTouchid
          else s''
        (sent, changed ++ [.raw type pDev ti.clientId.toNat false,
          .touch type pDev ti.clientId call.flags ti.emulatePointer])

inductive GestureType
  | pinchBegin
  | pinchUpdate
  | pinchEnd
  | swipeBegin
  | swipeUpdate
  | swipeEnd
  | other
deriving DecidableEq

def GestureType.evtype : GestureType → Option EventType
  | .pinchBegin => some .gesturePinchBegin
  | .pinchUpdate => some .gesturePinchUpdate
  | .pinchEnd => some .gesturePinchEnd
  | .swipeBegin => some .gestureSwipeBegin
  | .swipeUpdate => some .gestureSwipeUpdate
  | .swipeEnd => some .gestureSwipeEnd
  | .other => none

def getGestureEvents (s : State) (pDev : Nat) (type : GestureType) (numTouches : Nat)
    (cancelled : Bool) : State × List InternalEvent :=
  let dev := devs pDev
  if !dev.enabled || !dev.gesture then (s, [])
  else
    let (s', changed) := if inputDevIsMaster D devs pDev then (s, [])
      else updateFromMaster D devs s pDev .pointer
    match type.evtype with
    | none => (s', [])
    | some evtype =>
      let ends := type == .pinchEnd || type == .swipeEnd
      (s', changed ++ [.gesture evtype pDev numTouches (ends && cancelled)])

def getMaximumEventsNum : Nat := 100

inductive PointerType
  | motionNotify
  | buttonPress
  | buttonRelease
  | other
deriving DecidableEq

def pointerRelative : BitVec 32 := 2
def pointerAbsolute : BitVec 32 := 4
def pointerNoraw : BitVec 32 := 32
def pointerEmulated : BitVec 32 := 64
def pointerRawonly : BitVec 32 := 256

/-- Where the sprite is and where a call of `fill_pointer_events` takes it, as
`miPointerSetPosition` hands it to `input_constrain_cursor`. -/
structure SpriteMove where
  pScreen : Screen
  currentX : Int
  currentY : Int
  destX : Int
  destY : Int

def PointerType.event : PointerType → EventType
  | .buttonPress => .buttonPress
  | .buttonRelease => .buttonRelease
  | _ => .motion

def fillRefused (pDev : Nat) (type : PointerType) (buttons : Nat)
    (maskIn : Option (ValuatorMask D.V)) : Bool :=
  let dev := devs pDev
  match type with
  | .motionNotify => dev.valuator.isNone || !maskIn.any fun mask => decide (0 < mask.numValuators)
  | .buttonPress | .buttonRelease => !dev.button || buttons == 0 ||
    (maskIn.any (fun mask => decide (0 < mask.size)) && dev.valuator.isNone)
  | .other => true

variable (g : Geometry)

/-- `positionSprite`: only a relative motion meets the barriers. -/
def positionSprite (s : State) (pDev : Nat) (ms : BitVec 32) (absolute : Bool) (move : SpriteMove) :
    Option (State × List InternalEvent) :=
  if absolute || !(devs pDev).valuator.any (fun v => decide (2 ≤ v.numAxes)) then some (s, [])
  else
    let owner := if inputDevIsFloating D devs pDev then none else getMaster D devs pDev .pointer
    (inputConstrainCursor g s.barriers.length s.barriers pDev owner move.pScreen ms move.currentX
      move.currentY move.destX move.destY).map fun r =>
      ({ s with barriers := r.clients }, r.events.map fun ev => .barrier ev.event)

def fillPointerEvents (s : State) (pDev : Nat) (type : PointerType) (buttons : Nat)
    (ms flags : BitVec 32) (maskIn : Option (ValuatorMask D.V)) (move : SpriteMove) :
    Option (State × List InternalEvent) :=
  if fillRefused D devs pDev type buttons maskIn then some (s, [])
  else
    let emulated := flags &&& pointerEmulated != 0
    let raw := if flags &&& pointerNoraw = 0 then
      [InternalEvent.raw type.event pDev buttons emulated] else []
    (positionSprite D devs g s pDev ms (flags &&& pointerAbsolute != 0) move).map
      fun (s', barriers) =>
      (s', raw ++ barriers ++ if flags &&& pointerRawonly = 0 then
        [.device type.event pDev (if type = .motionNotify then 0 else buttons) emulated] else [])

/-- One call of `GetPointerEvents`, with the floating point that it meets: `lastValuators` is
backed up before the first event is filled in, `newValuators` and `lastScroll` are what is found
after it, and `moves` are the motions of the sprite. -/
structure PointerCall where
  type : PointerType
  buttons : Nat
  flags : BitVec 32
  maskIn : Option (ValuatorMask D.V)
  ms : BitVec 32
  hasScreen : Bool
  lastValuators : Nat → D.V
  newValuators : Nat → D.V
  lastScroll : ValuatorMask D.V
  moves : Nat → SpriteMove

/-- The loop of `emulate_scroll_button_events`; `fills` counts the calls of
`fill_pointer_events` so far. -/
structure Scroll where
  state : State
  fills : Nat
  events : List InternalEvent
  lastScrollVal : D.V

def fillScroll (call : PointerCall D) (pDev b : Nat) (flags : BitVec 32) (type : PointerType)
    (l : Scroll D) : Option (Scroll D) :=
  (fillPointerEvents D devs g l.state pDev type b call.ms flags none (call.moves l.fills)).map
    fun (s, evs) =>
    { l with
      state := s
      fills := l.fills + 1
      events := l.events ++ evs }

def emulateStep (call : PointerCall D) (pDev b : Nat) (flags : BitVec 32) (type : PointerType)
    (l : Scroll D) : Option (Scroll D) :=
  (if type ≠ .buttonRelease then fillScroll D devs g call pDev b flags .buttonPress l
    else some l).bind fun l =>
  if type ≠ .buttonPress then fillScroll D devs g call pDev b flags .buttonRelease l else some l

/-- The loop after at most `fuel` rounds: one that goes on has written what it has by then. -/
def emulateLoop (call : PointerCall D) (pDev b : Nat) (flags : BitVec 32) (type : PointerType)
    (direction : Int) (incr currentVal : D.V) (maxEvents : Int) : Nat → Scroll D →
    Option (Scroll D)
  | 0, l => some l
  | fuel + 1, l =>
    let nextVal := D.add l.lastScrollVal (D.mul (D.ofInt direction) incr)
    let positive := D.lt (D.ofInt 0) incr
    let negative := D.lt incr (D.ofInt 0)
    if (((decide (direction > 0) && positive) || (decide (direction < 0) && negative)) &&
          D.lt currentVal nextVal) ||
        (((decide (direction > 0) && negative) || (decide (direction < 0) && positive)) &&
          D.lt nextVal currentVal) then some l
    else
      (if (l.events.length : Int) + 4 < maxEvents then
        emulateStep D devs g call pDev b flags type l else some l).bind fun l =>
      emulateLoop call pDev b flags type direction incr currentVal maxEvents fuel
        { l with lastScrollVal := nextVal }

/-- `fills` is the number of calls of `fill_pointer_events` that were made before. -/
def emulateScrollButtonEvents (fuel : Nat) (call : PointerCall D) (s : State) (pDev : Nat)
    (type : PointerType) (axis fills : Nat) (maxEvents : Int) : Option (State × Nat ×
    List InternalEvent) :=
  match (devs pDev).valuator with
  | none => some (s, fills, [])
  | some v =>
    let ax := v.axes axis
    let incr := ax.increment
    if ax.scrollType = .none || D.eq incr (D.ofInt 0) then some (s, fills, [])
    else
      let flags := if type ≠ .buttonPress ∧ type ≠ .buttonRelease then pointerEmulated else 0
      let lastScrollVal := (call.lastScroll.valuators axis).getD (D.ofInt 0)
      let currentVal := call.newValuators axis
      let lastVal := call.lastValuators axis
      let delta := D.sub currentVal lastScrollVal
      let direction : Int := if D.lt (D.ofInt 0) (D.mul delta incr) then 1 else -1
      let b := if ax.scrollType = .vertical then 5 else 7
      let b := if direction < 0 then b - 1 else b
      let lastScrollVal :=
        if (D.lt currentVal lastScrollVal && D.lt lastScrollVal lastVal) ||
            (D.lt lastVal lastScrollVal && D.lt lastScrollVal currentVal) then
          D.sub lastScrollVal (D.mul (D.ofInt direction) incr)
        else lastScrollVal
      (emulateLoop D devs g call pDev b flags type direction incr currentVal maxEvents fuel
        { state := s, fills := fills, events := [], lastScrollVal := lastScrollVal }).map fun l =>
        (l.state, l.fills, l.events)

def emulateAxes (fuel : Nat) (call : PointerCall D) (pDev : Nat) (type : PointerType)
    (mask : ValuatorMask D.V) : List Nat → State → Nat → List InternalEvent →
    Option (State × List InternalEvent)
  | [], s, _, events => some (s, events)
  | axis :: axes, s, fills, events =>
    if !mask.isset axis then emulateAxes fuel call pDev type mask axes s fills events
    else
      (emulateScrollButtonEvents D devs g fuel call s pDev type axis fills
        ((getMaximumEventsNum : Int) - events.length)).bind fun (s', fills', evs) =>
      emulateAxes fuel call pDev type mask axes s' fills' (events ++ evs)

def addToScrollValuator (mask : ValuatorMask D.V) (valuator : Nat) (value : D.V) :
    ValuatorMask D.V :=
  match mask.valuators valuator with
  | none => mask
  | some v =>
    let past := (D.lt (D.ofInt 0) value && D.lt (D.sub (D.ofInt 2147483647) value) v) ||
      (D.lt value (D.ofInt 0) && D.lt v (D.sub (D.ofInt (-2147483648)) value))
    mask.setDouble valuator (if past then D.ofInt 0 else D.add v value)

open ValuatorClass

def scrollAxis (v : Option (ValuatorClass D.V)) : PointerType → Nat → Option (Nat × Int)
  | .buttonPress, 4 => (v.bind vScrollAxis).map (·, -1)
  | .buttonPress, 5 => (v.bind vScrollAxis).map (·, 1)
  | .buttonPress, 6 => (v.bind hScrollAxis).map (·, -1)
  | .buttonPress, 7 => (v.bind hScrollAxis).map (·, 1)
  | _, _ => none

/-- What the first call of `fill_pointer_events` is given. -/
structure FirstFill where
  type : PointerType
  buttons : Nat
  flags : BitVec 32
  mask : ValuatorMask D.V

def firstFill (pDev : Nat) (call : PointerCall D) : FirstFill D :=
  let mask := call.maskIn.getD .zero
  match (devs pDev).valuator, scrollAxis D (devs pDev).valuator call.type call.buttons with
  | some v, some (axis, adj) =>
    let value := D.mul (D.ofInt adj) (v.axes axis).increment
    let mask := if mask.isset axis then mask else mask.setDouble axis (D.ofInt 0)
    { type := .motionNotify
      buttons := 0
      flags := call.flags ||| pointerEmulated
      mask := addToScrollValuator D mask axis value }
  | _, _ => { type := call.type, buttons := call.buttons, flags := call.flags, mask := mask }

/-- `fuel` bounds the rounds of each scroll loop. -/
def getPointerEvents (fuel : Nat) (s : State) (pDev : Nat) (call : PointerCall D) :
    Option (State × List InternalEvent) :=
  let dev := devs pDev
  if call.buttons ≥ maxButtons then some (s, [])
  else if !dev.enabled then some (s, [])
  else if !call.hasScreen then some (s, [])
  else
    let (s', changed) := updateFromMaster D devs s pDev .pointer
    let first := firstFill D devs pDev call
    (fillPointerEvents D devs g s' pDev first.type first.buttons call.ms first.flags
      (some first.mask) (call.moves 0)).bind fun (s'', evs) =>
    let axes := match dev.valuator with
      | none => []
      | some v => range (min first.mask.size v.numAxes)
    emulateAxes D devs g fuel call pDev call.type first.mask axes s'' 1 (changed ++ evs)

end

end Xfront.Events
