import Xfront.Lib.Run
import Xfront.Resource.Model

/-!
# Touch points and their listeners (dix/touch.c)

A touch point has an array of listeners, some with a copy of the grab they listen for. A
copy is known by its number among those that `AllocGrab` made for the touch; the outcomes of
allocations are arguments.
-/

namespace Xfront.Touch
open Resource (XID)

abbrev GrabCopy := Nat

inductive InputLevel
  | core | xi | xi2
  deriving DecidableEq

inductive TouchListenerType
  | grab | pointerGrab | regular | pointerRegular
  deriving DecidableEq

inductive TouchListenerState
  | awaitingBegin | awaitingOwner | earlyAccept | isOwner | hasAccepted | hasEnd
  deriving DecidableEq

structure TouchListener where
  listener : XID
  resourceType : Nat
  type : TouchListenerType
  state : TouchListenerState
  level : InputLevel
  window : Nat
  grab : Option GrabCopy
  deriving DecidableEq

/-- `listeners` are the first `num_listeners` of the array, or `NULL`. -/
structure TouchPointInfo where
  clientId : BitVec 32 := 0
  sourceid : Nat := 0
  active : Bool := false
  pendingFinish : Bool := false
  emulatePointer : Bool := false
  spriteTraceGood : Nat := 0
  listeners : Option (List TouchListener) := none
  numGrabs : Int := 0

namespace TouchPointInfo
variable (ti : TouchPointInfo)

def current : List TouchListener := ti.listeners.getD []

def numListeners : Nat := ti.current.length

/-- `none` is a write through `NULL`. What `AllocGrab` gives is `copy`. -/
def touchAddListener (resource : XID) (resourceType : Nat) (level : InputLevel)
    (type : TouchListenerType) (state : TouchListenerState) (window : Nat) (grab : Bool)
    (copy : Option GrabCopy) : Option TouchPointInfo :=
  let g := if grab then copy else none
  match ti.listeners with
  | none => none
  | some listeners => some { ti with
      listeners := some (listeners ++ [⟨resource, resourceType, type, state, level, window, g⟩])
      numGrabs := if grab then ti.numGrabs + 1 else ti.numGrabs }

def touchRemoveListener (resource : XID) : Bool × TouchPointInfo × List GrabCopy :=
  match ti.current.find? fun l => l.listener = resource with
  | none => (false, ti, [])
  | some l =>
    let listeners := some (ti.current.eraseP fun l => l.listener = resource)
    match l.grab with
    | some copy => (true, { ti with listeners := listeners, numGrabs := ti.numGrabs - 1 }, [copy])
    | none => (true, { ti with listeners := listeners }, [])

/-- The loop that removes `listeners[0]` while `i` is below the number of listeners, which
gets smaller; the first number bounds the rounds. -/
def removeFirst : Nat → Nat → TouchPointInfo → TouchPointInfo × List GrabCopy
  | 0, _, ti => (ti, [])
  | rounds + 1, i, ti =>
    match ti.current with
    | [] => (ti, [])
    | first :: _ =>
      if i < ti.numListeners then
        let (_, ti, freed) := ti.touchRemoveListener first.listener
        let (ti, more) := removeFirst rounds (i + 1) ti
        (ti, freed ++ more)
      else (ti, [])

def touchEndTouch : TouchPointInfo × List GrabCopy :=
  let (ti, freed) := removeFirst ti.numListeners 0 ti
  ({ ti with
    active := false
    pendingFinish := false
    spriteTraceGood := 0
    listeners := none
    numGrabs := 0
    clientId := 0 }, freed)

def touchFreeTouchPoint : TouchPointInfo × List GrabCopy :=
  let (ti, freed) := if ti.active then ti.touchEndTouch else (ti, [])
  let (ti, more) := removeFirst ti.numListeners 0 ti
  ({ ti with listeners := none }, freed ++ more)

/-- The trace is built outside; `traced` is whether there was a sprite to copy. -/
def touchBuildSprite (spriteTraceGood : Nat) (traced allocated : Bool) : TouchPointInfo :=
  if ¬ traced then ti
  else if spriteTraceGood = 0 then { ti with spriteTraceGood := 0 }
  else if ¬ allocated then { ti with spriteTraceGood := 0, listeners := none }
  else { ti with spriteTraceGood := spriteTraceGood, listeners := some [] }

end TouchPointInfo

/-- Behind the two allocations `client_id` is -1. -/
def touchInitTouchPoint (allocated : Bool) : TouchPointInfo :=
  if allocated then { clientId := -1 } else {}

/-- A touch point, and since its touch began: how many copies were made, those that were
freed, the listeners that were added, and how many of them came with a grab that could not be
copied. -/
structure TouchRecord where
  info : TouchPointInfo
  made : Nat := 0
  freed : List GrabCopy := []
  added : List TouchListener := []
  failed : Nat := 0

namespace TouchRecord
variable (t : TouchRecord)

def begin (sourceid : Nat) (touchid : BitVec 32) (emulatePointer : Bool) : TouchRecord :=
  {
      info := { t.info with
      active := true
      clientId := touchid
      sourceid := sourceid
      emulatePointer := emulatePointer } }

def addListener (l : TouchListener) (grab allocated : Bool) : Option TouchRecord :=
  let copied := grab && allocated
  (t.info.touchAddListener l.listener l.resourceType l.level l.type l.state l.window grab
    (if allocated then some t.made else none)).map fun info =>
      { t with
        info := info
        made := if copied then t.made + 1 else t.made
        added := t.added ++ [{ l with grab := if copied then some t.made else none }]
        failed := if grab && !allocated then t.failed + 1 else t.failed }

def removeListener (resource : XID) : TouchRecord :=
  let (_, info, freed) := t.info.touchRemoveListener resource
  { t with info := info, freed := t.freed ++ freed }

def endTouch : TouchRecord :=
  let (info, freed) := t.info.touchEndTouch
  { t with info := info, freed := t.freed ++ freed }

def freeTouchPoint : TouchRecord :=
  let (info, freed) := t.info.touchFreeTouchPoint
  { t with info := info, freed := t.freed ++ freed }

end TouchRecord

def touchFindByClientID (touches : List TouchRecord) (clientId : BitVec 32) : Option TouchRecord :=
  touches.find? fun t => t.info.active ∧ t.info.clientId = clientId

/-- The array may be enlarged by one; the other outcome is that of `TouchInitTouchPoint`. -/
def touchBeginTouch (touches : List TouchRecord) (sourceid : Nat) (touchid : BitVec 32)
    (emulatePointer enlarged initialized : Bool) : List TouchRecord :=
  if (touchFindByClientID touches touchid).isSome then touches
  else
    match touches.findIdx? fun t => ¬ t.info.active with
    | some i => touches.modify i fun t => t.begin sourceid touchid emulatePointer
    | none =>
      if ¬ enlarged then touches
      else
        let t : TouchRecord := { info := touchInitTouchPoint initialized }
        touches ++ [if initialized then t.begin sourceid touchid emulatePointer else t]

inductive Call
  | beginTouch (sourceid : Nat) (touchid : BitVec 32)
      (emulatePointer enlarged initialized : Bool)
  | buildSprite (i : Nat) (spriteTraceGood : Nat) (traced allocated : Bool)
  | addListener (i : Nat) (l : TouchListener) (grab allocated : Bool)
  | removeListener (i : Nat) (resource : XID)
  | endTouch (i : Nat)
  | freeTouchPoint (i : Nat)

def atTouch (touches : List TouchRecord) (i : Nat) (f : TouchRecord → Option TouchRecord) :
    Option (List TouchRecord × Unit) :=
  match touches[i]? with
  | none => none
  | some t => (f t).map fun t => (touches.set i t, ())

/-- The sprite is built once, behind `TouchBeginTouch`; nothing is added through `NULL`. -/
def Call.step (touches : List TouchRecord) : Call → Option (List TouchRecord × Unit)
  | .beginTouch sourceid touchid emulatePointer enlarged initialized =>
    some (touchBeginTouch touches sourceid touchid emulatePointer enlarged initialized, ())
  | .buildSprite i spriteTraceGood traced allocated =>
    atTouch touches i fun t =>
      if t.info.active ∧ t.info.listeners = none then
        some { t with info := t.info.touchBuildSprite spriteTraceGood traced allocated }
      else none
  | .addListener i l grab allocated => atTouch touches i fun t => t.addListener l grab allocated
  | .removeListener i resource => atTouch touches i fun t => some (t.removeListener resource)
  | .endTouch i => atTouch touches i fun t => some t.endTouch
  | .freeTouchPoint i => atTouch touches i fun t => some t.freeTouchPoint

def initTouches (n : Nat) : List TouchRecord := List.replicate n { info := touchInitTouchPoint true }

end Xfront.Touch
