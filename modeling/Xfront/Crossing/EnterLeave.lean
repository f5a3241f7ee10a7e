import Xfront.Crossing.Story

/-!
# Enter and leave events

`DoEnterLeaveEvents` of `dix/enterleave.c`: the core events of a move, which depend on
where the other pointers are, and the XI2 events, which do not.
-/

namespace Xfront.Crossing

open Forests (Forest)

structure Device where
  id : Nat
  master : Bool
  pointer : Bool
  grabbed : Bool

section

variable {W : Type} [DecidableEq W] (f : Forest W)

section

variable (dev : Device) (pointerWindows : List (Option W)) (mode : Mode)

def hasPointer (win : W) : Bool :=
  if dev.grabbed then false else decide (some win ∈ pointerWindows)

def firstPointerChild (win : W) : Option W :=
  (pointerWindows.find? fun o => o.any (windowIsParent f win)).join

def pointerInside (win : W) : Bool :=
  hasPointer dev pointerWindows win || (firstPointerChild f pointerWindows win).isSome

def coreEnterNotifies (ancestor : Option W) (child : W) (detail : Detail) : List (Event W) :=
  enterNotifies (pointerInside f dev pointerWindows)
    (fun parent child => ⟨true, mode, detail, parent, some child⟩) ancestor child (f.up child)

def coreLeaveNotifies (child : W) (ancestor : Option W) (detail : Detail) : List (Event W) :=
  if ancestor = some child then []
  else
    leaveNotifies (pointerInside f dev pointerWindows)
      (fun win child => ⟨false, mode, detail, win, some child⟩) ancestor child (f.up child)

def coreWindow (into : Bool) (win : W) (detail : Detail) : List (Event W) :=
  if hasPointer dev pointerWindows win then []
  else if (firstPointerChild f pointerWindows win).isSome then
    [⟨into, mode, .inferior, win, none⟩]
  else [⟨into, mode, detail, win, none⟩]

def coreInferior (into : Bool) (win : W) : List (Event W) :=
  if hasPointer dev pointerWindows win then [] else [⟨into, mode, .inferior, win, none⟩]

def coreEnterLeaveNonLinear (A B : W) : List (Event W) :=
  let X := f.common A B
  coreWindow f dev pointerWindows mode false A .nonlinear ++
    coreLeaveNotifies f dev pointerWindows mode A X .nonlinearVirtual ++
    coreEnterNotifies f dev pointerWindows mode X B .nonlinearVirtual ++
    coreWindow f dev pointerWindows mode true B .nonlinear

def coreEnterLeaveToAncestor (A B : W) : List (Event W) :=
  coreWindow f dev pointerWindows mode false A .ancestor ++
    coreLeaveNotifies f dev pointerWindows mode A (some B) .virtual ++
    coreInferior dev pointerWindows mode true B

def coreEnterLeaveToDescendant (A B : W) : List (Event W) :=
  coreInferior dev pointerWindows mode false A ++
    coreEnterNotifies f dev pointerWindows mode (some A) B .virtual ++
    coreWindow f dev pointerWindows mode true B .ancestor

def coreEnterLeaveEvents (fromWin toWin : W) : List (Option W) × List (Event W) :=
  if !dev.master then (pointerWindows, [])
  else
    let left := pointerWindows.set dev.id none
    let events :=
      if windowIsParent f fromWin toWin then
        coreEnterLeaveToDescendant f dev left mode fromWin toWin
      else if windowIsParent f toWin fromWin then
        coreEnterLeaveToAncestor f dev left mode fromWin toWin
      else coreEnterLeaveNonLinear f dev left mode fromWin toWin
    (left.set dev.id (some toWin), events)

end

structure DeviceEvent (W : Type) where
  deviceid : Nat
  sourceid : Nat
  event : Event W

/-- `DeviceEnterLeaveEvent` says nothing of one half of a passive grab. -/
def deviceSends (mode : Mode) (into : Bool) : Bool :=
  !(decide (mode = .passiveGrab) && !into || decide (mode = .passiveUngrab) && into)

def deviceEnterNotifies (mode : Mode) (ancestor : Option W) (child : W) (detail : Detail) :
    List (Event W) :=
  enterNotifies (fun _ => false) (fun parent child => ⟨true, mode, detail, parent, some child⟩)
    ancestor child (f.up child)

def deviceLeaveNotifies (mode : Mode) (child : W) (ancestor : Option W) (detail : Detail) :
    List (Event W) :=
  if ancestor = some child then []
  else
    leaveNotifies (fun _ => false) (fun win child => ⟨false, mode, detail, win, some child⟩)
      ancestor child (f.up child)

def deviceEnterLeaveEvents (dev : Device) (sourceid : Nat) (fromWin toWin : W) (mode : Mode) :
    List (DeviceEvent W) :=
  let events :=
    if windowIsParent f fromWin toWin then
      [⟨false, mode, .inferior, fromWin, none⟩] ++
        deviceEnterNotifies f mode (some fromWin) toWin .virtual ++
        [⟨true, mode, .ancestor, toWin, none⟩]
    else if windowIsParent f toWin fromWin then
      [⟨false, mode, .ancestor, fromWin, none⟩] ++
        deviceLeaveNotifies f mode fromWin (some toWin) .virtual ++
        [⟨true, mode, .inferior, toWin, none⟩]
    else
      let common := f.common toWin fromWin
      [⟨false, mode, .nonlinear, fromWin, none⟩] ++
        deviceLeaveNotifies f mode fromWin common .nonlinearVirtual ++
        deviceEnterNotifies f mode common toWin .nonlinearVirtual ++
        [⟨true, mode, .nonlinear, toWin, none⟩]
  (events.filter fun e => deviceSends mode e.into).map fun e => ⟨dev.id, sourceid, e⟩

structure Move (W : Type) where
  dev : Device
  sourceid : Nat
  fromWin : W
  toWin : W
  mode : Mode

structure Sent (W : Type) where
  core : List (Event W)
  device : List (DeviceEvent W)

def doEnterLeaveEvents (pointerWindows : List (Option W)) (m : Move W) :
    List (Option W) × Sent W :=
  if !m.dev.pointer then (pointerWindows, ⟨[], []⟩)
  else if m.fromWin = m.toWin then (pointerWindows, ⟨[], []⟩)
  else
    let core :=
      if m.mode ≠ .passiveGrab ∧ m.mode ≠ .passiveUngrab then
        coreEnterLeaveEvents f m.dev pointerWindows m.mode m.fromWin m.toWin
      else (pointerWindows, [])
    (core.1, ⟨core.2, deviceEnterLeaveEvents f m.dev m.sourceid m.fromWin m.toWin m.mode⟩)

end

end Xfront.Crossing
