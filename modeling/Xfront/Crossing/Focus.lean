import Xfront.Crossing.Story

/-!
# Core focus events

`CoreFocusEvents` of `dix/enterleave.c`: a focus is a window, `PointerRoot` or `None`, and
six routines send the events of a move between them.
-/

namespace Xfront.Crossing

open Forests (Forest)

inductive FocusWin (W : Type) where
  | noneWin
  | pointerRoot
  | win (w : W)
  deriving DecidableEq

def FocusWin.window {W : Type} : FocusWin W → Option W
  | .win w => some w
  | _ => none

/-- A keyboard whose focus moves, with what the call reads: the master pointer that is
paired with it, the windows of the pointers, its own `focus->win` if it has a focus class,
and the root windows. -/
structure FocusMove (W : Type) where
  id : Nat
  master : Bool
  keyboard : Bool
  pointer : Nat
  pointerWindows : List (Option W)
  focus : Option (FocusWin W)
  roots : List W
  fromWin : FocusWin W
  toWin : FocusWin W
  mode : Mode

section

variable {W : Type} [DecidableEq W] (f : Forest W)

def focusEvent (into : Bool) (mode : Mode) (detail : Detail) (win : W) : Event W :=
  ⟨into, mode, detail, win, none⟩

section

variable (focusWindows : List (FocusWin W))

def hasFocus (win : W) : Bool := decide (.win win ∈ focusWindows)

def firstFocusChild (win : W) : Option W :=
  (focusWindows.find? fun o => o.window.any (windowIsParent f win)).bind FocusWin.window

def focusInside (win : W) : Bool :=
  hasFocus focusWindows win || (firstFocusChild f focusWindows win).isSome

end

section

variable (m : FocusMove W)

def FocusMove.pointerWin : Option W := m.pointerWindows[m.pointer]?.join

def coreFocusOutNotifyPointerEvents (pwinParent : W) (exclude : FocusWin W) (inclusive : Bool) :
    List (Event W) :=
  match m.pointerWin with
  | none => []
  | some P =>
    if !windowIsParent f pwinParent P && !(decide (pwinParent = P) && inclusive) then []
    else if exclude.window.any fun e => windowIsParent f e P || windowIsParent f P e then []
    else
      let stopAt := if inclusive then f.parent pwinParent else some pwinParent
      ((P :: f.up P).takeWhile fun win => decide (some win ≠ stopAt)).map
        (focusEvent false m.mode .pointer)

def coreFocusInRecurse (stopAt : W) (inclusive : Bool) : List W → List (Event W)
  | [] => []
  | win :: up =>
    if !inclusive && decide (win = stopAt) then []
    else coreFocusInRecurse stopAt inclusive up ++ [focusEvent true m.mode .pointer win]

def coreFocusInNotifyPointerEvents (pwinParent : W) (exclude : Option W) (inclusive : Bool) :
    List (Event W) :=
  match m.pointerWin with
  | none => []
  | some P =>
    if exclude = some P ∨ pwinParent ≠ P ∧ windowIsParent f pwinParent P = false then []
    else if exclude.any fun e => windowIsParent f e P || windowIsParent f P e then []
    else coreFocusInRecurse m pwinParent inclusive (P :: f.up P)

variable (focusWindows : List (FocusWin W))

def coreFocusInEvents (ancestor : Option W) (child : W) (detail : Detail) : List (Event W) :=
  enterNotifies (focusInside f focusWindows) (fun parent _ => focusEvent true m.mode detail parent)
    ancestor child (f.up child)

def coreFocusOutEvents (child : W) (ancestor : Option W) (detail : Detail) : List (Event W) :=
  if ancestor = some child then []
  else
    leaveNotifies (focusInside f focusWindows)
      (fun win _ => focusEvent false m.mode detail win) ancestor child (f.up child)

/-- The window that the focus leaves for one that is not below it, with the events that
go before: `below` when another focus is below the window, `alone` when none is. -/
def focusOutWindow (A : W) (detail : Detail) (below : W → List (Event W))
    (alone : List (Event W)) : List (Event W) :=
  if hasFocus focusWindows A then []
  else
    match firstFocusChild f focusWindows A with
    | some child => below child ++ [focusEvent false m.mode .inferior A]
    | none => alone ++ [focusEvent false m.mode detail A]

def focusInWindow (B : W) (detail : Detail) (below : W → List (Event W))
    (alone : List (Event W)) : List (Event W) :=
  if hasFocus focusWindows B then []
  else
    match firstFocusChild f focusWindows B with
    | some child => focusEvent true m.mode .inferior B :: below child
    | none => focusEvent true m.mode detail B :: alone

def coreFocusNonLinear (A B : W) : List (Event W) :=
  let X := f.common A B
  focusOutWindow f m focusWindows A .nonlinear
      (fun child => coreFocusOutNotifyPointerEvents f m A (.win child) false)
      (coreFocusOutNotifyPointerEvents f m A .noneWin false) ++
    coreFocusOutEvents f m focusWindows A X .nonlinearVirtual ++
    coreFocusInEvents f m focusWindows X B .nonlinearVirtual ++
    focusInWindow f m focusWindows B .nonlinear
      (fun child => coreFocusInNotifyPointerEvents f m B (some child) false)
      (coreFocusInNotifyPointerEvents f m B none false)

def coreFocusToAncestor (A B : W) : List (Event W) :=
  focusOutWindow f m focusWindows A .ancestor
      (fun child => coreFocusOutNotifyPointerEvents f m A (.win child) false) [] ++
    coreFocusOutEvents f m focusWindows A (some B) .virtual ++
    (if hasFocus focusWindows B then []
    else
      focusEvent true m.mode .inferior B :: coreFocusInNotifyPointerEvents f m B (some A) false)

def coreFocusToDescendant (A B : W) : List (Event W) :=
  (if hasFocus focusWindows A then []
    else
      coreFocusOutNotifyPointerEvents f m A (.win B) false ++
        [focusEvent false m.mode .inferior A]) ++
    coreFocusInEvents f m focusWindows (some A) B .virtual ++
    focusInWindow f m focusWindows B .ancestor
      (fun child => coreFocusInNotifyPointerEvents f m B (some child) false) []

def FocusMove.hasOtherPointer (win : W) : Bool :=
  (m.pointerWindows.set m.pointer none).any fun o => decide (o = some win)

/-- What a root is told of `PointerRoot` and `None`. -/
def pseudoDetail : FocusWin W → Detail
  | .noneWin => .detailNone
  | _ => .pointerRoot

def coreFocusPointerRootNoneSwitchScr (A B : FocusWin W) (root : W) : List (Event W) :=
  if m.hasOtherPointer root || (firstFocusChild f focusWindows root).isSome then []
  else
    (if m.focus = some .pointerRoot ∧ B ≠ .pointerRoot ∧
        m.pointerWin.any (windowIsParent f root) then
      coreFocusOutNotifyPointerEvents f m root .noneWin true
    else []) ++
    [focusEvent false m.mode (pseudoDetail A) root, focusEvent true m.mode (pseudoDetail B) root] ++
    (if B = .pointerRoot then coreFocusInNotifyPointerEvents f m root none true else [])

def coreFocusPointerRootNoneSwitch (A B : FocusWin W) : List (Event W) :=
  m.roots.flatMap (coreFocusPointerRootNoneSwitchScr f m focusWindows A B)

def coreFocusToPointerRootOrNoneScr (B : FocusWin W) (root : W) : List (Event W) :=
  if focusInside f focusWindows root then []
  else
    focusEvent true m.mode (pseudoDetail B) root ::
      (if B = .pointerRoot then coreFocusInNotifyPointerEvents f m root none true else [])

def coreFocusToPointerRootOrNone (A : W) (B : FocusWin W) : List (Event W) :=
  focusOutWindow f m focusWindows A .nonlinear
      (fun _ => coreFocusOutNotifyPointerEvents f m A B false)
      (coreFocusOutNotifyPointerEvents f m A .noneWin false) ++
    coreFocusOutEvents f m focusWindows A none .nonlinearVirtual ++
    m.roots.flatMap (coreFocusToPointerRootOrNoneScr f m focusWindows B)

def coreFocusFromPointerRootOrNoneScr (A : FocusWin W) (root : W) : List (Event W) :=
  if focusInside f focusWindows root then []
  else
    (if m.focus = some .pointerRoot ∧ m.pointerWin.isSome then
      coreFocusOutNotifyPointerEvents f m root .noneWin true
    else []) ++
    [focusEvent false m.mode (pseudoDetail A) root]

def rootOf (B : W) : W := (f.up B).getLastD B

def coreFocusFromPointerRootOrNone (A : FocusWin W) (B : W) : List (Event W) :=
  m.roots.flatMap (coreFocusFromPointerRootOrNoneScr f m focusWindows A) ++ (if B ≠ rootOf f B then
      focusEvent true m.mode .nonlinearVirtual (rootOf f B) ::
        coreFocusInEvents f m focusWindows (some (rootOf f B)) B .nonlinearVirtual
    else []) ++
    focusInWindow f m focusWindows B .nonlinear
      (fun child => coreFocusInNotifyPointerEvents f m B (some child) false)
      (coreFocusInNotifyPointerEvents f m B none false)

def coreFocusEvents : List (FocusWin W) × List (Event W) :=
  if !m.master then (focusWindows, [])
  else
    let left := focusWindows.set m.id .noneWin
    let events :=
      match m.fromWin, m.toWin with
      | .win A, .win B =>
        if windowIsParent f A B then coreFocusToDescendant f m left A B
        else if windowIsParent f B A then coreFocusToAncestor f m left A B
        else coreFocusNonLinear f m left A B
      | .win A, B => coreFocusToPointerRootOrNone f m left A B
      | A, .win B => coreFocusFromPointerRootOrNone f m left A B
      | A, B => coreFocusPointerRootNoneSwitch f m left A B
    (left.set m.id m.toWin, events)

def doFocusEvents : List (FocusWin W) × List (Event W) :=
  if !m.keyboard then (focusWindows, [])
  else if m.fromWin = m.toWin ∧ m.mode ≠ .grab ∧ m.mode ≠ .ungrab then (focusWindows, [])
  else coreFocusEvents f m focusWindows

end

end

end Xfront.Crossing
