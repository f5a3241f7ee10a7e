import Xfront.Resource.Model
import Xfront.Touch.Model

/-!
# Passive grabs of a window (dix/grabs.c)

Details with their masks, the comparisons of grabs, and the two functions that change the
list of a window. A grab of the list is known by its resource. The outcomes of allocations
and the ids that `FakeClientID` gives are arguments.
-/

namespace Xfront.Grabs
open BitVec
open Resource (XID Limits)
open Touch (InputLevel)

def anyKey : Nat := 0

def anyModifier (grabtype : InputLevel) : Nat := if grabtype = .xi2 then 2 ^ 31 else 2 ^ 15

def grabModeSync : Nat := 0

abbrev DetailMask := BitVec 256

def getBit (mask : DetailMask) (i : Nat) : Bool := mask.getLsbD i
def bitClear (mask : DetailMask) (i : Nat) : DetailMask := mask &&& ~~~twoPow 256 i

/-- `pMask` is `NULL` or what is left of any detail. -/
structure DetailRec where
  exact : Nat
  pMask : Option DetailMask
  deriving DecidableEq

abbrev XI2Mask := BitVec (258 * 5 * 8)

structure GrabRec where
  resource : XID
  device : Nat
  window : Nat
  ownerEvents : BitVec 1
  keyboardMode : BitVec 1
  pointerMode : BitVec 1
  grabtype : InputLevel
  type : BitVec 8
  modifiersDetail : DetailRec
  modifierDevice : Nat
  detail : DetailRec
  confineTo : Nat
  cursor : Nat
  eventMask : BitVec 32
  deviceMask : BitVec 32
  xi2mask : XI2Mask
  deriving DecidableEq

def isInGrabMask (firstDetail secondDetail : DetailRec) (exception : Nat) : Bool :=
  if firstDetail.exact = exception then
    match firstDetail.pMask with
    | none => true
    | some mask => if secondDetail.exact = exception then false else getBit mask secondDetail.exact
  else false

def identicalExactDetails (firstExact secondExact exception : Nat) : Bool :=
  if firstExact = exception ∨ secondExact = exception then false else firstExact = secondExact

def detailSupersedesSecond (firstDetail secondDetail : DetailRec) (exception : Nat) : Bool :=
  isInGrabMask firstDetail secondDetail exception ||
    identicalExactDetails firstDetail.exact secondDetail.exact exception

def grabSupersedesSecond (firstGrab secondGrab : GrabRec) : Bool :=
  let any := anyModifier firstGrab.grabtype
  if ¬ detailSupersedesSecond firstGrab.modifiersDetail secondGrab.modifiersDetail any then false
  else detailSupersedesSecond firstGrab.detail secondGrab.detail anyKey

/-- `inputInfo.all_devices` and `inputInfo.all_master_devices`. -/
def allDevices : Nat := 0
def allMasterDevices : Nat := 1

/-- The comparison of the devices; `isMaster` is `InputDevIsMaster`. -/
def devicesMatch (isMaster : Nat → Bool) (firstGrab secondGrab : GrabRec) (ignoreDevice : Bool) :
    Bool :=
  if firstGrab.grabtype = .xi2 then
    if firstGrab.device = allDevices ∨ secondGrab.device = allDevices then true
    else if firstGrab.device = allMasterDevices then
      secondGrab.device = allMasterDevices || isMaster secondGrab.device
    else if secondGrab.device = allMasterDevices then
      firstGrab.device = allMasterDevices || isMaster firstGrab.device
    else secondGrab.device = firstGrab.device
  else ignoreDevice || (firstGrab.device = secondGrab.device &&
    firstGrab.modifierDevice = secondGrab.modifierDevice)

def grabMatchesSecond (isMaster : Nat → Bool) (firstGrab secondGrab : GrabRec)
    (ignoreDevice : Bool) : Bool :=
  let any := anyModifier firstGrab.grabtype
  if firstGrab.grabtype ≠ secondGrab.grabtype then false
  else if ¬ devicesMatch isMaster firstGrab secondGrab ignoreDevice then false
  else if firstGrab.type ≠ secondGrab.type then false
  else if grabSupersedesSecond firstGrab secondGrab ∨ grabSupersedesSecond secondGrab firstGrab then
    true
  else if detailSupersedesSecond secondGrab.detail firstGrab.detail anyKey ∧
      detailSupersedesSecond firstGrab.modifiersDetail secondGrab.modifiersDetail any then true
  else if detailSupersedesSecond firstGrab.detail secondGrab.detail anyKey ∧
      detailSupersedesSecond secondGrab.modifiersDetail firstGrab.modifiersDetail any then true
  else false

def grabsAreIdentical (firstGrab secondGrab : GrabRec) : Bool :=
  let any := anyModifier firstGrab.grabtype
  if firstGrab.grabtype ≠ secondGrab.grabtype then false
  else if firstGrab.device ≠ secondGrab.device ∨
      firstGrab.modifierDevice ≠ secondGrab.modifierDevice ∨ firstGrab.type ≠ secondGrab.type then
    false
  else if ¬ (detailSupersedesSecond firstGrab.detail secondGrab.detail anyKey ∧
      detailSupersedesSecond secondGrab.detail firstGrab.detail anyKey) then false
  else if ¬ (detailSupersedesSecond firstGrab.modifiersDetail secondGrab.modifiersDetail any ∧
      detailSupersedesSecond secondGrab.modifiersDetail firstGrab.modifiersDetail any) then false
  else true

/-! ### `CreateGrab` (`grabs.c:218-256`) -/

structure GrabMask where
  core : BitVec 32
  xi2mask : Option XI2Mask

structure GrabParameters where
  ownerEvents : Nat
  thisDeviceMode : Nat
  otherDevicesMode : Nat
  modifiers : Nat

/-- What `AllocGrab` gives without a grab to copy. -/
def xi2maskNew : XI2Mask := 0

def xi2maskMerge (dest source : XI2Mask) : XI2Mask := dest ||| source

/-- `resource` is the id that `FakeClientID` gives for the client. The result is nothing where
a mask is read through a pointer that is none, and else the grab or `NULL`. -/
def createGrab (resource : XID) (device modDevice window : Nat) (grabtype : InputLevel)
    (mask : GrabMask) (param : GrabParameters) (eventType : Nat) (keybut : BitVec 8)
    (confineTo cursor : Nat) (allocated : Bool) : Option (Option GrabRec) :=
  if ¬ allocated then some none
  else
    let grab : GrabRec := {
      resource := resource
      device := device
      window := window
      eventMask := if grabtype = .core ∨ grabtype = .xi then mask.core else 0
      deviceMask := 0
      ownerEvents := BitVec.ofNat 1 param.ownerEvents
      keyboardMode := BitVec.ofNat 1 param.thisDeviceMode
      pointerMode := BitVec.ofNat 1 param.otherDevicesMode
      modifiersDetail := ⟨param.modifiers, none⟩
      modifierDevice := modDevice
      type := BitVec.ofNat 8 eventType
      grabtype := grabtype
      detail := ⟨keybut.toNat, none⟩
      confineTo := confineTo
      cursor := cursor
      xi2mask := xi2maskNew }
    if grabtype = .xi2 then
      mask.xi2mask.map fun source => some { grab with xi2mask := xi2maskMerge grab.xi2mask source }
    else some (some grab)

/-! ### `DeletePassiveGrabFromList` (`grabs.c:574-701`) -/

def deleteDetailFromMask (detailMask : Option DetailMask) (detail : Nat) (allocated : Bool) :
    Option DetailMask :=
  if allocated then some (bitClear (detailMask.getD (allOnes 256)) detail) else none

/-- What the allocations for one grab of the list give, in the order in which they are made,
and the id of the grab that is split off. -/
structure Outcome where
  update : Bool
  grab : Bool
  id : XID
  modifiers : Bool
  optional : Bool
  resource : Bool

inductive Field
  | detail | modifiersDetail
  deriving DecidableEq

/-- `deletes`, `adds`, and `updates` with `details`. -/
structure Pending where
  deletes : List XID := []
  adds : List GrabRec := []
  updates : List (XID × Field × DetailMask) := []
  ok : Bool := true

def Pending.update (p : Pending) (resource : XID) (field : Field) (mask : Option DetailMask) :
    Pending :=
  match mask with
  | none => { p with ok := false }
  | some mask => { p with updates := p.updates ++ [(resource, field, mask)] }

/-- `(GrabMask *) &grab->eventMask`: behind the word there is the other mask, and no pointer. -/
def GrabRec.castMask (grab : GrabRec) : GrabMask := ⟨grab.eventMask, none⟩

def splitGrab (minuend grab : GrabRec) (o : Outcome) (p : Pending) : Option Pending :=
  let p := p.update grab.resource .detail
    (deleteDetailFromMask grab.detail.pMask minuend.detail.exact o.update)
  let param : GrabParameters := {
    ownerEvents := grab.ownerEvents.toNat
    thisDeviceMode := grab.keyboardMode.toNat
    otherDevicesMode := grab.pointerMode.toNat
    modifiers := anyModifier minuend.grabtype }
  (createGrab o.id grab.device grab.modifierDevice grab.window grab.grabtype grab.castMask param
    grab.type.toNat (BitVec.ofNat 8 minuend.detail.exact) grab.confineTo grab.cursor
    o.grab).map fun newGrab =>
      match newGrab with
      | none => { p with ok := false }
      | some newGrab =>
        match deleteDetailFromMask grab.modifiersDetail.pMask minuend.modifiersDetail.exact
            o.modifiers with
        | none => { p with ok := false }
        | some mask =>
          if ¬ o.optional then { p with ok := false }
          else if ¬ o.resource then { p with ok := false }
          else { p with adds := p.adds ++
            [{ newGrab with modifiersDetail := ⟨newGrab.modifiersDetail.exact, some mask⟩ }] }

def affects (L : Limits) (isMaster : Nat → Bool) (minuend grab : GrabRec) : Bool :=
  L.clientIdForXID grab.resource = L.clientIdForXID minuend.resource &&
    grabMatchesSecond isMaster grab minuend (grab.grabtype = .core)

def visitGrab (L : Limits) (isMaster : Nat → Bool) (minuend grab : GrabRec) (o : Outcome)
    (p : Pending) : Option Pending :=
  let any := anyModifier minuend.grabtype
  if ¬ affects L isMaster minuend grab then some p
  else if grabSupersedesSecond minuend grab then
    some { p with deletes := p.deletes ++ [grab.resource] }
  else if grab.detail.exact = anyKey ∧ grab.modifiersDetail.exact ≠ any then
    some (p.update grab.resource .detail
      (deleteDetailFromMask grab.detail.pMask minuend.detail.exact o.update))
  else if grab.modifiersDetail.exact = any ∧ grab.detail.exact ≠ anyKey then
    some (p.update grab.resource .modifiersDetail
      (deleteDetailFromMask grab.modifiersDetail.pMask minuend.modifiersDetail.exact o.update))
  else if minuend.detail.exact ≠ anyKey ∧ minuend.modifiersDetail.exact ≠ any then
    splitGrab minuend grab o p
  else if minuend.detail.exact = anyKey then
    some (p.update grab.resource .modifiersDetail
      (deleteDetailFromMask grab.modifiersDetail.pMask minuend.modifiersDetail.exact o.update))
  else
    some (p.update grab.resource .detail
      (deleteDetailFromMask grab.detail.pMask minuend.detail.exact o.update))

def visitGrabs (L : Limits) (isMaster : Nat → Bool) (minuend : GrabRec)
    (outcome : XID → Outcome) : List GrabRec → Pending → Option Pending
  | [], p => some p
  | grab :: rest, p =>
    if p.ok then
      (visitGrab L isMaster minuend grab (outcome grab.resource) p).bind
        (visitGrabs L isMaster minuend outcome rest)
    else some p

def applyUpdate (grab : GrabRec) (u : XID × Field × DetailMask) : GrabRec :=
  if grab.resource ≠ u.1 then grab
  else
    match u.2.1 with
    | .detail => { grab with detail := ⟨grab.detail.exact, some u.2.2⟩ }
    | .modifiersDetail =>
      { grab with modifiersDetail := ⟨grab.modifiersDetail.exact, some u.2.2⟩ }

/-- `FreeResource` of grabs, which takes them out of the list. -/
def freeGrabs (ids : List XID) (grabs : List GrabRec) : List GrabRec :=
  grabs.filter fun grab => grab.resource ∉ ids

def commit (p : Pending) (grabs : List GrabRec) : List GrabRec :=
  p.adds.reverse ++ (freeGrabs p.deletes grabs).map fun grab => p.updates.foldl applyUpdate grab

def deletePassiveGrabFromList (L : Limits) (isMaster : Nat → Bool) (minuend : GrabRec)
    (arrays : Bool) (outcome : XID → Outcome) (grabs : List GrabRec) :
    Option (Bool × List GrabRec) :=
  if grabs = [] then some (true, grabs)
  else if ¬ arrays then some (false, grabs)
  else
    (visitGrabs L isMaster minuend outcome grabs {}).map fun p =>
      if ¬ p.ok then (false, freeGrabs (p.adds.map GrabRec.resource) grabs)
      else (true, commit p grabs)

/-! ### `AddPassiveGrabToList` (`grabs.c:528-568`) -/

def success : Int := 0
def badAccess : Int := 10
def badAlloc : Int := 11

def conflicts (L : Limits) (isMaster : Nat → Bool) (newGrab : GrabRec) (grabs : List GrabRec) :
    Bool :=
  grabs.any fun grab => grabMatchesSecond isMaster newGrab grab (newGrab.grabtype = .core) &&
    L.clientIdForXID newGrab.resource ≠ L.clientIdForXID grab.resource

/-- `access` is the outcome of `dixCallDeviceAccessCallback` with the mode, which tells
whether the device may be frozen. -/
def addPassiveGrabToList (L : Limits) (isMaster : Nat → Bool) (newGrab : GrabRec)
    (access : Bool → Int) (arrays : Bool) (outcome : XID → Outcome) (optional resource : Bool)
    (grabs : List GrabRec) : Option (Int × List GrabRec) :=
  if conflicts L isMaster newGrab grabs then some (badAccess, grabs)
  else
    let freeze := newGrab.keyboardMode.toNat = grabModeSync ∨
      newGrab.pointerMode.toNat = grabModeSync
    let rc := access freeze
    if rc ≠ success then some (rc, grabs)
    else
      let removed := match grabs.find? (grabsAreIdentical newGrab) with
        | none => some grabs
        | some grab =>
          (deletePassiveGrabFromList L isMaster grab arrays outcome grabs).map Prod.snd
      removed.map fun grabs =>
        if ¬ optional then (badAlloc, grabs)
        else if ¬ resource then (badAlloc, freeGrabs [newGrab.resource] (newGrab :: grabs))
        else (success, newGrab :: grabs)

end Xfront.Grabs
