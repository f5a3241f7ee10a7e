import Xfront.Lib.Keyed

/-!
# Output properties

The properties of a RandR output as `Xext/randr/rrproperty.c` keeps them: each has a
current value and a pending one, and `RRPostPendingProperties` makes the pending values
current. Whether memory can be had and what the driver's hook answers come with the calls.
-/

namespace Xfront.Randr

open Keyed (lookup update erase)

abbrev Bytes := List (BitVec 8)

inductive Rc where
  | success
  | badValue
  | badMatch
  | badAccess
  | badAlloc
  deriving DecidableEq

structure PropertyValue where
  type : Nat
  format : Nat
  size : Nat
  data : Bytes
  deriving DecidableEq

structure Property where
  propertyName : Nat
  isPending : Bool
  range : Bool
  immutable : Bool
  validValues : List Int
  current : PropertyValue
  pending : PropertyValue
  deriving DecidableEq

structure Output where
  properties : List Property
  pendingProperties : Bool
  nonDesktop : Bool
  deriving DecidableEq

structure Memory where
  record : Bool
  data : Bool

def initOutputPropertyValue : PropertyValue := ⟨0, 0, 0, []⟩

def createOutputProperty (property : Nat) : Property :=
  ⟨property, false, false, false, [], initOutputPropertyValue, initOutputPropertyValue⟩

open Property

def queryOutputProperty (output : Output) (property : Nat) : Option Property :=
  lookup propertyName output.properties property

def deleteOutputProperty (output : Output) (property : Nat) : Output :=
  { output with properties := erase propertyName output.properties property }

def xaInteger : Nat := 19

/-- `non-desktop` is the first 32 bits of its value. -/
def noticePropertyChange (nonDesktopAtom : Nat) (output : Output) (property : Nat)
    (value : PropertyValue) : Output :=
  if property = nonDesktopAtom ∧ value.type = xaInteger ∧ value.format = 32 ∧ 1 ≤ value.size then
    { output with nonDesktop := (value.data.take 4).any (· ≠ 0) }
  else output

inductive PropMode where
  | replace
  | prepend
  | append
  deriving DecidableEq

/-- `accepts` is what the driver's `rrOutputSetProperty` answers, if it has one. -/
structure Change where
  property : Nat
  type : Nat
  format : Nat
  mode : PropMode
  len : Nat
  value : Bytes
  pending : Bool
  accepts : Bool
  memory : Memory

def Property.value (prop : Property) (pending : Bool) : PropertyValue :=
  if pending && prop.isPending then prop.pending else prop.current

def Property.setValue (prop : Property) (pending : Bool) (value : PropertyValue) : Property :=
  if pending && prop.isPending then { prop with pending := value }
  else { prop with current := value }

/-- The value after a change, with the data that `memcpy` puts together. -/
def newValue (old : PropertyValue) (type format : Nat) (mode : PropMode) (len : Nat)
    (value : Bytes) : PropertyValue :=
  let sizeInBytes := format / 8
  match mode with
  | .replace => ⟨type, format, len, value.take (len * sizeInBytes)⟩
  | .append => ⟨type, format, old.size + len,
      old.data.take (old.size * sizeInBytes) ++ value.take (len * sizeInBytes)⟩
  | .prepend => ⟨type, format, old.size + len,
      value.take (len * sizeInBytes) ++ old.data.take (old.size * sizeInBytes)⟩

/-- The end of a successful change of `prop`, whose record already has its value. -/
def finishChange (nonDesktopAtom : Nat) (output : Output) (pending : Bool) (prop : Property) :
    Output :=
  if pending && prop.isPending then { output with pendingProperties := true }
  else noticePropertyChange nonDesktopAtom output prop.propertyName (prop.value pending)

def changeOutputProperty (nonDesktopAtom : Nat) (output : Output) (stuff : Change) :
    Output × Rc :=
  let found := queryOutputProperty output stuff.property
  let add := found.isNone
  let mode := if add then .replace else stuff.mode
  if add && !stuff.memory.record then (output, .badAlloc)
  else
    let prop := found.getD (createOutputProperty stuff.property)
    let old := prop.value stuff.pending
    if stuff.format ≠ old.format ∧ mode ≠ .replace then (output, .badMatch)
    else if old.type ≠ stuff.type ∧ mode ≠ .replace then (output, .badMatch)
    else if mode = .replace ∨ 0 < stuff.len then
      let new := newValue old stuff.type stuff.format mode stuff.len stuff.value
      if !stuff.memory.data ∧ new.size ≠ 0 ∧ stuff.format / 8 ≠ 0 then (output, .badAlloc)
      else if stuff.pending && !stuff.accepts then (output, .badValue)
      else
        let prop := prop.setValue stuff.pending new
        let properties :=
          if add then prop :: output.properties
          else update propertyName (·.setValue stuff.pending new) stuff.property
            output.properties
        (finishChange nonDesktopAtom { output with properties } stuff.pending prop, .success)
    else (finishChange nonDesktopAtom output stuff.pending prop, .success)

def PropertyValue.same (pending current : PropertyValue) : Bool :=
  pending.type = current.type && pending.format = current.format &&
    pending.size = current.size &&
    pending.data.take (pending.size * (pending.format / 8)) =
      current.data.take (pending.size * (pending.format / 8))

def Property.postChange (memory : Nat → Bool) (prop : Property) : Change where
  property := prop.propertyName
  type := prop.pending.type
  format := prop.pending.format
  mode := .replace
  len := prop.pending.size
  value := prop.pending.data
  pending := false
  accepts := true
  memory := ⟨true, memory prop.propertyName⟩

def postProperties (nonDesktopAtom : Nat) (memory : Nat → Bool) :
    List Nat → Output → Output × List (Nat × Rc)
  | [], output => (output, [])
  | name :: names, output =>
    match queryOutputProperty output name with
    | none => postProperties nonDesktopAtom memory names output
    | some property =>
      if !property.isPending then postProperties nonDesktopAtom memory names output
      else if property.pending.same property.current then
        postProperties nonDesktopAtom memory names output
      else
        let (output, rc) := changeOutputProperty nonDesktopAtom output (property.postChange memory)
        let (output, posted) := postProperties nonDesktopAtom memory names output
        (output, (name, rc) :: posted)

/-- `memory` is whether there is some for the data of a property. -/
def postPendingProperties (nonDesktopAtom : Nat) (output : Output) (memory : Nat → Bool) :
    Output × List (Nat × Rc) :=
  if !output.pendingProperties then (output, [])
  else postProperties nonDesktopAtom memory (output.properties.map propertyName)
    { output with pendingProperties := false }

structure Configure where
  property : Nat
  pending : Bool
  range : Bool
  immutable : Bool
  values : List Int
  memory : Memory

def Property.configure (prop : Property) (stuff : Configure) : Property :=
  { prop with
    -- a property that is no longer pending loses its pending value
    pending := if prop.isPending && !stuff.pending then initOutputPropertyValue else prop.pending
    isPending := stuff.pending
    range := stuff.range
    immutable := stuff.immutable
    validValues := stuff.values }

def configureOutputProperty (output : Output) (stuff : Configure) : Output × Rc :=
  let found := queryOutputProperty output stuff.property
  let add := found.isNone
  let prop := found.getD (createOutputProperty stuff.property)
  if add && !stuff.memory.record then (output, .badAlloc)
  else if !add && (prop.immutable && !stuff.immutable) then (output, .badAccess)
  else if stuff.range && stuff.values.length % 2 = 1 then (output, .badMatch)
  else if stuff.values ≠ [] ∧ !stuff.memory.data then (output, .badAlloc)
  else
    let properties :=
      if add then prop.configure stuff :: output.properties
      else update propertyName (·.configure stuff) stuff.property output.properties
    ({ output with properties }, .success)

inductive Call where
  | change (stuff : Change)
  | post (memory : Nat → Bool)
  | configure (stuff : Configure)
  | delete (property : Nat)

/-- `posted` are the changes that a post has made or tried. -/
structure Result where
  rc : Rc
  posted : List (Nat × Rc)

def step (nonDesktopAtom : Nat) (output : Output) : Call → Output × Result
  | .change stuff =>
    let (output, rc) := changeOutputProperty nonDesktopAtom output stuff
    (output, ⟨rc, []⟩)
  | .post memory =>
    let (output, posted) := postPendingProperties nonDesktopAtom output memory
    (output, ⟨.success, posted⟩)
  | .configure stuff =>
    let (output, rc) := configureOutputProperty output stuff
    (output, ⟨rc, []⟩)
  | .delete property => (deleteOutputProperty output property, ⟨.success, []⟩)

def newOutput : Output := ⟨[], false, false⟩

end Xfront.Randr
