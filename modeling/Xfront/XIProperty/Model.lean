import Mathlib

/-!
# Device properties

The properties of an input device as `Xext/xinput/xiproperty.c` keeps them, the handlers
that drivers register for them, and the requests of clients in their XI1 and XI2 forms.
A handler answers from the drivers' own state; what may fail is given with the request.
-/

namespace Xfront.XIProperty

abbrev Bytes := List (BitVec 8)

inductive Rc where
  | success
  | badValue
  | badAtom
  | badMatch
  | badAccess
  | badAlloc
  | badLength
  | code (n : Nat)
  deriving DecidableEq

structure PropertyValue where
  type : Nat
  format : Nat
  size : Nat
  data : Bytes
  deriving DecidableEq

structure Property where
  propertyName : Nat
  value : PropertyValue
  deletable : Bool
  deriving DecidableEq

structure Handler (σ : Type) where
  id : Nat
  setProperty : Option (σ → Nat → PropertyValue → Bool → σ × Rc)
  getProperty : Option (σ → Nat → σ × Rc)
  deleteProperty : Option (σ → Nat → σ × Rc)

structure Device (σ : Type) where
  properties : List Property
  handlers : List (Handler σ)
  driver : σ

inductive What where
  | created
  | modified
  | deleted
  deriving DecidableEq

inductive Event where
  | setAsked (handler property : Nat) (checkonly : Bool) (rc : Rc)
  | getAsked (handler property : Nat) (rc : Rc)
  | deleteAsked (handler property : Nat) (rc : Rc)
  | notify (property : Nat) (what : What)
  deriving DecidableEq

section

variable {σ : Type}

/-- Asks one handler after the other until one of them does not answer `Success`. -/
def askHandlers (ask : Handler σ → Option (σ → σ × Rc)) (event : Handler σ → Rc → Event) :
    List (Handler σ) → σ → σ × Rc × List Event
  | [], driver => (driver, .success, [])
  | handler :: handlers, driver =>
    match ask handler with
    | none => askHandlers ask event handlers driver
    | some call =>
      let (driver, rc) := call driver
      if rc ≠ .success then (driver, rc, [event handler rc])
      else
        let (driver, rc', log) := askHandlers ask event handlers driver
        (driver, rc', event handler rc :: log)

/-- The second pass over the `SetProperty` handlers, whose answers are ignored. -/
def tellHandlers (property : Nat) (value : PropertyValue) :
    List (Handler σ) → σ → σ × List Event
  | [], driver => (driver, [])
  | handler :: handlers, driver =>
    match handler.setProperty with
    | none => tellHandlers property value handlers driver
    | some call =>
      let (driver, rc) := call driver property value false
      let (driver, log) := tellHandlers property value handlers driver
      (driver, .setAsked handler.id property false rc :: log)

def xiFetchDeviceProperty (dev : Device σ) (property : Nat) : Option Property :=
  dev.properties.find? (·.propertyName = property)

def xiCreateDeviceProperty (property : Nat) : Property :=
  ⟨property, ⟨0, 0, 0, []⟩, true⟩

def unlink (dev : Device σ) (property : Nat) : Device σ :=
  { dev with properties := dev.properties.eraseP (·.propertyName = property) }

def xiDeleteDeviceProperty (dev : Device σ) (property : Nat) (fromClient : Bool) :
    Device σ × Rc × List Event :=
  match xiFetchDeviceProperty dev property with
  | none => (dev, .success, [])
  | some prop =>
    if fromClient && !prop.deletable then (dev, .badAccess, [])
    else
      let (driver, rc, log) := askHandlers
        (fun handler => handler.deleteProperty.map fun call driver => call driver prop.propertyName)
        (fun handler rc => .deleteAsked handler.id prop.propertyName rc) dev.handlers dev.driver
      if rc ≠ .success then ({ dev with driver }, rc, log)
      else
        (unlink { dev with driver } property, .success, log ++ [.notify prop.propertyName .deleted])

inductive PropMode where
  | replace
  | prepend
  | append
  deriving DecidableEq

def PropMode.ofWire (mode : Nat) : Option PropMode :=
  match mode with
  | 0 => some .replace
  | 1 => some .prepend
  | 2 => some .append
  | _ => none

structure Memory where
  record : Bool
  data : Bool

/-- The value after a change, with the data that `memcpy` puts together. -/
def newValue (old : PropertyValue) (type format : Nat) (mode : PropMode) (len : Nat)
    (value : Bytes) : PropertyValue :=
  let sizeInBytes := format / 8
  match mode with
  | .replace => ⟨type, format, len, value.take (len * sizeInBytes)⟩
  | .append => ⟨type, format, old.size + len,
      old.data.take (old.size * sizeInBytes) ++ value.take (len * sizeInBytes)⟩
  | .prepend => ⟨type, format, old.size + len,
      value.take (len * sizeInBytes) ++ old.data.take (old.size * sizeInBytes)⟩

/-- `*prop_value = new_value` for the listed property of a name. -/
def storeValue (property : Nat) (value : PropertyValue) : List Property → List Property
  | [] => []
  | prop :: properties =>
    if prop.propertyName = property then { prop with value } :: properties
    else prop :: storeValue property value properties

def commitProperty (dev : Device σ) (prop : Property) (add : Bool) (new : PropertyValue)
    (event : List Event) : Device σ × Rc × List Event :=
  let (driver, rc, checks) := askHandlers
    (fun handler => handler.setProperty.map fun call driver => call driver prop.propertyName new true)
    (fun handler rc => .setAsked handler.id prop.propertyName true rc) dev.handlers dev.driver
  if rc ≠ .success then ({ dev with driver }, rc, checks)
  else
    let (driver, told) := tellHandlers prop.propertyName new dev.handlers driver
    let properties :=
      if add then { prop with value := new } :: dev.properties
      else storeValue prop.propertyName new dev.properties
    ({ dev with
        properties
        driver }, .success, checks ++ told ++ event)

def xiChangeDeviceProperty (dev : Device σ) (property type format : Nat) (mode : PropMode)
    (len : Nat) (value : Bytes) (sendevent : Bool) (memory : Memory) :
    Device σ × Rc × List Event :=
  let found := xiFetchDeviceProperty dev property
  let add := found.isNone
  let mode := if add then .replace else mode
  if add && !memory.record then (dev, .badAlloc, [])
  else
    let prop := found.getD (xiCreateDeviceProperty property)
    let event := if sendevent then [.notify property (if add then .created else .modified)] else []
    if mode ≠ .replace ∧ format ≠ prop.value.format then (dev, .badMatch, [])
    else if mode ≠ .replace ∧ type ≠ prop.value.type then (dev, .badMatch, [])
    else if mode = .replace ∨ 0 < len then
      let new := newValue prop.value type format mode len value
      if !memory.data ∧ new.size ≠ 0 ∧ format / 8 ≠ 0 then (dev, .badAlloc, [])
      else commitProperty dev prop add new event
    else (dev, .success, event)

def xiGetDeviceProperty (dev : Device σ) (prop : Property) : σ × Rc × List Event :=
  askHandlers
    (fun handler => handler.getProperty.map fun call driver => call driver prop.propertyName)
    (fun handler rc => .getAsked handler.id prop.propertyName rc) dev.handlers dev.driver

structure GetReply where
  bytesAfter : BitVec 32
  type : Nat
  format : Nat
  nItems : BitVec 32
  length : BitVec 32
  data : Bytes

/-- What a request reads of a value; `none` if its offset is behind the end. The length is an `int`,
and nothing is written for a negative one. -/
def readValue (value : PropertyValue) (type : Nat) (offset length : BitVec 32) :
    Option GetReply :=
  if type ≠ value.type ∧ type ≠ 0 then
    some ⟨BitVec.ofNat 32 value.size, value.type, value.format, 0, 0, []⟩
  else
    let n := BitVec.ofNat 64 (value.format / 8 * value.size)
    let ind := (offset <<< 2).signExtend 64
    if n < ind then none
    else
      let limit := (4 * length).signExtend 64
      let len := if n - ind < limit then n - ind else limit
      some ⟨(n - (ind + len)).setWidth 32, value.type, value.format,
        if value.format = 0 then 0 else (len / BitVec.ofNat 64 (value.format / 8)).setWidth 32,
        len.setWidth 32, (value.data.drop ind.toNat).take (len.setWidth 32).toInt.toNat⟩

structure Failure where
  rc : Rc
  errorValue : Option Nat

/-- `get_property`: the drivers' state, what the handlers said, and the reply. -/
def getProperty (validAtom : Nat → Bool) (dev : Device σ) (property type delete : Nat)
    (offset length : BitVec 32) : σ × List Event × Except Failure GetReply :=
  if !validAtom property then (dev.driver, [], .error ⟨.badAtom, some property⟩)
  else if delete ≠ 1 ∧ delete ≠ 0 then (dev.driver, [], .error ⟨.badValue, some delete⟩)
  else if type ≠ 0 ∧ !validAtom type then (dev.driver, [], .error ⟨.badAtom, some type⟩)
  else
    match xiFetchDeviceProperty dev property with
    | none => (dev.driver, [], .ok ⟨0, 0, 0, 0, 0, []⟩)
    | some prop =>
      let (driver, rc, log) := xiGetDeviceProperty dev prop
      if rc ≠ .success then (driver, log, .error ⟨rc, some property⟩)
      else
        match readValue prop.value type offset length with
        | none => (driver, log, .error ⟨.badValue, some offset.toNat⟩)
        | some reply => (driver, log, .ok reply)

/-- `access` is what looking up the device for the client gives. -/
structure ChangeReq where
  access : Rc
  property : Nat
  type : Nat
  format : Nat
  mode : Nat
  nUnits : Nat
  rest : Bytes
  memory : Memory

structure DeleteReq where
  access : Rc
  property : Nat

structure GetReq where
  access : Rc
  property : Nat
  type : Nat
  delete : Nat
  longOffset : BitVec 32
  longLength : BitVec 32
  reply : Rc

structure Out where
  rc : Rc
  errorValue : Option Nat
  log : List Event
  reply : Option GetReply

def checkChangeProperty (validAtom : Nat → Bool) (property type format mode : Nat) :
    Option Failure :=
  if (PropMode.ofWire mode).isNone then some ⟨.badValue, some mode⟩
  else if format ≠ 8 ∧ format ≠ 16 ∧ format ≠ 32 then some ⟨.badValue, some format⟩
  else if !validAtom property then some ⟨.badAtom, some property⟩
  else if !validAtom type then some ⟨.badAtom, some type⟩
  else none

/-- `sizeof` of the change requests of both forms. -/
def sizeofChangeReq : Nat := 20

/-- `REQUEST_FIXED_SIZE` for a request with `rest` behind its fixed part. -/
def fixedSize (rest : Bytes) (n : Nat) : Bool :=
  let reqLen := sizeofChangeReq / 4 + rest.length / 4
  decide (sizeofChangeReq / 4 ≤ reqLen ∧ n / 4 < reqLen ∧ (sizeofChangeReq + n + 3) / 4 = reqLen)

def changeProperty (validAtom : Nat → Bool) (dev : Device σ) (stuff : ChangeReq) :
    Device σ × Out :=
  if stuff.access ≠ .success then (dev, ⟨stuff.access, none, [], none⟩)
  else
    match checkChangeProperty validAtom stuff.property stuff.type stuff.format stuff.mode with
    | some failure => (dev, ⟨failure.rc, failure.errorValue, [], none⟩)
    | none =>
      if (2 ^ 32 - 1 - sizeofChangeReq + 3) / 4 < stuff.nUnits then
        (dev, ⟨.badLength, none, [], none⟩)
      else if !fixedSize stuff.rest (stuff.nUnits * (stuff.format / 8)) then
        (dev, ⟨.badLength, none, [], none⟩)
      else
        let (dev, rc, log) := xiChangeDeviceProperty dev stuff.property stuff.type stuff.format
          ((PropMode.ofWire stuff.mode).getD .replace) stuff.nUnits stuff.rest true stuff.memory
        (dev, ⟨rc, if rc ≠ .success then some stuff.property else none, log, none⟩)

def procXChangeDeviceProperty (validAtom : Nat → Bool) (dev : Device σ) (stuff : ChangeReq) :
    Device σ × Out := changeProperty validAtom dev stuff

def procXIChangeProperty (validAtom : Nat → Bool) (dev : Device σ) (stuff : ChangeReq) :
    Device σ × Out := changeProperty validAtom dev stuff

def deleteProperty (validAtom : Nat → Bool) (dev : Device σ) (stuff : DeleteReq) :
    Device σ × Out :=
  if stuff.access ≠ .success then (dev, ⟨stuff.access, none, [], none⟩)
  else if !validAtom stuff.property then (dev, ⟨.badAtom, some stuff.property, [], none⟩)
  else
    let (dev, rc, log) := xiDeleteDeviceProperty dev stuff.property true
    (dev, ⟨rc, none, log, none⟩)

def procXDeleteDeviceProperty (validAtom : Nat → Bool) (dev : Device σ) (stuff : DeleteReq) :
    Device σ × Out := deleteProperty validAtom dev stuff

def procXIDeleteProperty (validAtom : Nat → Bool) (dev : Device σ) (stuff : DeleteReq) :
    Device σ × Out := deleteProperty validAtom dev stuff

def procXGetDeviceProperty (validAtom : Nat → Bool) (dev : Device σ) (stuff : GetReq) :
    Device σ × Out :=
  if stuff.access ≠ .success then (dev, ⟨stuff.access, none, [], none⟩)
  else
    match getProperty validAtom dev stuff.property stuff.type stuff.delete stuff.longOffset
      stuff.longLength with
    | (driver, log, .error failure) =>
      ({ dev with driver }, ⟨failure.rc, failure.errorValue, log, none⟩)
    | (driver, log, .ok reply) =>
      let gone := decide (stuff.delete ≠ 0 ∧ reply.bytesAfter = 0)
      let event := if gone then [.notify stuff.property .deleted] else []
      -- the property is unlinked here, not by XIDeleteDeviceProperty
      let dev := if gone then unlink { dev with driver } stuff.property else { dev with driver }
      (dev, ⟨stuff.reply, none, log ++ event, some reply⟩)

def procXIGetProperty (validAtom : Nat → Bool) (dev : Device σ) (stuff : GetReq) :
    Device σ × Out :=
  if stuff.access ≠ .success then (dev, ⟨stuff.access, none, [], none⟩)
  else
    match getProperty validAtom dev stuff.property stuff.type stuff.delete stuff.longOffset
      stuff.longLength with
    | (driver, log, .error failure) =>
      ({ dev with driver }, ⟨failure.rc, failure.errorValue, log, none⟩)
    | (driver, log, .ok reply) =>
      let gone := decide (stuff.delete ≠ 0 ∧ reply.bytesAfter = 0)
      let event := if gone ∧ reply.length ≠ 0 then [.notify stuff.property .deleted] else []
      if stuff.reply ≠ .success then
        ({ dev with driver }, ⟨stuff.reply, none, log ++ event, some reply⟩)
      else
        let dev := if gone then unlink { dev with driver } stuff.property else { dev with driver }
        (dev, ⟨.success, none, log ++ event, some reply⟩)

inductive Request where
  | xChange (stuff : ChangeReq)
  | xiChange (stuff : ChangeReq)
  | xDelete (stuff : DeleteReq)
  | xiDelete (stuff : DeleteReq)
  | xGet (stuff : GetReq)
  | xiGet (stuff : GetReq)

def step (validAtom : Nat → Bool) (dev : Device σ) : Request → Device σ × Out
  | .xChange stuff => procXChangeDeviceProperty validAtom dev stuff
  | .xiChange stuff => procXIChangeProperty validAtom dev stuff
  | .xDelete stuff => procXDeleteDeviceProperty validAtom dev stuff
  | .xiDelete stuff => procXIDeleteProperty validAtom dev stuff
  | .xGet stuff => procXGetDeviceProperty validAtom dev stuff
  | .xiGet stuff => procXIGetProperty validAtom dev stuff

end

end Xfront.XIProperty
