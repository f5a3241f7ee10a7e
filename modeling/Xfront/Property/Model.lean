import Xfront.Lib.Bytes

/-!
# Window properties (dix/property.c)

The property list of a window, with the two requests that move bytes: `ProcGetProperty` and
`dixChangeWindowProperty`. Sizes and offsets have the widths of the code. Access hooks answer
with a status and do not replace the property; what they and the allocations answer is given.
-/

namespace Xfront.Property

open Bytes (Byte)

abbrev CARD32 := BitVec 32

def success : Nat := 0
def badValue : Nat := 2
def badAtom : Nat := 5
def badMatch : Nat := 8
def badAlloc : Nat := 11

def anyPropertyType : Nat := 0

structure PropertyRec where
  propertyName : Nat
  type : Nat
  format : Nat
  size : CARD32
  data : List Byte

structure PropertyRec.Stored (prop : PropertyRec) : Prop where
  format_mem : prop.format ∈ [8, 16, 32]
  data_length : prop.data.length = prop.size.toNat * (prop.format / 8)

structure AccessMode where
  read : Bool := false
  write : Bool := false
  blend : Bool := false
  destroy : Bool := false
  create : Bool := false
  post : Bool := false

def findProperty (properties : List PropertyRec) (name : Nat) : Option PropertyRec :=
  properties.find? fun prop => prop.propertyName = name

/-- `BadMatch` where there is no such property, and where the hook says so. -/
def dixLookupProperty (properties : List PropertyRec) (name : Nat) (mode : AccessMode)
    (hook : PropertyRec → AccessMode → Nat) : Nat × Option PropertyRec :=
  match findProperty properties name with
  | none => (badMatch, none)
  | some prop => (hook prop mode, some prop)

def removeProperty (properties : List PropertyRec) (name : Nat) : List PropertyRec :=
  properties.eraseP fun prop => prop.propertyName = name

/-! ### `ProcGetProperty` (`property.c:520-678`) -/

structure GetPropertyReq where
  property : Nat
  type : Nat
  delete : Nat
  longOffset : CARD32
  longLength : CARD32

structure GetPropertyReply where
  format : Nat
  propertyType : Nat
  bytesAfter : CARD32
  nItems : CARD32
  value : List Byte

inductive Answer
  | error (code : Nat)
  | reply (r : GetPropertyReply)

/-- What the rest of the server answers: which atoms are valid, the lookup of the window, the
access hook, and whether the reply gets its buffer. -/
structure Surroundings where
  validAtom : Nat → Bool
  lookupWindow : Nat
  hook : PropertyRec → AccessMode → Nat
  rpcbuf : Bool

/-- The part of a property that a request selects; nothing for `BadValue`. The shift and the
product of the request's members are done in 32 bits, the rest in 64. -/
def selectSlice (prop : PropertyRec) (longOffset longLength : CARD32) :
    Option (BitVec 64 × BitVec 64 × BitVec 64) :=
  let n := (BitVec.ofNat 32 (prop.format / 8) * prop.size).setWidth 64
  let ind := (longOffset <<< 2).setWidth 64
  if n < ind then none
  else
    let room := (4#32 * longLength).setWidth 64
    let len := if n - ind < room then n - ind else room
    some (n, ind, len)

def procGetProperty (env : Surroundings) (properties : List PropertyRec) (req : GetPropertyReq) :
    Answer × List PropertyRec :=
  if !env.validAtom req.property then (.error badAtom, properties)
  else if req.delete ≠ 0 ∧ req.delete ≠ 1 then (.error badValue, properties)
  else if req.type ≠ anyPropertyType ∧ !env.validAtom req.type then (.error badAtom, properties)
  else if env.lookupWindow ≠ success then (.error env.lookupWindow, properties)
  else
    let mode : AccessMode := { read := true, destroy := req.delete = 1 }
    match dixLookupProperty properties req.property mode env.hook with
    | (_, none) => (.reply ⟨0, 0, 0, 0, []⟩, properties)
    | (rc, some prop) =>
      if rc = badMatch then (.reply ⟨0, 0, 0, 0, []⟩, properties)
      else if rc ≠ success then (.error rc, properties)
      else if req.type ≠ prop.type ∧ req.type ≠ anyPropertyType then
        (.reply ⟨prop.format, prop.type, prop.size, 0, []⟩, properties)
      else
        match selectSlice prop req.longOffset req.longLength with
        | none => (.error badValue, properties)
        | some (n, ind, len) =>
          let bytesAfter := (n - (ind + len)).setWidth 32
          let unit := prop.format / 8
          let nItems := len.toNat / unit
          let value := (prop.data.drop ind.toNat).take (nItems * unit)
          if nItems ≠ 0 ∧ !env.rpcbuf then (.error badAlloc, properties)
          else
            (.reply ⟨prop.format, prop.type, bytesAfter, BitVec.ofNat 32 nItems, value⟩,
              if req.delete = 1 ∧ bytesAfter = 0 then removeProperty properties req.property
              else properties)

/-! ### `dixChangeWindowProperty` (`property.c:345-463`) -/

inductive Mode
  | replace
  | prepend
  | append
  deriving DecidableEq

structure Outcomes where
  hook : PropertyRec → AccessMode → Nat
  makeOptional : Bool
  property : Bool
  data : Bool

def totalSize (len sizeInBytes : Nat) : Int := (BitVec.ofNat 32 (len * sizeInBytes)).toInt

def callocData (allocated : Bool) (totalSize : Int) : Option (List Byte) :=
  if totalSize < 0 then none
  else if totalSize ≠ 0 ∧ !allocated then none
  else some (List.replicate totalSize.toNat 0)

/-- `memcpy` of `n` bytes to `off`; nothing where it would write past the buffer. -/
def memcpy (data : List Byte) (off : Nat) (value : List Byte) (n : Int) : Option (List Byte) :=
  if n < 0 ∨ data.length < off + n.toNat ∨ value.length < n.toNat then none
  else some (data.take off ++ value.take n.toNat ++ data.drop (off + n.toNat))

def updateProperty (name : Nat) (f : PropertyRec → PropertyRec) :
    List PropertyRec → List PropertyRec
  | [] => []
  | prop :: rest =>
    if prop.propertyName = name then f prop :: rest else prop :: updateProperty name f rest

/-- The new contents of a property that exists: an error, or the record before the check of its
contents. Nothing where memory would be overrun. -/
def newContents (prop : PropertyRec) (type format : Nat) (mode : Mode) (len : Nat)
    (value : List Byte) (allocated : Bool) : Option (Except Nat PropertyRec) :=
  let sizeInBytes := format / 8
  let total := totalSize len sizeInBytes
  -- the offset of the second part, and the bytes of the old data, are 32-bit products
  let oldSize := (prop.size * BitVec.ofNat 32 sizeInBytes).toNat
  match mode with
  | .replace =>
    match callocData allocated total with
    | none => some (.error badAlloc)
    | some data =>
      if total = 0 then
        some (.ok { prop with data := data, size := BitVec.ofNat 32 len, type := type, format := format })
      else
        (memcpy data 0 value total).map fun data =>
          .ok { prop with data := data, size := BitVec.ofNat 32 len, type := type, format := format }
  | .append =>
    if len = 0 then some (.ok prop)
    else if !allocated then some (.error badAlloc)
    else
      let data := List.replicate ((prop.size.toNat + len) * sizeInBytes) 0
      ((memcpy data 0 prop.data oldSize).bind fun data =>
        memcpy data oldSize value total).map fun data =>
          .ok { prop with data := data, size := prop.size + BitVec.ofNat 32 len }
  | .prepend =>
    if len = 0 then some (.ok prop)
    else if !allocated then some (.error badAlloc)
    else
      let data := List.replicate ((len + prop.size.toNat) * sizeInBytes) 0
      if total < 0 then none
      else
        ((memcpy data total.toNat prop.data oldSize).bind fun data =>
          memcpy data 0 value total).map fun data =>
            .ok { prop with data := data, size := prop.size + BitVec.ofNat 32 len }

def changeExisting (o : Outcomes) (properties : List PropertyRec) (prop : PropertyRec)
    (type format : Nat) (mode : Mode) (len : Nat) (value : List Byte) :
    Option (Nat × List PropertyRec) :=
  if format ≠ prop.format ∧ mode ≠ .replace then some (badMatch, properties)
  else if prop.type ≠ type ∧ mode ≠ .replace then some (badMatch, properties)
  else
    match newContents prop type format mode len value o.data with
    | none => none
    | some (.error rc) => some (rc, properties)
    | some (.ok changed) =>
      let checked : AccessMode := { write := mode = .replace, blend := mode ≠ .replace, post := true }
      if o.hook changed checked = success then
        some (success, updateProperty prop.propertyName (fun _ => changed) properties)
      else
        -- the saved record is put back
        some (o.hook changed checked, updateProperty prop.propertyName (fun _ => prop)
            (updateProperty prop.propertyName (fun _ => changed) properties))

def createProperty (o : Outcomes) (properties : List PropertyRec) (property type format len : Nat)
    (value : List Byte) : Option (Nat × List PropertyRec) :=
  let total := totalSize len (format / 8)
  if !o.makeOptional then some (badAlloc, properties)
  else if !o.property then some (badAlloc, properties)
  else
    match callocData o.data total with
    | none => some (badAlloc, properties)
    | some data =>
      (if total = 0 then some data else memcpy data 0 value total).map fun data =>
        let prop : PropertyRec := ⟨property, type, format, BitVec.ofNat 32 len, data⟩
        let created : AccessMode := { create := true, write := true }
        if o.hook prop created ≠ success then (o.hook prop created, properties)
        else (success, prop :: properties)

def dixChangeWindowProperty (o : Outcomes) (properties : List PropertyRec)
    (property type format : Nat) (mode : Mode) (len : Nat) (value : List Byte) :
    Option (Nat × List PropertyRec) :=
  let access : AccessMode := { write := mode = .replace, blend := mode ≠ .replace }
  match dixLookupProperty properties property access o.hook with
  | (_, none) => createProperty o properties property type format len value
  | (rc, some prop) =>
    if rc = badMatch then createProperty o properties property type format len value
    else if rc = success then changeExisting o properties prop type format mode len value
    else some (rc, properties)

end Xfront.Property
