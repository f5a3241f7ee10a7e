import Xfront.Lib.Bytes
import Xfront.Lib.Keyed

/-!
# Private storage

The private areas of the server's objects and the keys that name places in them, as
`dix/privates.c` hands them out. A key is known by the address of its record. A step that
an assertion stops has no result.
-/

namespace Xfront.Privates
open Function

open Bytes (Byte Block)

inductive PrivateType where
  | xselinux
  | screen
  | extension
  | colormap
  | device
  | client
  | property
  | selection
  | window
  | pixmap
  | gc
  | cursor
  | cursorBits
  | glyph
  | glyphSet
  | picture
  | syncFence
  deriving DecidableEq

/-- From `PRIVATE_XSELINUX` up to `PRIVATE_LAST`. -/
def privateTypes : List PrivateType :=
  [.xselinux, .screen, .extension, .colormap, .device, .client, .property, .selection, .window,
    .pixmap, .gc, .cursor, .cursorBits, .glyph, .glyphSet, .picture, .syncFence]

def xselinuxPrivate : PrivateType → Bool
  | .screen | .client | .window | .pixmap | .gc | .cursor | .colormap | .device | .extension
  | .selection | .property | .picture | .glyphSet => true
  | .xselinux | .cursorBits | .glyph | .syncFence => false

def screenSpecificPrivate : PrivateType → Bool
  | .window | .pixmap | .gc | .picture => true
  | _ => false

def allocatedEarly : PrivateType → Bool
  | .screen | .client | .extension | .colormap | .device => true
  | _ => false

structure Key where
  offset : Nat
  size : Nat
  initialized : Bool
  type : PrivateType

structure KeySet where
  keys : List Nat
  offset : Nat
  created : Nat

structure Screen where
  isGPU : Bool
  screenSpecificPrivates : PrivateType → KeySet

/-- `separate` objects have their privates from `dixAllocatePrivates`. `reached` tells that
the fixups find the object: it is a screen, an extension, an input device, the server client
or the default colormap of a screen. -/
structure Object where
  id : Nat
  type : PrivateType
  screen : Option Nat
  separate : Bool
  reached : Bool
  area : Block

structure State where
  keys : Nat → Key
  globalKeys : PrivateType → KeySet
  screens : List Screen
  objects : List Object

/-- What `malloc` gives: whether there is memory for an object, and what is in it. -/
structure Memory where
  enough : Nat → Bool
  junk : Nat → Nat → Byte

def reallocPrivates (area : Block) (oldOffset bytes : Nat) (junk : Nat → Byte) : Block :=
  (area.resize ((oldOffset + bytes) % 2 ^ 32) junk).clear oldOffset bytes

def movePrivates (area : Block) (newOffset bytes : Nat) : Block :=
  (area.moveUp bytes (newOffset - bytes)).clear 0 bytes

def screenSet (s : State) (screen : Nat) (type : PrivateType) : Option KeySet :=
  s.screens[screen]?.map fun pScreen => pScreen.screenSpecificPrivates type

def fixupOffset (s : State) (o : Object) : Nat :=
  match o.type with
  | .colormap => ((o.screen.bind fun i => screenSet s i .colormap).map KeySet.offset).getD 0
  | type => (s.globalKeys type).offset

def fixup (type : PrivateType) (f : Object → Option Block) : List Object → List Object × Bool
  | [] => ([], true)
  | o :: objects =>
    if o.type = type ∧ o.reached then
      match f o with
      | none => (o :: objects, false)
      | some area =>
        let (objects, ok) := fixup type f objects
        ({ o with area } :: objects, ok)
    else
      let (objects, ok) := fixup type f objects
      (o :: objects, ok)

def reallocFixup (s : State) (bytes : Nat) (memory : Memory) (o : Object) : Option Block :=
  if memory.enough o.id then
    some (reallocPrivates o.area (fixupOffset s o) bytes (memory.junk o.id))
  else none

def moveFixup (s : State) (bytes : Nat) (o : Object) : Option Block :=
  some (movePrivates o.area (fixupOffset s o) bytes)

def fixupRealloc (s : State) (type : PrivateType) (bytes : Nat) (memory : Memory) : State × Bool :=
  let (objects, ok) := fixup type (reallocFixup s bytes memory) s.objects
  ({ s with objects }, ok)

def fixupMove (s : State) (type : PrivateType) (bytes : Nat) : State :=
  { s with objects := (fixup type (moveFixup s bytes) s.objects).1 }

def growKey (bytes : Nat) (key : Key) : Key :=
  { key with offset := (key.offset + bytes) % 2 ^ 32 }

def growKeys (bytes : Nat) : List Nat → (Nat → Key) → (Nat → Key)
  | [], keys => keys
  | k :: ks, keys => growKeys bytes ks (update keys k (growKey bytes (keys k)))

def growOffset (bytes : Nat) (set : KeySet) : KeySet :=
  { set with offset := (set.offset + bytes) % 2 ^ 32 }

/-- `grow_private_set(&global_keys[type], bytes)`. -/
def growGlobalSet (s : State) (type : PrivateType) (bytes : Nat) : State :=
  { s with
    keys := growKeys bytes (s.globalKeys type).keys s.keys
    globalKeys := update s.globalKeys type (growOffset bytes (s.globalKeys type)) }

def Screen.grow (type : PrivateType) (bytes : Nat) (pScreen : Screen) : Screen :=
  { pScreen with
    screenSpecificPrivates := update pScreen.screenSpecificPrivates type
      (growOffset bytes (pScreen.screenSpecificPrivates type)) }

def growScreenSpecificSet (s : State) (type : PrivateType) (bytes : Nat) : State :=
  { s with
    keys := s.screens.foldl (fun keys pScreen =>
      growKeys bytes (pScreen.screenSpecificPrivates type).keys keys) s.keys
    screens := s.screens.map (Screen.grow type bytes) }

def paddedSize (size : Nat) : Nat :=
  ((if size = 0 then 8 else size) + 7) / 8 * 8 % 2 ^ 32

def makeRoom (s : State) (type : PrivateType) (bytes : Nat) (memory : Memory) :
    Option (State × Bool) :=
  if allocatedEarly type then some (fixupRealloc s type bytes memory)
  else if (s.globalKeys type).created ≠ 0 then none
  else some (s, true)

def makeRoomShared (bytes : Nat) (memory : Memory) :
    List PrivateType → State → Option (State × Bool)
  | [], s => some (s, true)
  | type :: types, s =>
    if xselinuxPrivate type then
      match makeRoom s type bytes memory with
      | none => none
      | some (s, false) => some (s, false)
      | some (s, true) => makeRoomShared bytes memory types s
    else makeRoomShared bytes memory types s

def moveUpType (bytes : Nat) (s : State) (type : PrivateType) : State :=
  let s := growScreenSpecificSet (growGlobalSet s type bytes) type bytes
  if allocatedEarly type then fixupMove s type bytes else s

def moveUpShared (bytes : Nat) : List PrivateType → State → State
  | [], s => s
  | type :: types, s =>
    moveUpShared bytes types (if xselinuxPrivate type then moveUpType bytes s type else s)

def setupKey (s : State) (key : Nat) (type : PrivateType) (size offset : Nat) : State :=
  { s with
    keys := update s.keys key ⟨offset, size, true, type⟩
    globalKeys := update s.globalKeys type
      { s.globalKeys type with keys := key :: (s.globalKeys type).keys } }

def registerPrivateKey (s : State) (key : Nat) (type : PrivateType) (size : Nat)
    (memory : Memory) : Option (State × Bool) :=
  if (s.keys key).initialized then
    if size = (s.keys key).size then some (s, true) else none
  else
    let bytes := paddedSize size
    if type = .xselinux then
      match makeRoomShared bytes memory privateTypes s with
      | none => none
      | some (s, false) => some (s, false)
      | some (s, true) => some (setupKey (moveUpShared bytes privateTypes s) key type size 0, true)
    else
      match makeRoom s type bytes memory with
      | none => none
      | some (s, false) => some (s, false)
      | some (s, true) =>
        let offset := (s.globalKeys type).offset
        let globalKeys :=
          update s.globalKeys type (growOffset bytes (s.globalKeys type))
        some (setupKey (growScreenSpecificSet { s with globalKeys } type bytes) key type size
          offset, true)

def registerScreenSpecificPrivateKey (s : State) (screen key : Nat) (type : PrivateType)
    (size : Nat) : Option State :=
  if !screenSpecificPrivate type then none
  else if (s.keys key).initialized then
    if size = (s.keys key).size then some s else none
  else
    match s.screens[screen]? with
    | none => none
    | some pScreen =>
      let set := pScreen.screenSpecificPrivates type
      if allocatedEarly type then none
      else if set.created ≠ 0 then none
      else
        let set' := { growOffset (paddedSize size) set with keys := key :: set.keys }
        let screenSpecificPrivates := update pScreen.screenSpecificPrivates type set'
        some { s with
          keys := update s.keys key ⟨set.offset, size, true, type⟩
          screens := s.screens.set screen { pScreen with screenSpecificPrivates } }

def KeySet.create (set : KeySet) : KeySet := { set with created := set.created + 1 }

def createdGlobal (globalKeys : PrivateType → KeySet) (type : PrivateType) :
    PrivateType → KeySet :=
  let globalKeys := update globalKeys type (globalKeys type).create
  if xselinuxPrivate type then
    update globalKeys .xselinux (globalKeys .xselinux).create
  else globalKeys

def privatesSize (s : State) (type : PrivateType) (screen : Option Nat) : Nat :=
  if screenSpecificPrivate type then
    match screen.bind fun i => screenSet s i type with
    | some set => set.offset
    | none => (s.globalKeys type).offset
  else (s.globalKeys type).offset

def Screen.create (type : PrivateType) (pScreen : Screen) : Screen :=
  { pScreen with
    screenSpecificPrivates := update pScreen.screenSpecificPrivates type
      (pScreen.screenSpecificPrivates type).create }

def createdScreens (screens : List Screen) (type : PrivateType) :
    Option Nat → List Screen
  | none => screens
  | some i =>
    if screenSpecificPrivate type then screens.modify i (Screen.create type) else screens

/-- A new object with zeroed privates. The objects that the fixups find are those of the
types that have one; colormaps are of a screen, and the default ones of GPU screens are not
found. -/
def createObject (s : State) (id : Nat) (type : PrivateType) (screen : Option Nat)
    (separate reached : Bool) : Option State :=
  let known := screen.all fun i => i < s.screens.length
  let found := separate && allocatedEarly type &&
    (type ≠ .colormap || (screen.bind fun i => s.screens[i]?).any fun pScreen => !pScreen.isGPU)
  if type = .xselinux ∨ !known ∨ (reached && !found) ∨ (Keyed.lookup Object.id s.objects id).isSome
  then none
  else
    let area := Block.zeroed (privatesSize s type screen)
    some { s with
      globalKeys := createdGlobal s.globalKeys type
      screens := createdScreens s.screens type screen
      objects := ⟨id, type, screen, separate, reached, area⟩ :: s.objects }

def KeySet.free (set : KeySet) : KeySet := { set with created := set.created - 1 }

def freedGlobal (globalKeys : PrivateType → KeySet) (type : PrivateType) :
    PrivateType → KeySet :=
  let globalKeys := update globalKeys type (globalKeys type).free
  if xselinuxPrivate type then
    update globalKeys .xselinux (globalKeys .xselinux).free
  else globalKeys

/-- `dixFreePrivates` counts an object without privates no less. -/
def freeObject (s : State) (id : Nat) : Option State :=
  (Keyed.lookup Object.id s.objects id).map fun o =>
    { s with
      globalKeys := if o.separate && o.area.size = 0 then s.globalKeys
        else freedGlobal s.globalKeys o.type
      objects := Keyed.erase Object.id s.objects id }

def addScreen (s : State) (isGPU : Bool) : State :=
  { s with screens := s.screens ++
      [⟨isGPU, fun type => ⟨[], (s.globalKeys type).offset, 0⟩⟩] }

def Key.storage (key : Key) : Nat := if key.size = 0 then 8 else key.size

def keysFor (s : State) (o : Object) : List Nat :=
  (if xselinuxPrivate o.type then (s.globalKeys .xselinux).keys else []) ++
    (s.globalKeys o.type).keys ++
    ((o.screen.bind fun i => screenSet s i o.type).map KeySet.keys).getD []

/-- Reads the storage of a key; an offset is an `int`. -/
def getPrivate (s : State) (o : Object) (key : Nat) : Option (List Byte) :=
  if !(s.keys key).initialized ∨ 2 ^ 31 ≤ (s.keys key).offset then none
  else o.area.read (s.keys key).offset (s.keys key).storage

def setPrivate (s : State) (id key : Nat) (val : List Byte) : Option State :=
  match Keyed.lookup Object.id s.objects id with
  | none => none
  | some o =>
    if !(s.keys key).initialized ∨ 2 ^ 31 ≤ (s.keys key).offset then none
    else if key ∉ keysFor s o ∨ val.length ≠ (s.keys key).storage then none
    else (o.area.write (s.keys key).offset val).map fun area =>
      { s with objects := Keyed.update Object.id (fun o => { o with area }) id s.objects }

inductive Action where
  | register (key : Nat) (type : PrivateType) (size : Nat) (memory : Memory)
  | registerScreenSpecific (screen key : Nat) (type : PrivateType) (size : Nat)
  | addScreen (isGPU : Bool)
  | create (id : Nat) (type : PrivateType) (screen : Option Nat) (separate reached : Bool)
  | free (id : Nat)
  | set (id key : Nat) (val : List Byte)

def step (s : State) : Action → Option (State × Bool)
  | .register key type size memory => registerPrivateKey s key type size memory
  | .registerScreenSpecific screen key type size =>
    (registerScreenSpecificPrivateKey s screen key type size).map fun s => (s, true)
  | .addScreen isGPU => some (addScreen s isGPU, true)
  | .create id type screen separate reached =>
    (createObject s id type screen separate reached).map fun s => (s, true)
  | .free id => (freeObject s id).map fun s => (s, true)
  | .set id key val => (setPrivate s id key val).map fun s => (s, true)

def start : State where
  keys _ := ⟨0, 0, false, .xselinux⟩
  globalKeys _ := ⟨[], 0, 0⟩
  screens := []
  objects := []

end Xfront.Privates
