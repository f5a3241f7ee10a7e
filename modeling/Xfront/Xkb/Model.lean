import Mathlib

/-!
# Keyboard descriptions

include/xkbstr.h: the parts of `XkbDescRec` that the keyboard requests read and write. Arrays
with one element for each keycode are functions of the keycode.
-/

namespace Xfront.Xkb

abbrev KeyCode := Nat

structure XkbModsRec where
  mask : BitVec 8
  realMods : BitVec 8
  vmods : BitVec 16
deriving DecidableEq

structure XkbKTMapEntryRec where
  active : Bool
  level : BitVec 8
  mods : XkbModsRec
deriving DecidableEq

/-- `map_count` is the length of `map`, and of `preserve` where that is not null. -/
structure XkbKeyTypeRec where
  mods : XkbModsRec
  numLevels : BitVec 8
  map : List XkbKTMapEntryRec
  preserve : Option (List XkbModsRec)
deriving DecidableEq

instance neZero_data : NeZero 7 := ⟨by decide⟩

structure XkbAction where
  type : BitVec 8
  data : Fin 7 → BitVec 8
deriving DecidableEq

structure XkbBehavior where
  type : BitVec 8
  data : BitVec 8
deriving DecidableEq

structure XkbSymMapRec where
  ktIndex : Fin 4 → BitVec 8
  groupInfo : BitVec 8
  width : BitVec 8
  offset : Nat
deriving DecidableEq

structure XkbClientMapRec where
  types : List XkbKeyTypeRec
  numSyms : Nat
  syms : List (BitVec 32)
  keySymMap : KeyCode → XkbSymMapRec
  modmap : KeyCode → BitVec 8

structure XkbServerMapRec where
  numActs : Nat
  acts : List XkbAction
  behaviors : KeyCode → XkbBehavior
  keyActs : KeyCode → Nat
  explicit : KeyCode → BitVec 8
  vmods : Fin 16 → BitVec 8
  vmodmap : KeyCode → BitVec 16

structure XkbControlsRec where
  numGroups : BitVec 8
  internal : XkbModsRec
  ignoreLock : XkbModsRec
deriving DecidableEq

/-- `indicators` are the modifiers of the indicator maps, `compat` those of the compat groups. -/
structure XkbDescRec where
  minKeyCode : KeyCode
  maxKeyCode : KeyCode
  ctrls : XkbControlsRec
  server : Option XkbServerMapRec
  map : Option XkbClientMapRec
  indicators : Option (Fin 32 → XkbModsRec)
  compat : Option (Fin 4 → XkbModsRec)

def numGroups (groupInfo : BitVec 8) : Nat := (groupInfo &&& 0x0f#8).toNat

def XkbSymMapRec.numSyms (m : XkbSymMapRec) : Nat := m.width.toNat * numGroups m.groupInfo

def XkbClientMapRec.keyNumSyms (map : XkbClientMapRec) (key : KeyCode) : Nat :=
  (map.keySymMap key).numSyms

def XkbServerMapRec.keyHasActions (server : XkbServerMapRec) (key : KeyCode) : Bool :=
  server.keyActs key != 0

def keyNumActions (server : XkbServerMapRec) (map : XkbClientMapRec) (key : KeyCode) : Nat :=
  if server.keyHasActions key then map.keyNumSyms key else 1

def XkbDescRec.keys (xkb : XkbDescRec) : List KeyCode :=
  List.range' xkb.minKeyCode (xkb.maxKeyCode + 1 - xkb.minKeyCode)

end Xfront.Xkb

/-!
## Virtual modifiers

Xext/xkeyboard/XKBMisc.c 650-856: `XkbVirtualModsToReal`, `XkbUpdateActionVirtualMods`,
`XkbUpdateKeyTypeVirtualMods` and `XkbApplyVirtualModChanges`.
-/

namespace Xfront.Xkb

/-- `XkbVirtualModsToReal`; without a server map nothing is bound. -/
def XkbDescRec.virtualModsToReal (xkb : XkbDescRec) (virtualMask : BitVec 16) : BitVec 8 :=
  match xkb.server with
  | none => 0
  | some server =>
    if virtualMask = 0 then 0
    else (List.finRange 16).foldl
      (fun mask (i : Fin 16) =>
        if virtualMask.getLsbD i then mask ||| server.vmods i else mask) 0

def saNoAction : BitVec 8 := 0x00#8
def saSetMods : BitVec 8 := 0x01#8
def saLatchMods : BitVec 8 := 0x02#8
def saLockMods : BitVec 8 := 0x03#8
def saISOLock : BitVec 8 := 0x0b#8

/-- The fields of `XkbModAction`: flags, mask, real_mods, vmods1, vmods2. -/
def XkbAction.modsMods (act : XkbAction) : XkbModsRec :=
  { mask := act.data 1, realMods := act.data 2, vmods := act.data 3 ++ act.data 4 }

/-- The fields of `XkbISOAction`: flags, mask, real_mods, group, affect, vmods1, vmods2. -/
def XkbAction.isoMods (act : XkbAction) : XkbModsRec :=
  { mask := act.data 1, realMods := act.data 2, vmods := act.data 5 ++ act.data 6 }

def XkbAction.withMask (act : XkbAction) (mask : BitVec 8) : XkbAction :=
  { act with data := Function.update act.data 1 mask }

def XkbAction.isMods (act : XkbAction) : Bool :=
  act.type = saSetMods || act.type = saLatchMods || act.type = saLockMods

/-- `XkbUpdateActionVirtualMods`: the action and whether it was updated. The test of an
`ISOLock` compares with 0 before it masks, so it asks for the lowest bit of `changed`. -/
def XkbDescRec.updateActionVirtualMods (xkb : XkbDescRec) (act : XkbAction)
    (changed : BitVec 16) : XkbAction × Bool :=
  if act.isMods then
    if act.modsMods.vmods &&& changed ≠ 0 then
      (act.withMask (act.modsMods.realMods ||| xkb.virtualModsToReal act.modsMods.vmods), true)
    else (act, false)
  else if act.type = saISOLock then
    if (if act.isoMods.vmods ≠ 0 then 1 else 0) &&& changed ≠ 0 then
      (act.withMask (act.isoMods.realMods ||| xkb.virtualModsToReal act.isoMods.vmods), true)
    else (act, false)
  else (act, false)

def XkbDescRec.resolveMods (xkb : XkbDescRec) (m : XkbModsRec) : XkbModsRec :=
  { m with mask := m.realMods ||| xkb.virtualModsToReal m.vmods }

def XkbDescRec.updateEntry (xkb : XkbDescRec) (entry : XkbKTMapEntryRec) : XkbKTMapEntryRec :=
  if entry.mods.vmods ≠ 0 then
    { entry with
      mods := xkb.resolveMods entry.mods
      active := xkb.virtualModsToReal entry.mods.vmods ≠ 0 }
  else { entry with active := true }

def XkbDescRec.updateKeyTypeVirtualMods (xkb : XkbDescRec) (type : XkbKeyTypeRec) :
    XkbKeyTypeRec :=
  { type with
    mods := xkb.resolveMods type.mods
    map := if type.mods.vmods ≠ 0 then type.map.map xkb.updateEntry else type.map }

/-- The key and the place in `acts` of every action of a key. -/
def XkbDescRec.actionSlots (xkb : XkbDescRec) : List (KeyCode × Nat) :=
  match xkb.server, xkb.map with
  | some server, some map =>
    xkb.keys.flatMap fun key =>
      if server.keyHasActions key then
        (List.range' (server.keyActs key) (keyNumActions server map key)).map fun j => (key, j)
      else []
  | _, _ => []

def XkbDescRec.refreshAction (xkb : XkbDescRec) (changed : BitVec 16) (act : XkbAction) :
    XkbAction × Bool :=
  if act.type ≠ saNoAction then xkb.updateActionVirtualMods act changed else (act, false)

/-- The modifiers of a control or an indicator, which are only looked at when they change. -/
def XkbDescRec.refreshMods (xkb : XkbDescRec) (changed : BitVec 16) (m : XkbModsRec) :
    XkbModsRec :=
  if changed &&& m.vmods ≠ 0 then xkb.resolveMods m else m

def XkbDescRec.refreshType (xkb : XkbDescRec) (changed : BitVec 16) (type : XkbKeyTypeRec) :
    XkbKeyTypeRec :=
  if type.mods.vmods &&& changed ≠ 0 then xkb.updateKeyTypeVirtualMods type else type

def XkbDescRec.refreshActs (xkb : XkbDescRec) (changed : BitVec 16) (acts : List XkbAction) :
    List XkbAction :=
  xkb.actionSlots.foldl
    (fun acts slot => acts.modify slot.2 fun act => (xkb.refreshAction changed act).1) acts

/-- The description after `XkbApplyVirtualModChanges`. -/
def XkbDescRec.applyVirtualModChanges (xkb : XkbDescRec) (changed : BitVec 16) : XkbDescRec :=
  match xkb.map with
  | none => xkb
  | some map =>
    if changed = 0 then xkb
    else
      { xkb with
        map := some { map with types := map.types.map (xkb.refreshType changed) }
        ctrls :=
          { xkb.ctrls with
            internal := xkb.refreshMods changed xkb.ctrls.internal
            ignoreLock := xkb.refreshMods changed xkb.ctrls.ignoreLock }
        indicators := xkb.indicators.map fun maps i => xkb.refreshMods changed (maps i)
        compat := xkb.compat.map fun groups i => xkb.resolveMods (groups i)
        server := xkb.server.map fun server =>
          { server with acts := xkb.refreshActs changed server.acts } }

end Xfront.Xkb
