import Xfront.Lib.Bytes
import Xfront.Xkb.Model

/-!
# Setting the compatibility map

Xext/xkeyboard/xkb.c 2969-3187: `_XkbSetCompatMap` and `ProcXkbSetCompatMap`. The symbol
interpretations of a device are one array that a request splices, grows, truncates and compacts.
The request is applied to the keyboard it names and to the keyboards attached to it, one after
the other, from one buffer that is swapped in place.
-/

namespace Xfront.Xkb.CompatMap

open Xfront.Bytes List Function

def swapl (x : BitVec 32) : BitVec 32 := BitVec.ofNat 32 (bswap32 x.toNat)

def swaps (x : BitVec 16) : BitVec 16 := BitVec.ofNat 16 (bswap16 x.toNat)

structure XkbSymInterpretRec where
  sym : BitVec 32
  flags : BitVec 8
  matchOp : BitVec 8
  mods : BitVec 8
  virtualMod : BitVec 8
  act : XkbAction
deriving DecidableEq

/-- `sym_interpret`, of which the first `num_si` elements count; `size_si` is its length. -/
structure Interprets where
  symInterpret : List XkbSymInterpretRec
  numSi : Nat
  numSi_le : numSi ≤ symInterpret.length

def Interprets.sizeSi (si : Interprets) : Nat := si.symInterpret.length

def Interprets.list (si : Interprets) : List XkbSymInterpretRec :=
  si.symInterpret.take si.numSi

structure XkbCompatMapRec extends Interprets where
  groups : Fin 4 → XkbModsRec

structure View where
  interprets : List XkbSymInterpretRec
  groups : Fin 4 → XkbModsRec

def XkbCompatMapRec.view (compat : XkbCompatMapRec) : View :=
  { interprets := compat.list, groups := compat.groups }

structure XkbSymInterpretWireDesc where
  sym : BitVec 32
  mods : BitVec 8
  matchOp : BitVec 8
  virtualMod : BitVec 8
  flags : BitVec 8
  act : XkbAction
deriving DecidableEq

structure XkbModsWireDesc where
  mask : BitVec 8
  realMods : BitVec 8
  virtualMods : BitVec 16
deriving DecidableEq

/-- The header, with the fields that `ProcXkbSetCompatMap` swaps already swapped. Nothing swaps
`length`, it is as the server reads it. -/
structure XkbSetCompatMapReq where
  deviceSpec : Nat
  recomputeActions : Bool
  truncateSI : Bool
  groups : BitVec 8
  firstSI : Nat
  nSI : Nat
  length : Nat
deriving DecidableEq

def XkbSetCompatMapReq.selected (req : XkbSetCompatMapReq) : List (Fin 4) :=
  (finRange 4).filter fun i => req.groups.getLsbD i

def XkbSetCompatMapReq.nGroups (req : XkbSetCompatMapReq) : Nat := req.selected.length

structure Data where
  interprets : List XkbSymInterpretWireDesc
  mods : List XkbModsWireDesc
deriving DecidableEq

structure Data.Fits (data : Data) (req : XkbSetCompatMapReq) : Prop where
  interprets : data.interprets.length = req.nSI
  mods : data.mods.length = req.nGroups

def xkbUseCoreKbd : Nat := 0x0100
def noSymbol : BitVec 32 := 0
def xkbSIAnyOfOrNone : BitVec 8 := 1
def saXFree86Private : BitVec 8 := 0x86
def ushrtMax : Nat := 65535
def szXkbSetCompatMapReq : Nat := 16
def szXkbSymInterpretWireDesc : Nat := 16
def szXkbModsWireDesc : Nat := 4

def paddedSize (n : Nat) : Nat := (n + 3) / 4 * 4

inductive Status where
  | success
  | badAccess
  | badValue (errorValue : Option Nat)
  | badLength
  | badAlloc
  | badDevice
deriving DecidableEq

def errCode2 (a b : Nat) : Nat := a * 2 ^ 24 + b % 2 ^ 24

/-- A device and what the request asks of the code around it: the answer of the access hooks,
whether `reallocarray` finds memory for the array and what the added elements hold then, and the
masks of the groups after `XkbUpdateActions`, which may resolve their virtual modifiers again. -/
structure DeviceIntRec where
  id : Nat
  hasKey : Bool
  isMaster : Bool
  masterKeyboard : Option Nat
  access : Bool
  grows : Bool
  added : Nat → XkbSymInterpretRec
  vmods : Fin 16 → BitVec 8
  updateActions : View → Fin 4 → BitVec 8

def DeviceIntRec.maskForVMask (dev : DeviceIntRec) (vmask : BitVec 16) : BitVec 8 :=
  (finRange 16).foldl
    (fun mask (i : Fin 16) => if vmask.getLsbD i then mask ||| dev.vmods i else mask) 0

def XkbSymInterpretWireDesc.swap (wire : XkbSymInterpretWireDesc) : XkbSymInterpretWireDesc :=
  { wire with sym := swapl wire.sym }

def XkbModsWireDesc.swap (wire : XkbModsWireDesc) : XkbModsWireDesc :=
  { wire with virtualMods := swaps wire.virtualMods }

def Data.read (data : Data) (swapped : Bool) : Data :=
  if swapped then
    { interprets := data.interprets.map XkbSymInterpretWireDesc.swap
      mods := data.mods.map XkbModsWireDesc.swap }
  else data

def XkbSymInterpretWireDesc.broken (wire : XkbSymInterpretWireDesc) : Bool :=
  wire.sym = noSymbol && wire.matchOp = xkbSIAnyOfOrNone && wire.mods &&& 0xff = 0xff &&
    wire.act.type = saXFree86Private

def XkbSymInterpretWireDesc.interpret (wire : XkbSymInterpretWireDesc) : XkbSymInterpretRec :=
  { sym := wire.sym, flags := wire.flags, matchOp := wire.matchOp, mods := wire.mods
    virtualMod := wire.virtualMod, act := wire.act }

/-- The array, the place of `sym` in it and the number of interpretations skipped. -/
structure Cursor where
  symInterpret : List XkbSymInterpretRec
  sym : Nat
  skipped : Nat

def Cursor.store (c : Cursor) (wire : XkbSymInterpretWireDesc) : Cursor :=
  if wire.broken then { c with skipped := c.skipped + 1 }
  else
    { c with symInterpret := c.symInterpret.set c.sym wire.interpret, sym := c.sym + 1 }

def memmove (xs : List XkbSymInterpretRec) (dst src n : Nat) : List XkbSymInterpretRec :=
  xs.take dst ++ (xs.drop src).take n ++ xs.drop (dst + n)

def makeRoom (dev : DeviceIntRec) (req : XkbSetCompatMapReq) (si : Interprets) :
    Option Interprets :=
  if h : si.sizeSi < req.firstSI + req.nSI then
    if dev.grows then
      some
        { symInterpret := si.symInterpret ++
            (range (req.firstSI + req.nSI - si.sizeSi)).map dev.added
          numSi := req.firstSI + req.nSI
          numSi_le := by
            simp only [length_append, length_map, length_range]
            unfold Interprets.sizeSi at h ⊢
            omega }
    else none
  else if req.truncateSI ∨ si.numSi < req.firstSI + req.nSI then
    some { si with numSi := req.firstSI + req.nSI, numSi_le := Nat.le_of_not_lt h }
  else some si

@[simp] theorem Cursor.length_store (c : Cursor) (wire : XkbSymInterpretWireDesc) :
    (c.store wire).symInterpret.length = c.symInterpret.length := by
  unfold Cursor.store
  split
  · rfl
  · exact length_set

theorem length_foldl_store (wires : List XkbSymInterpretWireDesc) (c : Cursor) :
    (wires.foldl Cursor.store c).symInterpret.length = c.symInterpret.length := by
  induction wires generalizing c with
  | nil => rfl
  | cons wire wires ih => rw [foldl_cons, ih, Cursor.length_store]

theorem length_memmove (xs : List XkbSymInterpretRec) (dst src n : Nat) :
    (memmove xs dst src n).length =
      min dst xs.length + min n (xs.length - src) + (xs.length - (dst + n)) := by
  simp only [memmove, length_append, length_take, length_drop]

def storeInterprets (req : XkbSetCompatMapReq) (wires : List XkbSymInterpretWireDesc)
    (si : Interprets) : Interprets :=
  let c := wires.foldl Cursor.store ⟨si.symInterpret, req.firstSI, 0⟩
  have hlength : c.symInterpret.length = si.symInterpret.length := length_foldl_store wires _
  if c.skipped = 0 then
    { symInterpret := c.symInterpret, numSi := si.numSi
      numSi_le := by rw [hlength]; exact si.numSi_le }
  else if req.firstSI + req.nSI < si.numSi then
    { symInterpret := memmove c.symInterpret c.sym (c.sym + c.skipped)
        (si.numSi - req.firstSI - req.nSI)
      numSi := si.numSi - c.skipped
      numSi_le := by
        have hle := si.numSi_le
        rw [length_memmove, hlength]
        omega }
  else
    { symInterpret := c.symInterpret, numSi := si.numSi - c.skipped
      numSi_le := by
        have hle := si.numSi_le
        rw [hlength]
        omega }

def DeviceIntRec.group (dev : DeviceIntRec) (wire : XkbModsWireDesc) : XkbModsRec :=
  { mask := if wire.virtualMods ≠ 0 then wire.realMods ||| dev.maskForVMask wire.virtualMods
      else wire.realMods
    realMods := wire.realMods
    vmods := wire.virtualMods }

def setGroups (dev : DeviceIntRec) (req : XkbSetCompatMapReq) :
    List (Fin 4) → List XkbModsWireDesc → (Fin 4 → XkbModsRec) → Fin 4 → XkbModsRec
  | [], _, groups => groups
  | i :: is, mods, groups =>
    if req.groups.getLsbD i then
      match mods with
      | [] => groups
      | wire :: mods =>
        setGroups dev req is mods (update groups i (dev.group wire))
    else setGroups dev req is mods groups

structure State where
  compat : Nat → XkbCompatMapRec
  data : Data

def editInterprets (dev : DeviceIntRec) (req : XkbSetCompatMapReq)
    (wires : List XkbSymInterpretWireDesc) (si : Interprets)
    (hfirst : ¬((0 < req.nSI ∨ req.truncateSI) ∧ si.numSi < req.firstSI)) :
    Status × Interprets :=
  if 0 < req.nSI then
    if ushrtMax < req.firstSI + req.nSI then (.badValue none, si)
    else
      match makeRoom dev req si with
      | none => (.badAlloc, { symInterpret := [], numSi := 0, numSi_le := le_refl 0 })
      | some si => (.success, storeInterprets req wires si)
  else if htruncate : req.truncateSI then
    (.success, { si with
        numSi := req.firstSI
        numSi_le := by
          have hle := si.numSi_le
          have : ¬si.numSi < req.firstSI := fun h => hfirst ⟨Or.inr htruncate, h⟩
          omega })
  else (.success, si)

def XkbSetCompatMapReq.bytes (req : XkbSetCompatMapReq) : Nat :=
  szXkbSetCompatMapReq + req.nSI * szXkbSymInterpretWireDesc + req.nGroups * szXkbModsWireDesc

def setCompatMap (swapped : Bool) (req : XkbSetCompatMapReq) (dryRun : Bool)
    (dev : DeviceIntRec) (st : State) : Status × State :=
  let compat := st.compat dev.id
  if hfirst : (0 < req.nSI ∨ req.truncateSI) ∧ compat.numSi < req.firstSI then
    (.badValue (some (errCode2 0x02 compat.numSi)), st)
  else if req.bytes / 4 ≠ req.length then (.badLength, st)
  else if dryRun then (.success, st)
  else
    let edited := editInterprets dev req (st.data.read swapped).interprets compat.toInterprets hfirst
    if edited.1 ≠ .success then
      (edited.1, { st with
          compat := update st.compat dev.id { compat with toInterprets := edited.2 } })
    else
      let data := st.data.read swapped
      let groups := setGroups dev req (finRange 4) data.mods compat.groups
      let compat : XkbCompatMapRec := { toInterprets := edited.2, groups := groups }
      if paddedSize req.bytes / 4 ≠ req.length then
        (.badLength, { compat := update st.compat dev.id compat, data := data })
      else
        let compat :=
          if req.recomputeActions then
            { compat with
              groups := fun i =>
                { compat.groups i with mask := dev.updateActions compat.view i } }
          else compat
        (.success, { compat := update st.compat dev.id compat, data := data })

/-- The devices that a request for the core keyboard is applied to besides `dev`. -/
def attached (dev other : DeviceIntRec) : Bool :=
  other.id ≠ dev.id && other.hasKey && !other.isMaster && other.masterKeyboard = some dev.id

/-- The loop over the other devices; a device that the client may not manage is left out. -/
def setOthers (swapped : Bool) (req : XkbSetCompatMapReq) (dryRun : Bool) (dev : DeviceIntRec) :
    List DeviceIntRec → State → Status × State
  | [], st => (.success, st)
  | other :: others, st =>
    if attached dev other then
      if other.access then
        let r := setCompatMap swapped req dryRun other st
        if r.1 ≠ .success then r else setOthers swapped req dryRun dev others r.2
      else setOthers swapped req dryRun dev others st
    else setOthers swapped req dryRun dev others st

def setAll (swapped : Bool) (req : XkbSetCompatMapReq) (dryRun : Bool) (dev : DeviceIntRec)
    (devices : List DeviceIntRec) (st : State) : Status × State :=
  let r := setCompatMap swapped req dryRun dev st
  if r.1 ≠ .success then r
  else if req.deviceSpec = xkbUseCoreKbd then setOthers swapped req dryRun dev devices r.2
  else r

/-- `client` and `inputInfo.devices`; `kbd` is the device that `CHK_KBD_DEVICE` finds or the
error it returns. -/
structure Call where
  initialized : Bool
  swapped : Bool
  kbd : Except { status : Status // status ≠ .success } DeviceIntRec
  devices : List DeviceIntRec
  nodup : (devices.map DeviceIntRec.id).Nodup

def procXkbSetCompatMap (c : Call) (req : XkbSetCompatMapReq) (st : State) : Status × State :=
  if c.initialized then
    match c.kbd with
    | .error status => (status.1, st)
    | .ok dev =>
      let r := setAll c.swapped req true dev c.devices st
      if r.1 ≠ .success then r
      else setAll c.swapped req false dev c.devices r.2
  else (.badAccess, st)

def kept (wires : List XkbSymInterpretWireDesc) : List XkbSymInterpretRec :=
  (wires.filter fun wire => !wire.broken).map XkbSymInterpretWireDesc.interpret

def surgery (req : XkbSetCompatMapReq) (new old : List XkbSymInterpretRec) :
    List XkbSymInterpretRec :=
  old.take req.firstSI ++ new ++ if req.truncateSI then [] else old.drop (req.firstSI + req.nSI)

theorem length_kept_le (wires : List XkbSymInterpretWireDesc) :
    (kept wires).length ≤ wires.length := by
  rw [kept, length_map]
  exact length_filter_le _ _

theorem foldl_store (wires : List XkbSymInterpretWireDesc) (c : Cursor)
    (hroom : c.sym + wires.length ≤ c.symInterpret.length) : wires.foldl Cursor.store c =
      ⟨c.symInterpret.take c.sym ++ kept wires ++ c.symInterpret.drop (c.sym + (kept wires).length),
        c.sym + (kept wires).length, c.skipped + (wires.length - (kept wires).length)⟩ := by
  induction wires generalizing c with
  | nil => simp [kept]
  | cons wire wires ih =>
    have hle := length_kept_le wires
    simp only [length_cons] at hroom
    rw [foldl_cons, ih _ (by
      rw [Cursor.length_store]
      unfold Cursor.store
      split <;> dsimp only <;> omega)]
    unfold Cursor.store
    by_cases hbroken : wire.broken
    · have hkept : kept (wire :: wires) = kept wires := by simp [kept, hbroken]
      rw [if_pos hbroken, hkept, length_cons]
      dsimp only
      congr 1
      omega
    · have hkept : kept (wire :: wires) = wire.interpret :: kept wires := by
        simp [kept, hbroken]
      have hsym : c.sym < c.symInterpret.length := by omega
      have hset : c.symInterpret.set c.sym wire.interpret =
          c.symInterpret.take c.sym ++ wire.interpret :: c.symInterpret.drop (c.sym + 1) :=
        set_eq_take_append_cons_drop.trans (if_pos hsym)
      have htake : (c.symInterpret.set c.sym wire.interpret).take (c.sym + 1) =
          c.symInterpret.take c.sym ++ [wire.interpret] := by
        rw [hset, take_append, take_take, length_take]
        rw [show min (c.sym + 1) c.sym = c.sym by omega,
          show c.sym + 1 - min c.sym c.symInterpret.length = 1 by omega]
        rfl
      have hdrop (n : Nat) : (c.symInterpret.set c.sym wire.interpret).drop (c.sym + 1 + n) =
          c.symInterpret.drop (c.sym + 1 + n) := by
        exact drop_set_of_lt (by omega)
      rw [if_neg hbroken, hkept, length_cons, length_cons]
      rw [htake, hdrop, append_assoc, append_assoc, singleton_append, append_assoc, cons_append]
      rw [show c.sym + 1 + (kept wires).length = c.sym + ((kept wires).length + 1) by omega,
        show wires.length + 1 - ((kept wires).length + 1) = wires.length - (kept wires).length by
          omega]

theorem take_stored {xs new : List XkbSymInterpretRec} {first n : Nat} (h : first ≤ xs.length) :
    (xs.take first ++ new ++ xs.drop n).take (first + new.length) = xs.take first ++ new := by
  rw [take_append_of_le_length (by simp; omega)]
  exact take_of_length_le (by simp)

theorem drop_stored {xs new : List XkbSymInterpretRec} {first n : Nat} (h : first ≤ xs.length)
    (hn : first + new.length ≤ n) :
    (xs.take first ++ new ++ xs.drop (first + new.length)).drop n = xs.drop n := by
  have hlength : (xs.take first ++ new).length = first + new.length := by
    rw [length_append, length_take, min_eq_left h]
  rw [drop_append, hlength, drop_eq_nil_of_le (by omega), nil_append, drop_drop]
  congr 1
  omega

variable {req : XkbSetCompatMapReq} {wires : List XkbSymInterpretWireDesc}

theorem storeInterprets_list
    {si : Interprets} (hwires : wires.length = req.nSI) (hroom : req.firstSI + req.nSI ≤ si.numSi) :
    (storeInterprets req wires si).list =
      si.list.take req.firstSI ++ kept wires ++ si.list.drop (req.firstSI + req.nSI) := by
  have hnum := si.numSi_le
  have hk := length_kept_le wires
  have hfirst : req.firstSI ≤ si.symInterpret.length := by omega
  have htake : si.list.take req.firstSI = si.symInterpret.take req.firstSI := by
    rw [Interprets.list, take_take, min_eq_left (by omega)]
  have hdrop : si.list.drop (req.firstSI + req.nSI) =
      (si.symInterpret.drop (req.firstSI + req.nSI)).take
        (si.numSi - req.firstSI - req.nSI) := by
    rw [Interprets.list, drop_take, Nat.sub_sub]
  have hfold := foldl_store wires ⟨si.symInterpret, req.firstSI, 0⟩ (by dsimp only; omega)
  rw [htake, hdrop]
  unfold storeInterprets
  dsimp only
  split
  next hskipped =>
    -- nothing skipped, the elements behind are where they were
    simp only [hfold] at hskipped
    have hn : (kept wires).length = req.nSI := by omega
    simp only [Interprets.list, hfold]
    rw [take_append, hn, length_append, length_take, min_eq_left hfirst, hn, take_of_length_le (by
        rw [length_append, length_take, min_eq_left hfirst]
        omega), Nat.sub_sub]
  next hskipped =>
    simp only [hfold] at hskipped
    split
    next hmore =>
      simp only [Interprets.list, hfold, memmove]
      have hmoved : ((si.symInterpret.drop (req.firstSI + req.nSI)).take
          (si.numSi - req.firstSI - req.nSI)).length = si.numSi - req.firstSI - req.nSI := by
        rw [length_take, length_drop]
        omega
      rw [take_stored hfirst, show req.firstSI + (kept wires).length +
          (0 + (wires.length - (kept wires).length)) = req.firstSI + req.nSI by omega,
        drop_stored hfirst (by omega)]
      rw [take_append_of_le_length (by
        rw [length_append, hmoved, length_append, length_take, min_eq_left hfirst]
        omega)]
      exact take_of_length_le (by
        rw [length_append, hmoved, length_append, length_take, min_eq_left hfirst]
        omega)
    next hmore =>
      simp only [Interprets.list, hfold]
      rw [show si.numSi - (0 + (wires.length - (kept wires).length)) =
          req.firstSI + (kept wires).length by omega, take_stored hfirst,
        show si.numSi - req.firstSI - req.nSI = 0 by omega, take_zero, append_nil]

variable {dev : DeviceIntRec}

theorem makeRoom_list {si room : Interprets}
    (hfirst : req.firstSI ≤ si.numSi) (h : makeRoom dev req si = some room) :
    req.firstSI + req.nSI ≤ room.numSi ∧ room.list.take req.firstSI = si.list.take req.firstSI ∧
      room.list.drop (req.firstSI + req.nSI) =
        if req.truncateSI then [] else si.list.drop (req.firstSI + req.nSI) := by
  have hnum := si.numSi_le
  have hnone (hle : si.numSi ≤ req.firstSI + req.nSI) :
      si.list.drop (req.firstSI + req.nSI) = [] := by
    apply drop_eq_nil_of_le
    rw [Interprets.list, length_take]
    omega
  have hold (n : Nat) (hn : req.firstSI ≤ n) :
      (si.symInterpret.take n).take req.firstSI = si.symInterpret.take req.firstSI := by
    rw [take_take, min_eq_left hn]
  unfold makeRoom at h
  split at h
  next hgrow =>
    split at h
    · cases h
      unfold Interprets.sizeSi at hgrow
      refine ⟨le_refl _, ?_, ?_⟩
      · simp only [Interprets.list]
        rw [hold _ hfirst, take_take, min_eq_left (by omega), take_append_of_le_length (by omega)]
      · rw [hnone (by omega), ite_self]
        apply drop_eq_nil_of_le
        simp only [Interprets.list, length_take]
        omega
    · cases h
  next hgrow =>
    split at h
    next hcut =>
      cases h
      refine ⟨le_refl _, ?_, ?_⟩
      · simp only [Interprets.list]
        rw [hold _ hfirst, hold _ (by omega)]
      · have hnil : (if req.truncateSI then [] else si.list.drop (req.firstSI + req.nSI)) =
            ([] : List XkbSymInterpretRec) := by
          rcases hcut with hcut | hcut
          · rw [if_pos hcut]
          · rw [hnone (by omega), ite_self]
        rw [hnil]
        apply drop_eq_nil_of_le
        simp only [Interprets.list, length_take]
        omega
    next hcut =>
      cases h
      have htruncate : ¬req.truncateSI = true := fun h => hcut (.inl h)
      refine ⟨by omega, rfl, ?_⟩
      rw [if_neg htruncate]

theorem editInterprets_list {si : Interprets}
    {hfirst : ¬((0 < req.nSI ∨ req.truncateSI) ∧ si.numSi < req.firstSI)}
    (hwires : wires.length = req.nSI)
    (hok : (editInterprets dev req wires si hfirst).1 = .success) :
    (editInterprets dev req wires si hfirst).2.list = surgery req (kept wires) si.list := by
  unfold editInterprets at hok ⊢
  split at hok
  next hpos =>
    rw [if_pos hpos]
    have hle : req.firstSI ≤ si.numSi := by
      by_contra hlt
      exact hfirst ⟨.inl hpos, by omega⟩
    split at hok
    · cases hok
    next hmax =>
      rw [if_neg hmax]
      cases hroom : makeRoom dev req si with
      | none =>
        rw [hroom] at hok
        cases hok
      | some room =>
        obtain ⟨hnum, htake, hdrop⟩ := makeRoom_list hle hroom
        rw [storeInterprets_list hwires hnum, htake, hdrop, surgery]
  next hpos =>
    rw [if_neg hpos]
    have hzero : req.nSI = 0 := by omega
    have hnil : wires = [] := length_eq_zero_iff.mp (hwires.trans hzero)
    subst hnil
    split
    next htruncate =>
      have hle : req.firstSI ≤ si.numSi := by
        by_contra hlt
        exact hfirst ⟨.inr htruncate, by omega⟩
      simp only [surgery, kept, filter_nil, map_nil, append_nil, htruncate,
        if_true, Interprets.list, take_take, min_eq_left hle]
    next htruncate =>
      simp only [surgery, kept, filter_nil, map_nil, append_nil, htruncate,
        hzero, add_zero, take_append_drop, if_false, Bool.false_eq_true]

def editGroups (dev : DeviceIntRec) (req : XkbSetCompatMapReq) (mods : List XkbModsWireDesc)
    (groups : Fin 4 → XkbModsRec) (i : Fin 4) : XkbModsRec :=
  match (req.selected.zip mods).lookup i with
  | none => groups i
  | some wire => dev.group wire

theorem setGroups_of_notMem {i : Fin 4}
    {is : List (Fin 4)} (mods : List XkbModsWireDesc) (groups : Fin 4 → XkbModsRec) (h : i ∉ is) :
    setGroups dev req is mods groups i = groups i := by
  induction is generalizing mods groups with
  | nil => rfl
  | cons j is ih =>
    have hne : i ≠ j := fun hij => h (hij ▸ mem_cons_self)
    have hrest : i ∉ is := fun hi => h (mem_cons_of_mem _ hi)
    unfold setGroups
    split
    · cases mods with
      | nil => rfl
      | cons wire mods =>
        dsimp only
        rw [ih _ _ hrest, update_of_ne hne]
    · exact ih _ _ hrest

theorem setGroups_eq {is : List (Fin 4)}
    (mods : List XkbModsWireDesc) (groups : Fin 4 → XkbModsRec) (hnodup : is.Nodup) (i : Fin 4) :
    setGroups dev req is mods groups i =
      match ((is.filter fun (i : Fin 4) => req.groups.getLsbD i).zip mods).lookup i with
      | none => groups i
      | some wire => dev.group wire := by
  induction is generalizing mods groups with
  | nil => rfl
  | cons j is ih =>
    obtain ⟨hj, hrest⟩ := nodup_cons.mp hnodup
    unfold setGroups
    by_cases hsel : req.groups.getLsbD j = true
    · rw [if_pos hsel, filter_cons, if_pos hsel]
      cases mods with
      | nil => simp
      | cons wire mods =>
        dsimp only
        rw [zip_cons_cons, lookup_cons]
        by_cases hij : i = j
        · subst hij
          rw [setGroups_of_notMem _ _ hj, update_self, beq_self_eq_true]
        · rw [ih _ _ hrest, update_of_ne hij, beq_false_of_ne hij]
    · rw [if_neg hsel, filter_cons, if_neg hsel]
      exact ih _ _ hrest

def edited (dev : DeviceIntRec) (req : XkbSetCompatMapReq) (data : Data) (old : View) : View :=
  let new : View :=
    { interprets := surgery req (kept data.interprets) old.interprets
      groups := editGroups dev req data.mods old.groups }
  if req.recomputeActions then
    { new with groups := fun i => { new.groups i with mask := dev.updateActions new i } }
  else new

@[simp] theorem edited_interprets (dev : DeviceIntRec) (req : XkbSetCompatMapReq) (data : Data)
    (old : View) : (edited dev req data old).interprets =
      surgery req (kept data.interprets) old.interprets := by
  unfold edited
  split <;> rfl

theorem edited_vmods (dev : DeviceIntRec) (req : XkbSetCompatMapReq) (data : Data) (old : View)
    (i : Fin 4) : ((edited dev req data old).groups i).vmods =
      (editGroups dev req data.mods old.groups i).vmods := by
  unfold edited
  split <;> rfl

def Passes (req : XkbSetCompatMapReq) (compat : XkbCompatMapRec) : Prop :=
  ¬((0 < req.nSI ∨ req.truncateSI) ∧ compat.numSi < req.firstSI) ∧ req.bytes / 4 = req.length

def Stuck (req : XkbSetCompatMapReq) (dev : DeviceIntRec) (compat : XkbCompatMapRec) : Prop :=
  0 < req.nSI ∧ compat.sizeSi < req.firstSI + req.nSI ∧ dev.grows = false

instance (req : XkbSetCompatMapReq) (compat : XkbCompatMapRec) : Decidable (Passes req compat) :=
  inferInstanceAs (Decidable (_ ∧ _))

instance (req : XkbSetCompatMapReq) (dev : DeviceIntRec) (compat : XkbCompatMapRec) :
    Decidable (Stuck req dev compat) :=
  inferInstanceAs (Decidable (_ ∧ _ ∧ _))

def XkbSetCompatMapReq.TooLong (req : XkbSetCompatMapReq) : Prop :=
  0 < req.nSI ∧ ushrtMax < req.firstSI + req.nSI

instance (req : XkbSetCompatMapReq) : Decidable req.TooLong :=
  inferInstanceAs (Decidable (_ ∧ _))

theorem Data.Fits.read {data : Data} (h : data.Fits req)
    (swapped : Bool) : (data.read swapped).Fits req := by
  unfold Data.read
  split
  · constructor
    · exact (length_map _).trans h.interprets
    · exact (length_map _).trans h.mods
  · exact h

theorem padded_bytes (req : XkbSetCompatMapReq) : paddedSize req.bytes / 4 = req.bytes / 4 := by
  unfold paddedSize XkbSetCompatMapReq.bytes szXkbSetCompatMapReq szXkbSymInterpretWireDesc
    szXkbModsWireDesc
  omega

theorem setCompatMap_dry {swapped : Bool} {st : State} :
    (setCompatMap swapped req true dev st).2 = st ∧
      ((setCompatMap swapped req true dev st).1 = .success ↔ Passes req (st.compat dev.id)) := by
  unfold setCompatMap Passes
  by_cases hfirst : (0 < req.nSI ∨ req.truncateSI) ∧ (st.compat dev.id).numSi < req.firstSI
  · rw [dif_pos hfirst]
    exact ⟨rfl, ⟨fun h => (nomatch h), fun h => absurd hfirst h.1⟩⟩
  · rw [dif_neg hfirst]
    by_cases hlength : req.bytes / 4 = req.length
    · rw [if_neg (not_not_intro hlength), if_pos rfl]
      exact ⟨rfl, ⟨fun _ => ⟨hfirst, hlength⟩, fun _ => rfl⟩⟩
    · rw [if_pos hlength]
      exact ⟨rfl, ⟨fun h => (nomatch h), fun h => absurd h.2 hlength⟩⟩

theorem editInterprets_status {compat : XkbCompatMapRec}
    (hfirst : ¬((0 < req.nSI ∨ req.truncateSI) ∧ compat.numSi < req.firstSI)) :
    (req.TooLong → editInterprets dev req wires compat.toInterprets hfirst =
        (.badValue none, compat.toInterprets)) ∧ (¬req.TooLong → Stuck req dev compat →
        editInterprets dev req wires compat.toInterprets hfirst = (.badAlloc, ⟨[], 0, le_refl 0⟩)) ∧
      (¬req.TooLong → ¬Stuck req dev compat →
        (editInterprets dev req wires compat.toInterprets hfirst).1 = .success) := by
  unfold editInterprets XkbSetCompatMapReq.TooLong Stuck
  by_cases hpos : 0 < req.nSI
  · rw [if_pos hpos]
    by_cases hmax : ushrtMax < req.firstSI + req.nSI
    · rw [if_pos hmax]
      exact ⟨fun _ => rfl, fun h => absurd ⟨hpos, hmax⟩ h, fun h => absurd ⟨hpos, hmax⟩ h⟩
    · rw [if_neg hmax]
      unfold makeRoom
      by_cases hgrow : compat.sizeSi < req.firstSI + req.nSI
      · rw [dif_pos hgrow]
        cases hg : dev.grows with
        | false =>
          rw [if_neg Bool.false_ne_true]
          exact ⟨fun h => absurd h.2 hmax, fun _ _ => rfl, fun _ h => absurd ⟨hpos, hgrow, rfl⟩ h⟩
        | true =>
          rw [if_pos rfl]
          exact ⟨fun h => absurd h.2 hmax, fun _ h => (nomatch h.2.2), fun _ _ => rfl⟩
      · rw [dif_neg hgrow]
        refine ⟨fun h => absurd h.2 hmax, fun _ h => absurd h.2.1 hgrow, fun _ _ => ?_⟩
        by_cases hcut : req.truncateSI = true ∨ compat.numSi < req.firstSI + req.nSI
        · rw [if_pos hcut]
        · rw [if_neg hcut]
  · rw [if_neg hpos]
    refine ⟨fun h => absurd h.1 hpos, fun _ h => absurd h.1 hpos, fun _ _ => ?_⟩
    split <;> rfl

end Xfront.Xkb.CompatMap
