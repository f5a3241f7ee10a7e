import Xfront.Lib.Bytes
import Xfront.Lib.Run

/-!
# RandR monitors (Xext/randr/rrmonitor.c)

The monitors that clients define on a screen, and the list that is made of them and of the active
CRTCs. Sizes in millimetres are left out: the code computes them in floating point and they
decide nothing. What the driver and the allocator answer is given with the configuration.
-/

namespace Xfront.Monitors

open Bytes (Byte)

abbrev Atom := Nat

def success : Nat := 0
def badValue : Nat := 2
def badAtom : Nat := 5
def badAlloc : Nat := 11
def badLength : Nat := 16

structure Output where
  id : Nat
  name : List Byte

structure Box where
  x1 : Int
  y1 : Int
  x2 : Int
  y2 : Int
  deriving DecidableEq

/-- `mode` says whether there is one; the scanout size is that of the mode, transformed, and
`panning` the area that `rrGetPanning` answers, if it does. -/
structure Crtc where
  id : Nat
  pScreen : Nat
  mode : Bool
  x : Int
  y : Int
  scanoutWidth : Int
  scanoutHeight : Int
  panning : Option Box
  outputs : List Output

structure Monitor where
  name : Atom
  pScreen : Nat
  outputs : List Nat
  primary : Bool
  automatic : Bool
  box : Box
  deriving DecidableEq

structure ScrPriv where
  crtcs : List Crtc
  outputs : List Output
  primaryOutput : Option Nat

/-- A screen with its secondary screens, and the atoms of the server. `known` says whether the
screen has RandR at all, `info` whether `RRGetInfo` succeeds; the rest is as it leaves it. -/
structure Config where
  known : Bool
  info : Bool
  screen : Nat
  secondaryList : List Nat
  isOutputSecondary : Nat → Bool
  scrPriv : Nat → ScrPriv
  validAtom : Atom → Bool
  nameForAtom : Atom → List Byte
  makeAtom : List Byte → Atom

def Config.secondaries (cfg : Config) : List Nat := cfg.secondaryList.filter cfg.isOutputSecondary

def int16 (z : Int) : Int := z.bmod (2 ^ 16)

def crtcGeometry (crtc : Crtc) : Box :=
  match crtc.panning with
  | some area => if area.x2 > area.x1 ∧ area.y2 > area.y1 then area else scanout
  | none => scanout
where
  scanout : Box :=
    let x1 := int16 crtc.x
    let y1 := int16 crtc.y
    ⟨x1, y1, int16 (x1 + crtc.scanoutWidth), int16 (y1 + crtc.scanoutHeight)⟩

def automaticGeometry (monitor : Monitor) : Bool := monitor.box = ⟨0, 0, 0, 0⟩

def Crtc.hasOutput (crtc : Crtc) (output : Nat) : Bool := crtc.outputs.any (·.id = output)

def Box.union (this geometry : Box) : Box :=
  ⟨min this.x1 geometry.x1, min this.y1 geometry.y1, max this.x2 geometry.x2,
    max this.y2 geometry.y2⟩

/-- The area of the active CRTCs of the monitor's outputs, as far as they are on its own screen. -/
def getGeometry (cfg : Config) (monitor : Monitor) : Box :=
  if automaticGeometry monitor ∧ 0 < monitor.outputs.length then
    let crtcs := (cfg.scrPriv monitor.pScreen).crtcs
    let inUse := monitor.outputs.filterMap fun o => crtcs.find? fun crtc => crtc.mode && crtc.hasOutput o
    match inUse.map crtcGeometry with
    | [] => ⟨0, 0, 0, 0⟩
    | first :: rest => rest.foldl (fun geometry this => this.union geometry) first
  else monitor.box

def hexDigits (n : Nat) : List Byte :=
  (Nat.toDigits 16 n).map fun c => Fin.ofNat 256 c.toNat

def defaultName (id : Nat) : List Byte :=
  let digits := hexDigits id
  [77, 111, 110, 105, 116, 111, 114, 45] ++ List.replicate (8 - digits.length) 48 ++ digits

def crtcName (cfg : Config) (crtc : Crtc) : Atom :=
  match crtc.outputs with
  | output :: _ => cfg.makeAtom output.name
  | [] => cfg.makeAtom (defaultName crtc.id)

def crtcPrimary (cfg : Config) (crtc : Crtc) : Bool :=
  crtc.outputs.any fun output => some output.id = (cfg.scrPriv crtc.pScreen).primaryOutput

def setFromServer (cfg : Config) (crtc : Crtc) : Monitor where
  name := crtcName cfg crtc
  pScreen := crtc.pScreen
  outputs := crtc.outputs.map (·.id)
  primary := crtcPrimary cfg crtc
  automatic := true
  box := crtcGeometry crtc

def setFromClient (cfg : Config) (monitor : Monitor) : Monitor :=
  { monitor with box := getGeometry cfg monitor }

/-! ### `RRMonitorInitList` (`rrmonitor.c:200-303`) -/

structure MonitorList where
  numClient : Int
  numServer : Int
  serverCrtc : List (Option Crtc)
  clientPrimary : Option Nat
  serverPrimary : Option Nat

/-- `get_active` leaves a monitor out that has no area. -/
def skipped (cfg : Config) (getActive : Bool) (monitor : Monitor) : Bool :=
  getActive &&
    (let geom := getGeometry cfg monitor
     geom.x2 - geom.x1 = 0 || geom.y2 - geom.y1 = 0)

def collectCrtcs (priv : ScrPriv) : List (Option Crtc) :=
  priv.crtcs.map fun crtc => if crtc.mode then some crtc else none

def clearCovered (serverCrtc : List (Option Crtc)) (output : Nat) : List (Option Crtc) :=
  serverCrtc.map fun slot => slot.filter fun crtc => !crtc.hasOutput output

def walkMonitors (cfg : Config) (getActive : Bool) :
    Nat → List Monitor → MonitorList → MonitorList
  | _, [], list => list
  | m, monitor :: rest, list =>
    if skipped cfg getActive monitor then
      walkMonitors cfg getActive (m + 1) rest { list with numClient := list.numClient - 1 }
    else
      walkMonitors cfg getActive (m + 1) rest
        { list with
          clientPrimary :=
            if monitor.primary ∧ list.clientPrimary = none then some m else list.clientPrimary
          serverCrtc := monitor.outputs.foldl clearCovered list.serverCrtc }

def walkCrtcs (cfg : Config) : Nat → List (Option Crtc) → MonitorList → MonitorList
  | _, [], list => list
  | c, none :: rest, list => walkCrtcs cfg (c + 1) rest list
  | c, some crtc :: rest, list =>
    walkCrtcs cfg (c + 1) rest
      { list with
        numServer := list.numServer + 1
        serverPrimary :=
          if crtcPrimary cfg crtc ∧ list.serverPrimary = none then some c else list.serverPrimary }

def initList (cfg : Config) (monitors : List Monitor) (getActive : Bool) : Option MonitorList :=
  if !cfg.info then none
  else
    let serverCrtc := (cfg.screen :: cfg.secondaries).flatMap fun screen =>
      collectCrtcs (cfg.scrPriv screen)
    let list := walkMonitors cfg getActive 0 monitors ⟨monitors.length, 0, serverCrtc, none, none⟩
    some (walkCrtcs cfg 0 list.serverCrtc list)

/-! ### `RRMonitorMakeList` (`rrmonitor.c:316-393`) -/

structure Filling where
  entries : List Monitor
  hasPrimary : Bool

def Filling.add (f : Filling) (mon : Monitor) : Filling :=
  if f.hasPrimary then
    { f with entries := f.entries ++ [{ mon with primary := false }] }
  else
    { entries := f.entries ++ [mon]
      hasPrimary := mon.primary }

def fillClients (cfg : Config) (getActive : Bool) (clientPrimary : Option Nat) :
    Nat → List Monitor → Filling → Filling
  | _, [], f => f
  | m, monitor :: rest, f =>
    if some m = clientPrimary then fillClients cfg getActive clientPrimary (m + 1) rest f
    else if skipped cfg getActive monitor then
      fillClients cfg getActive clientPrimary (m + 1) rest f
    else fillClients cfg getActive clientPrimary (m + 1) rest (f.add (setFromClient cfg monitor))

def fillServers (cfg : Config) (clientPrimary serverPrimary : Option Nat) :
    Nat → List (Option Crtc) → Filling → Filling
  | _, [], f => f
  | c, slot :: rest, f =>
    if some c = serverPrimary ∧ clientPrimary = none then
      fillServers cfg clientPrimary serverPrimary (c + 1) rest f
    else
      match slot with
      | none => fillServers cfg clientPrimary serverPrimary (c + 1) rest f
      | some crtc =>
        fillServers cfg clientPrimary serverPrimary (c + 1) rest (f.add (setFromServer cfg crtc))

/-- The primary entry, which is filled in first; it is not noted in `hasPrimary`. -/
def firstEntry (cfg : Config) (monitors : List Monitor) (list : MonitorList) : List Monitor :=
  match list.clientPrimary, list.serverPrimary with
  | some m, _ => (monitors[m]?.map (setFromClient cfg)).toList
  | none, some c => ((list.serverCrtc[c]?.join).map (setFromServer cfg)).toList
  | none, none => []

/-- The entries in the order in which they are filled in, and the number reported. -/
def makeList (cfg : Config) (monitors : List Monitor) (getActive : Bool) :
    Option (List Monitor × Int) :=
  if !cfg.known then none
  else
    (initList cfg monitors getActive).map fun list =>
      let f : Filling := ⟨firstEntry cfg monitors list, false⟩
      let f := fillClients cfg getActive list.clientPrimary 0 monitors f
      let f := fillServers cfg list.clientPrimary list.serverPrimary 0 list.serverCrtc f
      (f.entries, list.numClient + list.numServer)

/-! ### `RRMonitorDelete` and `RRMonitorAdd` (`rrmonitor.c:427-536`) -/

def monitorDelete (cfg : Config) (monitors : List Monitor) (name : Atom) : Nat × List Monitor :=
  if !cfg.known then (badAtom, monitors)
  else if monitors.any (·.name = name) then (success, monitors.eraseP (·.name = name))
  else (badValue, monitors)

def matchesOutputName (cfg : Config) (screen : Nat) (name : Atom) : Bool :=
  let str := (cfg.nameForAtom name).takeWhile (· ≠ 0)
  (cfg.scrPriv screen).outputs.any (·.name = str)

/-- The loop of `RRMonitorAdd` from index `m` on; `n` bounds the steps that are left. A deletion
moves the next monitor to index `m`, and the loop goes on at `m + 1`. -/
def replaceNamed (cfg : Config) (monitor : Monitor) : Nat → Nat → List Monitor → List Monitor
  | 0, _, monitors => monitors
  | n + 1, m, monitors =>
    match monitors[m]? with
    | none => monitors
    | some existing =>
      if existing.name = monitor.name then
        replaceNamed cfg monitor n (m + 1) (monitorDelete cfg monitors existing.name).2
      else if monitor.primary then
        replaceNamed cfg monitor n (m + 1) (monitors.set m { existing with primary := false })
      else replaceNamed cfg monitor n (m + 1) monitors

def monitorAdd (cfg : Config) (allocated : Bool) (monitors : List Monitor) (monitor : Monitor) :
    Nat × List Monitor :=
  if !cfg.known then (badAlloc, monitors)
  else if matchesOutputName cfg cfg.screen monitor.name then (badValue, monitors)
  else if cfg.secondaries.any fun secondary => matchesOutputName cfg secondary monitor.name then
    (badValue, monitors)
  else if !allocated then (badAlloc, monitors)
  else (success, replaceNamed cfg monitor monitors.length 0 monitors ++ [monitor])

/-! ### Requests (`rrmonitor.c:666-757`) -/

/-- `xRRMonitorInfo` with the outputs that follow it. -/
structure MonitorInfo where
  name : Atom
  primary : Bool
  noutput : Nat
  x : Int
  y : Int
  width : Nat
  height : Nat
  outputs : List Nat

def MonitorInfo.monitor (info : MonitorInfo) (screen : Nat) : Monitor where
  name := info.name
  pScreen := screen
  outputs := info.outputs
  primary := info.primary
  automatic := false
  box := ⟨info.x, info.y, int16 (info.x + info.width), int16 (info.y + info.height)⟩

/-- A request, with the configuration it meets, what the lookup of its window answers, and
whether the monitor and the array get their memory. -/
inductive Request
  | setMonitor (cfg : Config) (lookup : Nat) (monitorAllocated arrayAllocated : Bool)
      (info : MonitorInfo)
  | deleteMonitor (cfg : Config) (lookup : Nat) (name : Atom)

def procSetMonitor (cfg : Config) (lookup : Nat) (monitorAllocated arrayAllocated : Bool)
    (info : MonitorInfo) (monitors : List Monitor) : Nat × List Monitor :=
  if info.noutput ≠ info.outputs.length then (badLength, monitors)
  else if lookup ≠ success then (lookup, monitors)
  else if !cfg.validAtom info.name then (badAtom, monitors)
  else if !monitorAllocated then (badAlloc, monitors)
  else monitorAdd cfg arrayAllocated monitors (info.monitor cfg.screen)

def procDeleteMonitor (cfg : Config) (lookup : Nat) (name : Atom) (monitors : List Monitor) :
    Nat × List Monitor :=
  if lookup ≠ success then (lookup, monitors)
  else if !cfg.validAtom name then (badAtom, monitors)
  else monitorDelete cfg monitors name

def handle (monitors : List Monitor) : Request → Nat × List Monitor
  | .setMonitor cfg lookup monitorAllocated arrayAllocated info =>
    procSetMonitor cfg lookup monitorAllocated arrayAllocated info monitors
  | .deleteMonitor cfg lookup name => procDeleteMonitor cfg lookup name monitors

def step (monitors : List Monitor) (req : Request) : Option (List Monitor × Request × Nat) :=
  some ((handle monitors req).2, req, (handle monitors req).1)

end Xfront.Monitors
