import Xfront.Atom.Model
import Xfront.Resource.Model

/-!
# Namespaces (Xext/namespace, os/mitauth.c, dix/selection.c, Xext/xfixes/select.c)

The server as the namespace extension sees it: the namespaces with their tokens and counts,
the clients, the cookie table, the atoms, the selections and who listens to them. Here are
the records and what runs when a client enters, moves or leaves. The outcomes of
allocations, of the checks of other extensions and of looking up a window are arguments.
-/

namespace Xfront.Namespace
open Atom (Name Atoms bytesOf cstr)
open Resource (XID)

abbrev NsId := Nat

abbrev ServerXID := {id : XID // id ≠ 0 ∧ id ≠ -1}

/-- `struct auth_token`; the list of the data has its length. -/
structure AuthToken where
  authProto : Name
  authTokenData : Name
  authId : XID
  handle : BitVec 32

structure Xnamespace where
  addr : NsId
  name : Name
  builtin : Bool := false
  allowMouseMotion : Bool := false
  allowShape : Bool := false
  allowTransparency : Bool := false
  allowXInput : Bool := false
  allowXKeyboard : Bool := false
  superPower : Bool := false
  autoRemove : Bool := false
  authTokens : List AuthToken := []
  tokenHandleSeq : BitVec 32 := 0
  refcnt : BitVec 64 := 0

inductive ClientState
  | initial | running | retained | gone
  deriving DecidableEq

structure Client where
  clientState : ClientState := .initial
  clientGone : Bool := false
  /-- `closeDownMode` is `DestroyAll`. -/
  destroyAll : Bool := true
  authId : XID := 0
  ns : Option NsId := none

structure Auth where
  data : Name
  id : XID

structure TimeStamp where
  months : Nat
  milliseconds : Nat
  deriving DecidableEq

structure Selection where
  selection : Nat
  lastTimeChanged : TimeStamp := ⟨0, 0⟩
  window : Nat := 0
  pWin : Option Nat := none
  client : Option Nat := none

/-- `SelectionEventRec`; there is one record of a selection for an atom, so the atom stands
for its address. -/
structure SelectionEvent where
  selection : Nat
  eventMask : BitVec 32
  pClient : Nat
  pWindow : Nat

structure Server where
  nsList : List Xnamespace
  nextAddr : NsId
  clients : List (Option Client)
  mitAuth : List Auth
  atoms : Atoms
  currentSelections : List Selection
  selectionEvents : List SelectionEvent

/-- What is sent to a client; `dest` is its index. Where there is no atom, `BAD_RESOURCE` is
sent. -/
inductive Output
  | selectionClear (dest : Nat) (time : TimeStamp) (window : Nat) (atom : Nat)
  | selectionRequest (dest owner time requestor selection target property : Nat)
  | selectionNotify (dest time requestor : Nat) (selection : Option Nat) (target property : Nat)
  | xfixesSelectionNotify (dest subtype window owner : Nat) (selection : Option Nat)
      (selectionTimestamp : TimeStamp)
  | getSelectionOwner (dest owner : Nat)
  | error (dest code value : Nat)
  deriving DecidableEq

def Output.dest : Output → Nat
  | .selectionClear c .. | .selectionRequest c .. | .selectionNotify c ..
  | .xfixesSelectionNotify c .. | .getSelectionOwner c .. | .error c .. => c

inductive Status
  | success | badAlloc | badAccess | badName | badValue | badMatch | badAtom | badWindow
  deriving DecidableEq

def Status.code : Status → Nat
  | .success => 0
  | .badValue => 2
  | .badWindow => 3
  | .badAtom => 5
  | .badMatch => 8
  | .badAccess => 10
  | .badAlloc => 11
  | .badName => 15

namespace Server
variable (s : Server)

def client (i : Nat) : Option Client := (s.clients[i]?).join

def nsOf (i : Nat) : Option NsId := (s.client i).bind Client.ns

def findNs (k : NsId) : Option Xnamespace := s.nsList.find? (·.addr = k)

def updateNs (k : NsId) (f : Xnamespace → Xnamespace) : Server :=
  { s with nsList := s.nsList.map fun n => if n.addr = k then f n else n }

def updateClient (i : Nat) (f : Client → Client) : Server :=
  { s with clients := s.clients.modify i (Option.map f) }

/-! ### The cookie table (`mitauth.c`, `auth.c`) -/

def mitProto : Name := bytesOf "MIT-MAGIC-COOKIE-1"

/-- The `id` and whether the two allocations succeed are those of a new entry. -/
def mitAddCookie (dataLength : Nat) (data : Name) (id : ServerXID) (allocated : Bool) :
    XID × Server :=
  match s.mitAuth.find? fun walk => walk.data = data.take (dataLength % 2 ^ 16) with
  | some walk => (walk.id, s)
  | none =>
    if allocated then
      (id.1, { s with mitAuth := ⟨data.take (dataLength % 2 ^ 16), id.1⟩ :: s.mitAuth })
    else (0, s)

def mitCheckCookie (data : Name) : XID :=
  match s.mitAuth.find? fun auth => data = auth.data with
  | some auth => auth.id
  | none => -1

def mitFromID (id : XID) : Option Name := (s.mitAuth.find? fun auth => id = auth.id).map Auth.data

def mitRemoveCookie (dataLength : Nat) (data : Name) : Server :=
  { s with
    mitAuth := s.mitAuth.eraseP fun auth => auth.data = data.take (dataLength % 2 ^ 16) }

def addAuthorization (nameLength : Nat) (name data : Name) (id : ServerXID) (allocated : Bool) :
    XID × Server :=
  if mitProto.length = nameLength ∧ mitProto = name.take nameLength then
    s.mitAddCookie data.length data id allocated
  else (0, s)

def removeAuthorization (name data : Name) : Server :=
  if mitProto.length = name.length % 2 ^ 16 ∧ mitProto = name.take mitProto.length then
    s.mitRemoveCookie data.length data
  else s

def authorizationFromID (id : XID) : Option (Name × Name) := (s.mitFromID id).map (mitProto, ·)

/-! ### Namespaces (`namespace.c`, `config.c`) -/

def nsAnon : NsId := 1

def xnsFindByAuth (authProto authToken : Name) : NsId :=
  match s.nsList.find? fun walk =>
      walk.authTokens.any fun at' => at'.authTokenData = authToken ∧ at'.authProto = authProto with
  | some walk => walk.addr
  | none => nsAnon

/-- What `freeToken` does outside the namespace of the token. -/
def freeToken (token : AuthToken) : Server :=
  if token.authId ≠ 0 then s.removeAuthorization token.authProto token.authTokenData else s

def detach (k : NsId) : Server :=
  { s with
    clients := s.clients.mapIdx fun i c =>
      if i = 0 then c else c.map fun p => if p.ns = some k then { p with ns := none } else p }

def xnsDestroyNamespace (k : NsId) : Server :=
  match s.findNs k with
  | none => s
  | some ns =>
    if ns.builtin then s
    else
      let s := ns.authTokens.foldl freeToken (s.detach k)
      { s with nsList := s.nsList.filter (·.addr ≠ k) }

def xnamespaceAssignClient (i : Nat) (newns : Option NsId) : Server :=
  match s.client i with
  | none => s
  | some priv =>
    let s := match priv.ns with
      | some oldns => s.updateNs oldns fun n => { n with refcnt := n.refcnt - 1 }
      | none => s
    let s := s.updateClient i fun p => { p with ns := newns }
    let s := match newns with
      | some newns => s.updateNs newns fun n => { n with refcnt := n.refcnt + 1 }
      | none => s
    match priv.ns with
    | some oldns =>
      match s.findNs oldns with
      | some n =>
        -- a transient namespace vanishes once its last client has left
        if some oldns ≠ newns ∧ n.refcnt = 0 ∧ n.autoRemove ∧ ¬ n.builtin then
          s.xnsDestroyNamespace oldns
        else s
      | none => s
    | none => s

/-! ### The hooks for clients (`hook-clientstate.c`) -/

/-- `authId` is what the connection was authorized with. -/
def hookClientState (i : Nat) (state : ClientState) (authId : XID) : Server :=
  match state with
  | .initial => s.xnamespaceAssignClient i (some nsAnon)
  | .running =>
    let s := s.updateClient i fun p => { p with authId := authId }
    match s.authorizationFromID authId with
    | some (name, data) => s.xnamespaceAssignClient i (some (s.xnsFindByAuth name data))
    | none => s
  | .retained => s
  | .gone => s

def hookClientDestroy (i : Nat) : Server := s.xnamespaceAssignClient i none

/-! ### The hook for selections (`hook-selection.c`) -/

inductive FilterOp
  | getOwner | setOwner | convert | listen | evRequest | evClear | notify
  deriving DecidableEq

def langle : UInt8 := '<'.toNat.toUInt8
def rangle : UInt8 := '>'.toNat.toUInt8

def stripNS (name : Name) : Name :=
  if name.head? ≠ some langle then name
  else
    match name.dropWhile (· ≠ rangle) with
    | [] => name
    | _ :: got => got

def pathMax : Nat := 4096

/-- What `snprintf` leaves in a buffer of `PATH_MAX` bytes. A name that is not there is
printed as `(null)`. -/
def selname (nsName : Name) (orig : Option Name) : Name :=
  (langle :: nsName ++ rangle :: orig.getD (bytesOf "(null)")).take (pathMax - 2)

def dixAddAtom (mem : Name → Bool) (name : Name) : Option Nat × Server :=
  let (a, atoms) := Atom.makeAtom s.atoms name true (mem name) (mem name) (mem name)
  (a, { s with atoms })

def nameForAtom : Option Nat → Option Name
  | some a => Atom.nameForAtom s.atoms a
  | none => none

/-- The new `param->selection`; nothing is `BAD_RESOURCE`. -/
def hookSelectionFilter (mem : Name → Bool) (client : Nat) (op : FilterOp)
    (selection : Option Nat) : Option Nat × Server :=
  match (s.nsOf client).bind s.findNs with
  | none => (selection, s)
  | some ns =>
    if ns.superPower then (selection, s)
    else
      let orig := s.nameForAtom selection
      let (realSelection, s) := s.dixAddAtom mem (selname ns.name orig)
      match op with
      | .getOwner | .setOwner | .convert | .listen => (realSelection, s)
      | .notify => s.dixAddAtom mem (stripNS (orig.getD []))
      | .evRequest | .evClear => (selection, s)

/-! ### Selections of windows and clients that go away (`selection.c`, `select.c`) -/

def writeEvent (out : Output) : List Output :=
  match s.client out.dest with
  | some c => if out.dest = 0 ∨ c.clientGone then [] else [out]
  | none => []

/-- `SelectionCallbackKind`, which is the subtype and says which mask selects it. -/
inductive SelectionCallbackKind
  | setOwner | windowDestroy | clientClose
  deriving DecidableEq

def SelectionCallbackKind.subtype : SelectionCallbackKind → Nat
  | .setOwner => 0
  | .windowDestroy => 1
  | .clientClose => 2

def SelectionCallbackKind.eventMask (kind : SelectionCallbackKind) : BitVec 32 :=
  BitVec.twoPow 32 kind.subtype

/-- One round of the loop of `XFixesSelectionCallback`. -/
def notifyOne (mem : Name → Bool) (kind : SelectionCallbackKind) (selection : Selection)
    (acc : List Output × Server) (e : SelectionEvent) : List Output × Server :=
  if e.selection = selection.selection ∧ e.eventMask &&& kind.eventMask ≠ 0 then
    let (name, s) := acc.2.hookSelectionFilter mem e.pClient .notify (some selection.selection)
    let owner := if kind = .setOwner then selection.window else 0
    (acc.1 ++ s.writeEvent (.xfixesSelectionNotify e.pClient kind.subtype e.pWindow owner name
      selection.lastTimeChanged), s)
  else acc

def xfixesSelectionCallback (mem : Name → Bool) (kind : SelectionCallbackKind)
    (selection : Selection) : List Output × Server :=
  s.selectionEvents.foldl (notifyOne mem kind selection) ([], s)

/-- The callbacks for the selections that `gone` picks; then these have no owner. -/
def deleteFromAnySelections (mem : Name → Bool) (kind : SelectionCallbackKind)
    (gone : Selection → Bool) : List Output × Server :=
  let (outs, s) := (s.currentSelections.filter gone).foldl
    (fun acc sel =>
      let (outs, s) := acc.2.xfixesSelectionCallback mem kind sel
      (acc.1 ++ outs, s)) ([], s)
  (outs, { s with
    currentSelections := s.currentSelections.map fun sel =>
      if gone sel then { sel with pWin := none, window := 0, client := none } else sel })

def deleteWindowFromAnySelections (mem : Name → Bool) (w : Nat) : List Output × Server :=
  s.deleteFromAnySelections mem .windowDestroy fun sel => sel.pWin = some w

def deleteClientFromAnySelections (mem : Name → Bool) (i : Nat) : List Output × Server :=
  s.deleteFromAnySelections mem .clientClose fun sel => sel.client = some i

/-- A window is destroyed: `SelectionFreeWindow` frees who listens with it. -/
def destroyWindow (mem : Name → Bool) (w : Nat) : List Output × Server :=
  let (outs, s) := s.deleteWindowFromAnySelections mem w
  (outs, { s with selectionEvents := s.selectionEvents.filter (·.pWindow ≠ w) })

/-- `FreeClientResources`, as far as selections go; `windows` are those of the client. -/
def freeClientResources (mem : Name → Bool) (i : Nat) (windows : List Nat) :
    List Output × Server :=
  let (outs, s) := windows.foldl
    (fun acc w =>
      let (outs, s) := acc.2.destroyWindow mem w
      (acc.1 ++ outs, s)) ([], s)
  (outs, { s with selectionEvents := s.selectionEvents.filter (·.pClient ≠ i) })

/-! ### Clients that come and go (`dispatch.c`) -/

/-- There is room below `nextFreeClientID`, and its other allocations succeed. -/
def nextAvailableClient : Server :=
  match s.clients.findIdx? (·.isNone) with
  | none => s
  | some i =>
    { s with clients := s.clients.set i (some {}) }.hookClientState i .initial 0

/-- `SendConnSetup` of a client that was accepted; before it no request is carried out. -/
def sendConnSetup (i : Nat) (authId : XID) : Server :=
  match s.client i with
  | none => s
  | some c =>
    if c.clientState = .initial then
      (s.updateClient i fun c => { c with clientState := .running }).hookClientState i .running
        authId
    else s

/-- What `CloseDownClient` does unless the client is gone already. -/
def closeConnection (mem : Name → Bool) (i : Nat) (c : Client) : List Output × Server :=
  let (outs, s) := s.deleteClientFromAnySelections mem i
  let s := if c.destroyAll then s
    else (s.updateClient i fun c => { c with clientState := .retained }).hookClientState i
      .retained c.authId
  (outs, s.updateClient i fun c => { c with clientGone := true })

def destroyClient (mem : Name → Bool) (windows : List Nat) (i : Nat) (c : Client) :
    List Output × Server :=
  let s := (s.updateClient i fun c => { c with clientState := .gone }).hookClientState i .gone
    c.authId
  let (outs, s) := s.freeClientResources mem i windows
  let s := s.hookClientDestroy i
  (outs, { s with clients := s.clients.set i none })

def closeDownClient (mem : Name → Bool) (windows : List Nat) (i : Nat) : List Output × Server :=
  match s.client i with
  | none => ([], s)
  | some c =>
    let (outs, s) := if c.clientGone then ([], s) else s.closeConnection mem i c
    if c.clientGone ∨ c.destroyAll then
      let (more, s) := s.destroyClient mem windows i c
      (outs ++ more, s)
    else (outs, s)

end Server

end Xfront.Namespace
