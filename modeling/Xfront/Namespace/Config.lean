import Xfront.Namespace.Model

/-!
# Setting up namespaces (Xext/namespace/config.c, proto.c)

The configuration file and the requests that create, change and delete namespaces and their
tokens.
-/

namespace Xfront.Namespace
open List
open Atom (Name Atoms bytesOf cstr)
open Resource (XID)

def nameMax : Nat := 255

def validateName (name : Name) : Bool :=
  decide (name.length ≠ 0 ∧ name.length ≤ nameMax) &&
    name.all fun c => decide (32 < c ∧ c ≠ 0x7f ∧ c ≠ '#'.toNat.toUInt8 ∧ c ≠ '/'.toNat.toUInt8)

def capabilityAll : BitVec 32 := 0x3f

/-- `XNS_ATTR_IMMUTABLE`, `XNS_ATTR_TRANSIENT`, `XNS_ATTR_ALL`. -/
def attrImmutable : BitVec 32 := 1
def attrTransient : BitVec 32 := 2
def attrAll : BitVec 32 := 3

def capsToFields (ns : Xnamespace) (caps : BitVec 32) : Xnamespace :=
  { ns with
    allowMouseMotion := caps.getLsbD 0
    allowShape := caps.getLsbD 1
    allowTransparency := caps.getLsbD 2
    allowXInput := caps.getLsbD 3
    allowXKeyboard := caps.getLsbD 4
    superPower := caps.getLsbD 5 }

def xnsCaps (ns : Xnamespace) : BitVec 32 :=
  (if ns.allowMouseMotion then 1 else 0) ||| (if ns.allowShape then 2 else 0) |||
    (if ns.allowTransparency then 4 else 0) ||| (if ns.allowXInput then 8 else 0) |||
    (if ns.allowXKeyboard then 16 else 0) ||| (if ns.superPower then 32 else 0)

structure TokenMemory where
  token : Bool
  authProto : Bool
  authTokenData : Bool
  cookie : Bool
  id : ServerXID

def strtok (delims : List UInt8) (line : Name) : Option (Name × Name) :=
  match line.dropWhile (· ∈ delims) with
  | [] => none
  | rest => some (rest.takeWhile (· ∉ delims), (rest.dropWhile (· ∉ delims)).drop 1)

def atox (c : UInt8) : Option UInt8 :=
  if 48 ≤ c ∧ c ≤ 57 then some (c - 48)
  else if 97 ≤ c ∧ c ≤ 102 then some (c - 97 + 10)
  else if 65 ≤ c ∧ c ≤ 70 then some (c - 65 + 10)
  else none

def hex2bin : Name → Option Name
  | top :: bottom :: rest =>
    match atox top, atox bottom, hex2bin rest with
    | some t, some b, some out => some ((t <<< 4 ||| b) :: out)
    | _, _, _ => none
  | _ => some []

inductive Statement
  | namespace (id : Name)
  | auth (proto data : Name)
  | allow (what : List Name)
  | superpower

def tokens (delims : List UInt8) : Nat → Name → List Name
  | 0, _ => []
  | fuel + 1, line =>
    match strtok delims line with
    | none => []
    | some (token, rest) => token :: tokens delims fuel rest

/-- What a line says, of which `parseLine` reports the rest. -/
def statement (line : Name) : Option Statement :=
  let line := (line.takeWhile (· ≠ 10)).takeWhile (· ≠ '#'.toNat.toUInt8)
  match strtok [32, 9] line with
  | none => none
  | some (token, rest) =>
    if token = bytesOf "namespace" ∨ token = bytesOf "container" then
      (strtok [32] rest).map fun t => .namespace t.1
    else if token = bytesOf "auth" then
      (strtok [32, 9] rest).bind fun proto => (strtok [32] proto.2).bind fun hex =>
        (hex2bin hex.1).map fun bin => .auth proto.1 bin
    else if token = bytesOf "allow" then some (.allow (tokens [32, 9] rest.length rest))
    else if token = bytesOf "superpower" then some .superpower
    else none

def allowOne (ns : Xnamespace) (token : Name) : Xnamespace :=
  if token = bytesOf "mouse-motion" then { ns with allowMouseMotion := true }
  else if token = bytesOf "shape" then { ns with allowShape := true }
  else if token = bytesOf "transparency" then { ns with allowTransparency := true }
  else if token = bytesOf "xinput" then { ns with allowXInput := true }
  else if token = bytesOf "xkeyboard" then { ns with allowXKeyboard := true }
  else ns

def linebufSize : Nat := 1024

/-- `fgets`: what of the file is the next line, and what is left. -/
def fgets (file : Name) : Name × Name :=
  let n := min (linebufSize - 1) ((file.takeWhile (· ≠ 10)).length + 1)
  (file.take n, file.drop n)

def fileLines : Nat → Name → List Name
  | 0, _ => []
  | fuel + 1, file =>
    if file = [] then [] else cstr (fgets file).1 :: fileLines fuel (fgets file).2

namespace Server
variable (s : Server)

def nsRoot : NsId := 0

def xnsLookup (name : Name) : Option Xnamespace := s.nsList.find? (·.name = name)

def selectNs (name : Name) : NsId × Server :=
  match s.xnsLookup name with
  | some ns => (ns.addr, s)
  | none => (s.nextAddr, { s with
      nsList := s.nsList ++ [{ addr := s.nextAddr, name := name }]
      nextAddr := s.nextAddr + 1 })

def xnsAddToken (k : NsId) (proto data : Name) (mem : TokenMemory) :
    Except Status (BitVec 32) × Server :=
  if ¬ mem.token ∨ ¬ mem.authProto ∨ (data ≠ [] ∧ ¬ mem.authTokenData) then (.error .badAlloc, s)
  else
    let authProto := cstr proto
    let (authId, s) := s.addAuthorization proto.length authProto data mem.id mem.cookie
    let handle := ((s.findNs k).map Xnamespace.tokenHandleSeq).getD 0 + 1
    (.ok handle, s.updateNs k fun ns => { ns with
      authTokens := ns.authTokens ++ [⟨authProto, data, authId, handle⟩]
      tokenHandleSeq := handle })

def xnsRemoveToken (k : NsId) (handle : BitVec 32) : Status × Server :=
  match (s.findNs k).bind fun ns => ns.authTokens.find? (·.handle = handle) with
  | none => (.badMatch, s)
  | some token => (.success, (s.freeToken token).updateNs k fun ns => { ns with
      authTokens := ns.authTokens.eraseP (·.handle = handle) })

/-- The three allocations are those of the record, the name and the virtual root. -/
def xnsCreate (name : Name) (caps attrs : BitVec 32)
    (nsAllocated nameAllocated rootCreated : Bool) : Status × Server :=
  if ¬ validateName name then (.badName, s)
  else if (s.xnsLookup name).isSome then (.badName, s)
  else if ¬ nsAllocated ∨ ¬ nameAllocated ∨ ¬ rootCreated then (.badAlloc, s)
  else (.success, { s with
    nsList := s.nsList ++ [{ capsToFields { addr := s.nextAddr, name := name } caps with
        autoRemove := attrs &&& attrTransient ≠ 0 }]
    nextAddr := s.nextAddr + 1 })

def xnsSetCaps (k : NsId) (mask values : BitVec 32) : Status × Server :=
  if mask &&& ~~~ capabilityAll ≠ 0 then (.badValue, s)
  else (.success, s.updateNs k fun ns =>
    capsToFields ns ((xnsCaps ns &&& ~~~ mask) ||| (values &&& mask)))

inductive OnClients
  | failIfBusy | killClients
  deriving DecidableEq

/-- One round of the loop that kills the clients; `windows` are those of each client. -/
def killOne (mem : Name → Bool) (windows : Nat → List Nat) (k : NsId)
    (acc : List Output × Server) (i : Nat) : List Output × Server :=
  if acc.2.nsOf i = some k then
    let (outs, s) := (acc.2.updateClient i fun c => { c with destroyAll := true }).closeDownClient
      mem (windows i) i
    (acc.1 ++ outs, s)
  else acc

def xnsDelete (mem : Name → Bool) (windows : Nat → List Nat) (k : NsId) (onClients : OnClients) :
    Status × List Output × Server :=
  match s.findNs k with
  | none => (.badName, [], s)
  | some ns =>
    if ns.builtin then (.badAccess, [], s)
    else if ns.refcnt = 0 then (.success, [], s.xnsDestroyNamespace k)
    else if onClients ≠ .killClients then (.badAccess, [], s)
    else
      -- the last client's exit shall not destroy the namespace
      let s := s.updateNs k fun ns => { ns with autoRemove := false }
      let (outs, s) := (range' 1 (s.clients.length - 1)).foldl (killOne mem windows k) ([], s)
      (.success, outs, s.xnsDestroyNamespace k)

/-! ### The requests (`proto.c`) -/

def procXnsCreateNamespace (name : Name) (capabilities attributes : BitVec 32)
    (nsAllocated nameAllocated rootCreated : Bool) : Status × Server :=
  if capabilities &&& ~~~ capabilityAll ≠ 0 then (.badValue, s)
  else if attributes &&& (~~~ attrAll ||| attrImmutable) ≠ 0 then (.badValue, s)
  else s.xnsCreate name capabilities attributes nsAllocated nameAllocated rootCreated

def procXnsDeleteNamespace (mem : Name → Bool) (windows : Nat → List Nat) (client : Nat)
    (name : Name) (onClients : OnClients) : Status × List Output × Server :=
  match s.xnsLookup name with
  | none => (.badName, [], s)
  | some ns =>
    if ns.builtin then (.badAccess, [], s)
    else if s.nsOf client = some ns.addr then (.badAccess, [], s)
    else s.xnsDelete mem windows ns.addr onClients

def procXnsSetNamespaceFlags (name : Name) (valueMask values : BitVec 32) : Status × Server :=
  if valueMask &&& ~~~ capabilityAll ≠ 0 then (.badValue, s)
  else
    match s.xnsLookup name with
    | none => (.badName, s)
    | some ns => if ns.builtin then (.badAccess, s) else s.xnsSetCaps ns.addr valueMask values

def procXnsAddAuthToken (name proto data : Name) (mem : TokenMemory) :
    Except Status (BitVec 32) × Server :=
  if proto.length = 0 then (.error .badValue, s)
  else
    match s.xnsLookup name with
    | none => (.error .badName, s)
    | some ns =>
      if ns.builtin then (.error .badAccess, s) else s.xnsAddToken ns.addr proto data mem

def procXnsRemoveAuthToken (name : Name) (handle : BitVec 32) : Status × Server :=
  match s.xnsLookup name with
  | none => (.badName, s)
  | some ns => if ns.builtin then (.badAccess, s) else s.xnsRemoveToken ns.addr handle

/-- `walk_ns` is the namespace of the last `namespace` line. -/
def parseLine (line : Name) (walkNs : Option NsId) (mem : TokenMemory) : Option NsId × Server :=
  let curr := walkNs.getD nsRoot
  match statement line with
  | none => (walkNs, s)
  | some (.namespace id) =>
    let (k, s) := s.selectNs id
    (some k, s)
  | some (.auth proto data) => (walkNs, (s.xnsAddToken curr proto data mem).2)
  | some (.allow what) => (walkNs, s.updateNs curr fun ns => what.foldl allowOne ns)
  | some .superpower => (walkNs, s.updateNs curr fun ns => { ns with superPower := true })

def loadLines : Option NsId → Server → List (Name × TokenMemory) → Server
  | _, s, [] => s
  | walkNs, s, (line, mem) :: rest =>
    let (walkNs, s) := s.parseLine line walkNs mem
    loadLines walkNs s rest

end Server

/-- `ns_root` and `ns_anon` before the file is read. -/
def builtIns : List Xnamespace :=
  [{ addr := Server.nsRoot, name := bytesOf "root", builtin := true, allowMouseMotion := true,
     allowShape := true, allowTransparency := true, allowXInput := true, allowXKeyboard := true,
     superPower := true, refcnt := 1 },
   { addr := Server.nsAnon, name := bytesOf "anon", builtin := true, refcnt := 1 }]

/-- The server before the extension is initialized, where only `serverClient` exists. -/
def beforeInit (limitClients : Nat) : Server where
  nsList := builtIns
  nextAddr := 2
  clients := some {} :: replicate (limitClients - 1) none
  mitAuth := []
  atoms := Atom.initAtoms
  currentSelections := []
  selectionEvents := []

/-- `NamespaceExtensionInit`; `mem` is what each line of the file meets. -/
def namespaceExtensionInit (limitClients : Nat) (file : Name) (mem : Nat → TokenMemory) : Server :=
  ((beforeInit limitClients).loadLines none
    ((fileLines file.length file).mapIdx fun i line => (line, mem i))).xnamespaceAssignClient 0
      (some Server.nsRoot)

end Xfront.Namespace
