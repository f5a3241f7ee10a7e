import Xfront.Lib.Chains

/-!
# The resource table (dix/resource.c, dix/resource_priv.h)

`AddResource` with `RebuildTable`, the functions that free or change entries, the two
lookups, and the ids the server allocates for a client. The outcomes of allocations are
arguments; delete functions and state callbacks do not touch the table and are left out.
-/

namespace Xfront.Resource
open List BitVec Function

abbrev XID := BitVec 32
abbrev RESTYPE := BitVec 32

/-! ### Ids (`resource_priv.h`) -/

structure Limits where
  limitClients : Nat
  allowed : limitClients ∈ [64, 128, 256, 512, 1024, 2048]

theorem allowed_64 : 64 ∈ [64, 128, 256, 512, 1024, 2048] := by decide

theorem allowed_256 : 256 ∈ [64, 128, 256, 512, 1024, 2048] := by decide

namespace Limits
variable (L : Limits)

/-- `ResourceClientBits`, with `ilog2` as `Nat.log2`. -/
def clientBits : Nat := Nat.log2 L.limitClients

def clientOffset : Nat := 29 - L.clientBits

def resourceIDMask : XID := twoPow 32 L.clientOffset - 1

def resourceClientMask : XID := (twoPow 32 L.clientBits - 1) <<< L.clientOffset

def clientIdForXID (xid : XID) : Nat :=
  ((xid &&& L.resourceClientMask) >>> L.clientOffset).toNat % 2 ^ 16

/-- `clientAsMask` of the client with the index `c`. -/
def clientAsMask (c : Nat) : XID := BitVec.ofNat 32 c <<< L.clientOffset

end Limits

def serverBit : XID := 0x40000000#32
def serverMinID : XID := 32

def initBuckets : Nat := 64
def initHashSize : Nat := 6
def maxHashSize : Nat := 16

variable {V : Type}

structure ResourceRec (V : Type) where
  id : XID
  type : RESTYPE
  value : V
  deriving DecidableEq

structure ClientResourceRec (V : Type) where
  resources : List (List (ResourceRec V))
  elements : Int
  buckets : Nat
  hashsize : Nat
  fakeID : XID
  endFakeID : XID

/-- `clientTable`, and the clients marked with `dixMarkClientException`. -/
structure Server (V : Type) where
  clientTable : Nat → ClientResourceRec V
  exception : Nat → Bool

def Server.set (s : Server V) (c : Nat) (rrec : ClientResourceRec V) : Server V :=
  { s with clientTable := update s.clientTable c rrec }

@[simp] theorem Server.set_exception (s : Server V) (c : Nat) (rrec : ClientResourceRec V) :
    (s.set c rrec).exception = s.exception := rfl

@[simp] theorem Server.set_same (s : Server V) (c : Nat) (rrec : ClientResourceRec V) :
    (s.set c rrec).clientTable c = rrec := update_self ..

theorem Server.set_other (s : Server V) {c d : Nat} (h : d ≠ c) (rrec : ClientResourceRec V) :
    (s.set c rrec).clientTable d = s.clientTable d := update_of_ne h ..

/-! ### `HashResourceID` (`resource.c:679-690`) -/

def hashResourceID (L : Limits) (id : XID) (numBits : Nat) : Nat :=
  let id := id &&& L.resourceIDMask
  if numBits < 9 then
    ((id ^^^ (id >>> numBits) ^^^ (id >>> (numBits <<< 1))) &&& ~~~(~~~(0 : XID) <<< numBits)).toNat
  else ((id ^^^ (id >>> numBits)) &&& ~~~(~~~(0 : XID) <<< numBits)).toNat

def ClientResourceRec.chain (L : Limits) (rrec : ClientResourceRec V) (id : XID) :
    List (ResourceRec V) :=
  chainAt rrec.resources (hashResourceID L id rrec.hashsize)

def ClientResourceRec.setChain (L : Limits) (rrec : ClientResourceRec V) (id : XID)
    (chain : List (ResourceRec V)) : ClientResourceRec V :=
  { rrec with resources := rrec.resources.set (hashResourceID L id rrec.hashsize) chain }

@[simp] theorem ClientResourceRec.setChain_elements (L : Limits) (rrec : ClientResourceRec V)
    (id : XID) (chain : List (ResourceRec V)) :
    (rrec.setChain L id chain).elements = rrec.elements := rfl

/-! ### `InitClientResources` (`resource.c:643-677`) -/

/-- The first id of a range, `clientAsMask | (index ? SERVER_BIT : SERVER_MINID)`. -/
def firstServerID (L : Limits) (c : Nat) : XID :=
  L.clientAsMask c ||| if c = 0 then serverMinID else serverBit

def initClientResources (L : Limits) (s : Server V) (c : Nat) : Server V :=
  s.set c {
    resources := replicate initBuckets []
    elements := 0
    buckets := initBuckets
    hashsize := initHashSize
    fakeID := firstServerID L c
    endFakeID := (firstServerID L c ||| L.resourceIDMask) + 1 }

/-! ### `AddResource` (`resource.c:814-847`) and `RebuildTable` (`resource.c:849-888`) -/

def rebuildTable (L : Limits) (rrec : ClientResourceRec V) : ClientResourceRec V :=
  { rrec with
    hashsize := rrec.hashsize + 1
    resources := rrec.resources.foldl
      (foldl (appendTail fun res => hashResourceID L res.id (rrec.hashsize + 1)))
      (replicate (2 * rrec.buckets) [])
    buckets := 2 * rrec.buckets }

/-- The table is full and `RebuildTable` gets its memory. -/
def ClientResourceRec.grown (L : Limits) (rrec : ClientResourceRec V) (rebuilt : Bool) :
    ClientResourceRec V :=
  if rrec.elements ≥ 4 * rrec.buckets ∧ rrec.hashsize < maxHashSize ∧ rebuilt then
    rebuildTable L rrec
  else rrec

def addResource (L : Limits) (s : Server V) (id : XID) (type : RESTYPE) (value : V)
    (rebuilt allocated : Bool) : Option (Bool × Server V) :=
  let c := L.clientIdForXID id
  if (s.clientTable c).buckets = 0 then none
  else
    let rrec := (s.clientTable c).grown L rebuilt
    if allocated then
      let rrec := rrec.setChain L id (⟨id, type, value⟩ :: rrec.chain L id)
      some (true, s.set c { rrec with elements := rrec.elements + 1 })
    else some (false, s.set c rrec)

/-! ### Freeing (`resource.c:901-997`) -/

def Server.inUse (s : Server V) (L : Limits) (c : Nat) : Bool :=
  c < L.limitClients ∧ (s.clientTable c).buckets ≠ 0

def unlinkAll (id : XID) : List (ResourceRec V) → Int → List (ResourceRec V) × Int
  | [], elements => ([], elements)
  | res :: rest, elements =>
    if res.id = id then unlinkAll id rest (elements - 1)
    else
      let next := unlinkAll id rest elements
      (res :: next.1, next.2)

def unlinkFirst (p : ResourceRec V → Bool) :
    List (ResourceRec V) → Int → List (ResourceRec V) × Int
  | [], elements => ([], elements)
  | res :: rest, elements =>
    if p res then (rest, elements - 1)
    else
      let next := unlinkFirst p rest elements
      (res :: next.1, next.2)

def Server.unlink (s : Server V) (L : Limits) (id : XID)
    (walk : List (ResourceRec V) → Int → List (ResourceRec V) × Int) : Server V :=
  let c := L.clientIdForXID id
  if s.inUse L c then
    let rrec := s.clientTable c
    let next := walk (rrec.chain L id) rrec.elements
    s.set c { rrec.setChain L id next.1 with elements := next.2 }
  else s

def freeResource (L : Limits) (s : Server V) (id : XID) : Server V :=
  s.unlink L id (unlinkAll id)

def freeResourceByType (L : Limits) (s : Server V) (id : XID) (type : RESTYPE) : Server V :=
  s.unlink L id (unlinkFirst fun res => res.id = id ∧ res.type = type)

def freeResourceByTypeValue [DecidableEq V] (L : Limits) (s : Server V) (id : XID)
    (type : RESTYPE) (value : V) : Server V :=
  s.unlink L id (unlinkFirst fun res => res.id = id ∧ res.type = type ∧ res.value = value)

/-! ### `ChangeResourceValue` (`resource.c:1005-1022`) -/

def changeResourceValue (L : Limits) (s : Server V) (id : XID) (rtype : RESTYPE) (value : V) :
    Bool × Server V :=
  let c := L.clientIdForXID id
  let rrec := s.clientTable c
  let hit (res : ResourceRec V) : Bool := res.id = id ∧ res.type = rtype
  if s.inUse L c then
    if (rrec.chain L id).any hit then
      (true, s.set c (rrec.setChain L id
        (replaceFirst hit (fun res => { res with value := value }) (rrec.chain L id))))
    else (false, s)
  else (false, s)

/-! ### Lookups (`resource.c:1232-1300`) -/

def success : Int := 0
def badValue : Int := 2
def badImplementation : Int := 17

/-- `lastResourceType`, `TypeMask` and the error values in `resourceTypes`. -/
structure ResourceTypes where
  lastResourceType : RESTYPE
  typeMask : RESTYPE
  errorValue : RESTYPE → Int

/-- `access` is `XaceHookResourceAccess` for the client, nothing when there is no client. -/
def dixLookupResourceByType (L : Limits) (types : ResourceTypes) (s : Server V) (id : XID)
    (rtype : RESTYPE) (access : Option (ResourceRec V → Int)) : Int × Option V :=
  if types.lastResourceType < rtype &&& types.typeMask then (badImplementation, none)
  else
    let c := L.clientIdForXID id
    let found := if s.inUse L c then
        ((s.clientTable c).chain L id).find? fun res => res.id = id ∧ res.type = rtype
      else none
    match found with
    | none => (types.errorValue (rtype &&& types.typeMask), none)
    | some res =>
      match access with
      | none => (success, some res.value)
      | some hook =>
        if hook res = badValue then (types.errorValue (rtype &&& types.typeMask), none)
        else if hook res ≠ success then (hook res, none)
        else (success, some res.value)

def dixLookupResourceByClass (L : Limits) (s : Server V) (id : XID) (rclass : RESTYPE)
    (access : Option (ResourceRec V → Int)) : Int × Option V :=
  let c := L.clientIdForXID id
  let found := if s.inUse L c then
      ((s.clientTable c).chain L id).find? fun res => res.id = id ∧ res.type &&& rclass ≠ 0
    else none
  match found with
  | none => (badValue, none)
  | some res =>
    match access with
    | none => (success, some res.value)
    | some hook => if hook res ≠ success then (hook res, none) else (success, some res.value)

/-! ### Server ids (`resource.c:692-812`) -/

def availableLoop (L : Limits) (rrec : ClientResourceRec V) (id : XID) : Nat → XID
  | 0 => 0
  | n + 1 =>
    if (rrec.chain L id).all fun res => res.id ≠ id then id else availableLoop L rrec (id + 1) n

def availableID (L : Limits) (rrec : ClientResourceRec V) (id maxid goodid : XID) : XID :=
  if id ≤ goodid ∧ goodid ≤ maxid then goodid
  else availableLoop L rrec id (maxid.toNat + 1 - id.toNat)

structure Range where
  id : XID
  maxid : XID
  goodid : XID

def narrow (L : Limits) (rrec : ClientResourceRec V) (r : Range) (res : ResourceRec V) : Range :=
  if res.id < r.id ∨ r.maxid < res.id then r
  else if r.maxid - res.id ≤ res.id - r.id then
    let goodid := availableID L rrec r.id (res.id - 1) r.goodid
    if goodid ≠ 0 then ⟨r.id, res.id - 1, goodid⟩ else ⟨res.id + 1, r.maxid, goodid⟩
  else
    let goodid := availableID L rrec (res.id + 1) r.maxid r.goodid
    if goodid = 0 then ⟨r.id, res.id - 1, goodid⟩ else ⟨res.id + 1, r.maxid, goodid⟩

/-- With `server` the ids of the server, else those of the client. -/
def getXIDRange (L : Limits) (s : Server V) (c : Nat) (server : Bool) : XID × XID :=
  let rrec := s.clientTable c
  let id := if server then firstServerID L c else L.clientAsMask c
  let r := rrec.resources.flatten.foldl (narrow L rrec) ⟨id, id ||| L.resourceIDMask, 0⟩
  if r.maxid < r.id then (0, 0) else (r.id, r.maxid)

def overflowID (L : Limits) (c : Nat) : XID := L.clientAsMask c ||| serverBit * 3

def markClientException (s : Server V) (c : Nat) : Server V :=
  { s with exception := update s.exception c true }

/-- The next range of ids and the server; nothing for `FatalError`. -/
def nextWindow (L : Limits) (s : Server V) (c : Nat) : Option (XID × XID × Server V) :=
  let (id, maxid) := getXIDRange L s c true
  if id = 0 then
    if c = 0 then none
    else some (overflowID L c, overflowID L c ||| L.resourceIDMask, markClientException s c)
  else some (id, maxid, s)

theorem overflowID_ne_zero (L : Limits) (c : Nat) : overflowID L c ≠ 0 := by
  intro h
  have hbit := congrArg (·.getLsbD 30) h
  simp [overflowID, serverBit] at hbit

theorem nextWindow_ne_zero {L : Limits} {s s' : Server V} {c : Nat} {id maxid : XID}
    (h : nextWindow L s c = some (id, maxid, s')) : id ≠ 0 := by
  rw [nextWindow] at h
  dsimp only at h
  split at h
  · split at h
    · cases h
    · cases h
      exact overflowID_ne_zero L c
  · rename_i hid
    cases h
    exact hid

def Server.setWindow (s : Server V) (c : Nat) (fakeID endFakeID : XID) : Server V :=
  s.set c { s.clientTable c with fakeID := fakeID, endFakeID := endFakeID }

def fakeClientID (L : Limits) (s : Server V) (c : Nat) : Option (XID × Server V) :=
  let id := (s.clientTable c).fakeID
  let endFakeID := (s.clientTable c).endFakeID
  let s := s.setWindow c (id + 1) endFakeID
  if id = 0 then fakeClientID L s c
  else if id ≠ endFakeID then some (id, s)
  else
    match hw : nextWindow L s c with
    | none => none
    | some (id, maxid, s) =>
      let s := s.setWindow c (id + 1) (maxid + 1)
      if id = 0 then fakeClientID L s c else some (id, s)
termination_by if (s.clientTable c).fakeID = 0 then 1 else 0
decreasing_by
  · rename_i h
    simp only [Server.setWindow, Server.set_same, id, h]
    decide
  · exact absurd (by assumption) (nextWindow_ne_zero hw)

/-! ### `LegalNewID` (`resource.c:1207-1230`), without Xinerama -/

def legalNewID (L : Limits) (s : Server V) (id : XID) (c : Nat)
    (access : ResourceRec V → Int) : Bool :=
  if L.clientAsMask c = id &&& ~~~L.resourceIDMask then
    (dixLookupResourceByClass L s id (~~~0) (some access)).1 = badValue
  else false

end Xfront.Resource
