import Xfront.Lib.Run
import Xfront.Record.IntervalList

/-!
# Contexts, registrations and hooks (Xext/record/record.c)

The requests of RECORD and the changes of client states, as far as they change the contexts,
their registrations and the clients' request vectors. A context and a client have a number for
their address. A failed assertion has no result; allocations succeed. The set of a registration
is given by the intervals that `RecordIterateSet` gives. What is recorded on the way is left
out.
-/

namespace Xfront.Record.Hooks
open List Function

inductive Handler
  | initial | proc | swappedProc | recordARequest
  deriving DecidableEq

inductive ClientState
  | initial | running | retained | gone
  deriving DecidableEq

/-- A client: `vector` is what its entries are without RECORD, and `requestVector` is
`recordVector` as long as there is the client's private. -/
structure Client where
  state : ClientState
  vector : Handler
  recordVector : Option (Nat → Handler)

def Client.requestVector (cl : Client) : Nat → Handler :=
  cl.recordVector.getD fun _ => cl.vector

inductive ClientSpec
  | client (k : Nat)
  | futureClients
  deriving DecidableEq

structure Registration where
  pRequestMajorOpSet : Option (List RecordSetInterval)
  pClientIDs : List ClientSpec

structure Context where
  pRecordingClient : Option Nat
  pListOfRCAP : List Registration

structure State where
  ppAllContexts : List Nat
  numEnabledContexts : Nat
  numEnabledRCAPs : Nat
  contexts : Nat → Option Context
  clients : Nat → Option Client

def State.start : State where
  ppAllContexts := []
  numEnabledContexts := 0
  numEnabledRCAPs := 0
  contexts _ := none
  clients k := if k = 0 then some ⟨.initial, .initial, none⟩ else none

def State.setContext (s : State) (c : Nat) (ctx : Option Context) : State :=
  { s with contexts := update s.contexts c ctx }

def State.setClient (s : State) (k : Nat) (cl : Option Client) : State :=
  { s with clients := update s.clients k cl }

def State.enabled (s : State) : List Nat := s.ppAllContexts.take s.numEnabledContexts

def hookInterval (vector : Nat → Handler) (interval : RecordSetInterval) : Nat → Handler :=
  (range' interval.first.toNat (interval.last.toNat + 1 - interval.first.toNat)).foldl
    (fun vector j => update vector j .recordARequest) vector

def hookSet (vector : Nat → Handler) (intervals : List RecordSetInterval) : Nat → Handler :=
  intervals.foldl hookInterval vector

def installClient (pRequestMajorOpSet : Option (List RecordSetInterval)) (s : State)
    (client : ClientSpec) : State :=
  match client, pRequestMajorOpSet with
  | .client k, some intervals =>
    match s.clients k with
    | some pClient =>
      let recordVector := hookSet pClient.requestVector intervals
      s.setClient k (some { pClient with recordVector := some recordVector })
    | none => s
  | _, _ => s

def recordInstallHooks (s : State) (pRCAP : Registration) : State :=
  let s := pRCAP.pClientIDs.foldl (installClient pRCAP.pRequestMajorOpSet) s
  { s with numEnabledRCAPs := s.numEnabledRCAPs + 1 }

/-- `RecordFindClientOnContext`: the place of the registration and that in `pClientIDs`. -/
def recordFindClient (clientspec : ClientSpec) : List Registration → Option (Nat × Nat)
  | [] => none
  | pRCAP :: rest =>
    if clientspec ∈ pRCAP.pClientIDs then some (0, pRCAP.pClientIDs.idxOf clientspec)
    else (recordFindClient clientspec rest).map fun (i, pos) => (i + 1, pos)

def setOnContext (s : State) (clientspec : ClientSpec) (c : Nat) :
    Option (List RecordSetInterval) :=
  (s.contexts c).bind fun pContext =>
    (recordFindClient clientspec pContext.pListOfRCAP).bind fun (i, _) =>
      (pContext.pListOfRCAP[i]?).bind (·.pRequestMajorOpSet)

/-- `RecordUninstallHooks`, for one client: the vector is made again from the sets on the other
enabled contexts, and is given up when there are none. -/
def uninstallClient (c : Nat) (pRequestMajorOpSet : Option (List RecordSetInterval)) (s : State)
    (client : ClientSpec) : Option State :=
  match client, pRequestMajorOpSet with
  | .client k, some _ =>
    (s.clients k).bind fun pClient => pClient.recordVector.bind fun _ =>
      let others := (s.enabled.filter (· ≠ c)).filterMap (setOnContext s (.client k))
      let recordVector :=
        if others = [] then none else some (others.foldl hookSet fun _ => pClient.vector)
      some (s.setClient k (some { pClient with recordVector := recordVector }))
  | _, _ => some s

/-- `RecordUninstallHooks`, for one client, with the assertion that follows. -/
def uninstallOneClient (c : Nat) (pRequestMajorOpSet : Option (List RecordSetInterval))
    (s : State) (client : ClientSpec) : Option State :=
  (uninstallClient c pRequestMajorOpSet s client).bind fun s =>
    if s.numEnabledRCAPs = 0 then none else some s

/-- `RecordUninstallHooks`, for all clients of a registration of the context. -/
def recordUninstallHooks (s : State) (c : Nat) (pRCAP : Registration) : Option State :=
  (pRCAP.pClientIDs.foldlM (uninstallClient c pRCAP.pRequestMajorOpSet) s).bind fun s =>
    if s.numEnabledRCAPs = 0 then none
    else some { s with numEnabledRCAPs := s.numEnabledRCAPs - 1 }

def removeAt (ids : List ClientSpec) (position : Nat) : List ClientSpec :=
  match ids.getLast? with
  | none => ids
  | some last => (ids.set position last).dropLast

def recordDeleteClientFromRCAP (s : State) (c i position : Nat) : Option State :=
  (s.contexts c).bind fun pContext => (pContext.pListOfRCAP[i]?).bind fun pRCAP =>
    (pRCAP.pClientIDs[position]?).bind fun client =>
      let enabled := pContext.pRecordingClient.isSome
      let pClientIDs := removeAt pRCAP.pClientIDs position
      let left := pContext.pListOfRCAP.set i { pRCAP with pClientIDs := pClientIDs }
      (if enabled then uninstallOneClient c pRCAP.pRequestMajorOpSet s client else some s).bind
        fun s =>
          if pClientIDs = [] then
            (if enabled then recordUninstallHooks s c { pRCAP with pClientIDs := [] }
              else some s).map fun s =>
                s.setContext c
                  (some { pContext with pListOfRCAP := pContext.pListOfRCAP.eraseIdx i })
          else some (s.setContext c (some { pContext with pListOfRCAP := left }))

def recordAddClientToRCAP (s : State) (c i : Nat) (clientspec : ClientSpec) : Option State :=
  (s.contexts c).bind fun pContext => (pContext.pListOfRCAP[i]?).map fun pRCAP =>
    let pClientIDs := pRCAP.pClientIDs ++ [clientspec]
    let more := pContext.pListOfRCAP.set i { pRCAP with pClientIDs := pClientIDs }
    let s := s.setContext c (some { pContext with pListOfRCAP := more })
    if pContext.pRecordingClient.isSome then
      installClient pRCAP.pRequestMajorOpSet s clientspec
    else s

def recordDeleteClientFromContext (c : Nat) (s : State) (clientspec : ClientSpec) :
    Option State :=
  (s.contexts c).bind fun pContext =>
    match recordFindClient clientspec pContext.pListOfRCAP with
    | some (i, position) => recordDeleteClientFromRCAP s c i position
    | none => some s

/-- A specifier of a request: a resource of a client is found, or the lookup fails. -/
inductive Specifier
  | currentClients | futureClients | allClients
  | resource (client : Nat) (found : Bool)
  deriving DecidableEq

def State.running (s : State) (k : Nat) : Bool :=
  (s.clients k).any fun pClient => pClient.state = .running

def sanityCheckClientSpecifiers (s : State) (errorspec : Option Nat) (specs : List Specifier) :
    Bool :=
  specs.all fun
    | .resource k found => errorspec ≠ some k && k ≠ 0 && s.running k && found
    | _ => true

def dropEqual (spec : Specifier) : Nat → List Specifier → List Specifier
  | n + 1, first :: rest =>
    if first = spec then
      match rest.getLast? with
      | none => []
      | some last => dropEqual spec n (last :: rest.dropLast)
    else first :: dropEqual spec n rest
  | _, _ => []

/-- All clients that are running but the excluded one, in the order of their numbers. -/
def currentClients (limitClients : Nat) (s : State) (excludespec : Option Nat) :
    List ClientSpec :=
  ((range limitClients).filter fun k =>
    k ≠ 0 && s.running k && excludespec ≠ some k).map .client

/-- The outer loop; what is before in the array is `before`. -/
def canonicalizeFrom (current : List ClientSpec) :
    Nat → List ClientSpec → List Specifier → List ClientSpec
  | n + 1, before, spec :: rest =>
    match spec with
    | .allClients => current ++ [.futureClients]
    | .currentClients => current
    | .futureClients =>
      canonicalizeFrom current n (before ++ [.futureClients]) (dropEqual spec rest.length rest)
    | .resource k _ =>
      canonicalizeFrom current n (before ++ [.client k]) (dropEqual spec rest.length rest)
  | _, before, _ => before

def Specifier.stripped : Specifier → Specifier
  | .resource k _ => .resource k true
  | spec => spec

def canonicalizeClientSpecifiers (limitClients : Nat) (s : State) (excludespec : Option Nat)
    (specs : List Specifier) : List ClientSpec :=
  canonicalizeFrom (currentClients limitClients s excludespec) specs.length []
    (specs.map (·.stripped))

/-- `RecordRegisterClients`; the flag is off for an error. -/
def recordRegisterClients (limitClients : Nat) (s : State) (c : Nat) (specs : List Specifier)
    (pRequestMajorOpSet : Option (List RecordSetInterval)) : Option (State × Bool) :=
  (s.contexts c).bind fun pContext =>
    if ¬ sanityCheckClientSpecifiers s pContext.pRecordingClient specs then some (s, false)
    else if specs = [] then some (s, true)
    else
      let pCanonClients :=
        canonicalizeClientSpecifiers limitClients s pContext.pRecordingClient specs
      (pCanonClients.foldlM (recordDeleteClientFromContext c) s).bind fun s =>
        (s.contexts c).map fun pContext =>
          let pRCAP : Registration := ⟨pRequestMajorOpSet, pCanonClients⟩
          let s := s.setContext c
            (some { pContext with pListOfRCAP := pRCAP :: pContext.pListOfRCAP })
          (if pContext.pRecordingClient.isSome then recordInstallHooks s pRCAP else s, true)

def procRecordCreateContext (limitClients : Nat) (s : State) (c : Nat) (specs : List Specifier)
    (pRequestMajorOpSet : Option (List RecordSetInterval)) : Option (State × Bool) :=
  if (s.contexts c).isSome then some (s, false)
  else
    (recordRegisterClients limitClients (s.setContext c (some ⟨none, []⟩)) c specs
      pRequestMajorOpSet).map fun (s, success) =>
        if success then ({ s with ppAllContexts := s.ppAllContexts ++ [c] }, true)
        else (s.setContext c none, false)

def procRecordUnregisterClients (limitClients : Nat) (s : State) (c : Nat)
    (specs : List Specifier) : Option (State × Bool) :=
  if (s.contexts c).isNone ∨ ¬ sanityCheckClientSpecifiers s none specs then some (s, false)
  else
    ((canonicalizeClientSpecifiers limitClients s none specs).foldlM
      (recordDeleteClientFromContext c) s).map fun s => (s, true)

def swapContexts (contexts : List Nat) (i j : Nat) (c : Nat) : List Nat :=
  if i ≠ j then (contexts.set i (contexts.getD j 0)).set j c else contexts

def procRecordEnableContext (s : State) (c client : Nat) : Option (State × Bool) :=
  match s.contexts c with
  | none => some (s, false)
  | some pContext =>
    if pContext.pRecordingClient.isSome then some (s, false)
    else
      let s := pContext.pListOfRCAP.foldl recordInstallHooks s
      let s := s.setContext c (some { pContext with pRecordingClient := some client })
      (recordDeleteClientFromContext c s (.client client)).bind fun s =>
        let i := s.ppAllContexts.idxOf c
        if i < s.numEnabledContexts then none
        else some ({ s with
          ppAllContexts := swapContexts s.ppAllContexts i s.numEnabledContexts c
          numEnabledContexts := s.numEnabledContexts + 1 }, true)

def recordDisableContext (s : State) (c : Nat) : Option State :=
  (s.contexts c).bind fun pContext =>
    if pContext.pRecordingClient.isNone then some s
    else
      (pContext.pListOfRCAP.foldlM (fun s pRCAP => recordUninstallHooks s c pRCAP) s).bind
        fun s =>
          let s := s.setContext c (some { pContext with pRecordingClient := none })
          let i := s.ppAllContexts.idxOf c
          if s.numEnabledContexts ≤ i then none
          else some { s with
            ppAllContexts := swapContexts s.ppAllContexts i (s.numEnabledContexts - 1) c
            numEnabledContexts := s.numEnabledContexts - 1 }

def deleteFirstRCAP (c : Nat) (s : State) (pRCAP : Registration) : Option State :=
  ((range pRCAP.pClientIDs.length).reverse).foldlM
    (fun s position => recordDeleteClientFromRCAP s c 0 position) s

def recordDeleteContext (s : State) (c : Nat) : Option State :=
  (recordDisableContext s c).bind fun s => (s.contexts c).bind fun pContext =>
    (pContext.pListOfRCAP.foldlM (deleteFirstRCAP c) s).map fun s =>
      let contexts :=
        (s.ppAllContexts.set (s.ppAllContexts.idxOf c) (s.ppAllContexts.getLastD 0)).dropLast
      { s.setContext c none with
        ppAllContexts := if c ∈ s.ppAllContexts then contexts else s.ppAllContexts }

def deleteIfThere (s : State) (c : Nat) : Option State :=
  if (s.contexts c).isSome then recordDeleteContext s c else some s

/-! ### `RecordAClientStateChange` -/

def recordNewClient (k : Nat) (s : State) (c : Nat) : Option State :=
  (s.contexts c).bind fun pContext =>
    match recordFindClient .futureClients pContext.pListOfRCAP with
    | some (i, _) => recordAddClientToRCAP s c i (.client k)
    | none => some s

def recordGoneClient (k : Nat) (s : State) (c : Nat) : Option State :=
  (s.contexts c).bind fun pContext =>
    (if pContext.pRecordingClient = some k then recordDisableContext s c else some s).bind
      fun s => recordDeleteClientFromContext c s (.client k)

def clientStateChange (s : State) (k : Nat) : Option State :=
  (s.clients k).bind fun pClient =>
    match pClient.state with
    | .running => s.ppAllContexts.foldlM (recordNewClient k) s
    | .gone | .retained => s.ppAllContexts.foldlM (recordGoneClient k) s
    | .initial => some s

def changeState (s : State) (k : Nat) (pClient : Client) : Option State :=
  clientStateChange (s.setClient k (some pClient)) k

inductive Action
  | createContext (requester c : Nat) (specs : List Specifier)
      (pRequestMajorOpSet : Option (List RecordSetInterval))
  | registerClients (requester c : Nat) (specs : List Specifier)
      (pRequestMajorOpSet : Option (List RecordSetInterval))
  | unregisterClients (requester c : Nat) (specs : List Specifier)
  | enableContext (requester c : Nat)
  | disableContext (requester c : Nat)
  | freeContext (requester c : Nat)
  | connect (k : Nat)
  | establish (k : Nat) (swapped : Bool)
  | close (k : Nat) (retain : Bool) (owned : List Nat)

/-- `CloseDownClient`: the state changes to `retained`, or the client goes with its contexts. -/
def closeDownClient (s : State) (k : Nat) (retain : Bool) (owned : List Nat) : Option State :=
  (s.clients k).bind fun pClient =>
    if retain ∧ pClient.state ≠ .retained then changeState s k { pClient with state := .retained }
    else
      (changeState s k { pClient with state := .gone }).bind fun s =>
        (owned.foldlM deleteIfThere s).map fun s => s.setClient k none

def step (limitClients : Nat) (s : State) : Action → Option (State × Bool)
  | .createContext _ c specs pRequestMajorOpSet =>
    procRecordCreateContext limitClients s c specs pRequestMajorOpSet
  | .registerClients _ c specs pRequestMajorOpSet =>
    if (s.contexts c).isNone then some (s, false)
    else recordRegisterClients limitClients s c specs pRequestMajorOpSet
  | .unregisterClients _ c specs => procRecordUnregisterClients limitClients s c specs
  | .enableContext requester c => procRecordEnableContext s c requester
  | .disableContext _ c =>
    if (s.contexts c).isNone then some (s, false)
    else (recordDisableContext s c).map fun s => (s, true)
  | .freeContext _ c =>
    if (s.contexts c).isNone then some (s, false)
    else (recordDeleteContext s c).map fun s => (s, true)
  | .connect k => some (s.setClient k (some ⟨.initial, .initial, none⟩), true)
  | .establish k swapped =>
    (changeState s k ⟨.running, if swapped then .swappedProc else .proc, none⟩).map fun s =>
      (s, true)
  | .close k retain owned => (closeDownClient s k retain owned).map fun s => (s, true)

end Xfront.Record.Hooks
