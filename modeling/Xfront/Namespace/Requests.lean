import Xfront.Namespace.Lifetime

/-!
# Selections (dix/selection.c, Xext/xfixes/select.c)

The requests for selections, and the events of a server on which clients of different
namespaces meet.
-/

namespace Xfront.Namespace
open Status
open Atom (Name)
open Resource (XID)

def TimeStamp.earlier (a b : TimeStamp) : Bool :=
  a.months < b.months ∨ a.months = b.months ∧ a.milliseconds < b.milliseconds

/-- What a request finds outside this code: memory, the answers of `dixLookupWindow` and of
`XaceHookSelectionAccess`, and the time. -/
structure Outside where
  mem : Name → Bool
  selectionAllocated : Bool
  eventAllocated : Bool
  windowStatus : Status
  access : Bool
  currentTime : TimeStamp

inductive Request
  | setSelectionOwner (window selection : Nat) (time : TimeStamp)
  | getSelectionOwner (id : Nat)
  | convertSelection (requestor selection target property time : Nat)
  | selectSelectionInput (window selection : Nat) (eventMask : BitVec 32)

namespace Server
variable (s : Server)

def validAtom (atom : Option Nat) : Bool := atom.any fun a => a ≠ 0 ∧ a ≤ s.atoms.lastAtom

def dixLookupSelection (atom : Nat) (w : Outside) : Except Status Selection × Server :=
  let found (sel : Selection) : Except Status Selection :=
    if w.access then .ok sel else .error .badAccess
  match s.currentSelections.find? (·.selection = atom) with
  | some sel => (found sel, s)
  | none =>
    if w.selectionAllocated then
      (found { selection := atom },
        { s with currentSelections := { selection := atom } :: s.currentSelections })
    else (.error .badAlloc, s)

def updateSelection (atom : Nat) (f : Selection → Selection) : Server :=
  { s with
    currentSelections := s.currentSelections.map fun sel =>
      if sel.selection = atom then f sel else sel }

def selectionClear (w : Outside) (client window selection : Nat) (time : TimeStamp)
    (sel : Selection) : List Output × Server :=
  match sel.client with
  | some old =>
    if window = 0 ∨ old ≠ client then
      let (name, s) := s.hookSelectionFilter w.mem client .evClear (some selection)
      (s.writeEvent (.selectionClear old time sel.window (name.getD 0)), s)
    else ([], s)
  | none => ([], s)

def newOwner (client window : Nat) (time : TimeStamp) (sel : Selection) : Selection :=
  { sel with
    lastTimeChanged := time
    window := window
    pWin := if window = 0 then none else some window
    client := if window = 0 then none else some client }

/-- `ProcSetSelectionOwner` behind the filter, which gave `atom`. -/
def setSelectionOwner (w : Outside) (client window selection : Nat) (time : TimeStamp)
    (atom : Option Nat) : List Output × Server :=
  if window ≠ 0 ∧ w.windowStatus ≠ .success then
    ([.error client w.windowStatus.code window], s)
  else
    match atom with
    | none => ([.error client badAtom.code selection], s)
    | some atom =>
      if ¬ s.validAtom (some atom) then ([.error client badAtom.code selection], s)
      else
        match s.dixLookupSelection atom w with
        | (.error rc, s) => ([.error client rc.code selection], s)
        | (.ok sel, s) =>
          if time.earlier sel.lastTimeChanged then ([], s)
          else
            let (outs, s) := s.selectionClear w client window selection time sel
            let sel := newOwner client window time sel
            let (more, s) := (s.updateSelection atom fun _ => sel).xfixesSelectionCallback w.mem
              .setOwner sel
            (outs ++ more, s)

def procSetSelectionOwner (w : Outside) (client window selection : Nat) (time : TimeStamp) :
    List Output × Server :=
  if w.currentTime.earlier time then ([], s)
  else
    let (atom, s) := s.hookSelectionFilter w.mem client .setOwner (some selection)
    s.setSelectionOwner w client window selection time atom

def getSelectionOwner (w : Outside) (client id : Nat) (atom : Option Nat) :
    List Output × Server :=
  match atom with
  | none => ([.error client badAtom.code id], s)
  | some atom =>
    if ¬ s.validAtom (some atom) then ([.error client badAtom.code id], s)
    else
      match s.dixLookupSelection atom w with
      | (.error rc, s) => ([.error client rc.code id], s)
      | (.ok sel, s) => ([.getSelectionOwner client sel.window], s)

def procGetSelectionOwner (w : Outside) (client id : Nat) : List Output × Server :=
  let (atom, s) := s.hookSelectionFilter w.mem client .getOwner (some id)
  s.getSelectionOwner w client id atom

def convertingOwner (sel : Selection) : Option Nat :=
  sel.client.filter fun o => sel.window ≠ 0 ∧ o ≠ 0 ∧ ¬ (s.client o).any (·.clientGone)

def convertSelection (w : Outside) (client requestor selection target property time : Nat)
    (atom : Option Nat) : List Output × Server :=
  if w.windowStatus ≠ .success then ([.error client w.windowStatus.code requestor], s)
  else
    match atom with
    | none => ([.error client badAtom.code property], s)
    | some atom =>
      if ¬ (s.validAtom (some atom) ∧ s.validAtom (some target) ∧
          (property = 0 ∨ s.validAtom (some property))) then
        ([.error client badAtom.code property], s)
      else
        match s.dixLookupSelection atom w with
        | (.error rc, s) => ([.error client rc.code selection], s)
        | (.ok sel, s) =>
          match s.convertingOwner sel with
          | some o =>
            let (name, s) := s.hookSelectionFilter w.mem client .evRequest (some selection)
            (s.writeEvent (.selectionRequest o sel.window time requestor (name.getD 0) target
              property), s)
          | none =>
            -- the filter is asked with the name it has already changed
            let (name, s) := s.hookSelectionFilter w.mem client .convert (some atom)
            (s.writeEvent (.selectionNotify client time requestor name target 0), s)

def procConvertSelection (w : Outside) (client requestor selection target property time : Nat) :
    List Output × Server :=
  let (atom, s) := s.hookSelectionFilter w.mem client .convert (some selection)
  s.convertSelection w client requestor selection target property time atom

def selectionAllEvents : BitVec 32 := 7

def listen (w : Outside) (atom client window : Nat) (eventMask : BitVec 32) :
    List Output × Server :=
  let this (e : SelectionEvent) : Bool :=
    e.selection = atom ∧ e.pClient = client ∧ e.pWindow = window
  if eventMask = 0 then
    ([], { s with selectionEvents := s.selectionEvents.filter fun e => ¬ this e })
  else if s.selectionEvents.any this then
    ([], { s with
      selectionEvents := s.selectionEvents.map fun e =>
        if this e then { e with eventMask := eventMask } else e })
  else if ¬ w.eventAllocated then ([.error client badAlloc.code 0], s)
  else
    ([], { s with
      selectionEvents := s.selectionEvents ++ [⟨atom, eventMask, client, window⟩] })

/-- `ProcXFixesSelectSelectionInput` behind the filter. -/
def selectSelectionInput (w : Outside) (client window : Nat) (eventMask : BitVec 32)
    (atom : Option Nat) : List Output × Server :=
  if w.windowStatus ≠ .success then ([.error client w.windowStatus.code window], s)
  else if eventMask &&& ~~~ selectionAllEvents ≠ 0 then
    ([.error client Status.badValue.code eventMask.toNat], s)
  else
    match atom with
    -- the record for `BAD_RESOURCE` that is made here never gets an owner
    | none => ([], s)
    | some atom =>
      match s.dixLookupSelection atom w with
      | (.error rc, s) => ([.error client rc.code atom], s)
      | (.ok _, s) => s.listen w atom client window eventMask

def procXFixesSelectSelectionInput (w : Outside) (client window selection : Nat)
    (eventMask : BitVec 32) : List Output × Server :=
  let (atom, s) := s.hookSelectionFilter w.mem client .listen (some selection)
  s.selectSelectionInput w client window eventMask atom

def active (i : Nat) : Bool :=
  i ≠ 0 ∧ (s.client i).any fun c => c.clientState = .running ∧ ¬ c.clientGone

def request (w : Outside) (i : Nat) : Request → List Output × Server
  | .setSelectionOwner window selection time => s.procSetSelectionOwner w i window selection time
  | .getSelectionOwner id => s.procGetSelectionOwner w i id
  | .convertSelection requestor selection target property time =>
    s.procConvertSelection w i requestor selection target property time
  | .selectSelectionInput window selection eventMask =>
    s.procXFixesSelectSelectionInput w i window selection eventMask

end Server

inductive Event
  | connect
  | setup (i : Nat) (authId : XID)
  | setCloseDownMode (i : Nat) (destroyAll : Bool)
  | closeDown (i : Nat) (mem : Name → Bool) (windows : List Nat)
  | destroyWindow (mem : Name → Bool) (w : Nat)
  | internAtom (call : Atom.Call)
  | create (name : Name) (capabilities attributes : BitVec 32)
      (nsAllocated nameAllocated rootCreated : Bool)
  | delete (client : Nat) (name : Name) (onClients : Server.OnClients) (mem : Name → Bool)
      (windows : Nat → List Nat)
  | setFlags (name : Name) (valueMask values : BitVec 32)
  | addToken (name proto data : Name) (mem : TokenMemory)
  | removeToken (name : Name) (handle : BitVec 32)
  | request (i : Nat) (w : Outside) (r : Request)

open Server in
def Event.run (s : Server) : Event → List Output × Server
  | .connect => ([], s.nextAvailableClient)
  | .setup i authId => ([], if i = 0 then s else s.sendConnSetup i authId)
  | .setCloseDownMode i destroyAll =>
    ([], if s.active i then s.updateClient i fun c => { c with destroyAll := destroyAll } else s)
  | .closeDown i mem windows => if i = 0 then ([], s) else s.closeDownClient mem windows i
  | .destroyWindow mem w => s.destroyWindow mem w
  | .internAtom call => ([], { s with atoms := (call.run s.atoms).2 })
  | .create name caps attrs m₁ m₂ m₃ => ([], (s.procXnsCreateNamespace name caps attrs m₁ m₂ m₃).2)
  | .delete client name onClients mem windows =>
    (s.procXnsDeleteNamespace mem windows client name onClients).2
  | .setFlags name valueMask values => ([], (s.procXnsSetNamespaceFlags name valueMask values).2)
  | .addToken name proto data mem => ([], (s.procXnsAddAuthToken name proto data mem).2)
  | .removeToken name handle => ([], (s.procXnsRemoveAuthToken name handle).2)
  | .request i w r => if s.active i then s.request w i r else ([], s)

def afterEvents (L : Resource.Limits) (file : Name) (mem : Nat → TokenMemory)
    (events : List Event) : Server :=
  events.foldl (fun s e => (e.run s).2) (namespaceExtensionInit L.limitClients file mem)

end Xfront.Namespace
