import Xfront.Lib.Linked
import Xfront.Lib.Run

/-!
# Callback lists

dix/dixutils.c: `AddCallback`, `DeleteCallback`, `DeleteCallbackList` and `CallCallbacks` on one
`CallbackListPtr`. The callbacks a call runs may use the list themselves, so the calls under
way form a stack. A step that would touch a freed record or list has no result.
-/

namespace Xfront.Callbacks
open Linked (Addr Node Heap)

abbrev Pointer := Nat

structure Callback where
  proc : Pointer
  data : Pointer
  deleted : Bool
deriving DecidableEq

structure CallbackListRec where
  inCallback : Nat
  deleted : Bool
  numDeleted : Nat
  list : Option Addr
deriving DecidableEq

/-- The local variables of a `_CallCallbacks` whose callback is running. -/
structure Frame where
  cbl : Addr
  cbr : Addr
deriving DecidableEq

/-- `lists` are the list heads allocated so far, `none` after they are freed; `frames` has the
innermost call first. -/
structure State where
  records : Heap Callback
  lists : List (Option CallbackListRec)
  pcbl : Option Addr
  frames : List Frame
deriving DecidableEq

def State.start : State := { records := Heap.empty, lists := [], pcbl := none, frames := [] }

def State.readList (s : State) (l : Addr) : Option CallbackListRec := (s.lists[l]?).join

def State.writeList (s : State) (l : Addr) (c : CallbackListRec) : State :=
  { s with lists := s.lists.set l (some c) }

inductive Event where
  | added (a : Addr) (proc data : Pointer)
  | notAdded
  /-- What `DeleteCallback` has found; it returns whether it has found anything. -/
  | deleted (proc data : Pointer) (found : Option Addr)
  | invoked (a : Addr)
  /-- The list is only marked for deletion. -/
  | deferred (l : Addr)
  | listFreed (l : Addr)
  | quiet
deriving DecidableEq

def State.createCallbackList (s : State) : State × Addr :=
  ({ s with
    lists := s.lists ++ [some { inCallback := 0, deleted := false, numDeleted := 0, list := none }]
    pcbl := some s.lists.length }, s.lists.length)

/-- `_AddCallback`. `allocated`: the result of `calloc`. -/
def State.pushCallback (s : State) (l : Addr) (proc data : Pointer) (allocated : Bool) :
    Option (State × Event) :=
  if allocated then
    (s.readList l).map fun c =>
      ({ s with
        records := s.records.alloc ⟨{ proc := proc, data := data, deleted := false }, c.list⟩
        lists := s.lists.set l (some { c with list := some s.records.size }) },
        .added s.records.size proc data)
  else some (s, .notAdded)

/-- `created` and `allocated`: the results of the two `calloc`s. -/
def State.addCallback (s : State) (proc data : Pointer) (created allocated : Bool) :
    Option (State × Event) :=
  match s.pcbl with
  | some l => s.pushCallback l proc data allocated
  | none =>
    if created then
      s.createCallbackList.1.pushCallback s.createCallbackList.2 proc data allocated
    else some (s, .notAdded)

def isCallback (proc data : Pointer) (c : Callback) : Bool := c.proc == proc && c.data == data

/-- `_DeleteCallback`: inside a call the record is only marked. -/
def State.deleteCallback (s : State) (proc data : Pointer) : Option (State × Event) :=
  match s.pcbl with
  | none => some (s, .deleted proc data none)
  | some l =>
    (s.readList l).bind fun c =>
    (Linked.find s.records (isCallback proc data) s.records.size none c.list).bind fun
    | none => some (s, .deleted proc data none)
    | some (prev, a) =>
      if 0 < c.inCallback then
        (s.records.read a).map fun n =>
          ({ s with
            records := s.records.write a { n with val := { n.val with deleted := true } }
            lists := s.lists.set l (some { c with numDeleted := c.numDeleted + 1 }) },
            .deleted proc data (some a))
      else
        (Linked.unlink s.records c.list prev a).map fun (records, list) =>
          ({ s with records := records, lists := s.lists.set l (some { c with list := list }) },
            .deleted proc data (some a))

def State.deleteCallbackList (s : State) : Option (State × Event) :=
  match s.pcbl with
  | none => some (s, .quiet)
  | some l =>
    (s.readList l).bind fun c =>
    if 0 < c.inCallback then some (s.writeList l { c with deleted := true }, .deferred l)
    else
      (Linked.freeAll s.records s.records.size c.list).map fun records =>
        ({ s with records := records, lists := s.lists.set l none, pcbl := none }, .listFreed l)

/-- The loop that frees the marked records. It stops when `numDeleted` of them are gone. -/
def sweep (h : Heap Callback) : Nat → Option Addr → Option Addr → Option Addr → Nat →
    Option (Heap Callback × Option Addr × Nat)
  | _, list, _, none, numDeleted => some (h, list, numDeleted)
  | _, list, _, some _, 0 => some (h, list, 0)
  | 0, _, _, some _, _ + 1 => none
  | fuel + 1, list, pcbr, some a, numDeleted + 1 =>
    (h.read a).bind fun cbr =>
    if cbr.val.deleted then
      match pcbr with
      | some b =>
        (h.read b).bind fun prev =>
        prev.next.bind fun freed =>
        (h.read freed).bind fun _ =>
        sweep ((h.free freed).write b { prev with next := cbr.next }) fuel list (some b) cbr.next
          numDeleted
      | none =>
        list.bind fun freed =>
        (h.read freed).bind fun _ =>
        sweep (h.free freed) fuel cbr.next none cbr.next numDeleted
    else sweep h fuel list (some a) cbr.next (numDeleted + 1)

def State.finish (s : State) (l : Addr) : Option (State × Event) :=
  (s.readList l).bind fun c =>
  if 0 < c.inCallback - 1 then
    some (s.writeList l { c with inCallback := c.inCallback - 1 }, .quiet)
  else if c.deleted then
    (s.writeList l { c with inCallback := c.inCallback - 1 }).deleteCallbackList
  else if 0 < c.numDeleted then
    (sweep s.records s.records.size c.list none c.list c.numDeleted).map
      fun (records, list, numDeleted) =>
        ({ s with
          records := records
          lists := s.lists.set l (some { c with
            inCallback := c.inCallback - 1, numDeleted := numDeleted, list := list }) }, .quiet)
  else some (s.writeList l { c with inCallback := c.inCallback - 1 }, .quiet)

/-- The loop of `_CallCallbacks` at a record: its callback runs, or the loop is over. -/
def State.loop (s : State) (l : Addr) : Option Addr → Option (State × Event)
  | some a => (s.records.read a).map fun _ =>
    ({ s with frames := { cbl := l, cbr := a } :: s.frames }, .invoked a)
  | none => s.finish l

def State.callCallbacks (s : State) : Option (State × Event) :=
  match s.pcbl with
  | none => some (s, .quiet)
  | some l =>
    (s.readList l).bind fun c =>
    (s.writeList l { c with inCallback := c.inCallback + 1 }).loop l c.list

def State.callbackReturns (s : State) : Option (State × Event) :=
  match s.frames with
  | [] => some (s, .quiet)
  | f :: frames =>
    (s.records.read f.cbr).bind fun n => { s with frames := frames }.loop f.cbl n.next

inductive Act where
  | add (proc data : Pointer) (created allocated : Bool)
  | delete (proc data : Pointer)
  | deleteList
  | call
  | returns
deriving DecidableEq

def step (s : State) : Act → Option (State × Event)
  | .add proc data created allocated => s.addCallback proc data created allocated
  | .delete proc data => s.deleteCallback proc data
  | .deleteList => s.deleteCallbackList
  | .call => s.callCallbacks
  | .returns => s.callbackReturns

end Xfront.Callbacks
