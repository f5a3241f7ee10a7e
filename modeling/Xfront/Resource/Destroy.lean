import Xfront.Lib.LinkedLists
import Xfront.Lib.Run
import Xfront.Resource.Model

/-!
# Freeing resources while delete functions free others (dix/resource.c)

The loops of `FreeResource`, `FreeResourceByType`, `FreeClientNeverRetainResources` and
`FreeClientResources` on one client's table, down to the links they hold. A loop waits while the
delete function of an entry runs, and that function may start further loops: what it does is
given by the actions of a run. The state callback of an entry belongs to its delete function, and
`HandleSaveSet` is left out.
-/

namespace Xfront.Resource

open Linked (Addr Link Lists)

variable {V : Type}

def rcNeverRetain : RESTYPE := 0x20000000#32

inductive Call
  | freeResource (id : XID) (skipDeleteFuncType : RESTYPE)
  | freeResourceByType (id : XID) (type : RESTYPE) (skipFree : Bool)
  | freeClientNeverRetainResources
  | freeClientResources

def Call.fits (c : Call) (res : ResourceRec V) : Bool :=
  match c with
  | .freeResource id _ => res.id = id
  | .freeResourceByType id type _ => res.id = id ∧ res.type = type
  | .freeClientNeverRetainResources => res.type &&& rcNeverRetain ≠ 0
  | .freeClientResources => true

def Call.skips (c : Call) (res : ResourceRec V) : Bool :=
  match c with
  | .freeResource _ skipDeleteFuncType => res.type = skipDeleteFuncType
  | .freeResourceByType _ _ skipFree => skipFree
  | .freeClientNeverRetainResources => false
  | .freeClientResources => false

structure Loop where
  call : Call
  j : Nat
  prev : Link Nat

/-- A loop that waits for the delete function of `res`, with the number of elements it saved. -/
structure Wait where
  loop : Loop
  elements : Int
  res : Addr

/-- `waits` holds the innermost wait first. While `loop` is empty the delete function of the
innermost one runs. `called` lists the entries whose delete function has been called, `skipped`
those that were freed without. -/
structure Freeing (V : Type) where
  lists : Lists Nat (ResourceRec V)
  buckets : Nat
  elements : Int
  loop : Option Loop
  waits : List Wait
  called : List (Addr × ResourceRec V)
  skipped : List (Addr × ResourceRec V)

section

variable (hash : XID → Nat)

def Freeing.enter (s : Freeing V) (c : Call) : Freeing V :=
  if s.buckets = 0 then s
  else
    match c with
    | .freeResource id _ => { s with loop := some ⟨c, hash id, .head (hash id)⟩ }
    | .freeResourceByType id _ _ => { s with loop := some ⟨c, hash id, .head (hash id)⟩ }
    | .freeClientNeverRetainResources => { s with loop := some ⟨c, 0, .head 0⟩ }
    | .freeClientResources => { s with loop := some ⟨c, 0, .head 0⟩ }

def Freeing.endOfChain (s : Freeing V) (l : Loop) : Freeing V :=
  match l.call with
  | .freeResource _ _ => { s with loop := none }
  | .freeResourceByType _ _ _ => { s with loop := none }
  | .freeClientNeverRetainResources =>
    if l.j + 1 < s.buckets then { s with loop := some ⟨l.call, l.j + 1, .head (l.j + 1)⟩ }
    else { s with loop := none }
  | .freeClientResources =>
    if l.j + 1 < s.buckets then { s with loop := some ⟨l.call, l.j + 1, .head (l.j + 1)⟩ }
    else
      { s with
        loop := none
        buckets := 0 }

/-- What a loop does after `doFreeResource`: start over when the number of elements is not what it
was, and break after one entry. -/
def Freeing.resume (s : Freeing V) (l : Loop) (elements : Int) : Freeing V :=
  match l.call with
  | .freeResource _ _ =>
    { s with loop := some (if s.elements ≠ elements then { l with prev := .head l.j } else l) }
  | .freeResourceByType _ _ _ => { s with loop := none }
  | .freeClientNeverRetainResources =>
    { s with loop := some (if s.elements ≠ elements then { l with prev := .head l.j } else l) }
  | .freeClientResources => { s with loop := some { l with prev := .head l.j } }

/-- `free(res)`; nothing for a cell that has been freed before. -/
def Freeing.release (s : Freeing V) (a : Addr) : Option (Freeing V) :=
  (s.lists.heap.read a).map fun _ =>
    { s with lists := { s.lists with heap := s.lists.heap.free a } }

def Freeing.doFreeResource (s : Freeing V) (l : Loop) (a : Addr) (res : ResourceRec V) :
    Option (Freeing V) :=
  if l.call.skips res then
    ({ s with skipped := s.skipped ++ [(a, res)] }.release a).map fun s' =>
      Freeing.resume s' l s.elements
  else
    some { s with
      loop := none
      waits := ⟨l, s.elements, a⟩ :: s.waits
      called := s.called ++ [(a, res)] }

def Freeing.advance (s : Freeing V) (l : Loop) : Option (Freeing V) :=
  (s.lists.load l.prev).bind fun
  | none => some (s.endOfChain l)
  | some a => (s.lists.heap.read a).bind fun n =>
    if l.call.fits n.val then
      (s.lists.store n.next l.prev).bind fun lists =>
        Freeing.doFreeResource
          { s with
            lists := lists
            elements := s.elements - 1 } l a n.val
    else some { s with loop := some { l with prev := .next a } }

/-- The running loop takes a turn, or the delete function that runs frees or returns. -/
inductive Action
  | turn
  | freeResource (id : XID) (skipDeleteFuncType : RESTYPE)
  | freeResourceByType (id : XID) (type : RESTYPE) (skipFree : Bool)
  | ret

def Freeing.nested (s : Freeing V) (c : Call) : Option (Freeing V) :=
  match s.loop, s.waits with
  | none, _ :: _ => some (s.enter hash c)
  | _, _ => none

def Freeing.finish (s : Freeing V) : Option (Freeing V) :=
  match s.loop, s.waits with
  | none, w :: waits =>
    ({ s with waits := waits }.release w.res).map fun s' =>
      Freeing.resume s' w.loop w.elements
  | _, _ => none

def Freeing.act (s : Freeing V) : Action → Option (Freeing V)
  | .turn => s.loop.bind s.advance
  | .freeResource id skipDeleteFuncType => s.nested hash (.freeResource id skipDeleteFuncType)
  | .freeResourceByType id type skipFree => s.nested hash (.freeResourceByType id type skipFree)
  | .ret => s.finish

def destroyStep (s : Freeing V) (a : Action) : Option (Freeing V × Unit) :=
  (s.act hash a).map fun s' => (s', ())

def destroy (lists : Lists Nat (ResourceRec V)) (buckets : Nat) (elements : Int) (c : Call) :
    Freeing V :=
  Freeing.enter hash ⟨lists, buckets, elements, none, [], [], []⟩ c

end

end Xfront.Resource
