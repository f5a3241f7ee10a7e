import Xfront.Lib.Run

/-!
# The input event queue

mi/mieq.c: `mieqInit`, `mieqGrowQueue`, `mieqEnqueue` and the loop of `mieqProcessInputEvents`.
The `events` of a slot point to storage of their own. A step that would leave the array or use
freed storage has no result.
-/

namespace Xfront.EventQueue

/-- The address of an `InternalEvent` of the queue. -/
abbrev Addr := Nat

abbrev Screen := Nat

structure InternalEvent where
  type : Nat
  time : BitVec 32
  data : List (BitVec 8)
deriving DecidableEq

def motion : Nat := 6

def InternalEvent.zero : InternalEvent := { type := 0, time := 0, data := [] }

structure Device where
  id : Nat
  id_pos : 1 < id
deriving DecidableEq

structure EventRec where
  events : Option Addr
  pScreen : Option Screen
  pDev : Option Device
deriving DecidableEq

/-- What `mieqEnqueue` is called with. `enqueueScreen` is the `EnqueueScreen` of the device. -/
structure Input where
  event : InternalEvent
  pDev : Option Device
  enqueueScreen : Option Screen
  pDev_of_motion : event.type = motion → pDev ≠ none
deriving DecidableEq

/-- `storage` are the event lists allocated so far, `none` after they are freed. -/
structure EventQueueRec where
  head : Int
  tail : Int
  lastEventTime : BitVec 32
  lastMotion : Nat
  events : List EventRec
  nevents : Nat
  dropped : Nat
  storage : List (Option InternalEvent)
deriving DecidableEq

def toUnsigned (x : Int) : Nat := (x % 2 ^ 32).toNat

def toSize (x : Int) : Nat := (x % 2 ^ 64).toNat

def toInt (x : Nat) : Int := Int.bmod x (2 ^ 32)

def EventQueueRec.numEnqueued (q : EventQueueRec) : Nat :=
  if q.nevents ≠ 0 then
    let n := toSize (q.tail - q.head + q.nevents)
    if q.nevents ≤ n then n - q.nevents else n
  else 0

/-- The results of `calloc` for the array and of `InitEventList` for each slot. -/
structure Allocations where
  array : Bool
  lists : Nat → Bool

def readSlots (events : List EventRec) (i n : Nat) : Option (List EventRec) :=
  if i + n ≤ events.length then some ((events.drop i).take n) else none

def freeEventLists : List EventRec → List (Option InternalEvent) →
    Option (List (Option InternalEvent))
  | [], storage => some storage
  | slot :: slots, storage =>
    match slot.events with
    | none => freeEventLists slots storage
    | some a => ((storage[a]?).join).bind fun _ => freeEventLists slots (storage.set a none)

/-- The loop over the new portion, which ends with the storage, the new slots and whether all
were initialized. -/
def initSlots (lists : Nat → Bool) (copied : List EventRec) : Nat → List EventRec →
    List (Option InternalEvent) → Option (List (Option InternalEvent) × List EventRec × Bool)
  | 0, slots, storage => some (storage, slots, true)
  | n + 1, slots, storage =>
    if lists (copied.length + slots.length) then
      initSlots lists copied n
        (slots ++ [{ events := some storage.length, pScreen := none, pDev := none }])
        (storage ++ [some InternalEvent.zero])
    else (freeEventLists (copied ++ slots) storage).map fun storage => (storage, slots, false)

def EventQueueRec.grow (q : EventQueueRec) (new_nevents : Nat) (a : Allocations) :
    Option (EventQueueRec × Bool) :=
  if new_nevents ≤ q.nevents then some (q, false)
  else if ¬ a.array then some (q, false)
  else
    let firstHunk := q.nevents - toSize q.head
    (readSlots q.events (toSize q.head) firstHunk).bind fun hunk =>
    (readSlots q.events 0 (toSize q.head)).bind fun rest =>
    (initSlots a.lists (hunk ++ rest) (new_nevents - q.nevents) [] q.storage).map
      fun (storage, slots, initialized) =>
        if initialized then
          ({ q with
            tail := toInt q.numEnqueued
            head := 0
            nevents := new_nevents
            events := hunk ++ rest ++ slots
            storage := storage }, true)
        else ({ q with storage := storage }, false)

def EventQueueRec.cleared (now : BitVec 32) : EventQueueRec :=
  { head := 0
    tail := 0
    lastEventTime := now
    lastMotion := 0
    events := []
    nevents := 0
    dropped := 0
    storage := [] }

/-- `mieqInit`; without storage the server stops. -/
def mieqInit (now : BitVec 32) (a : Allocations) : Option EventQueueRec :=
  ((EventQueueRec.cleared now).grow 512 a).bind fun (q, grown) => if grown then some q else none

def Input.isMotion (x : Input) : Nat :=
  if x.event.type = motion then
    match x.pDev with
    | some dev => dev.id
    | none => 0
  else 0

inductive Out where
  /-- With the time that the caller's event is left with. -/
  | enqueued (time : BitVec 32)
  | dropped
  | dequeued (event : InternalEvent) (pScreen : Option Screen) (pDev : Option Device)
  | quiet
deriving DecidableEq

/-- The part of `mieqEnqueue` after the slot is found. -/
def EventQueueRec.put (q : EventQueueRec) (oldtail : Nat) (x : Input) :
    Option (EventQueueRec × Out) :=
  (q.events[oldtail]?).bind fun slot =>
  slot.events.bind fun evt =>
  ((q.storage[evt]?).join).map fun _ =>
    ({ q with
      storage := q.storage.set evt (some x.event)
      lastEventTime := x.event.time
      events := q.events.set oldtail
        { slot with
          pScreen := x.pDev.bind fun _ => x.enqueueScreen
          pDev := x.pDev }
      lastMotion := x.isMotion
      tail := toInt ((oldtail + 1) % 2 ^ 32 % q.nevents) },
    -- only the caller's event is kept from going back in time, the copy is made before
    .enqueued (if x.event.time < q.lastEventTime ∧ q.lastEventTime - x.event.time < 10000 then
      q.lastEventTime else x.event.time))

def EventQueueRec.compresses (q : EventQueueRec) (x : Input) : Prop :=
  x.isMotion ≠ 0 ∧ x.isMotion = q.lastMotion ∧ toUnsigned q.tail ≠ toUnsigned q.head

instance (q : EventQueueRec) (x : Input) : Decidable (q.compresses x) :=
  inferInstanceAs (Decidable (_ ∧ _))

def EventQueueRec.enqueue (q : EventQueueRec) (x : Input) (a : Allocations) :
    Option (EventQueueRec × Out) :=
  let oldtail := toUnsigned q.tail
  if q.compresses x then
    q.put ((oldtail + (2 ^ 32 - 1)) % 2 ^ 32 % q.nevents) x
  else if q.numEnqueued + 1 = q.nevents then
    (q.grow (2 * q.nevents) a).bind fun (q, grown) =>
      if grown then q.put (toUnsigned q.tail) x
      else some ({ q with dropped := q.dropped + 1 }, .dropped)
  else q.put oldtail x

/-- One round of the loop of `mieqProcessInputEvents`. -/
def EventQueueRec.dequeue (q : EventQueueRec) : Option (EventQueueRec × Out) :=
  if q.head = q.tail then some (q, .quiet)
  else
    (q.events[toSize q.head]?).bind fun e =>
    e.events.bind fun evt =>
    ((q.storage[evt]?).join).map fun event =>
      ({ q with head := toInt (toSize (q.head + 1) % q.nevents) },
        .dequeued event e.pScreen e.pDev)

/-- `resume` is the start of `mieqProcessInputEvents`, whose rounds may come between other
actions. -/
inductive Act where
  | enqueue (x : Input) (a : Allocations)
  | resume
  | dequeue

def step (q : EventQueueRec) : Act → Option (EventQueueRec × Out)
  | .enqueue x a => q.enqueue x a
  | .resume => some ({ q with dropped := 0 }, .quiet)
  | .dequeue => q.dequeue

end Xfront.EventQueue
