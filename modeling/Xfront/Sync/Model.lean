import Xfront.Lib.LinkedLists
import Xfront.Lib.Run

/-!
# Sync objects

Xext/sync/sync.c and miext/sync/misync.c: counters and fences with the triggers of alarms and of
Await groups on them. A step that would use freed memory has no result, and neither has one that
does not end.
-/

namespace Xfront.Sync
open Linked (Addr Lists onList)

abbrev Client := Nat

abbrev SyncId := Nat

/-- The address of a `SyncTrigger`, inside an alarm or a wait condition of an Await group. -/
inductive TriggerPtr where
  | alarm (a : Nat)
  | await (g i : Nat)
deriving DecidableEq

/-- `checked_int64_add`: the sum and whether it overflows. -/
def checkedAdd (a b : BitVec 64) : BitVec 64 × Bool :=
  (a + b, a.msb == b.msb && a.msb != (a + b).msb)

def checkedSubtract (a b : BitVec 64) : BitVec 64 × Bool :=
  (a - b, a.msb != b.msb && a.msb != (a - b).msb)

def syncAbsolute : BitVec 32 := 0
def syncRelative : BitVec 32 := 1

def positiveTransition : BitVec 32 := 0
def negativeTransition : BitVec 32 := 1
def positiveComparison : BitVec 32 := 2
def negativeComparison : BitVec 32 := 3

inductive CheckTrigger where
  | positiveTransition
  | negativeTransition
  | positiveComparison
  | negativeComparison
  | fence
deriving DecidableEq

structure SyncTrigger where
  pSync : Option SyncId
  waitValue : BitVec 64
  valueType : BitVec 32
  testType : BitVec 32
  testValue : BitVec 64
  checkTrigger : CheckTrigger
deriving DecidableEq

inductive SyncBody where
  | counter (value : BitVec 64)
  | fence (triggered : Bool)
deriving DecidableEq

structure SyncObject where
  client : Option Client
  beingDestroyed : Bool
  body : SyncBody
deriving DecidableEq

def CheckTrigger.holds (body : SyncBody) (testValue oldval : BitVec 64) : CheckTrigger → Bool
  | .positiveComparison =>
    match body with
    | .counter value => testValue.sle value
    | .fence _ => false
  | .negativeComparison =>
    match body with
    | .counter value => value.sle testValue
    | .fence _ => false
  | .positiveTransition =>
    match body with
    | .counter value => oldval.slt testValue && testValue.sle value
    | .fence _ => false
  | .negativeTransition =>
    match body with
    | .counter value => testValue.slt oldval && value.sle testValue
    | .fence _ => false
  | .fence =>
    match body with
    | .counter _ => false
    | .fence triggered => triggered

inductive AlarmState where
  | active
  | inactive
  | destroyed
deriving DecidableEq

/-- `events`: the owner wants events; `eventClients`: the other clients that do. -/
structure SyncAlarm where
  trigger : SyncTrigger
  client : Client
  delta : BitVec 64
  events : Bool
  state : AlarmState
  eventClients : List Client
deriving DecidableEq

structure SyncAwait where
  trigger : SyncTrigger
  eventThreshold : BitVec 64
deriving DecidableEq

structure SyncAwaitUnion where
  client : Client
  awaits : List SyncAwait
deriving DecidableEq

/-- Objects, groups and alarms are `none` after they are freed. `lists` are the trigger lists of
the objects. -/
structure State where
  lists : Lists SyncId (Option TriggerPtr)
  objects : List (Option SyncObject)
  awaits : List (Option SyncAwaitUnion)
  alarms : List (Option SyncAlarm)

def State.start : State := { lists := Lists.empty, objects := [], awaits := [], alarms := [] }

def State.object (s : State) (o : SyncId) : Option SyncObject := (s.objects[o]?).join

def State.await (s : State) (g : Nat) : Option SyncAwaitUnion := (s.awaits[g]?).join

def State.alarm (s : State) (a : Nat) : Option SyncAlarm := (s.alarms[a]?).join

def State.setObject (s : State) (o : SyncId) (obj : SyncObject) : State :=
  { s with objects := s.objects.set o (some obj) }

def State.setAlarm (s : State) (a : Nat) (al : SyncAlarm) : State :=
  { s with alarms := s.alarms.set a (some al) }

def State.trigger (s : State) : TriggerPtr → Option SyncTrigger
  | .alarm a => (s.alarm a).map SyncAlarm.trigger
  | .await g i => (s.await g).bind fun u => (u.awaits[i]?).map SyncAwait.trigger

def State.check (s : State) (t : SyncTrigger) (oldval : BitVec 64) : Option Bool :=
  match t.pSync with
  | none => some true
  | some o => (s.object o).map fun obj => t.checkTrigger.holds obj.body t.testValue oldval

structure CounterNotify where
  counter : SyncId
  waitValue : BitVec 64
  counterValue : BitVec 64
  count : Nat
  destroyed : Bool
deriving DecidableEq

inductive Event where
  | counterNotify (client : Client) (events : List CounterNotify)
  /-- `AttendClient` for the client of a group. -/
  | attend (g : Nat) (client : Client)
  | awaitFreed (g : Nat)
  | alarmNotify (a : Nat) (alarmValue counterValue : BitVec 64) (state : AlarmState)
    (clients : List Client)
deriving DecidableEq

/-- `SyncSendAlarmNotifyEvents` with the alarm's value as it is. -/
def State.sendAlarmNotifyEvents (s : State) (a : Nat) (al : SyncAlarm) : Option (List Event) :=
  let clients := (if al.events then [al.client] else []) ++ al.eventClients
  match al.trigger.pSync with
  | none => some [.alarmNotify a al.trigger.testValue 0 al.state clients]
  | some o => (s.object o).map fun obj =>
    match obj.body with
    | .counter value => [.alarmNotify a al.trigger.testValue value al.state clients]
    | .fence _ => []

def isPtr (p : TriggerPtr) (v : Option TriggerPtr) : Bool := v == some p

def State.deleteTrigger (s : State) (p : TriggerPtr) : Option State :=
  (s.trigger p).bind fun t =>
  match t.pSync with
  | none => some s
  | some o => (s.object o).bind fun _ =>
    (s.lists.unlinkFirst o (isPtr p)).map fun lists => { s with lists := lists }

def State.addTrigger (s : State) (p : TriggerPtr) : Option State :=
  (s.trigger p).bind fun t =>
  match t.pSync with
  | none => some s
  | some o => (s.object o).bind fun _ =>
    (Linked.find s.lists.heap (isPtr p) s.lists.heap.size none (s.lists.heads o)).map fun
    | some _ => s
    | none => { s with lists := s.lists.push o (some p) }

/-- The loop of `FreeAwait` over the wait conditions from `i` on. -/
def freeConditions (s : State) (g : Nat) : Nat → List SyncAwait →
    Lists SyncId (Option TriggerPtr) → Option (Lists SyncId (Option TriggerPtr))
  | _, [], lists => some lists
  | i, aw :: awaits, lists =>
    match aw.trigger.pSync with
    | none => freeConditions s g (i + 1) awaits lists
    | some o => (s.object o).bind fun obj =>
      (if obj.beingDestroyed then lists.writeFirst o (isPtr (.await g i)) none
        else lists.unlinkFirst o (isPtr (.await g i))).bind fun lists =>
      freeConditions s g (i + 1) awaits lists

def State.freeAwait (s : State) (g : Nat) : Option (State × List Event) :=
  (s.await g).bind fun u =>
  (freeConditions s g 0 u.awaits s.lists).map fun lists =>
    ({ s with lists := lists, awaits := s.awaits.set g none }, [.awaitFreed g])

/-- The `CounterNotify` event of a wait condition, without its count. -/
def State.counterNotify (s : State) (aw : SyncAwait) : Option (Option CounterNotify) :=
  aw.trigger.pSync.bind fun o =>
  (s.object o).map fun obj =>
    match obj.body with
    | .counter value =>
      let event : CounterNotify :=
        { counter := o, waitValue := aw.trigger.testValue, counterValue := value, count := 0,
          destroyed := obj.beingDestroyed }
      if obj.beingDestroyed then some event
      else
        let (diff, overflow) := checkedSubtract value aw.trigger.testValue
        if overflow then none
        else if ((aw.trigger.testType = positiveComparison ∨
            aw.trigger.testType = positiveTransition) ∧ aw.eventThreshold.sle diff) ∨
          ((aw.trigger.testType = negativeComparison ∨
            aw.trigger.testType = negativeTransition) ∧ diff.sle aw.eventThreshold) then
          some event
        else none
    | .fence _ =>
      if obj.beingDestroyed then
        some { counter := o, waitValue := aw.trigger.testValue, counterValue := 0, count := 0,
               destroyed := true }
      else none

def numberEvents : List CounterNotify → List CounterNotify
  | [] => []
  | e :: es => { e with count := es.length } :: numberEvents es

def State.awaitTriggerFired (s : State) (g : Nat) : Option (State × List Event) :=
  (s.await g).bind fun u =>
  (u.awaits.mapM s.counterNotify).bind fun notifies =>
  let events := numberEvents (notifies.filterMap id)
  (s.freeAwait g).map fun (s, freed) =>
    (s, (if events.isEmpty then [] else [.counterNotify u.client events]) ++
      .attend g u.client :: freed)

/-- The loop that adds `delta` until the trigger is false. -/
def SyncAlarm.advance (al : SyncAlarm) (value : BitVec 64) : Nat → BitVec 64 →
    Option (BitVec 64 × Bool)
  | 0, _ => none
  | fuel + 1, test =>
    let (next, overflow) := checkedAdd test al.delta
    if !overflow && al.trigger.checkTrigger.holds (.counter value) next value then
      al.advance value fuel next
    else some (next, overflow)

def SyncAlarm.isComparison (al : SyncAlarm) : Bool :=
  al.trigger.testType = positiveComparison || al.trigger.testType = negativeComparison

def SyncAlarm.setTestValue (al : SyncAlarm) (v : BitVec 64) : SyncAlarm :=
  { al with trigger := { al.trigger with testValue := v } }

/-- An active alarm after `SyncAlarmTriggerFired`, without a counter or with its value. A loop
that goes on for 2^64 rounds has come back to a test value and does not end. -/
def SyncAlarm.fire (al : SyncAlarm) (value : Option (BitVec 64)) : Option SyncAlarm :=
  match value with
  | none => some { al with state := .inactive }
  | some value =>
    if al.delta = 0 ∧ al.isComparison then some { al with state := .inactive }
    else (al.advance value (2 ^ 64) al.trigger.testValue).map fun (test, overflow) =>
      if overflow then { al with state := .inactive } else al.setTestValue test

/-- `SyncAlarmTriggerFired`: the event has the old value and the new state. -/
def State.alarmTriggerFired (s : State) (a : Nat) : Option (State × List Event) :=
  (s.alarm a).bind fun al =>
  match al.trigger.pSync with
  | none =>
    if al.state ≠ .active then some (s, [])
    else (al.fire none).bind fun al' =>
      (s.sendAlarmNotifyEvents a (al'.setTestValue al.trigger.testValue)).map fun events =>
        (s.setAlarm a al', events)
  | some o => (s.object o).bind fun obj =>
    match obj.body with
    | .fence _ => some (s, [])
    | .counter value =>
      if al.state ≠ .active then some (s, [])
      else (al.fire (some value)).bind fun al' =>
        (s.sendAlarmNotifyEvents a (al'.setTestValue al.trigger.testValue)).map fun events =>
          (s.setAlarm a al', events)

def State.alarmCounterDestroyed (s : State) (a : Nat) : Option (State × List Event) :=
  (s.alarm a).bind fun al =>
  (s.sendAlarmNotifyEvents a { al with state := .inactive }).map fun events =>
    (s.setAlarm a { al with state := .inactive, trigger := { al.trigger with pSync := none } },
      events)

def State.triggerFired (s : State) : TriggerPtr → Option (State × List Event)
  | .alarm a => s.alarmTriggerFired a
  | .await g _ => s.awaitTriggerFired g

def State.counterDestroyed (s : State) : TriggerPtr → Option (State × List Event)
  | .alarm a => s.alarmCounterDestroyed a
  | .await g _ => s.awaitTriggerFired g

/-- Where the walk of `SyncChangeCounter` goes on after a trigger fired: at the node it had
saved, or at the head when that has vanished. -/
def State.resume (s : State) (o : SyncId) : Option Addr → Option (Option Addr)
  | none => some none
  | some pnext => (onList s.lists.heap pnext s.lists.heap.size (s.lists.heads o)).map fun found =>
    if found then some pnext else s.lists.heads o

def State.changeLoop (s : State) (o : SyncId) (oldval : BitVec 64) : Nat → Option Addr →
    Option (State × List Event)
  | _, none => some (s, [])
  | 0, some _ => none
  | fuel + 1, some a =>
    (s.lists.heap.read a).bind fun ptl =>
    ptl.val.bind fun p =>
    (s.trigger p).bind fun t =>
    (s.check t oldval).bind fun holds =>
    if holds then
      (s.triggerFired p).bind fun (s, events) =>
      (s.resume o ptl.next).bind fun pnext =>
      (s.changeLoop o oldval fuel pnext).map fun (s, events') => (s, events ++ events')
    else s.changeLoop o oldval fuel ptl.next

def State.syncChangeCounter (s : State) (o : SyncId) (newval : BitVec 64) :
    Option (State × List Event) :=
  (s.object o).bind fun obj =>
  match obj.body with
  | .fence _ => none
  | .counter oldval =>
    (s.setObject o { obj with body := .counter newval }).changeLoop o oldval
      ((s.lists.heap.size + 1) * (s.lists.heap.size + 1)) (s.lists.heads o)

def State.setHead (s : State) (o : SyncId) (head : Option Addr) : State :=
  { s with lists := { s.lists with heads := Function.update s.lists.heads o head } }

def State.freeNode (s : State) (a : Addr) : State :=
  { s with lists := { s.lists with heap := s.lists.heap.free a } }

def State.callDestroyed (s : State) : Option TriggerPtr → Option (State × List Event)
  | none => some (s, [])
  | some p => s.counterDestroyed p

def State.destroyLoop (s : State) (o : SyncId) : Nat → Option Addr → Option (State × List Event)
  | _, none => some (s, [])
  | 0, some _ => none
  | fuel + 1, some a =>
    (s.lists.heap.read a).bind fun ptl =>
    ((s.setHead o ptl.next).callDestroyed ptl.val).bind fun (s, events) =>
    (s.lists.heap.read a).bind fun _ =>
    ((s.freeNode a).destroyLoop o fuel ptl.next).map fun (s, events') => (s, events ++ events')

def State.destroyObject (s : State) (o : SyncId) : Option (State × List Event) :=
  (s.object o).bind fun obj =>
  ((s.setObject o { obj with beingDestroyed := true }).destroyLoop o s.lists.heap.size
    (s.lists.heads o)).map fun (s, events) => ({ s with objects := s.objects.set o none }, events)

def isCounter (obj : SyncObject) : Bool :=
  match obj.body with
  | .counter _ => true
  | .fence _ => false

def State.freeCounter (s : State) (o : SyncId) : Option (State × List Event) :=
  (s.object o).bind fun obj => if isCounter obj then s.destroyObject o else none

def State.syncDestroyFence (s : State) (o : SyncId) : Option (State × List Event) :=
  (s.object o).bind fun obj => if isCounter obj then none else s.destroyObject o

def State.firstTrue (s : State) : Nat → Option Addr → Option (Option TriggerPtr)
  | _, none => some none
  | 0, some _ => none
  | fuel + 1, some a =>
    (s.lists.heap.read a).bind fun ptl =>
    ptl.val.bind fun p =>
    (s.trigger p).bind fun t =>
    (s.check t 0).bind fun holds => if holds then some (some p) else s.firstTrue fuel ptl.next

def State.triggerLoop (s : State) (o : SyncId) : Nat → Option (State × List Event)
  | 0 => none
  | fuel + 1 =>
    (s.firstTrue s.lists.heap.size (s.lists.heads o)).bind fun
    | none => some (s, [])
    | some p =>
      (s.triggerFired p).bind fun (s, events) =>
      (s.triggerLoop o fuel).map fun (s, events') => (s, events ++ events')

def State.syncTriggerFence (s : State) (o : SyncId) : Option (State × List Event) :=
  (s.object o).bind fun obj =>
  match obj.body with
  | .counter _ => none
  | .fence _ =>
    (s.setObject o { obj with body := .fence true }).triggerLoop o (s.lists.heap.size + 1)

end Xfront.Sync
