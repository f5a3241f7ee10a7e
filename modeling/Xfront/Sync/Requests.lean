import Xfront.Sync.Model

/-!
# Sync requests

Xext/sync/sync.c: the requests that create objects, wait conditions and alarms, and change them.
Resources are named by their addresses; a name that is not in use gets an error. The value that a
system counter is asked for comes with the request.
-/

namespace Xfront.Sync

inductive SyncError where
  | badValue
  | badMatch
  | badAccess
  | badCounter
  | badAlarm
  | badFence
deriving DecidableEq

abbrev Outcome := State × List Event × Option SyncError

inductive SyncType where
  | counter
  | fence
deriving DecidableEq

def SyncObject.type (obj : SyncObject) : SyncType :=
  match obj.body with
  | .counter _ => .counter
  | .fence _ => .fence

def State.lookup (s : State) (type : SyncType) (o : SyncId) : Except SyncError SyncObject :=
  match s.object o with
  | some obj =>
    if obj.type = type then .ok obj
    else .error (match type with | .counter => .badCounter | .fence => .badFence)
  | none => .error (match type with | .counter => .badCounter | .fence => .badFence)

def State.createCounter (s : State) (client : Option Client) (initial : BitVec 64) : State :=
  { s with objects := s.objects ++
      [some { client := client, beingDestroyed := false, body := .counter initial }] }

def State.createFence (s : State) (client : Client) (initiallyTriggered : Bool) : State :=
  { s with objects := s.objects ++
      [some { client := client, beingDestroyed := false, body := .fence initiallyTriggered }] }

def State.resetFence (s : State) (o : SyncId) : Outcome :=
  match s.lookup .fence o with
  | .error e => (s, [], some e)
  | .ok obj =>
    match obj.body with
    | .fence true => (s.setObject o { obj with body := .fence false }, [], none)
    | .fence false => (s, [], some .badMatch)
    | .counter _ => (s, [], some .badFence)

def State.setCounter (s : State) (o : SyncId) (newvalue : BitVec 64) : Option Outcome :=
  match s.lookup .counter o with
  | .error e => some (s, [], some e)
  | .ok obj =>
    if obj.client = none then some (s, [], some .badAccess)
    else (s.syncChangeCounter o newvalue).map fun (s, events) => (s, events, none)

def State.changeCounter (s : State) (o : SyncId) (amount : BitVec 64) : Option Outcome :=
  match s.lookup .counter o with
  | .error e => some (s, [], some e)
  | .ok obj =>
    if obj.client = none then some (s, [], some .badAccess)
    else
      match obj.body with
      | .fence _ => some (s, [], some .badCounter)
      | .counter value =>
        let (newvalue, overflow) := checkedAdd amount value
        if overflow then some (s, [], some .badValue)
        else (s.syncChangeCounter o newvalue).map fun (s, events) => (s, events, none)

structure TriggerMask where
  counter : Bool
  valueType : Bool
  value : Bool
  testType : Bool
deriving DecidableEq

def allTrigger : TriggerMask :=
  { counter := true, valueType := true, value := true, testType := true }

/-- The part of `SyncInitTrigger` that sets the test value, for an object in state `body`. -/
def SyncTrigger.initValue (t : SyncTrigger) (body : Option SyncBody) (changes : TriggerMask) :
    SyncTrigger × Option SyncError :=
  if changes.valueType || changes.value then
    if t.valueType = syncAbsolute then ({ t with testValue := t.waitValue }, none)
    else
      match body with
      | some (.counter value) =>
        let (sum, overflow) := checkedAdd value t.waitValue
        ({ t with testValue := sum }, if overflow then some .badValue else none)
      | some (.fence _) => (t, some .badMatch)
      | none => (t, some .badMatch)
  else (t, none)

def checkTriggerOf (testType : BitVec 32) : Option CheckTrigger :=
  if testType = positiveTransition then some .positiveTransition
  else if testType = negativeTransition then some .negativeTransition
  else if testType = positiveComparison then some .positiveComparison
  else if testType = negativeComparison then some .negativeComparison
  else none

/-- The part of `SyncInitTrigger` that sets the check function. -/
def SyncTrigger.initTest (t : SyncTrigger) (body : Option SyncBody) (changes : TriggerMask) :
    SyncTrigger × Option SyncError :=
  if changes.testType then
    match body with
    | some (.fence _) => ({ t with checkTrigger := .fence }, none)
    | some (.counter _) | none =>
      match checkTriggerOf t.testType with
      | some check => ({ t with checkTrigger := check }, none)
      | none => (t, some .badValue)
  else (t, none)

/-- The trigger as `SyncInitTrigger` leaves it, also when it returns an error. -/
def SyncTrigger.init (t : SyncTrigger) (body : Option SyncBody) (changes : TriggerMask) :
    SyncTrigger × Option SyncError :=
  if changes.valueType && t.valueType != syncRelative && t.valueType != syncAbsolute then
    (t, some .badValue)
  else
    match t.initValue body changes with
    | (t, some e) => (t, some e)
    | (t, none) => t.initTest body changes

def State.queryValue (s : State) (query : SyncId → BitVec 64) : Option SyncId → State
  | none => s
  | some o =>
    match s.object o with
    | some obj =>
      match obj.body with
      | .counter _ =>
        if obj.client = none then s.setObject o { obj with body := .counter (query o) } else s
      | .fence _ => s
    | none => s

/-- `SyncInitTrigger` up to where the trigger moves to the object that is the result. -/
def State.initTrigger (s : State) (t : SyncTrigger) (syncObject : Option SyncId)
    (type : SyncType) (changes : TriggerMask) (query : SyncId → BitVec 64) :
    State × SyncTrigger × Except SyncError (Option SyncId) :=
  let pSync : Except SyncError (Option SyncId) :=
    if changes.counter then
      match syncObject with
      | none => .ok none
      | some o => (s.lookup type o).map fun _ => some o
    else .ok t.pSync
  match pSync with
  | .error e => (s, t, .error e)
  | .ok pSync =>
    let s := s.queryValue query pSync
    match t.init ((pSync.bind s.object).map SyncObject.body) changes with
    | (t, some e) => (s, t, .error e)
    | (t, none) => (s, t, .ok pSync)

structure WaitCondition where
  counter : Option SyncId
  valueType : BitVec 32
  waitValue : BitVec 64
  testType : BitVec 32
  eventThreshold : BitVec 64
deriving DecidableEq

def State.setAwait (s : State) (g : Nat) (u : SyncAwaitUnion) : State :=
  { s with awaits := s.awaits.set g (some u) }

def State.initCondition (s : State) (g : Nat) (type : SyncType) (query : SyncId → BitVec 64)
    (w : WaitCondition) : Option (State × Option SyncError) :=
  (s.await g).bind fun u =>
  match w.counter with
  | none => some (s, some (match type with | .counter => .badCounter | .fence => .badFence))
  | some o =>
    -- the memory of the group is cleared, and the check function not used before it is set
    let t : SyncTrigger :=
      { pSync := none
        waitValue := w.waitValue
        valueType := w.valueType
        testType := w.testType
        testValue := 0
        checkTrigger := .fence }
    match s.initTrigger t (some o) type allTrigger query with
    | (s, _, .error e) => some (s, some e)
    | (s, t, .ok pSync) =>
      ((s.setAwait g { u with
        awaits := u.awaits ++ [{ trigger := { t with pSync := pSync },
                                 eventThreshold := w.eventThreshold }] }).addTrigger
        (.await g u.awaits.length)).map fun s => (s, none)

def State.initConditions (s : State) (g : Nat) (type : SyncType) (query : SyncId → BitVec 64) :
    List WaitCondition → Option (State × Option SyncError)
  | [] => some (s, none)
  | w :: ws => (s.initCondition g type query w).bind fun
    | (s, some e) => some (s, some e)
    | (s, none) => s.initConditions g type query ws

/-- `SyncAwaitEpilogue` for the conditions from `i` on. -/
def State.awaitEpilogue (s : State) (g : Nat) : Nat → List SyncAwait → Option (State × List Event)
  | _, [] => some (s, [])
  | i, aw :: awaits =>
    aw.trigger.pSync.bind fun o =>
    (s.object o).bind fun obj =>
    let value : BitVec 64 := match obj.body with
      | .counter value => value
      | .fence _ => 0
    (s.check aw.trigger value).bind fun holds =>
    if holds then s.triggerFired (.await g i) else s.awaitEpilogue g (i + 1) awaits

def State.awaitConditions (s : State) (client : Client) (type : SyncType)
    (query : SyncId → BitVec 64) (ws : List WaitCondition) : Option Outcome :=
  if ws.isEmpty then some (s, [], some .badValue)
  else
    let g := s.awaits.length
    let s : State := { s with awaits := s.awaits ++ [some { client := client, awaits := [] }] }
    (s.initConditions g type query ws).bind fun
    | (s, some e) => (s.freeAwait g).map fun (s, events) => (s, events, some e)
    | (s, none) => (s.await g).bind fun u =>
      (s.awaitEpilogue g 0 u.awaits).map fun (s, events) => (s, events, none)

def State.procAwait (s : State) (client : Client) (query : SyncId → BitVec 64)
    (ws : List WaitCondition) : Option Outcome :=
  s.awaitConditions client .counter query ws

def fenceCondition (fence : Option SyncId) : WaitCondition :=
  { counter := fence, valueType := syncAbsolute, waitValue := 0, testType := 0,
    eventThreshold := 0 }

def State.procAwaitFence (s : State) (client : Client) (fences : List (Option SyncId)) :
    Option Outcome :=
  s.awaitConditions client .fence (fun _ => 0) (fences.map fenceCondition)

/-- The attributes in the value list of a request; `others` are unknown bits of its mask. -/
structure AlarmAttributes where
  counter : Option (Option SyncId)
  valueType : Option (BitVec 32)
  value : Option (BitVec 64)
  testType : Option (BitVec 32)
  delta : Option (BitVec 64)
  events : Option (BitVec 32)
  others : Bool
deriving DecidableEq

def AlarmAttributes.mask (c : AlarmAttributes) : TriggerMask :=
  { counter := c.counter.isSome
    valueType := c.valueType.isSome
    value := c.value.isSome
    testType := c.testType.isSome }

def SyncAlarm.eventSelect (al : SyncAlarm) (client : Client) (wantevents : Bool) : SyncAlarm :=
  if client = al.client then { al with events := wantevents }
  else if client ∈ al.eventClients then
    if wantevents then al else { al with eventClients := al.eventClients.erase client }
  else if wantevents then { al with eventClients := client :: al.eventClients }
  else al

def SyncAlarm.selectEvents (al : SyncAlarm) (client : Client) : Option (BitVec 32) → SyncAlarm
  | none => al
  | some v => al.eventSelect client (v == 1)

/-- A `delta` that leads away from making the test false. -/
def wrongSign (testType : BitVec 32) (delta : BitVec 64) : Bool :=
  ((testType == positiveComparison || testType == positiveTransition) && delta.slt 0) ||
    ((testType == negativeComparison || testType == negativeTransition) && BitVec.slt 0 delta)

def State.moveAlarm (s : State) (a : Nat) (pSync : Option SyncId) : Option State :=
  (s.alarm a).bind fun al =>
  if pSync = al.trigger.pSync then some s
  else (s.deleteTrigger (.alarm a)).bind fun s =>
    (s.setAlarm a { al with trigger := { al.trigger with pSync := pSync } }).addTrigger (.alarm a)

def AlarmAttributes.trigger (c : AlarmAttributes) (t : SyncTrigger) : SyncTrigger :=
  { t with
    valueType := c.valueType.getD t.valueType
    waitValue := c.value.getD t.waitValue
    testType := c.testType.getD t.testType }

def AlarmAttributes.alarm (c : AlarmAttributes) (al : SyncAlarm) : SyncAlarm :=
  { al with delta := c.delta.getD al.delta, trigger := c.trigger al.trigger }

/-- The end of `SyncChangeAlarmAttributes`, for an alarm with the new attributes. They are stored
before `SyncInitTrigger` checks them. -/
def State.storeAttributes (s : State) (a : Nat) (al : SyncAlarm) (c : AlarmAttributes)
    (query : SyncId → BitVec 64) : Option (State × Option SyncError) :=
  match s.initTrigger al.trigger c.counter.join .counter c.mask query with
  | (s, trigger, .error e) => some (s.setAlarm a { al with trigger := trigger }, some e)
  | (s, trigger, .ok pSync) =>
    ((s.setAlarm a { al with trigger := trigger }).moveAlarm a pSync).bind fun s =>
    (s.alarm a).map fun al => (s.setAlarm a { al with state := .active }, none)

def State.changeAlarmAttributes (s : State) (client : Client) (a : Nat) (c : AlarmAttributes)
    (query : SyncId → BitVec 64) : Option (State × Option SyncError) :=
  (s.alarm a).bind fun al =>
  if c.others || c.events.any (fun v => v != 0 && v != 1) then some (s, some .badValue)
  else
    let al := al.selectEvents client c.events
    let changed := c.alarm al
    if (c.delta.isSome || c.testType.isSome) &&
        wrongSign changed.trigger.testType changed.delta then
      some (s.setAlarm a al, some .badMatch)
    else s.storeAttributes a changed c query

def State.checkAlarm (s : State) (a : Nat) : Option (State × List Event) :=
  (s.alarm a).bind fun al =>
  match al.trigger.pSync with
  | none => s.triggerFired (.alarm a)
  | some o => (s.object o).bind fun obj =>
    match obj.body with
    -- not reached: the object was looked up as a counter
    | .fence _ => none
    | .counter value =>
      if al.trigger.checkTrigger.holds obj.body al.trigger.testValue value then
        s.triggerFired (.alarm a)
      else some (s, [])

def SyncAlarm.default (client : Client) : SyncAlarm :=
  { trigger :=
      { pSync := none
        waitValue := 0
        valueType := syncAbsolute
        testType := positiveComparison
        testValue := 0
        checkTrigger := .positiveComparison }
    client := client
    delta := 1
    events := true
    state := .inactive
    eventClients := [] }

def State.createAlarm (s : State) (client : Client) (c : AlarmAttributes)
    (query : SyncId → BitVec 64) : Option Outcome :=
  let a := s.alarms.length
  let s := { s with alarms := s.alarms ++ [some (SyncAlarm.default client)] }
  (s.changeAlarmAttributes client a c query).bind fun
  | (s, some e) => some ({ s with alarms := s.alarms.set a none }, [], some e)
  | (s, none) => (s.alarm a).bind fun al =>
    match al.trigger.pSync with
    | none => some (s.setAlarm a { al with state := .inactive }, [], none)
    | some _ => (s.checkAlarm a).map fun (s, events) => (s, events, none)

def State.changeAlarm (s : State) (client : Client) (a : Nat) (c : AlarmAttributes)
    (query : SyncId → BitVec 64) : Option Outcome :=
  if s.alarm a = none then some (s, [], some .badAlarm)
  else
    (s.changeAlarmAttributes client a c query).bind fun
    | (s, some e) => some (s, [], some e)
    | (s, none) => (s.checkAlarm a).map fun (s, events) => (s, events, none)

def State.freeAlarm (s : State) (a : Nat) : Option (State × List Event) :=
  (s.alarm a).bind fun al =>
  (s.sendAlarmNotifyEvents a { al with state := .destroyed }).bind fun events =>
  (s.deleteTrigger (.alarm a)).map fun s => ({ s with alarms := s.alarms.set a none }, events)

inductive Act where
  | createCounter (client : Option Client) (initial : BitVec 64)
  | createFence (client : Client) (triggered : Bool)
  | setCounter (o : SyncId) (newvalue : BitVec 64)
  | changeCounter (o : SyncId) (amount : BitVec 64)
  | syncChangeCounter (o : SyncId) (newval : BitVec 64)
  | freeCounter (o : SyncId)
  | awaitCounters (client : Client) (query : SyncId → BitVec 64) (ws : List WaitCondition)
  | awaitFences (client : Client) (fences : List (Option SyncId))
  | freeAwait (g : Nat)
  | createAlarm (client : Client) (c : AlarmAttributes) (query : SyncId → BitVec 64)
  | changeAlarm (client : Client) (a : Nat) (c : AlarmAttributes) (query : SyncId → BitVec 64)
  | freeAlarm (a : Nat)
  | triggerFence (o : SyncId)
  | resetFence (o : SyncId)
  | destroyFence (o : SyncId)

def State.onObject (s : State) (type : SyncType) (o : SyncId)
    (act : State → Option (State × List Event)) : Option Outcome :=
  match s.lookup type o with
  | .error e => some (s, [], some e)
  | .ok _ => (act s).map fun (s, events) => (s, events, none)

def State.step (s : State) : Act → Option Outcome
  | .createCounter client initial => some (s.createCounter client initial, [], none)
  | .createFence client triggered => some (s.createFence client triggered, [], none)
  | .setCounter o newvalue => s.setCounter o newvalue
  | .changeCounter o amount => s.changeCounter o amount
  | .syncChangeCounter o newval => s.onObject .counter o fun s => s.syncChangeCounter o newval
  | .freeCounter o => s.onObject .counter o fun s => s.freeCounter o
  | .awaitCounters client query ws => s.procAwait client query ws
  | .awaitFences client fences => s.procAwaitFence client fences
  | .freeAwait g =>
    if s.await g = none then some (s, [], none)
    else (s.freeAwait g).map fun (s, events) => (s, events, none)
  | .createAlarm client c query => s.createAlarm client c query
  | .changeAlarm client a c query => s.changeAlarm client a c query
  | .freeAlarm a =>
    if s.alarm a = none then some (s, [], none)
    else (s.freeAlarm a).map fun (s, events) => (s, events, none)
  | .triggerFence o => s.onObject .fence o fun s => s.syncTriggerFence o
  | .resetFence o => some (s.resetFence o)
  | .destroyFence o => s.onObject .fence o fun s => s.syncDestroyFence o

end Xfront.Sync
