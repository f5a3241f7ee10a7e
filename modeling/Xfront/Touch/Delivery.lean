import Xfront.Touch.Model

/-!
# Delivery of touch events (Xi/exevents.c, dix/touch.c)

A touch without pointer emulation on a device that is not frozen, from the event that begins
it: its listeners, the history for those that wait, and what is sent to each of them.
Allocations succeed and the access hooks allow.
-/

open List

namespace Xfront.Touch.Delivery

open Resource (XID Limits)

inductive EventType
  | touchBegin | touchUpdate | touchEnd | touchOwnership
  deriving DecidableEq

structure DeviceEvent where
  type : EventType
  touchClientID : Bool := false
  touchReplaying : Bool := false
  touchAccept : Bool := false
  touchReject : Bool := false
  touchPendingEnd : Bool := false
  deriving DecidableEq

def DeviceEvent.replaying (ev : DeviceEvent) : DeviceEvent := { ev with touchReplaying := true }

structure XI2Mask where
  touchBegin : Bool
  touchOwnership : Bool
  deriving DecidableEq

structure GrabRec where
  resource : XID
  window : Nat
  grabtype : InputLevel
  xi2mask : XI2Mask
  deriving DecidableEq

structure InputClients where
  resource : XID
  xi2mask : XI2Mask

/-- `passiveGrab` is what `CheckPassiveGrabsOnWindow` finds for the touch. -/
structure Window where
  id : Nat
  passiveGrab : Option GrabRec
  inputClients : Option InputClients

structure Listener where
  listener : XID
  type : TouchListenerType
  state : TouchListenerState
  window : Nat
  grab : Option GrabRec
  xi2mask : XI2Mask
  deriving DecidableEq

def Listener.isPointer (l : Listener) : Bool :=
  l.type = .pointerRegular || l.type = .pointerGrab

/-- `sent` is what `DeliverOneTouchEvent` has sent so far, to which listener. -/
structure Point where
  active : Bool
  pendingFinish : Bool
  spriteTraceGood : Nat
  listeners : List Listener
  numGrabs : Nat
  history : Option (List DeviceEvent)
  sent : List (XID × EventType)

namespace Point
variable (t : Point)

def touchResourceIsOwner (resource : XID) : Bool :=
  t.listeners.head?.any fun l => l.listener = resource

def setState (i : Nat) (state : TouchListenerState) : Point :=
  { t with listeners := t.listeners.modify i fun l => { l with state := state } }

def touchEventHistoryAllocate : Point := { t with history := some (t.history.getD []) }

def touchAddListener (resource : XID) (type : TouchListenerType) (window : Nat)
    (grab : Option GrabRec) (xi2mask : XI2Mask) : Point :=
  { t with
    listeners := t.listeners ++ [⟨resource, type, .awaitingBegin, window, grab, xi2mask⟩]
    numGrabs := if grab.isSome then t.numGrabs + 1 else t.numGrabs }

def touchRemoveListener (resource : XID) : Point :=
  match t.listeners.find? fun l => l.listener = resource with
  | none => t
  | some l => { t with
      listeners := t.listeners.eraseP fun l => l.listener = resource
      numGrabs := if l.grab.isSome then t.numGrabs - 1 else t.numGrabs }

def touchAddGrabListener (grab : GrabRec) : Point :=
  match grab.grabtype with
  | .xi2 =>
    let t := if grab.xi2mask.touchOwnership then t else t.touchEventHistoryAllocate
    t.touchAddListener grab.resource (if grab.xi2mask.touchBegin then .grab else .pointerGrab)
      grab.window (some grab) grab.xi2mask
  | .xi | .core =>
    t.touchEventHistoryAllocate.touchAddListener grab.resource .pointerGrab grab.window
      (some grab) grab.xi2mask

/-- Without emulation a grab that is active on the device listens if it is for touches. -/
def touchAddActiveGrabListener (grab : GrabRec) : Point :=
  if grab.grabtype = .xi2 ∧ grab.xi2mask.touchBegin then t.touchAddGrabListener grab else t

def touchAddPassiveGrabListener (win : Window) : Point :=
  match win.passiveGrab with
  | none => t
  | some grab => t.touchAddGrabListener grab

def touchAddRegularListener (win : Window) : Bool × Point :=
  match win.inputClients with
  | none => (false, t)
  | some client =>
    if client.xi2mask.touchBegin then
      let t := if client.xi2mask.touchOwnership then t else t.touchEventHistoryAllocate
      (true, t.touchAddListener client.resource .regular win.id none client.xi2mask)
    else (false, t)

def addRegularListener : List Window → Point → Point
  | [], t => t
  | win :: wins, t =>
    match t.touchAddRegularListener win with
    | (true, t) => t
    | (false, t) => addRegularListener wins t

/-- `spriteTrace` has the windows from the root down. -/
def touchSetupListeners (activeGrab : Option GrabRec) (spriteTrace : List Window) : Point :=
  let t := activeGrab.elim t t.touchAddActiveGrabListener
  addRegularListener spriteTrace.reverse (spriteTrace.foldl touchAddPassiveGrabListener t)

def deliverOneTouchEvent (l : Listener) (type : EventType) : Point :=
  if l.grab.isNone ∧ t.numGrabs ≠ 0 ∧ !l.xi2mask.touchOwnership then t
  else { t with sent := t.sent ++ [(l.listener, type)] }

def retrieveTouchDeliveryData (l : Listener) (type : EventType) : Option XI2Mask :=
  match l.type with
  | .grab | .pointerGrab => l.grab.map GrabRec.xi2mask
  | .regular | .pointerRegular =>
    if type = .touchOwnership then if l.xi2mask.touchOwnership then some l.xi2mask else none
    else if l.xi2mask.touchBegin then some l.xi2mask else none

/-- One round of the loop of `DeliverTouchEvents`. -/
def deliverTo {E : Type} (type : E → EventType)
    (deliver : Point → E → Nat → Listener → XI2Mask → Point × E) (resource : Option XID)
    (i : Nat) (t : Point) (ev : E) : Point × E :=
  match t.listeners[i]? with
  | none => (t, ev)
  | some l =>
    if resource.any fun r => l.listener ≠ r then (t, ev)
    else
      match retrieveTouchDeliveryData l (type ev) with
      | none => (t, ev)
      | some mask => deliver t ev i l mask

/-- The rounds for `n` listeners from the `i`th on. -/
def deliverFrom {E : Type} (type : E → EventType)
    (deliver : Point → E → Nat → Listener → XI2Mask → Point × E) (resource : Option XID) :
    Nat → Nat → Point → E → Point × E
  | 0, _, t, ev => (t, ev)
  | n + 1, i, t, ev =>
    let (t, ev) := deliverTo type deliver resource i t ev
    deliverFrom type deliver resource n (i + 1) t ev

def deliverTouchOwnership (i : Nat) (l : Listener) : Point :=
  if t.touchResourceIsOwner l.listener then
    (t.deliverOneTouchEvent l .touchOwnership).setState i .isOwner
  else t

/-- `DeliverTouchEvents` for an ownership event, which is not kept in the history. -/
def deliverOwnershipEvent (resource : XID) : Point :=
  (deliverFrom (fun _ => .touchOwnership) (fun t ev i l _ => (t.deliverTouchOwnership i l, ev))
    (some resource) t.listeners.length 0 t ()).1

def deliverTouchBeginEvent (i : Nat) (l : Listener) (xi2mask : XI2Mask) : Point :=
  if l.isPointer then t
  else
    let owner := t.touchResourceIsOwner l.listener
    let t := if owner || xi2mask.touchOwnership then t.deliverOneTouchEvent l .touchBegin else t
    if !owner then
      t.setState i (if xi2mask.touchOwnership then .awaitingOwner else .awaitingBegin)
    else
      let t := if xi2mask.touchOwnership then t.deliverOwnershipEvent l.listener else t
      t.setState i (if l.type = .regular then .hasAccepted else .isOwner)

def deliverTouchEndEvent (ev : DeviceEvent) (i : Nat) (l : Listener) : Point × DeviceEvent :=
  let owner := t.touchResourceIsOwner l.listener
  if l.isPointer then (t, ev)
  else if l.state = .awaitingBegin then (t.setState i .hasEnd, ev)
  else if ev.touchReject || (ev.touchAccept && !owner) then
    let t := if l.state ≠ .hasEnd then t.deliverOneTouchEvent l .touchEnd else t
    (t.setState i .hasEnd, ev)
  else if owner then
    let normalEnd := !ev.touchAccept
    let t := if normalEnd && l.state ≠ .hasEnd then t.deliverOneTouchEvent l .touchEnd else t
    let (t, ev) :=
      if (t.listeners.length > 1 ∨ (t.numGrabs > 0 ∧ l.state ≠ .hasAccepted)) ∧
          !ev.touchAccept ∧ !ev.touchReject then
        ({ t with pendingFinish := true },
          { ev with type := .touchUpdate, touchPendingEnd := true })
      else (t, ev)
    (if normalEnd then t.setState i .hasEnd else t, ev)
  else (t, ev)

def deliverTouchEvent (ev : DeviceEvent) (i : Nat) (l : Listener) (xi2mask : XI2Mask) :
    Point × DeviceEvent :=
  match ev.type with
  | .touchBegin => (t.deliverTouchBeginEvent i l xi2mask, ev)
  | .touchUpdate =>
    if l.isPointer then (t, ev)
    else if t.touchResourceIsOwner l.listener || xi2mask.touchOwnership then
      (t.deliverOneTouchEvent l .touchUpdate, ev)
    else (t, ev)
  | .touchEnd => t.deliverTouchEndEvent ev i l
  | .touchOwnership => (t, ev)

def touchHistorySize : Nat := 100

def touchEventHistoryPush (ev : DeviceEvent) : Point :=
  match t.history with
  | none => t
  | some history =>
    if ev.type ≠ .touchBegin ∧ ev.type ≠ .touchUpdate then t
    else if ev.type = .touchBegin ∧ history ≠ [] then t
    else if ev.touchClientID || ev.touchReplaying then t
    else { t with history := some ((history ++ [ev]).take (touchHistorySize - 1)) }

def deliverTouchEvents (ev : DeviceEvent) (resource : Option XID) : Point × DeviceEvent :=
  let t := t.touchEventHistoryPush ev
  deliverFrom DeviceEvent.type deliverTouchEvent resource t.listeners.length 0 t ev

def touchEndTouch : Point :=
  { t with
    active := false
    pendingFinish := false
    spriteTraceGood := 0
    listeners := []
    numGrabs := 0
    history := none }

def processTouchEvent (ev : DeviceEvent) (resource : Option XID) : Point :=
  if !t.active then t
  else if ev.type ≠ .touchEnd ∧ t.spriteTraceGood = 0 then t
  else
    let (t, ev) := t.deliverTouchEvents ev resource
    if ev.type = .touchEnd then t.touchEndTouch else t

def touchEventHistoryReplay (resource : XID) : Point :=
  match t.history with
  | none => t
  | some history =>
    let replayed := history.map DeviceEvent.replaying
    replayed.foldl (fun t ev => t.processTouchEvent ev (some resource))
      { t with history := some replayed }

def touchEmitTouchEnd (accept reject : Bool) (resource : Option XID) : Point :=
  (t.deliverTouchEvents
    { type := .touchEnd, touchClientID := true, touchAccept := accept, touchReject := reject }
    resource).1

/-- Removes `listeners[1]` until it is not there. -/
def removeOthers : Nat → Point → Point
  | 0, t => t
  | n + 1, t =>
    match t.listeners with
    | _ :: l :: _ => removeOthers n (t.touchRemoveListener l.listener)
    | _ => t

def processAccept : Point :=
  match t.listeners with
  | [] => t
  | owner :: others =>
    let t := if owner.state = .hasEnd then t.touchEmitTouchEnd true false (some owner.listener)
      else t
    let t := others.foldl (fun t l => t.touchEmitTouchEnd true false (some l.listener)) t
    let t := removeOthers others.length t
    if (t.listeners.head?.any fun l => l.state = .hasEnd) then t.touchEndTouch
    else t.setState 0 .hasAccepted

def requested (L : Limits) (client window : Nat) : Option (Nat × Listener) :=
  (t.listeners.zipIdx.find? fun (l, _) =>
    L.clientIdForXID l.listener = client ∧ l.window = window).map fun (l, i) => (i, l)

/-- `TouchListenerAcceptReject` with `XIAcceptTouch`. -/
def touchListenerAccept (i : Nat) : Point :=
  if i > 0 then t.setState i .earlyAccept else t.processAccept

def activateEarlyAccept (L : Limits) : Point :=
  match t.listeners with
  | [] => t
  | owner :: _ =>
    match owner.type, owner.grab with
    | .grab, some grab | .pointerGrab, some grab =>
      match t.requested L (L.clientIdForXID grab.resource) owner.window with
      | none => t
      | some (i, _) => t.touchListenerAccept i
    | _, _ => t

/-- The part of `TouchPuntToNextOwner` behind what it sends to the new owner. -/
def handOver (L : Limits) (listener : Listener) : Point :=
  let pending := t.pendingFinish
  let t := if pending then t.touchEmitTouchEnd false false none else t
  if pending ∧ t.listeners.length = 1 ∧ (t.numGrabs = 0 ∨
      listener.grab.any fun g => g.grabtype ≠ .xi2 ∨ !g.xi2mask.touchBegin) then
    t.touchEndTouch
  else if listener.state = .earlyAccept then t.activateEarlyAccept L
  else t

def touchPuntToNextOwner (L : Limits) : Point :=
  match t.listeners with
  | [] => t
  | listener :: _ =>
    if listener.state = .awaitingOwner ∨ listener.state = .earlyAccept then
      (t.deliverOwnershipEvent listener.listener).handOver L listener
    else if listener.state = .awaitingBegin then
      if listener.isPointer then t
      else (t.touchEventHistoryReplay listener.listener).handOver L listener
    else t.handOver L listener

/-- `ev` tells whether there is an ownership event to send. -/
def touchRejected (L : Limits) (resource : XID) (ev : Bool) : Point :=
  let wasOwner := t.touchResourceIsOwner resource
  let listener := t.listeners.find? fun l => l.listener = resource
  let t := if listener.any fun l => l.state ≠ .hasEnd then
      t.touchEmitTouchEnd false true (some resource)
    else t
  let t := t.touchRemoveListener resource
  if ev ∧ t.listeners.length > 0 ∧ wasOwner then t.touchPuntToNextOwner L
  else if t.listeners.length = 0 then t.touchEndTouch
  else t

inductive Mode
  | accept | reject
  deriving DecidableEq

def touchListenerAcceptReject (L : Limits) (i : Nat) (l : Listener) : Mode → Point
  | .reject => t.touchRejected L l.listener (i = 0)
  | .accept => t.touchListenerAccept i

inductive Status
  | success | badValue | badAccess
  deriving DecidableEq

def touchAcceptReject (L : Limits) (client : Nat) (mode : Mode) (window : Nat) : Status × Point :=
  if !t.active then (.badValue, t)
  else
    match t.requested L client window with
    | none => (.badAccess, t)
    | some (i, l) => (.success, t.touchListenerAcceptReject L i l mode)

end Point

def setupTouch (activeGrab : Option GrabRec) (spriteTrace : List Window) : Point :=
  let t : Point := ⟨true, false, spriteTrace.length, [], 0, none, []⟩
  if spriteTrace = [] then t else t.touchSetupListeners activeGrab spriteTrace

def beginTouch (activeGrab : Option GrabRec) (spriteTrace : List Window) : Point :=
  let t := setupTouch activeGrab spriteTrace
  if spriteTrace = [] then t else (t.deliverTouchEvents { type := .touchBegin } none).1

end Xfront.Touch.Delivery

/-!
## What a listener has been told

A listener is told that a touch begins, then of updates and that it owns the touch, and at
last that the touch ends.
-/

namespace Xfront.Touch.Delivery

open Resource (XID)

inductive Phase
  | fresh | begun | ended
  deriving DecidableEq

def phaseStep : Phase → EventType → Option Phase
  | .fresh, .touchBegin => some .begun
  | .begun, .touchUpdate => some .begun
  | .begun, .touchOwnership => some .begun
  | .begun, .touchEnd => some .ended
  | _, _ => none

abbrev Sent := List (XID × EventType)

def phase (sent : Sent) (r : XID) : Option Phase :=
  (sent.filter fun e => e.1 = r).foldlM (fun p e => phaseStep p e.2) .fresh

def owned (sent : Sent) : List XID := (sent.filter fun e => e.2 = .touchOwnership).map Prod.fst

variable {sent : Sent} {r : XID} {p : Phase}

theorem phase_snoc (sent : Sent) (e : XID × EventType) (r : XID) : phase (sent ++ [e]) r =
      if e.1 = r then (phase sent r).bind fun p => phaseStep p e.2 else phase sent r := by
  rw [phase, filter_append]
  by_cases h : e.1 = r
  · rw [if_pos h, filter_cons_of_pos (by simpa using h), filter_nil, foldlM_append]
    simp only [foldlM_cons, foldlM_nil, bind_pure]
    rfl
  · rw [if_neg h, filter_cons_of_neg (by simpa using h), filter_nil, append_nil]
    rfl

theorem owned_append (sent sent' : Sent) : owned (sent ++ sent') = owned sent ++ owned sent' := by
  rw [owned, filter_append, map_append]
  rfl

theorem owned_eq_nil (h : ∀ e ∈ sent, e.2 ≠ .touchOwnership) : owned sent = [] := by
  rw [owned, map_eq_nil_iff, filter_eq_nil_iff]
  exact fun e he => by simpa using h e he

variable {type : EventType}

theorem phase_same (h : phase sent r = some p) (hs : phaseStep p type = some p)
    (r' : XID) : phase (sent ++ [(r, type)]) r' = phase sent r' := by
  rw [phase_snoc]
  split
  · next heq =>
    rw [← heq, h]
    exact hs
  · rfl

theorem phase_moved {p' : Phase} (h : phase sent r = some p)
    (hs : phaseStep p type = some p') (r' : XID) :
    phase (sent ++ [(r, type)]) r' = if r = r' then some p' else phase sent r' := by
  rw [phase_snoc]
  split
  · next heq =>
    rw [← heq, h]
    exact hs
  · rfl

theorem phase_updates {rs : List XID} (h : ∀ r ∈ rs, phase sent r = some .begun) (r' : XID) :
    phase (sent ++ rs.map fun r => (r, .touchUpdate)) r' = phase sent r' := by
  induction rs generalizing sent with
  | nil => rw [map_nil, append_nil]
  | cons r rs ih =>
    have hone : ∀ r', phase (sent ++ [(r, .touchUpdate)]) r' = phase sent r' :=
      phase_same (h r mem_cons_self) rfl
    rw [map_cons, ← singleton_append, ← append_assoc, ih, hone]
    exact fun r'' hr => (hone r'').trans (h r'' (mem_cons_of_mem r hr))

theorem phase_each {p' : Phase} {rs : List XID} (hnd : rs.Nodup)
    (h : ∀ r ∈ rs, phase sent r = some p) (hs : phaseStep p type = some p') (r' : XID) :
    phase (sent ++ rs.map fun r => (r, type)) r' = if r' ∈ rs then some p' else phase sent r' := by
  induction rs generalizing sent with
  | nil => rw [map_nil, append_nil, if_neg not_mem_nil]
  | cons r rs ih =>
    have hone := phase_moved (h r mem_cons_self) hs
    obtain ⟨hr, hnd⟩ := nodup_cons.mp hnd
    rw [map_cons, ← singleton_append, ← append_assoc, ih hnd, hone]
    · by_cases heq : r = r'
      · subst heq
        rw [if_neg hr, if_pos rfl, if_pos mem_cons_self]
      · rw [if_neg heq]
        simp only [mem_cons, Ne.symm heq, false_or]
    · intro r'' hr''
      have hne : r ≠ r'' := fun heq => hr (heq ▸ hr'')
      rw [hone, if_neg hne]
      exact h r'' (mem_cons_of_mem r hr'')

end Xfront.Touch.Delivery
