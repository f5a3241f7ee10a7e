import Mathlib

/-!
# Pointer barriers

`xibarriers.c`: clients create barriers on a screen, each with a record for every
master pointer that tells whether the pointer is at the barrier and which event id
the next hit has. `input_constrain_cursor` stops a motion at the barriers in its way,
and a client lets the pointer through by releasing the current id. Where a motion
crosses a barrier, and how far away, is floating point and a parameter here.
-/

namespace Xfront.Barriers

def barrierPositiveX : BitVec 32 := 1
def barrierPositiveY : BitVec 32 := 2
def barrierNegativeX : BitVec 32 := 4
def barrierNegativeY : BitVec 32 := 8

def xiAllDevices : Nat := 0
def xiAllMasterDevices : Nat := 1

def xiBarrierPointerReleased : BitVec 32 := 1

def hitEdgeExtents : Int := 2

structure PointerBarrier where
  x1 : Int
  y1 : Int
  x2 : Int
  y2 : Int
  directions : BitVec 32
deriving DecidableEq

structure PointerBarrierDevice where
  deviceid : Nat
  lastTimestamp : BitVec 32
  barrierEventId : BitVec 32
  releaseEventId : BitVec 32
  hit : Bool
  seen : Bool
deriving DecidableEq

structure Screen where
  index : Nat
  root : Nat
deriving DecidableEq

/-- `serial` stands for the address of the allocation, which the id does not: an id
can be used again once its barrier is destroyed. -/
structure PointerBarrierClient where
  serial : Nat
  id : Nat
  pScreen : Screen
  window : Nat
  barrier : PointerBarrier
  deviceIds : List Nat
  perDevice : List PointerBarrierDevice
deriving DecidableEq

inductive EventType
  | barrierHit
  | barrierLeave
deriving DecidableEq

structure BarrierEvent where
  type : EventType
  time : BitVec 32
  deviceid : Nat
  sourceid : Nat
  barrierid : Nat
  window : Nat
  root : Nat
  dx : Int
  dy : Int
  dt : BitVec 32
  eventId : BitVec 32
  flags : BitVec 32
deriving DecidableEq

structure Generated where
  serial : Nat
  master : Nat
  event : BarrierEvent
deriving DecidableEq

/-- `barrier_is_blocking`, which stores a distance where it returns true, with the
order of the distances and the largest one considered. -/
structure Geometry where
  Distance : Type
  greater : Distance → Distance → Bool
  intMax : Distance
  barrierIsBlocking : PointerBarrier → Int → Int → Int → Int → Option Distance

def allocBarrierDevice (deviceid : Nat) : PointerBarrierDevice where
  deviceid := deviceid
  lastTimestamp := 0
  barrierEventId := 1
  releaseEventId := 0
  hit := false
  seen := false

def PointerBarrierClient.getBarrierDevice (c : PointerBarrierClient) (deviceid : Nat) :
    Option PointerBarrierDevice :=
  c.perDevice.find? fun p => p.deviceid == deviceid

/-- A write through the record that `GetBarrierDevice` finds. -/
def writeDevice (deviceid : Nat) (f : PointerBarrierDevice → PointerBarrierDevice) :
    List PointerBarrierDevice → List PointerBarrierDevice
  | [] => []
  | p :: ps => if p.deviceid = deviceid then f p :: ps else p :: writeDevice deviceid f ps

def PointerBarrierClient.setDevice (c : PointerBarrierClient) (deviceid : Nat)
    (f : PointerBarrierDevice → PointerBarrierDevice) : PointerBarrierClient :=
  { c with perDevice := writeDevice deviceid f c.perDevice }

def PointerBarrier.isHorizontal (b : PointerBarrier) : Bool := b.y1 == b.y2

def PointerBarrier.isVertical (b : PointerBarrier) : Bool := b.x1 == b.x2

def barrierGetDirection (x1 y1 x2 y2 : Int) : BitVec 32 :=
  (if x2 > x1 then barrierPositiveX else 0) ||| (if x2 < x1 then barrierNegativeX else 0) |||
  (if y2 > y1 then barrierPositiveY else 0) ||| (if y2 < y1 then barrierNegativeY else 0)

def PointerBarrier.isBlockingDirection (b : PointerBarrier) (direction : BitVec 32) : Bool :=
  b.directions &&& direction != direction

def PointerBarrier.insideHitBox (b : PointerBarrier) (x y : Int) : Bool :=
  let dir := ~~~b.directions
  let x1 := if b.isVertical && dir &&& barrierPositiveX != 0 then b.x1 - hitEdgeExtents else b.x1
  let x2 := if b.isVertical && dir &&& barrierNegativeX != 0 then b.x2 + hitEdgeExtents else b.x2
  let y1 := if b.isHorizontal && dir &&& barrierPositiveY != 0 then b.y1 - hitEdgeExtents
    else b.y1
  let y2 := if b.isHorizontal && dir &&& barrierNegativeY != 0 then b.y2 + hitEdgeExtents
    else b.y2
  decide (x ≥ x1) && decide (x ≤ x2) && decide (y ≥ y1) && decide (y ≤ y2)

def PointerBarrierClient.blocksDevice (c : PointerBarrierClient) (master : Nat) : Bool :=
  c.deviceIds.isEmpty || c.deviceIds.any fun deviceId =>
    deviceId == xiAllDevices || deviceId == xiAllMasterDevices || deviceId == master

def PointerBarrier.clampX (b : PointerBarrier) (dir : BitVec 32) (x : Int) : Int :=
  if b.isVertical then
    if (dir &&& barrierPositiveX) &&& ~~~b.directions != 0 then b.x1 - 1
    else if (dir &&& barrierNegativeX) &&& ~~~b.directions != 0 then b.x1
    else x
  else x

def PointerBarrier.clampY (b : PointerBarrier) (dir : BitVec 32) (y : Int) : Int :=
  if b.isHorizontal then
    if (dir &&& barrierPositiveY) &&& ~~~b.directions != 0 then b.y1 - 1
    else if (dir &&& barrierNegativeY) &&& ~~~b.directions != 0 then b.y1
    else y
  else y

section

variable (g : Geometry)

/-- One round of the search: `best` is the smallest distance so far and where it was found. -/
def nearer (scr : Screen) (master : Nat) (dir : BitVec 32) (x1 y1 x2 y2 : Int)
    (best : g.Distance × Option PointerBarrierClient) (c : PointerBarrierClient) :
    g.Distance × Option PointerBarrierClient :=
  if c.pScreen ≠ scr then best
  else match c.getBarrierDevice master with
  | none => best
  | some pbd =>
    if pbd.seen then best
    else if !c.barrier.isBlockingDirection dir then best
    else if !c.blocksDevice master then best
    else match g.barrierIsBlocking c.barrier x1 y1 x2 y2 with
      | none => best
      | some distance => if g.greater best.1 distance then (distance, some c) else best

def barrierFindNearest (clients : List PointerBarrierClient) (scr : Screen) (master : Nat)
    (dir : BitVec 32) (x1 y1 x2 y2 : Int) : Option PointerBarrierClient :=
  (clients.foldl (nearer g scr master dir x1 y1 x2 y2) (g.intMax, none)).2

/-- The variables of the loop of `input_constrain_cursor`. -/
structure Motion where
  clients : List PointerBarrierClient
  dir : BitVec 32
  currentX : Int
  currentY : Int
  x : Int
  y : Int
  events : List Generated

/-- Writes to the record for `deviceid` of one of the barriers. -/
def writeClient (serial deviceid : Nat) (f : PointerBarrierDevice → PointerBarrierDevice)
    (clients : List PointerBarrierClient) : List PointerBarrierClient :=
  clients.map fun c => if c.serial = serial then c.setDevice deviceid f else c

/-- What the events of one call have in common: `dev`, the screen, the time and the motion. -/
structure Origin where
  dev : Nat
  scr : Screen
  ms : BitVec 32
  dx : Int
  dy : Int

def Origin.event (o : Origin) (type : EventType) (c : PointerBarrierClient) (dt eventId flags :
    BitVec 32) : BarrierEvent where
  type := type
  time := o.ms
  deviceid := o.dev
  sourceid := o.dev
  barrierid := c.id
  window := c.window
  root := o.scr.root
  dx := o.dx
  dy := o.dy
  dt := dt
  eventId := eventId
  flags := flags

/-- The loop body for the barrier `c` and its record `pbd`. The pointer runs through a
barrier whose current id is released; otherwise it is clamped, and the axis is done. -/
def Motion.block (m : Motion) (o : Origin) (master : Nat) (c : PointerBarrierClient)
    (pbd : PointerBarrierDevice) : Motion :=
  if pbd.barrierEventId = pbd.releaseEventId then
    { m with
      clients := writeClient c.serial master (fun p => { p with seen := true, hit := true })
        m.clients }
  else
    let x := c.barrier.clampX m.dir m.x
    let y := c.barrier.clampY m.dir m.y
    let dt := if pbd.hit then o.ms - pbd.lastTimestamp else 0
    let ev : Generated :=
      { serial := c.serial
        master := master
        event := o.event .barrierHit c dt pbd.barrierEventId 0 }
    let clients := writeClient c.serial master
      (fun p => { p with seen := true, hit := true, lastTimestamp := o.ms }) m.clients
    if c.barrier.isVertical then
      { m with
        clients := clients
        dir := m.dir &&& ~~~(barrierNegativeX ||| barrierPositiveX)
        currentX := x
        x := x
        y := y
        events := m.events ++ [ev] }
    else if c.barrier.isHorizontal then
      { m with
        clients := clients
        dir := m.dir &&& ~~~(barrierNegativeY ||| barrierPositiveY)
        currentY := y
        x := x
        y := y
        events := m.events ++ [ev] }
    else { m with clients := clients, x := x, y := y, events := m.events ++ [ev] }

/-- The loop; it runs at most `fuel` rounds here, and `none` stands for one that has not
ended by then. -/
def constrainLoop (o : Origin) (master fuel : Nat) (m : Motion) : Option Motion :=
  if m.dir = 0 then some m
  else match barrierFindNearest g m.clients o.scr master m.dir m.currentX m.currentY m.x m.y with
  | none => some m
  | some c =>
    match fuel with
    | 0 => none
    | fuel + 1 =>
      match c.getBarrierDevice master with
      | none => constrainLoop o master fuel m
      | some pbd => constrainLoop o master fuel (m.block o master c pbd)

/-- The second pass for one barrier: `seen` is for one call only, and a pointer that has
left the hit box starts a new event id. -/
def leaveOne (o : Origin) (master : Nat) (x y : Int) (c : PointerBarrierClient) :
    PointerBarrierClient × List Generated :=
  if c.pScreen ≠ o.scr then (c, [])
  else match c.getBarrierDevice master with
  | none => (c, [])
  | some pbd =>
    if !pbd.hit || c.barrier.insideHitBox x y then
      (c.setDevice master fun p => { p with seen := false }, [])
    else
      let flags := if pbd.barrierEventId = pbd.releaseEventId then xiBarrierPointerReleased else 0
      (c.setDevice master fun p =>
          { p with
            seen := false
            hit := false
            lastTimestamp := o.ms
            barrierEventId := p.barrierEventId + 1 },
        [{ serial := c.serial
           master := master
           event := o.event .barrierLeave c (o.ms - pbd.lastTimestamp) pbd.barrierEventId flags }])

structure Constrained where
  clients : List PointerBarrierClient
  outX : Int
  outY : Int
  events : List Generated

/-- `master` is the master pointer of `dev`, or none for a floating device. -/
def inputConstrainCursor (fuel : Nat) (clients : List PointerBarrierClient) (dev : Nat)
    (master : Option Nat) (pScreen : Screen) (ms : BitVec 32)
    (currentX currentY destX destY : Int) : Option Constrained :=
  match master with
  | none => some { clients := clients, outX := destX, outY := destY, events := [] }
  | some master =>
    if !clients.any (fun c => c.pScreen == pScreen) then
      some { clients := clients, outX := destX, outY := destY, events := [] }
    else
      let o : Origin :=
        { dev := dev, scr := pScreen, ms := ms, dx := destX - currentX, dy := destY - currentY }
      let m : Motion :=
        { clients := clients
          dir := barrierGetDirection currentX currentY destX destY
          currentX := currentX
          currentY := currentY
          x := destX
          y := destY
          events := [] }
      (constrainLoop g o master fuel m).map fun m =>
        let left := m.clients.map (leaveOne o master m.x m.y)
        { clients := left.map Prod.fst
          outX := m.x
          outY := m.y
          events := m.events ++ left.flatMap Prod.snd }

end

/-- The barriers of all screens, the newest first; a screen's own list is those on it in
the same order. -/
structure World where
  clients : List PointerBarrierClient
  nextSerial : Nat

def World.init : World := { clients := [], nextSerial := 0 }

structure Masters where
  ids : List Nat
  nodup : ids.Nodup

inductive Error
  | badValue
  | badWindow
  | badDevice
  | badAccess
  | badBarrier
  | badIDChoice
deriving DecidableEq

structure CreatePointerBarrierReq where
  barrier : Nat
  window : Nat
  x1 : Int
  y1 : Int
  x2 : Int
  y2 : Int
  directions : BitVec 32
  devices : List Nat

/-- What the lookups of a request find; they depend on the client and its rights. -/
structure Lookups where
  window : Nat → Option Screen
  device : Nat → Bool
  master : Nat → Bool
  barrier : Nat → Bool
  clientIdForXID : Nat → Nat

def sortMinMax (a b : Int) : Int × Int := if a < 0 ∨ b < 0 then (a, b) else (min a b, max a b)

def CreatePointerBarrierReq.pointerBarrier (stuff : CreatePointerBarrierReq) : PointerBarrier :=
  let x := sortMinMax stuff.x1 stuff.x2
  let y := sortMinMax stuff.y1 stuff.y2
  let directions := stuff.directions &&& 0x0f
  let directions := if y.1 = y.2 then
    directions &&& ~~~(barrierPositiveX ||| barrierNegativeX) else directions
  let directions := if x.1 = x.2 then
    directions &&& ~~~(barrierPositiveY ||| barrierNegativeY) else directions
  { x1 := x.1, y1 := y.1, x2 := x.2, y2 := y.2, directions := directions }

def createPointerBarrierClient (masters : Masters) (look : Lookups) (w : World)
    (stuff : CreatePointerBarrierReq) : Except Error World :=
  match look.window stuff.window with
  | none => .error .badWindow
  | some pScreen =>
    if stuff.devices.all fun d => look.device d && look.master d then
      .ok
        { clients :=
            { serial := w.nextSerial
              id := stuff.barrier
              pScreen := pScreen
              window := stuff.window
              barrier := stuff.pointerBarrier
              deviceIds := stuff.devices
              perDevice := (masters.ids.map allocBarrierDevice).reverse } :: w.clients
          nextSerial := w.nextSerial + 1 }
    else .error .badDevice

def xiCreatePointerBarrier (masters : Masters) (look : Lookups) (w : World)
    (stuff : CreatePointerBarrierReq) : Except Error World :=
  let horizontal := stuff.y1 == stuff.y2
  let vertical := stuff.x1 == stuff.x2
  if w.clients.any fun c => c.id == stuff.barrier then .error .badIDChoice
  else if !horizontal && !vertical then .error .badValue
  else if horizontal && vertical then .error .badValue
  else if horizontal && (decide (stuff.y1 < 0) || decide (stuff.y2 < 0)) then .error .badValue
  else if vertical && (decide (stuff.x1 < 0) || decide (stuff.x2 < 0)) then .error .badValue
  else createPointerBarrierClient masters look w stuff

def World.find (w : World) (id : Nat) : Option PointerBarrierClient :=
  w.clients.find? fun c => c.id == id

def freeLeave (ms : BitVec 32) (c : PointerBarrierClient) (master : Nat) : List Generated :=
  match c.getBarrierDevice master with
  | none => []
  | some pbd =>
    if !pbd.hit then []
    else
      [{ serial := c.serial
         master := master
         event :=
          { type := .barrierLeave
            time := ms
            deviceid := master
            sourceid := 0
            barrierid := c.id
            window := c.window
            root := c.pScreen.root
            dx := 0
            dy := 0
            dt := ms - pbd.lastTimestamp
            eventId := pbd.barrierEventId
            flags := xiBarrierPointerReleased } }]

/-- Deletes the barrier `c`, as a request, a closing client or a failed `AddResource` does. -/
def barrierFreeBarrier (masters : Masters) (w : World) (ms : BitVec 32)
    (c : PointerBarrierClient) : World × List Generated :=
  ({ w with clients := w.clients.filter fun d => d.serial ≠ c.serial },
    masters.ids.flatMap (freeLeave ms c))

structure ReleasePointerInfo where
  deviceid : Nat
  barrier : Nat
  eventid : BitVec 32
deriving DecidableEq

/-- An accepted entry of a release request: the id asked for, whatever the current one is. -/
structure Requested where
  serial : Nat
  master : Nat
  eventid : BitVec 32
deriving DecidableEq

/-- `ProcXIBarrierReleasePointer`: the entries before a failing one have taken effect. -/
def releasePointer (look : Lookups) (client : Nat) (w : World) :
    List ReleasePointerInfo → World × List Requested × Option Error
  | [] => (w, [], none)
  | info :: rest =>
    if !look.device info.deviceid then (w, [], some .badDevice)
    else match w.find info.barrier with
    | none => (w, [], some .badBarrier)
    | some c =>
      if !look.barrier info.barrier then (w, [], some .badAccess)
      else if look.clientIdForXID info.barrier ≠ client then (w, [], some .badAccess)
      else match c.getBarrierDevice info.deviceid with
      | none => (w, [], some .badDevice)
      | some pbd =>
        let w' := if pbd.barrierEventId = info.eventid then
          { w with
            clients := writeClient c.serial info.deviceid
              (fun p => { p with releaseEventId := info.eventid }) w.clients }
          else w
        let (w', released, err) := releasePointer look client w' rest
        (w', { serial := c.serial, master := info.deviceid, eventid := info.eventid } :: released,
          err)

end Xfront.Barriers
