import Xfront.Barriers.Counts
import Xfront.Events.Switch

/-!
# The size of the event list

`GetPointerEvents` writes into a list of `GetMaximumEventsNum()` events.
-/

namespace Xfront.Events

open Barriers List Option

variable {D : Doubles} {devs : Nat → Device D.V} {g : Geometry} {s s' : State} {pDev : Nat}

def spriteOwner (devs : Nat → Device D.V) (pDev : Nat) : Option Nat :=
  if inputDevIsFloating D devs pDev then none else getMaster D devs pDev .pointer

def SpriteMove.quiet (owner : Option Nat) (clients : List PointerBarrierClient)
    (move : SpriteMove) : Prop :=
  Quiet owner move.pScreen move.currentX move.currentY move.destX move.destY clients

/-- The motion of the call leaves room for its barrier events, and its scroll buttons do not move
the pointer out of the hit boxes that the motion has left it in. -/
structure Fits (devs : Nat → Device D.V) (g : Geometry) (s : State) (pDev : Nat)
    (call : PointerCall D) : Prop where
  motion : (firstFill D devs pDev call).flags &&& pointerAbsolute = 0 →
    ∀ master, spriteOwner devs pDev = some master →
      totalWeight (call.moves 0).pScreen master s.barriers + 3 ≤ getMaximumEventsNum
  scroll : ∀ s' evs,
    fillPointerEvents D devs g (updateFromMaster D devs s pDev .pointer).1 pDev (firstFill D devs pDev call).type
      (firstFill D devs pDev call).buttons call.ms (firstFill D devs pDev call).flags
      (some (firstFill D devs pDev call).mask) (call.moves 0) = some (s', evs) →
    ∀ n, 0 < n → (call.moves n).quiet (spriteOwner devs pDev) s'.barriers

theorem positionSprite_length (g : Geometry) {log : List Logged} (ms : BitVec 32)
    (absolute : Bool) (move : SpriteMove) {bound : Nat} (hok : Ok s.barriers log) (hseen : NoneSeen s.barriers)
    (hb : absolute = false → ∀ master, spriteOwner devs pDev = some master →
      totalWeight move.pScreen master s.barriers ≤ bound) :
    ∃ s' evs, positionSprite D devs g s pDev ms absolute move = some (s', evs) ∧
      evs.length ≤ bound := by
  unfold positionSprite
  split
  next => exact ⟨s, [], rfl, Nat.zero_le _⟩
  next hrel =>
    have habs : absolute = false := by
      rw [Bool.or_eq_true, not_or, Bool.not_eq_true] at hrel
      exact hrel.1
    obtain ⟨r, hr, _⟩ := inputConstrainCursor_spec g pDev (spriteOwner devs pDev) move.pScreen ms
      move.currentX move.currentY move.destX move.destY hok hseen
    rw [spriteOwner] at hr
    refine ⟨{ s with barriers := r.clients }, r.events.map fun ev => .barrier ev.event, ?_, ?_⟩
    · dsimp only
      rw [hr, map_some]
    · rw [length_map]
      cases howner : spriteOwner devs pDev with
      | none =>
        rw [spriteOwner] at howner
        rw [howner] at hr
        cases hr
        exact Nat.zero_le _
      | some master =>
        have hle := hb habs master howner
        rw [spriteOwner] at howner
        rw [howner] at hr
        exact le_trans (inputConstrainCursor_weight hok hseen hr) hle

theorem positionSprite_quiet (g : Geometry) (ms : BitVec 32) (absolute : Bool) {move : SpriteMove}
    (h : move.quiet (spriteOwner devs pDev) s.barriers) :
    ∃ s', positionSprite D devs g s pDev ms absolute move = some (s', []) ∧
      ∀ move' : SpriteMove, move'.quiet (spriteOwner devs pDev) s.barriers →
        move'.quiet (spriteOwner devs pDev) s'.barriers := by
  unfold positionSprite
  split
  next => exact ⟨s, rfl, fun _ hq => hq⟩
  next =>
    obtain ⟨r, hr, hev, hkeep⟩ := inputConstrainCursor_quiet g pDev ms s.barriers.length h
    rw [spriteOwner] at hr
    refine ⟨{ s with barriers := r.clients }, ?_, fun move' hq => hkeep _ _ _ _ _ hq⟩
    dsimp only
    rw [hr, map_some, hev, map_nil]

theorem length_ite_le {α : Type} (c : Prop) [Decidable c] (e : α) :
    (if c then [e] else []).length ≤ 1 := by
  split <;> simp

theorem fillPointerEvents_length (type : PointerType) (buttons : Nat) {ms flags : BitVec 32}
    (maskIn : Option (ValuatorMask D.V)) {move : SpriteMove} {evs : List InternalEvent}
    (h : positionSprite D devs g s pDev ms (flags &&& pointerAbsolute != 0) move = some (s', evs)) :
    ∃ evs', fillPointerEvents D devs g s pDev type buttons ms flags maskIn move = some (s', evs') ∧
        evs'.length ≤ evs.length + 2 ∨
      fillPointerEvents D devs g s pDev type buttons ms flags maskIn move = some (s, []) := by
  unfold fillPointerEvents
  split
  next => exact ⟨[], .inr rfl⟩
  next =>
    rw [h, map_some]
    refine ⟨_, .inl ⟨rfl, ?_⟩⟩
    rw [length_append, length_append]
    have hraw := length_ite_le (flags &&& pointerNoraw = 0)
      (InternalEvent.raw type.event pDev buttons (flags &&& pointerEmulated != 0))
    have hdev := length_ite_le (flags &&& pointerRawonly = 0)
      (InternalEvent.device type.event pDev (if type = .motionNotify then 0 else buttons)
        (flags &&& pointerEmulated != 0))
    omega

def Still (devs : Nat → Device D.V) (pDev : Nat) (call : PointerCall D)
    (clients : List PointerBarrierClient) (fills : Nat) : Prop :=
  0 < fills ∧ ∀ n, 0 < n → (call.moves n).quiet (spriteOwner devs pDev) clients

variable {call : PointerCall D}

theorem fillScroll_still (g : Geometry) (b : Nat) (flags : BitVec 32) (type : PointerType)
    {l : Scroll D} (h : Still devs pDev call l.state.barriers l.fills) :
    ∃ l', fillScroll D devs g call pDev b flags type l = some l' ∧
      Still devs pDev call l'.state.barriers l'.fills ∧ l'.events.length ≤ l.events.length + 2 := by
  obtain ⟨s', hs, hkeep⟩ := positionSprite_quiet g call.ms (flags &&& pointerAbsolute != 0)
    (h.2 l.fills h.1)
  unfold fillScroll
  obtain ⟨evs, ⟨hfill, hlen⟩ | hfill⟩ := fillPointerEvents_length type b none hs
  · rw [hfill, map_some]
    refine ⟨_, rfl, ⟨Nat.succ_pos _, fun n hn => hkeep _ (h.2 n hn)⟩, ?_⟩
    rw [length_append]
    exact Nat.add_le_add_left hlen _
  · rw [hfill, map_some]
    refine ⟨_, rfl, ⟨Nat.succ_pos _, h.2⟩, ?_⟩
    dsimp only
    rw [append_nil]
    exact Nat.le_add_right _ _

theorem emulateStep_still (g : Geometry) (b : Nat) (flags : BitVec 32) (type : PointerType)
    {l : Scroll D} (h : Still devs pDev call l.state.barriers l.fills) :
    ∃ l', emulateStep D devs g call pDev b flags type l = some l' ∧
      Still devs pDev call l'.state.barriers l'.fills ∧ l'.events.length ≤ l.events.length + 4 := by
  unfold emulateStep
  obtain ⟨m, hm, hstill, hlen⟩ : ∃ m, (if type ≠ .buttonRelease then
      fillScroll D devs g call pDev b flags .buttonPress l else some l) = some m ∧
      Still devs pDev call m.state.barriers m.fills ∧ m.events.length ≤ l.events.length + 2 := by
    split
    · exact fillScroll_still g b flags .buttonPress h
    · exact ⟨l, rfl, h, Nat.le_add_right _ _⟩
  rw [hm, bind_some]
  split
  · obtain ⟨l', hl', hstill', hlen'⟩ := fillScroll_still g b flags .buttonRelease hstill
    exact ⟨l', hl', hstill', by omega⟩
  · exact ⟨m, rfl, hstill, by omega⟩

theorem emulateLoop_still (g : Geometry) (b : Nat) (flags : BitVec 32) (type : PointerType)
    (direction : Int) (incr currentVal : D.V) {maxEvents : Int} (fuel : Nat) {l : Scroll D} (h : Still devs pDev call l.state.barriers l.fills)
    (hl : (l.events.length : Int) ≤ maxEvents) :
    ∃ l', emulateLoop D devs g call pDev b flags type direction incr currentVal maxEvents fuel l =
        some l' ∧ Still devs pDev call l'.state.barriers l'.fills ∧
      (l'.events.length : Int) ≤ maxEvents := by
  induction fuel generalizing l with
  | zero => exact ⟨l, rfl, h, hl⟩
  | succ fuel ih =>
    rw [emulateLoop]
    split
    next => exact ⟨l, rfl, h, hl⟩
    next =>
      obtain ⟨m, hm, hstill, hlen⟩ : ∃ m, (if (l.events.length : Int) + 4 < maxEvents then
          emulateStep D devs g call pDev b flags type l else some l) = some m ∧
          Still devs pDev call m.state.barriers m.fills ∧
          (m.events.length : Int) ≤ maxEvents := by
        split
        next hroom =>
          obtain ⟨m, hm, hstill, hlen⟩ := emulateStep_still g b flags type h
          exact ⟨m, hm, hstill, by omega⟩
        next => exact ⟨l, rfl, h, hl⟩
      rw [hm, bind_some]
      exact ih hstill hlen

theorem emulateScrollButtonEvents_still (g : Geometry) (fuel : Nat) (type : PointerType)
    (axis : Nat) {fills : Nat} {maxEvents : Int} (h : Still devs pDev call s.barriers fills) (hmax : 0 ≤ maxEvents) :
    ∃ s' fills' evs, emulateScrollButtonEvents D devs g fuel call s pDev type axis fills
        maxEvents = some (s', fills', evs) ∧ Still devs pDev call s'.barriers fills' ∧
      (evs.length : Int) ≤ maxEvents := by
  have hnone : ∃ s' fills' evs, some (s, fills, ([] : List InternalEvent)) =
      some (s', fills', evs) ∧ Still devs pDev call s'.barriers fills' ∧
      (evs.length : Int) ≤ maxEvents := ⟨s, fills, [], rfl, h, hmax⟩
  unfold emulateScrollButtonEvents
  split
  next => exact hnone
  next v _ =>
    by_cases hskip : (decide ((v.axes axis).scrollType = .none) ||
        D.eq (v.axes axis).increment (D.ofInt 0)) = true
    · rw [if_pos hskip]
      exact hnone
    · rw [if_neg hskip]
      have hloop : ∀ b flags direction lastScrollVal, ∃ l, emulateLoop D devs g call pDev b flags
          type direction (v.axes axis).increment (call.newValuators axis) maxEvents fuel
          { state := s, fills := fills, events := [], lastScrollVal := lastScrollVal } = some l ∧ _ :=
        fun b flags direction lastScrollVal =>
          emulateLoop_still g b flags type direction _ _ fuel h hmax
      obtain ⟨l, hl, hstill, hlen⟩ := hloop _ _ _ _
      exact ⟨l.state, l.fills, l.events, map_eq_some_iff.mpr ⟨l, hl, rfl⟩, hstill, hlen⟩

theorem emulateAxes_still (g : Geometry) (fuel : Nat) (type : PointerType)
    (mask : ValuatorMask D.V) (axes : List Nat) {fills : Nat} {events : List InternalEvent} (h : Still devs pDev call s.barriers fills)
    (hlen : events.length ≤ getMaximumEventsNum) :
    ∃ s' evs, emulateAxes D devs g fuel call pDev type mask axes s fills events = some (s', evs) ∧
      evs.length ≤ getMaximumEventsNum := by
  induction axes generalizing s fills events with
  | nil => exact ⟨s, events, rfl, hlen⟩
  | cons axis axes ih =>
    rw [emulateAxes]
    split
    next => exact ih h hlen
    next =>
      obtain ⟨u, fills', evs, hu, hstill, hevs⟩ := emulateScrollButtonEvents_still g fuel type
        axis h (by omega : 0 ≤ (getMaximumEventsNum : Int) - events.length)
      rw [hu, bind_some]
      refine ih hstill ?_
      rw [length_append]
      omega

theorem updateFromMaster_barriers (devs : Nat → Device D.V) (s : State) (pDev : Nat)
    (kind : MasterKind) : (updateFromMaster D devs s pDev kind).1.barriers = s.barriers ∧
    (updateFromMaster D devs s pDev kind).2.length ≤ 1 := by
  unfold updateFromMaster
  split
  next => exact ⟨rfl, Nat.zero_le _⟩
  next =>
    split
    · exact ⟨rfl, le_refl _⟩
    · exact ⟨rfl, Nat.zero_le _⟩

theorem fillPointerEvents_fits (g : Geometry) {log : List Logged} (move : SpriteMove)
    (bound : Nat) (type : PointerType) (buttons : Nat) (ms : BitVec 32) {flags : BitVec 32}
    (maskIn : Option (ValuatorMask D.V)) (hok : Ok s.barriers log) (hseen : NoneSeen s.barriers)
    (hb : flags &&& pointerAbsolute = 0 → ∀ master, spriteOwner devs pDev = some master →
      totalWeight move.pScreen master s.barriers ≤ bound) :
    ∃ s' evs, fillPointerEvents D devs g s pDev type buttons ms flags maskIn move =
      some (s', evs) ∧ evs.length ≤ bound + 2 := by
  obtain ⟨s', evs, hs, hlen⟩ := positionSprite_length g ms (flags &&& pointerAbsolute != 0) move
    hok hseen fun habs => hb (by simpa using habs)
  obtain ⟨evs', ⟨hfill, hlen'⟩ | hfill⟩ := fillPointerEvents_length type buttons maskIn hs
  · exact ⟨s', evs', hfill, by omega⟩
  · exact ⟨s, [], hfill, Nat.zero_le _⟩

/-- `n` barriers in one place, each with its first id released. -/
def walls (n : Nat) : List Action :=
  (range n).flatMap fun i =>
    [.create anyone { wall with barrier := i },
      .release anyone 1 [{ deviceid := 2, barrier := i, eventid := 1 }]]

def mouse (dev : Nat) : Device Int where
  type := if dev = 2 then .masterPointer else .slave
  master := if dev = 2 then none else some 2
  paired := some 3
  enabled := true
  key := none
  focus := false
  kbdfeed := none
  button := true
  valuator := some
    { numAxes := 2
      axes := fun _ => { scrollType := .none, increment := 0 }
      hScrollAxis := none
      vScrollAxis := none }
  proximity := false
  directTouch := none
  gesture := false

def crossing : PointerCall integers where
  type := .motionNotify
  buttons := 0
  flags := pointerRelative
  maskIn := some (ValuatorMask.zero.setDouble 0 (90 : Int))
  ms := 7
  hasScreen := true
  lastValuators := fun _ => (0 : Int)
  newValuators := fun _ => (0 : Int)
  lastScroll := .zero
  moves := fun n =>
    { pScreen := screen0
      currentX := if n = 0 then 0 else 90
      currentY := 50
      destX := 90
      destY := 50 }

def State.withBarriers (clients : List PointerBarrierClient) : State :=
  { State.init with barriers := clients }

def wallClient (i : Nat) : PointerBarrierClient where
  serial := i
  id := i
  pScreen := screen0
  window := 100
  barrier := { x1 := 50, y1 := 0, x2 := 50, y2 := 100, directions := 0 }
  deviceIds := []
  perDevice := [{ allocBarrierDevice 2 with releaseEventId := 1 }]

def wallWorld (n : Nat) : World where
  clients := ((range n).map wallClient).reverse
  nextSerial := n

theorem wallWorld_succ (n : Nat) : wallWorld (n + 1) =
    { clients := wallClient n :: (wallWorld n).clients, nextSerial := n + 1 } := by
  simp [wallWorld, range_succ]

theorem mem_wallWorld {n : Nat} {c : PointerBarrierClient} (hc : c ∈ (wallWorld n).clients) :
    ∃ i < n, c = wallClient i := by
  obtain ⟨i, hi, rfl⟩ := List.mem_map.mp (mem_reverse.mp hc)
  exact ⟨i, mem_range.mp hi, rfl⟩

def unreleased (n : Nat) : World where
  clients := { wallClient n with perDevice := [allocBarrierDevice 2] } :: (wallWorld n).clients
  nextSerial := n + 1

theorem create_wall (n : Nat) :
    xiCreatePointerBarrier onePointer anyone (wallWorld n) { wall with barrier := n } =
      .ok (unreleased n) := by
  have hnew : (wallWorld n).clients.any (fun c => c.id == n) = false := by
    rw [List.any_eq_false]
    intro c hc
    obtain ⟨i, hi, rfl⟩ := mem_wallWorld hc
    simp only [wallClient, beq_iff_eq]
    omega
  have hbarrier : ({ wall with barrier := n } : CreatePointerBarrierReq).pointerBarrier =
      wall.pointerBarrier := rfl
  unfold xiCreatePointerBarrier
  rw [hnew]
  rw [if_neg Bool.false_ne_true, if_neg (by simp [wall]), if_neg (by simp [wall]),
    if_neg (by simp [wall]), if_neg (by simp [wall])]
  unfold createPointerBarrierClient
  rw [hbarrier]
  rfl

theorem release_wall (n : Nat) : (releasePointer anyone 1 (unreleased n)
      [{ deviceid := 2, barrier := n, eventid := 1 }]).1 = wallWorld (n + 1) := by
  have hfind : (unreleased n).find n =
      some { wallClient n with perDevice := [allocBarrierDevice 2] } := by
    simp [World.find, unreleased, wallClient]
  have hkeep : writeClient n 2 (fun p => { p with releaseEventId := 1 }) (wallWorld n).clients =
      (wallWorld n).clients := by
    conv_rhs => rw [← List.map_id (wallWorld n).clients]
    refine map_congr_left fun c hc => if_neg ?_
    obtain ⟨i, hi, rfl⟩ := mem_wallWorld hc
    exact ne_of_lt hi
  have hwrite : writeClient n 2 (fun p => { p with releaseEventId := 1 }) (unreleased n).clients =
      wallClient n :: (wallWorld n).clients := by
    rw [← hkeep]
    simp [writeClient, unreleased, wallClient, PointerBarrierClient.setDevice, writeDevice,
      allocBarrierDevice]
  have hrec : ({ wallClient n with perDevice := [allocBarrierDevice 2] } :
      PointerBarrierClient).getBarrierDevice 2 = some (allocBarrierDevice 2) := rfl
  unfold releasePointer
  rw [hfind]
  simp only [hrec]
  rw [wallWorld_succ, ← hwrite]
  rfl

theorem run_walls (n : Nat) :
    ∃ logs, Run.exec (Barriers.step alongX onePointer) World.init (walls n) = some (wallWorld n, logs) := by
  induction n with
  | zero => exact ⟨[], rfl⟩
  | succ n ih =>
    obtain ⟨logs, hlogs⟩ := ih
    have hsplit : walls (n + 1) = walls n ++ [.create anyone { wall with barrier := n },
          .release anyone 1 [{ deviceid := 2, barrier := n, eventid := 1 }]] := by
      simp [walls, range_succ]
    have hcreate : Barriers.step alongX onePointer (wallWorld n)
        (.create anyone { wall with barrier := n }) = some (unreleased n, []) := by
      rw [Barriers.step, create_wall]
    have hrelease : ∃ o, Barriers.step alongX onePointer (unreleased n)
        (.release anyone 1 [{ deviceid := 2, barrier := n, eventid := 1 }]) =
          some (wallWorld (n + 1), o) := by
      rw [← release_wall]
      exact ⟨_, rfl⟩
    obtain ⟨o, hrelease⟩ := hrelease
    refine ⟨logs ++ [[], o], ?_⟩
    rw [hsplit, Run.exec_append hlogs, Run.exec_cons _ hcreate, Run.exec_cons _ hrelease]
    rfl

theorem across_wall (b : PointerBarrier)
    (hb : b = { x1 := 50, y1 := 0, x2 := 50, y2 := 100, directions := 0 }) :
    b.isBlockingDirection (barrierGetDirection 0 50 90 50) = true ∧
      b.insideHitBox 90 50 = false := by
  subst hb
  decide

theorem crossed_wall (i : Nat) :
    Crossed alongX screen0 2 (barrierGetDirection 0 50 90 50) 0 50 90 50 (wallClient i) where
  scr := rfl
  blocks := rfl
  dir := (across_wall _ rfl).1
  near := ⟨(50 : Nat), rfl, rfl⟩
  outside := (across_wall _ rfl).2
  released := ⟨_, rfl, rfl, fun h => (nomatch h)⟩

def switched (n : Nat) : State :=
  (updateFromMaster integers mouse (.withBarriers (wallWorld n).clients) 5 .pointer).1

theorem positionSprite_walls (n : Nat) :
    ∃ s evs, positionSprite integers mouse alongX (switched n) 5 7 false (crossing.moves 0) =
      some (s, evs) ∧ evs.length = n := by
  obtain ⟨logs, hlogs⟩ := run_walls n
  obtain ⟨w, logs', hexec, hok⟩ := exec_ok alongX onePointer (walls n) worldOk_init
  rw [hlogs] at hexec
  cases hexec
  obtain ⟨r, hr, _⟩ := inputConstrainCursor_spec alongX 5 (some 2) screen0 7 0 50 90 50 hok.ok
    hok.seen
  have hlen : r.events.length = (wallWorld n).clients.length :=
    inputConstrainCursor_crossed (by decide) (fun c hc => by
      obtain ⟨i, _, rfl⟩ := mem_wallWorld hc
      exact crossed_wall i) hr
  refine ⟨{ switched n with barriers := r.clients },
    r.events.map fun ev : Generated => .barrier ev.event, ?_, ?_⟩
  · show (inputConstrainCursor alongX (wallWorld n).clients.length (wallWorld n).clients 5 (some 2)
      screen0 7 0 50 90 50).map _ = _
    rw [hr]
    rfl
  · rw [length_map, hlen]
    simp [wallWorld]

theorem getPointerEvents_walls (n : Nat) :
    ∃ s evs, getPointerEvents integers mouse alongX 0 (.withBarriers (wallWorld n).clients) 5
      crossing = some (s, evs) ∧ evs.length = n + 3 := by
  obtain ⟨s, evs, hpos, hlen⟩ := positionSprite_walls n
  have hfill : fillPointerEvents integers mouse alongX (switched n) 5 .motionNotify 0 7
      pointerRelative (some (ValuatorMask.zero.setDouble 0 (90 : Int))) (crossing.moves 0) =
      some (s, [.raw .motion 5 0 false] ++ evs ++ [.device .motion 5 0 false]) :=
    congrArg (Option.map _) hpos
  refine ⟨s, [.deviceChanged 2 5 .pointer] ++
    ([.raw .motion 5 0 false] ++ evs ++ [.device .motion 5 0 false]) ++ [], ?_, ?_⟩
  · show (fillPointerEvents integers mouse alongX (switched n) 5 .motionNotify 0 7
      pointerRelative (some (ValuatorMask.zero.setDouble 0 (90 : Int)))
      (crossing.moves 0)).bind _ = _
    rw [hfill]
    rfl
  · simp only [length_append, length_singleton, length_nil, hlen]
    omega

end Xfront.Events
