import Xfront.Events.Model
import Xfront.Lib.Run

/-!
# Announced devices

An event of a slave is read with the classes of the device that the last DeviceChanged event of its
master has named.
-/

namespace Xfront.Events

open Barriers List Option

inductive Call (D : Doubles)
  | keyboard (pDev : Nat) (type : KeyboardType) (keyCode : Nat)
  | pointer (pDev fuel : Nat) (call : PointerCall D)
  | proximity (pDev : Nat) (type : ProximityType) (masked : Bool)
  | touch (pDev : Nat) (call : TouchCall D.V)
  | gesture (pDev : Nat) (type : GestureType) (numTouches : Nat) (cancelled : Bool)

variable {D : Doubles}

def Call.dev : Call D → Nat
  | .keyboard pDev _ _ => pDev
  | .pointer pDev _ _ => pDev
  | .proximity pDev _ _ => pDev
  | .touch pDev _ => pDev
  | .gesture pDev _ _ _ => pDev

def Call.kind : Call D → MasterKind
  | .keyboard _ _ _ => .keyboard
  | _ => .pointer

def step (devs : Nat → Device D.V) (g : Geometry) (s : State) : Call D →
    Option (State × List InternalEvent)
  | .keyboard pDev type keyCode => some (getKeyboardEvents D devs s pDev type keyCode)
  | .pointer pDev fuel call => getPointerEvents D devs g fuel s pDev call
  | .proximity pDev type masked => some (getProximityEvents D devs s pDev type masked)
  | .touch pDev call => some (getTouchEvents D devs s pDev call)
  | .gesture pDev type numTouches cancelled =>
    some (getGestureEvents D devs s pDev type numTouches cancelled)

def InternalEvent.user : InternalEvent → Option (Nat × MasterKind)
  | .device .keyPress d _ _ => some (d, .keyboard)
  | .device .keyRelease d _ _ => some (d, .keyboard)
  | .device _ d _ _ => some (d, .pointer)
  | .touch _ d _ _ _ => some (d, .pointer)
  | .gesture _ d _ _ => some (d, .pointer)
  | _ => none

/-- The source that the event names for the master `m`. -/
def InternalEvent.names (m : Nat) : InternalEvent → Option Nat
  | .deviceChanged masterid sourceid _ => if masterid = m then some sourceid else none
  | _ => none

def lastChange (m : Nat) (log : List InternalEvent) : Option Nat :=
  (log.filterMap (InternalEvent.names m)).getLast?

/-- Every event of a slave comes when its master's latest DeviceChanged event names it. -/
def Announced (devs : Nat → Device D.V) (log : List InternalEvent) : Prop :=
  ∀ before e after d kind m, log = before ++ e :: after → e.user = some (d, kind) →
    (devs d).type = .slave → getMaster D devs d kind = some m → lastChange m before = some d

def Call.rejected (devs : Nat → Device D.V) (s : State) : Call D → Bool
  | .keyboard pDev type keyCode =>
    let dev := devs pDev
    let press := type == .keyPress || type == .enterNotify
    dev.enabled && dev.focus && decide (8 ≤ keyCode) && decide (keyCode ≤ 255) &&
      dev.key.any fun modmap => dev.kbdfeed.any fun kbdfeed =>
        refusesRepeat s pDev press modmap kbdfeed keyCode
  | .touch pDev call =>
    let dev := devs pDev
    dev.enabled && dev.valuator.isSome && call.rejected && dev.directTouch.any fun direct =>
      (touchFindByDDXID s pDev call.ddxTouchid (call.type == .touchBegin) direct call.emulates
        call.room).2.isSome
  | .gesture pDev type _ _ =>
    (devs pDev).enabled && (devs pDev).gesture && type.evtype.isNone
  | _ => false

def Call.lost (devs : Nat → Device D.V) (s : State) (call : Call D) : Prop :=
  call.rejected devs s = true ∧ (call.kind = .keyboard ∨ (devs call.dev).type = .slave) ∧
    ∃ m, getMaster D devs call.dev call.kind = some m ∧ s.lastSlave m ≠ some call.dev

section

variable {devs : Nat → Device D.V} {g : Geometry} {s s' s'' : State} {pDev : Nat}
  {kind : MasterKind} {evs rest : List InternalEvent}

def Plain (pDev : Nat) (kind : MasterKind) (evs : List InternalEvent) : Prop :=
  ∀ e ∈ evs, (∀ m, e.names m = none) ∧ ∀ u, e.user = some u → u = (pDev, kind)

theorem Plain.nil : Plain pDev kind [] := fun _ h => (nomatch h)

theorem Plain.append (h : Plain pDev kind evs) (h' : Plain pDev kind rest) :
    Plain pDev kind (evs ++ rest) := fun e he =>
  (mem_append.mp he).elim (h e) (h' e)

theorem plain_raw (type : EventType) (detail : Nat) (emulated : Bool) :
    Plain pDev kind [.raw type pDev detail emulated] := fun e he => by
  rw [mem_singleton.mp he]
  exact ⟨fun _ => rfl, fun u h => (nomatch h)⟩

theorem Plain.singleton {e : InternalEvent} (hn : ∀ m, e.names m = none)
    (hu : e.user = some (pDev, kind)) : Plain pDev kind [e] := fun e' he => by
  rw [mem_singleton.mp he]
  exact ⟨hn, fun u h => by rw [hu] at h; exact (some.inj h).symm⟩

/-- How a call answers: it does nothing, it switches and returns its events, it is not a slave's,
or it loses a switch. -/
inductive Answer (devs : Nat → Device D.V) (s : State) (pDev : Nat) (kind : MasterKind) :
    State → List InternalEvent → Prop
  | quiet (s' : State) : s'.lastSlave = s.lastSlave → Answer devs s pDev kind s' []
  | switched (s' : State) (rest : List InternalEvent) :
    s'.lastSlave = (updateFromMaster D devs s pDev kind).1.lastSlave → Plain pDev kind rest →
    Answer devs s pDev kind s' ((updateFromMaster D devs s pDev kind).2 ++ rest)
  | own (s' : State) (rest : List InternalEvent) : (devs pDev).type ≠ .slave →
    s'.lastSlave = s.lastSlave → Plain pDev kind rest → Answer devs s pDev kind s' rest

theorem updateFromMaster_congr (h : s'.lastSlave = s.lastSlave) :
    (updateFromMaster D devs s' pDev kind).2 = (updateFromMaster D devs s pDev kind).2 ∧
    (updateFromMaster D devs s' pDev kind).1.lastSlave =
      (updateFromMaster D devs s pDev kind).1.lastSlave := by
  unfold updateFromMaster
  split
  next => exact ⟨rfl, h⟩
  next m _ =>
    simp only [h]
    split
    · exact ⟨rfl, rfl⟩
    · exact ⟨rfl, h⟩

theorem updateFromMaster_keeps : (updateFromMaster D devs s pDev kind).1.postdown = s.postdown ∧
    (updateFromMaster D devs s pDev kind).1.touches = s.touches := by
  unfold updateFromMaster
  split
  next => exact ⟨rfl, rfl⟩
  next => split <;> exact ⟨rfl, rfl⟩

theorem updateFromMaster_same (h : ∀ m, getMaster D devs pDev kind = some m →
    s.lastSlave m = some pDev) : (updateFromMaster D devs s pDev kind).1.lastSlave =
      s.lastSlave := by
  unfold updateFromMaster
  split
  next => rfl
  next m hm =>
    rw [if_neg (not_not.mpr (h m hm))]

theorem updateFromMaster_other {m : Nat} (hm : getMaster D devs pDev kind = some m)
    (h : s.lastSlave m ≠ some pDev) :
    (updateFromMaster D devs s pDev kind).1.lastSlave ≠ s.lastSlave ∧
    (updateFromMaster D devs s pDev kind).2 ≠ [] := by
  unfold updateFromMaster
  simp only [hm, if_pos h]
  refine ⟨fun he => h ?_, cons_ne_nil _ _⟩
  have := congrFun he m
  rw [if_pos rfl] at this
  exact this.symm

theorem positionSprite_plain {ms : BitVec 32} {absolute : Bool} {move : SpriteMove}
    (h : positionSprite D devs g s pDev ms absolute move = some (s', evs)) :
    s'.lastSlave = s.lastSlave ∧ Plain pDev kind evs := by
  unfold positionSprite at h
  split at h
  next =>
    cases h
    exact ⟨rfl, .nil⟩
  next =>
    obtain ⟨r, _, he⟩ := map_eq_some_iff.mp h
    cases he
    refine ⟨rfl, fun e he => ?_⟩
    obtain ⟨ev, _, rfl⟩ := List.mem_map.mp he
    exact ⟨fun _ => rfl, fun u hu => (nomatch hu)⟩

variable {type : PointerType} {flags : BitVec 32}

theorem fillPointerEvents_plain {buttons : Nat} {ms : BitVec 32}
    {maskIn : Option (ValuatorMask D.V)} {move : SpriteMove}
    (h : fillPointerEvents D devs g s pDev type buttons ms flags maskIn move = some (s', evs)) :
    s'.lastSlave = s.lastSlave ∧ Plain pDev .pointer evs := by
  unfold fillPointerEvents at h
  split at h
  next =>
    cases h
    exact ⟨rfl, .nil⟩
  next =>
    obtain ⟨⟨u, barriers⟩, hu, he⟩ := map_eq_some_iff.mp h
    cases he
    obtain ⟨hlast, hplain⟩ : _ ∧ Plain pDev .pointer barriers := positionSprite_plain hu
    refine ⟨hlast, (Plain.append ?_ hplain).append ?_⟩
    · split
      · exact plain_raw _ _ _
      · exact .nil
    · split
      · exact .singleton (fun _ => rfl) (by cases type <;> rfl)
      · exact .nil

variable {call : PointerCall D} {b : Nat} {l l' : Scroll D}

theorem fillScroll_plain (h : fillScroll D devs g call pDev b flags type l = some l')
    (hl : Plain pDev .pointer l.events) :
    l'.state.lastSlave = l.state.lastSlave ∧ Plain pDev .pointer l'.events := by
  obtain ⟨⟨u, evs⟩, hu, he⟩ := map_eq_some_iff.mp h
  cases he
  obtain ⟨hlast, hplain⟩ := fillPointerEvents_plain hu
  exact ⟨hlast, hl.append hplain⟩

theorem emulateStep_plain (h : emulateStep D devs g call pDev b flags type l = some l')
    (hl : Plain pDev .pointer l.events) :
    l'.state.lastSlave = l.state.lastSlave ∧ Plain pDev .pointer l'.events := by
  obtain ⟨m, hm, hrest⟩ := bind_eq_some_iff.mp h
  have hfirst : m.state.lastSlave = l.state.lastSlave ∧ Plain pDev .pointer m.events := by
    split at hm
    · exact fillScroll_plain hm hl
    · cases hm
      exact ⟨rfl, hl⟩
  split at hrest
  · have hsecond := fillScroll_plain hrest hfirst.2
    exact ⟨hsecond.1.trans hfirst.1, hsecond.2⟩
  · cases hrest
    exact hfirst

variable {fuel : Nat}

theorem emulateLoop_plain {direction maxEvents : Int} {incr currentVal : D.V}
    (h : emulateLoop D devs g call pDev b flags type direction incr currentVal maxEvents fuel l =
      some l') (hl : Plain pDev .pointer l.events) :
    l'.state.lastSlave = l.state.lastSlave ∧ Plain pDev .pointer l'.events := by
  induction fuel generalizing l with
  | zero =>
    cases h
    exact ⟨rfl, hl⟩
  | succ fuel ih =>
    rw [emulateLoop] at h
    split at h
    next =>
      cases h
      exact ⟨rfl, hl⟩
    next =>
      obtain ⟨m, hm, hrest⟩ := bind_eq_some_iff.mp h
      have hfirst : m.state.lastSlave = l.state.lastSlave ∧ Plain pDev .pointer m.events := by
        split at hm
        · exact emulateStep_plain hm hl
        · cases hm
          exact ⟨rfl, hl⟩
      obtain ⟨hlast, hplain⟩ := ih hrest hfirst.2
      exact ⟨hlast.trans hfirst.1, hplain⟩

theorem emulateScrollButtonEvents_plain {axis fills fills' : Nat} {maxEvents : Int}
    (h : emulateScrollButtonEvents D devs g fuel call s pDev type axis fills maxEvents =
      some (s', fills', evs)) : s'.lastSlave = s.lastSlave ∧ Plain pDev .pointer evs := by
  unfold emulateScrollButtonEvents at h
  split at h
  next =>
    cases h
    exact ⟨rfl, .nil⟩
  next v _ =>
    by_cases hnone : (decide ((v.axes axis).scrollType = .none) ||
        D.eq (v.axes axis).increment (D.ofInt 0)) = true
    · rw [if_pos hnone] at h
      cases h
      exact ⟨rfl, .nil⟩
    · rw [if_neg hnone] at h
      obtain ⟨l, hl, he⟩ := map_eq_some_iff.mp h
      cases he
      exact emulateLoop_plain hl .nil

theorem emulateAxes_plain {fills : Nat}
    {mask : ValuatorMask D.V} {axes : List Nat} {events : List InternalEvent}
    (h : emulateAxes D devs g fuel call pDev type mask axes s fills events = some (s', evs)) :
    ∃ rest, evs = events ++ rest ∧ s'.lastSlave = s.lastSlave ∧ Plain pDev .pointer rest := by
  induction axes generalizing s fills events with
  | nil =>
    cases h
    exact ⟨[], (append_nil _).symm, rfl, .nil⟩
  | cons axis axes ih =>
    rw [emulateAxes] at h
    split at h
    next => exact ih h
    next =>
      obtain ⟨⟨u, fills', es⟩, hu, hrest⟩ := bind_eq_some_iff.mp h
      obtain ⟨hlast, hplain⟩ := emulateScrollButtonEvents_plain hu
      obtain ⟨rest, he, hlast', hplain'⟩ := ih hrest
      exact ⟨es ++ rest, by rw [he, append_assoc], hlast'.trans hlast, hplain.append hplain'⟩

theorem getPointerEvents_answer (h : getPointerEvents D devs g fuel s pDev call = some (s', evs)) :
    Answer devs s pDev .pointer s' evs := by
  unfold getPointerEvents at h
  simp only at h
  split at h
  next =>
    cases h
    exact .quiet s rfl
  next =>
    split at h
    next =>
      cases h
      exact .quiet s rfl
    next =>
      split at h
      next =>
        cases h
        exact .quiet s rfl
      next =>
        obtain ⟨⟨u, es⟩, hu, hrest⟩ := bind_eq_some_iff.mp h
        obtain ⟨hlast, hplain⟩ := fillPointerEvents_plain hu
        obtain ⟨rest, rfl, hlast', hplain'⟩ := emulateAxes_plain hrest
        rw [append_assoc]
        exact .switched s' (es ++ rest) (hlast'.trans hlast) (hplain.append hplain')

theorem refusesRepeat_switch {press : Bool} {modmap : Nat → BitVec 8} {kbdfeed : KbdFeedback}
    {keyCode : Nat} :
    refusesRepeat (updateFromMaster D devs s pDev kind).1 pDev press modmap kbdfeed keyCode =
      refusesRepeat s pDev press modmap kbdfeed keyCode := by
  rw [refusesRepeat, updateFromMaster_keeps.1, refusesRepeat]

def Settled (devs : Nat → Device D.V) (s : State) (call : Call D) (s' : State)
    (evs : List InternalEvent) : Prop :=
  if call.rejected devs s then
    evs = [] ∧ s'.lastSlave = if call.kind = .keyboard ∨ (devs call.dev).type = .slave then
        (updateFromMaster D devs s call.dev call.kind).1.lastSlave
      else s.lastSlave
  else Answer devs s call.dev call.kind s' evs

theorem getKeyboardEvents_settled (s : State) (pDev : Nat) (type : KeyboardType) (keyCode : Nat) :
    Settled devs s (.keyboard pDev type keyCode) (getKeyboardEvents D devs s pDev type keyCode).1
      (getKeyboardEvents D devs s pDev type keyCode).2 := by
  have hquiet : (Call.keyboard (D := D) pDev type keyCode).rejected devs s = false →
      Settled devs s (.keyboard pDev type keyCode) s [] := fun hr => by
    rw [Settled, hr]
    exact .quiet s rfl
  unfold getKeyboardEvents
  simp only
  by_cases henabled : (devs pDev).enabled = true
  · rw [henabled]
    simp only [Bool.not_true, Bool.false_eq_true, if_false]
    cases hkey : (devs pDev).key with
    | none => exact hquiet (by simp [Call.rejected, hkey])
    | some modmap =>
      cases hfeed : (devs pDev).kbdfeed with
      | none => exact hquiet (by simp [Call.rejected, hkey, hfeed])
      | some kbdfeed =>
        simp only
        by_cases hargs : (!(devs pDev).focus ||
            (!(type == .keyPress || type == .enterNotify) &&
              !(type == .keyRelease || type == .leaveNotify)) ||
            decide (keyCode < 8) || decide (keyCode > 255)) = true
        · rw [if_pos hargs]
          refine hquiet ?_
          by_contra hr
          simp only [Call.rejected, hkey, hfeed, refusesRepeat, any_some, Bool.not_eq_false,
            Bool.and_eq_true, decide_eq_true_eq, Bool.or_eq_true] at hr
          simp only [Bool.or_eq_true, Bool.and_eq_true, Bool.not_eq_true', Bool.or_eq_false_iff,
            decide_eq_true_eq] at hargs
          obtain ⟨⟨⟨⟨_, hfocus⟩, hlow⟩, hhigh⟩, ⟨hpress, _⟩, _⟩ := hr
          rcases hargs with ((hf | hf) | hf) | hf
          · rw [hfocus] at hf
            cases hf
          · rcases hpress with hp | hp
            · rw [hf.1.1] at hp
              cases hp
            · rw [hf.1.2] at hp
              cases hp
          · omega
          · omega
        · rw [if_neg hargs, refusesRepeat_switch]
          simp only [Bool.or_eq_true, not_or, decide_eq_true_eq] at hargs
          have hrejected : (Call.keyboard (D := D) pDev type keyCode).rejected devs s =
              refusesRepeat s pDev (type == .keyPress || type == .enterNotify) modmap kbdfeed
                keyCode := by
            obtain ⟨⟨⟨hf, _⟩, hlow⟩, hhigh⟩ := hargs
            have hf : (devs pDev).focus = true := by simpa using hf
            simp [Call.rejected, hkey, hfeed, henabled, hf]
            omega
          by_cases hrefuse : refusesRepeat s pDev (type == .keyPress || type == .enterNotify)
              modmap kbdfeed keyCode = true
          · rw [if_pos hrefuse, Settled, hrejected, hrefuse]
            exact ⟨rfl, by rw [if_pos (.inl rfl)]; rfl⟩
          · rw [if_neg hrefuse, Settled, hrejected, if_neg hrefuse, append_assoc]
            refine .switched _ _ rfl (Plain.append ?_ ?_)
            · split
              · exact .nil
              · exact plain_raw _ _ _
            · split
              · exact .singleton (fun _ => rfl) rfl
              · exact .singleton (fun _ => rfl) rfl
  · rw [Bool.not_eq_true] at henabled
    rw [henabled]
    exact hquiet (by simp [Call.rejected, henabled])

theorem getProximityEvents_settled (s : State) (pDev : Nat) (type : ProximityType) (masked : Bool) :
    Settled devs s (.proximity pDev type masked) (getProximityEvents D devs s pDev type masked).1
      (getProximityEvents D devs s pDev type masked).2 := by
  show Answer devs s pDev .pointer _ _
  unfold getProximityEvents
  simp only
  split
  next => exact .quiet s rfl
  next =>
    split
    next => exact .quiet s rfl
    next =>
      split
      next => exact .quiet s rfl
      next =>
        refine .switched _ _ rfl (.singleton (fun _ => rfl) ?_)
        split <;> rfl

theorem touchBeginDDXTouch_last {ddxId : BitVec 32} {direct emulates room : Bool} :
    (touchBeginDDXTouch s pDev ddxId direct emulates room).1.lastSlave = s.lastSlave := by
  unfold touchBeginDDXTouch
  simp only
  split <;> rfl

theorem touchFindByDDXID_last (s : State) (pDev : Nat) (ddxId : BitVec 32)
    (create direct emulates room : Bool) :
    (touchFindByDDXID s pDev ddxId create direct emulates room).1.lastSlave = s.lastSlave := by
  unfold touchFindByDDXID
  split
  next => rfl
  next =>
    split
    · exact touchBeginDDXTouch_last
    · rfl

theorem getTouchEvents_settled (s : State) (pDev : Nat) (call : TouchCall D.V) :
    Settled devs s (.touch pDev call) (getTouchEvents D devs s pDev call).1
      (getTouchEvents D devs s pDev call).2 := by
  unfold Settled getTouchEvents
  simp only [Call.rejected, Call.kind, Call.dev, reduceCtorEq, false_or]
  by_cases hready : (!(devs pDev).enabled || (devs pDev).valuator.isNone) = true
  · rw [if_pos hready, if_neg]
    · exact .quiet s rfl
    · intro hr
      rw [Bool.or_eq_true, Bool.not_eq_true', isNone_iff_eq_none] at hready
      rcases hready with he | he <;> simp [he] at hr
  · rw [if_neg hready]
    rw [Bool.or_eq_true, not_or, Bool.not_eq_true', Bool.not_eq_false, isNone_iff_eq_none,
      ← ne_eq, ← isSome_iff_ne_none] at hready
    rw [hready.1, hready.2]
    cases htouch : (devs pDev).directTouch with
    | none =>
      rw [any_none, Bool.and_false]
      exact .quiet s rfl
    | some direct =>
      rw [any_some]
      have hlast := touchFindByDDXID_last s pDev call.ddxTouchid (call.type == .touchBegin) direct
        call.emulates call.room
      simp only
      rcases hfind : touchFindByDDXID s pDev call.ddxTouchid (call.type == .touchBegin) direct
          call.emulates call.room with ⟨u, ti⟩
      rw [hfind] at hlast
      cases ti with
      | none =>
        rw [isSome_none, Bool.and_false]
        exact .quiet u hlast
      | some ti =>
        rw [isSome_some]
        have hsw : (updateFromMaster D devs u pDev .pointer).2 =
            (updateFromMaster D devs s pDev .pointer).2 ∧ _ := updateFromMaster_congr hlast
        cases hr : call.rejected with
        | true =>
          simp only [Bool.true_and, if_true]
          refine ⟨trivial, ?_⟩
          unfold inputDevIsMaster
          by_cases hslave : (devs pDev).type = .slave
          · simpa [hslave] using hsw.2
          · simpa [hslave] using hlast
        | false =>
          simp only [Bool.and_false, Bool.false_and, Bool.false_eq_true, if_false]
          by_cases hslave : (devs pDev).type = .slave
          · have hm : inputDevIsMaster D devs pDev = false := by simp [inputDevIsMaster, hslave]
            rw [hm]
            simp only [Bool.false_eq_true, if_false]
            rw [hsw.1]
            refine .switched _ _ ?_ ((plain_raw _ _ _).append (.singleton (fun _ => rfl) rfl))
            split <;> exact hsw.2
          · have hm : inputDevIsMaster D devs pDev = true := by simp [inputDevIsMaster, hslave]
            rw [hm]
            simp only [if_true]
            refine .own _ _ hslave ?_ ((plain_raw _ _ _).append (.singleton (fun _ => rfl) rfl))
            split <;> exact hlast

theorem getGestureEvents_settled (s : State) (pDev : Nat) (type : GestureType)
    (numTouches : Nat) (cancelled : Bool) : Settled devs s (.gesture pDev type numTouches cancelled)
      (getGestureEvents D devs s pDev type numTouches cancelled).1
      (getGestureEvents D devs s pDev type numTouches cancelled).2 := by
  unfold Settled getGestureEvents
  simp only [Call.rejected, Call.kind, Call.dev, reduceCtorEq, false_or]
  by_cases hready : (!(devs pDev).enabled || !(devs pDev).gesture) = true
  · rw [if_pos hready, if_neg]
    · exact .quiet s rfl
    · intro hr
      rw [Bool.or_eq_true, Bool.not_eq_true', Bool.not_eq_true'] at hready
      rcases hready with he | he <;> simp [he] at hr
  · rw [if_neg hready]
    rw [Bool.or_eq_true, not_or, Bool.not_eq_true', Bool.not_eq_true', Bool.not_eq_false,
      Bool.not_eq_false] at hready
    rw [hready.1, hready.2]
    cases htype : type.evtype with
    | none =>
      refine ⟨rfl, ?_⟩
      unfold inputDevIsMaster
      by_cases hslave : (devs pDev).type = .slave <;> simp [hslave]
    | some evtype =>
      simp only [isNone_some, Bool.and_false, Bool.false_eq_true, if_false]
      by_cases hslave : (devs pDev).type = .slave
      · have hm : inputDevIsMaster D devs pDev = false := by simp [inputDevIsMaster, hslave]
        rw [hm]
        simp only [Bool.false_eq_true, if_false]
        exact .switched _ _ rfl (.singleton (fun _ => rfl) rfl)
      · have hm : inputDevIsMaster D devs pDev = true := by simp [inputDevIsMaster, hslave]
        rw [hm]
        simp only [if_true]
        exact .own _ _ hslave rfl (.singleton (fun _ => rfl) rfl)

theorem step_settled {call : Call D} (h : step devs g s call = some (s', evs)) :
    Settled devs s call s' evs := by
  cases call with
  | keyboard pDev type keyCode =>
    have hs : Settled devs s _ _ _ := getKeyboardEvents_settled s pDev type keyCode
    rw [some.inj h] at hs
    exact hs
  | pointer pDev fuel call => exact getPointerEvents_answer h
  | proximity pDev type masked =>
    have hs : Settled devs s _ _ _ := getProximityEvents_settled s pDev type masked
    rw [some.inj h] at hs
    exact hs
  | touch pDev call =>
    have hs : Settled devs s _ _ _ := getTouchEvents_settled s pDev call
    rw [some.inj h] at hs
    exact hs
  | gesture pDev type numTouches cancelled =>
    have hs : Settled devs s _ _ _ := getGestureEvents_settled s pDev type numTouches cancelled
    rw [some.inj h] at hs
    exact hs

theorem lost_iff {call : Call D} (h : step devs g s call = some (s', evs)) :
    (evs = [] ∧ s'.lastSlave ≠ s.lastSlave) ↔ call.lost devs s := by
  have hsettled := step_settled h
  unfold Settled at hsettled
  cases hr : call.rejected devs s with
  | true =>
    rw [hr, if_pos rfl] at hsettled
    obtain ⟨rfl, hlast⟩ := hsettled
    rw [hlast]
    constructor
    · rintro ⟨_, hne⟩
      by_cases hkind : call.kind = .keyboard ∨ (devs call.dev).type = .slave
      · rw [if_pos hkind] at hne
        refine ⟨hr, hkind, ?_⟩
        by_contra hall
        refine hne (updateFromMaster_same fun m hm => ?_)
        by_contra hsome
        exact hall ⟨m, hm, hsome⟩
      · rw [if_neg hkind] at hne
        exact absurd rfl hne
    · rintro ⟨_, hkind, m, hm, hne⟩
      rw [if_pos hkind]
      exact ⟨rfl, (updateFromMaster_other hm hne).1⟩
  | false =>
    rw [hr] at hsettled
    simp only [Bool.false_eq_true, if_false] at hsettled
    constructor
    · rintro ⟨hnil, hne⟩
      exfalso
      cases hsettled with
      | quiet hlast | own _ _ hlast _ => exact hne hlast
      | switched rest hlast _ =>
        rw [append_eq_nil_iff] at hnil
        refine hne (hlast.trans (updateFromMaster_same fun m hm => ?_))
        by_contra hsome
        exact (updateFromMaster_other hm hsome).2 hnil.1
    · rintro ⟨hr', _⟩
      rw [hr] at hr'
      cases hr'

theorem step_answer {call : Call D} (h : step devs g s call = some (s', evs))
    (hl : ¬ call.lost devs s) : Answer devs s call.dev call.kind s' evs := by
  have hsettled := step_settled h
  unfold Settled at hsettled
  split at hsettled
  next =>
    obtain ⟨rfl, _⟩ := hsettled
    refine .quiet s' ?_
    by_contra hne
    exact hl ((lost_iff h).mp ⟨rfl, hne⟩)
  next => exact hsettled

theorem lastChange_plain (m : Nat) (log : List InternalEvent) (h : Plain pDev kind evs) :
    lastChange m (log ++ evs) = lastChange m log := by
  have hnil : evs.filterMap (InternalEvent.names m) = [] :=
    filterMap_eq_nil_iff.mpr fun e he => (h e he).1 m
  rw [lastChange, filterMap_append, hnil, append_nil, lastChange]

def Agree (s : State) (log : List InternalEvent) : Prop :=
  ∀ m, lastChange m log = s.lastSlave m

variable {log : List InternalEvent}

theorem Agree.switch (devs : Nat → Device D.V) (pDev : Nat) (kind : MasterKind) (h : Agree s log) :
    Agree (updateFromMaster D devs s pDev kind).1
      (log ++ (updateFromMaster D devs s pDev kind).2) := by
  unfold updateFromMaster
  split
  next =>
    rw [append_nil]
    exact h
  next master _ =>
    split
    next =>
      intro m
      rw [lastChange, filterMap_append]
      by_cases hm : m = master
      · subst hm
        simp [InternalEvent.names]
      · have hnil : [InternalEvent.deviceChanged master pDev kind].filterMap
            (InternalEvent.names m) = [] := by
          simp [InternalEvent.names, Ne.symm hm]
        rw [hnil, append_nil]
        simp only [if_neg hm]
        exact h m
    next =>
      rw [append_nil]
      exact h

theorem updateFromMaster_last {m : Nat} (hm : getMaster D devs pDev kind = some m) :
    (updateFromMaster D devs s pDev kind).1.lastSlave m = some pDev := by
  unfold updateFromMaster
  simp only [hm]
  split
  next => exact if_pos rfl
  next h => exact not_not.mp h

theorem announced_append (h : Announced devs log)
    (hnew : ∀ before e after d kind m, evs = before ++ e :: after → e.user = some (d, kind) →
      (devs d).type = .slave → getMaster D devs d kind = some m →
      lastChange m (log ++ before) = some d) : Announced devs (log ++ evs) := by
  intro before e after d kind m hsplit hu hslave hm
  rcases append_eq_append_iff.mp hsplit with ⟨as, hb, he⟩ | ⟨cs, hlog, hc⟩
  · rw [hb]
    exact hnew as e after d kind m he hu hslave hm
  · cases cs with
    | nil =>
      rw [append_nil] at hlog
      have := hnew [] e after d kind m hc.symm hu hslave hm
      rw [append_nil, hlog] at this
      exact this
    | cons c cs =>
      rw [cons_append, cons.injEq] at hc
      obtain ⟨rfl, _⟩ := hc
      exact h before e cs d kind m hlog hu hslave hm

theorem announced_append_unread (h : Announced devs log)
    (hu : ∀ e ∈ evs, e.user = none) : Announced devs (log ++ evs) := by
  refine announced_append h fun before e after d kind m hsplit hd _ _ => ?_
  rw [hu e (by rw [hsplit]; exact mem_append_right _ mem_cons_self)] at hd
  cases hd

theorem announced_append_plain (h : Announced devs log) (hp : Plain pDev kind evs)
    (hlast : ∀ m, (devs pDev).type = .slave → getMaster D devs pDev kind = some m →
      lastChange m log = some pDev) : Announced devs (log ++ evs) := by
  refine announced_append h fun before e after d kind' m hsplit hd hslave hm => ?_
  have he : e ∈ evs := by
    rw [hsplit]
    exact mem_append_right _ mem_cons_self
  cases (hp e he).2 _ hd
  have hbefore : Plain pDev kind before := fun e' he' => hp e' (by
    rw [hsplit]
    exact mem_append_left _ he')
  rw [lastChange_plain m log hbefore]
  exact hlast m hslave hm

theorem updateFromMaster_unread : ∀ e ∈ (updateFromMaster D devs s pDev kind).2, e.user = none := by
  intro e he
  unfold updateFromMaster at he
  split at he
  next => cases he
  next =>
    split at he
    next =>
      rw [mem_singleton.mp he]
      rfl
    next => cases he

theorem Answer.keeps (h : Answer devs s pDev kind s' evs)
    (ha : Agree s log) (hd : Announced devs log) :
    Agree s' (log ++ evs) ∧ Announced devs (log ++ evs) := by
  cases h with
  | quiet hlast =>
    rw [append_nil]
    exact ⟨fun m => by rw [hlast]; exact ha m, hd⟩
  | switched rest hlast hplain =>
    have hswitch := ha.switch devs pDev kind
    rw [← append_assoc]
    refine ⟨fun m => ?_, ?_⟩
    · rw [lastChange_plain m _ hplain, hlast]
      exact hswitch m
    · refine announced_append_plain (announced_append_unread hd updateFromMaster_unread) hplain
        fun m _ hm => ?_
      rw [hswitch m]
      exact updateFromMaster_last hm
  | own _ hmaster hlast hplain =>
    refine ⟨fun m => ?_, announced_append_plain hd hplain fun _ hslave => absurd hslave hmaster⟩
    rw [lastChange_plain m _ hplain, hlast]
    exact ha m

theorem exec_announced {calls : List (Call D)}
    {logs : List (List InternalEvent)} (ha : Agree s log) (hd : Announced devs log)
    (hg : Run.Guarded (step devs g) (fun s call => ¬ call.lost devs s) s calls)
    (h : Run.exec (step devs g) s calls = some (s', logs)) :
    Announced devs (log ++ logs.flatten) := by
  induction calls generalizing s log logs with
  | nil =>
    cases h
    rw [flatten_nil, append_nil]
    exact hd
  | cons call calls ih =>
    obtain ⟨⟨u, evs⟩, hu, hrest⟩ := bind_eq_some_iff.mp h
    obtain ⟨⟨u', logs'⟩, hexec, he⟩ := map_eq_some_iff.mp hrest
    cases he
    obtain ⟨ha', hd'⟩ := (step_answer hu hg.1).keeps ha hd
    rw [flatten_cons, ← append_assoc]
    exact ih ha' hd' (hg.2 u evs hu) hexec

/-- In a run without lost calls every event is announced, and a call is lost exactly when it
records a switch without returning an event. -/
theorem announced_run (devs : Nat → Device D.V) (g : Geometry) :
    (∀ s call s' evs, step devs g s call = some (s', evs) →
      ((evs = [] ∧ s'.lastSlave ≠ s.lastSlave) ↔ call.lost devs s)) ∧
    ∀ s calls s' logs, s.lastSlave = (fun _ => none) →
      Run.Guarded (step devs g) (fun s call => ¬ call.lost devs s) s calls →
      Run.exec (step devs g) s calls = some (s', logs) → Announced devs logs.flatten := by
  refine ⟨fun s call s' evs h => lost_iff h, fun s calls s' logs hs hg h => ?_⟩
  have ha : Agree s [] := fun m => by
    rw [hs]
    rfl
  have hd : Announced devs ([] : List InternalEvent) := fun before e after d kind m hsplit => by
    cases before <;> cases hsplit
  exact exec_announced ha hd hg h

end

def integers : Doubles where
  V := Int
  ofInt := id
  add := fun a b => a + b
  sub := fun a b => a - b
  mul := fun a b => a * b
  lt := fun a b => decide (a < b)
  eq := fun a b => a == b

def keyboardDevice : Device Int where
  type := .slave
  master := some 2
  paired := none
  enabled := true
  key := some fun k => if k = 50 then 1 else 0
  focus := true
  kbdfeed := some { autoRepeat := true, autoRepeats := fun _ => true }
  button := false
  valuator := none
  proximity := false
  directTouch := none
  gesture := false

def twoKeyboards (dev : Nat) : Device Int :=
  if dev = 2 then { keyboardDevice with type := .masterKeyboard, master := none }
  else keyboardDevice

def noBarrier : Geometry where
  Distance := Nat
  greater := fun a b => decide (a > b)
  intMax := 2147483647
  barrierIsBlocking := fun _ _ _ _ _ => none

def State.init : State where
  lastSlave := fun _ => none
  postdown := fun _ _ => false
  touches := fun _ => []
  nextClientId := 1
  barriers := []

/-- A modifier key of keyboard 3 is held and reported again after a key of keyboard 4. -/
def heldModifier : List (Call integers) :=
  [.keyboard 3 .keyPress 50, .keyboard 4 .keyPress 38, .keyboard 3 .keyPress 50,
    .keyboard 3 .keyPress 39]

theorem announced_run_typed : Announced (D := integers) twoKeyboards
    [.deviceChanged 2 3 .keyboard, .raw .keyPress 3 50 false, .device .keyPress 3 50 false,
      .deviceChanged 2 4 .keyboard, .raw .keyPress 4 38 false, .device .keyPress 4 38 false] := by
  refine (announced_run (D := integers) twoKeyboards noBarrier).2 State.init
    [.keyboard 3 .keyPress 50, .keyboard 4 .keyPress 38] _ _ rfl ⟨?_, fun u o hu => ?_⟩
    (rfl : _ = some (_, [[_, _, _], [_, _, _]]))
  · rintro ⟨hr, _⟩
    cases hr
  · cases hu
    refine ⟨?_, fun _ _ _ => trivial⟩
    rintro ⟨hr, _⟩
    cases hr

/-- The last event is read with the classes of keyboard 4. -/
theorem heldModifier_unannounced : ∃ s logs,
    Run.exec (step twoKeyboards noBarrier) State.init heldModifier = some (s, logs) ∧
    ¬ Announced (D := integers) twoKeyboards logs.flatten := by
  refine ⟨_, _, rfl, fun h => ?_⟩
  have hlast := h [.deviceChanged 2 3 .keyboard, .raw .keyPress 3 50 false,
    .device .keyPress 3 50 false, .deviceChanged 2 4 .keyboard, .raw .keyPress 4 38 false,
    .device .keyPress 4 38 false, .raw .keyPress 3 39 false] (.device .keyPress 3 39 false) [] 3
    .keyboard 2 rfl rfl rfl rfl
  cases hlast

end Xfront.Events
