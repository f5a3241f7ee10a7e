import Xfront.Lib.Rings

/-!
# Timers

The timer list of `os/WaitFor.c`. Timers are numbered as they are allocated and the
clock counts milliseconds without wrapping; the code sees its low 32 bits. Callbacks
call back into the list, so the calls under way are kept on a stack: a callback that
`DoTimer` made, the old callback of a `TimerSet` that was told to force it, and a pass
of `DoTimers`.
-/

namespace Xfront.Timers

structure OsTimer where
  expires : BitVec 32
  delta : BitVec 32
  callback : Nat
  arg : Nat

/-- A call of `TimerSet` on a timer that is there already. -/
structure Setting where
  timer : Nat
  absolute : Bool
  millis : BitVec 32
  func : Nat
  arg : Nat
  deriving DecidableEq

inductive Frame where
  | doTimer (timer : Nat)
  | forced (set : Setting) (now : Nat)
  | doTimers (now : Nat)
  deriving DecidableEq

structure State where
  clock : Nat
  timers : Nat → OsTimer
  allocated : Nat
  list : Ring Nat
  stack : List Frame

def State.start (clock : Nat) : State :=
  { clock
    timers := fun _ => ⟨0, 0, 0, 0⟩
    allocated := 0
    list := Ring.empty
    stack := [] }

/-- Why a callback is called: a pass of `DoTimers` found it due, `TimerSet` found it
due at once, or it was forced. -/
inductive Cause where
  | loop
  | ready
  | forced
  deriving DecidableEq

inductive Event where
  | armed (timer : Nat) (due : Int)
  | disarmed (timer : Nat)
  | called (timer : Nat) (callback arg : Nat) (clock : Nat) (cause : Cause)
  | passStart (now : Nat)
  | passEnd
  deriving DecidableEq

def getTimeInMillis (s : State) : BitVec 32 := BitVec.ofNat 32 s.clock

def instant (clock : Nat) (millis : BitVec 32) : Int :=
  clock + (millis - BitVec.ofNat 32 clock).toInt

def timerPending (s : State) (timer : Nat) : Bool := !s.list.isEmpty (some timer)

def doTimer (s : State) (timer : Nat) (cause : Cause) : State × List Event :=
  let t := s.timers timer
  ({ s with
      list := s.list.del (some timer)
      stack := .doTimer timer :: s.stack },
    [.called timer t.callback t.arg s.clock cause])

def Setting.expires (set : Setting) (now : BitVec 32) : BitVec 32 :=
  if set.absolute then set.millis else set.millis + now

def Setting.delta (set : Setting) (now : BitVec 32) : BitVec 32 :=
  if set.absolute then set.millis - now else set.millis

def writeTimer (s : State) (set : Setting) (now : BitVec 32) : State :=
  { s with
    timers := Function.update s.timers set.timer
      { expires := set.expires now
        delta := set.delta now
        callback := set.func
        arg := set.arg } }

/-- The part of `TimerSet` after the timer was taken out of the list. -/
def arm (s : State) (set : Setting) (now : BitVec 32) : Option (State × List Event) :=
  if set.millis = 0 then some (s, [])
  else
    let millis := set.expires now
    let written := writeTimer s set now
    (s.list.findFrom (fun existing => decide (0 < ((written.timers existing).expires - millis).toInt))
      s.allocated (s.list.next none)).map fun existing =>
      let sorted := { written with list := s.list.append (some set.timer) existing }
      let armed := Event.armed set.timer (instant s.clock millis)
      if (millis - now).toInt ≤ 0 then
        let called := doTimer sorted set.timer .ready
        (called.1, armed :: called.2)
      else (sorted, [armed])

def timerSet (s : State) (set : Setting) (forceOld : Bool) : Option (State × List Event) :=
  if timerPending s set.timer then
    let out := { s with list := s.list.del (some set.timer) }
    if forceOld then
      let t := s.timers set.timer
      some ({ out with stack := .forced set s.clock :: s.stack },
        [.called set.timer t.callback t.arg s.clock .forced])
    else (arm out set (getTimeInMillis s)).map fun (s', es) => (s', .disarmed set.timer :: es)
  else arm s set (getTimeInMillis s)

def timerSetNew (s : State) (absolute : Bool) (millis : BitVec 32) (func arg : Nat) :
    Option (State × List Event) :=
  let timer := s.allocated
  let made := { s with
    allocated := s.allocated + 1
    list := s.list.init (some timer) }
  arm made ⟨timer, absolute, millis, func, arg⟩ (getTimeInMillis s)

def timerForce (s : State) (timer : Nat) : State × List Event :=
  if timerPending s timer then doTimer s timer .forced else (s, [])

def timerCancel (s : State) (timer : Nat) : State × List Event :=
  ({ s with list := s.list.del (some timer) }, [.disarmed timer])

/-- Goes on with the innermost call, if that is a pass of `DoTimers`: it calls the next
timer that is due or ends. -/
def doTimersLoop (s : State) : State × List Event :=
  match s.stack with
  | .doTimers now :: stack =>
    match s.list.next none with
    | none => ({ s with stack := stack }, [.passEnd])
    | some timer =>
      if 0 < ((s.timers timer).expires - BitVec.ofNat 32 now).toInt then
        ({ s with stack := stack }, [.passEnd])
      else doTimer s timer .loop
  | _ => (s, [])

def doTimers (s : State) (now : Nat) : State × List Event :=
  let (s', es) := doTimersLoop { s with stack := .doTimers now :: s.stack }
  (s', .passStart now :: es)

/-- The callback of the innermost call returns. `DoTimer` sets its timer again when it
returned a time; `TimerSet` drops what the callback it forced returned. -/
def callbackReturns (s : State) (newTime : BitVec 32) : Option (State × List Event) :=
  let resumed : Option (State × List Event) :=
    match s.stack with
    | .doTimer timer :: stack =>
      let s := { s with stack := stack }
      let t := s.timers timer
      if newTime = 0 then some (s, [])
      else timerSet s ⟨timer, false, newTime, t.callback, t.arg⟩ false
    | .forced set now :: stack => arm { s with stack := stack } set (BitVec.ofNat 32 now)
    | _ => none
  resumed.map fun (s, es) =>
    let (s', es') := doTimersLoop s
    (s', es ++ es')

inductive Action where
  | advance (millis : Nat)
  | setNew (absolute : Bool) (millis : BitVec 32) (func arg : Nat)
  | set (set : Setting) (forceOld : Bool)
  | force (timer : Nat)
  | cancel (timer : Nat)
  | doTimers (now : Nat)
  | callbackReturns (newTime : BitVec 32)

def step (s : State) : Action → Option (State × List Event)
  | .advance millis => some ({ s with clock := s.clock + millis }, [])
  | .setNew absolute millis func arg => timerSetNew s absolute millis func arg
  | .set set forceOld => timerSet s set forceOld
  | .force timer => some (timerForce s timer)
  | .cancel timer => some (timerCancel s timer)
  | .doTimers now => some (doTimers s now)
  | .callbackReturns newTime => callbackReturns s newTime

end Xfront.Timers

/-!
## What timers are for

The timers that are set, with the instants they are due, in the order of these. The
watch reads what a run shows and stops at what timers do not do: a callback for a
timer that is not set, a callback that is early and was not forced, and a pass of
`DoTimers` that calls out of order, calls more often than timers were due when it
began, or ends with a timer still due.
-/

namespace Xfront.Timers

/-- A pass under way: the instant of its last call and how many it may still make. -/
structure Pass where
  now : Nat
  last : Option Int
  left : Nat

structure Watch where
  armed : List (Nat × Int)
  passes : List Pass

def Watch.start : Watch := ⟨[], []⟩

def without (timer : Nat) (armed : List (Nat × Int)) : List (Nat × Int) :=
  armed.filter (·.1 ≠ timer)

def insertDue (timer : Nat) (due : Int) (armed : List (Nat × Int)) : List (Nat × Int) :=
  armed.takeWhile (·.2 ≤ due) ++ (timer, due) :: armed.dropWhile (·.2 ≤ due)

def dueBy (now : Nat) (armed : List (Nat × Int)) : Nat := armed.countP fun x => decide (x.2 ≤ (now : Int))

def Pass.call (p : Pass) (due : Int) : Option Pass :=
  if due ≤ p.now ∧ (∀ d ∈ p.last, d ≤ due) ∧ 0 < p.left then
    some { p with last := some due, left := p.left - 1 }
  else none

def Watch.call (w : Watch) (timer : Nat) (due : Int) (clock : Nat) : Cause → Option Watch
  | .forced => some { w with armed := without timer w.armed }
  | .ready => if due ≤ clock then some { w with armed := without timer w.armed } else none
  | .loop =>
    match w.passes with
    | [] => none
    | p :: ps =>
      if due ≤ clock then
        (p.call due).map fun p' => { armed := without timer w.armed, passes := p' :: ps }
      else none

def watch (w : Watch) : Event → Option Watch
  | .armed timer due => some { w with armed := insertDue timer due (without timer w.armed) }
  | .disarmed timer => some { w with armed := without timer w.armed }
  | .called timer _ _ clock cause =>
    (w.armed.find? (·.1 = timer)).bind fun x => w.call timer x.2 clock cause
  | .passStart now => some { w with passes := ⟨now, none, dueBy now w.armed⟩ :: w.passes }
  | .passEnd =>
    match w.passes with
    | [] => none
    | p :: ps => if ∀ x ∈ w.armed, (p.now : Int) < x.2 then some { w with passes := ps } else none

section

variable {armed : List (Nat × Int)} {timer : Nat} {due : Int}

def Sorted (armed : List (Nat × Int)) : Prop := armed.Pairwise (·.2 ≤ ·.2)

theorem without_of_not_mem (h : timer ∉ armed.map Prod.fst) : without timer armed = armed :=
  List.filter_eq_self.mpr fun x hx => decide_eq_true fun he => h (List.mem_map.mpr ⟨x, hx, he⟩)

theorem without_map_fst : (without timer armed).map Prod.fst =
    (armed.map Prod.fst).filter (· ≠ timer) := by
  rw [List.filter_map]
  rfl

theorem mem_without {x : Nat × Int} : x ∈ without timer armed ↔ x ∈ armed ∧ x.1 ≠ timer := by
  rw [without, List.mem_filter, decide_eq_true_iff]

theorem Sorted.without (h : Sorted armed) : Sorted (without timer armed) :=
  List.Pairwise.sublist List.filter_sublist h

theorem insertDue_perm : (insertDue timer due armed).Perm ((timer, due) :: armed) := by
  refine List.perm_middle.trans (List.Perm.cons _ ?_)
  rw [List.takeWhile_append_dropWhile]

theorem mem_insertDue {x : Nat × Int} :
    x ∈ insertDue timer due armed ↔ x = (timer, due) ∨ x ∈ armed := by
  rw [insertDue_perm.mem_iff, List.mem_cons]

theorem Sorted.lt_of_dropWhile (h : Sorted armed) :
    ∀ x ∈ armed.dropWhile (·.2 ≤ due), due < x.2 := by
  induction armed with
  | nil => exact fun _ hx => nomatch hx
  | cons y armed ih =>
    obtain ⟨hy, hrest⟩ := List.pairwise_cons.mp h
    by_cases hd : y.2 ≤ due
    · rw [List.dropWhile_cons_of_pos (by simpa using hd)]
      exact ih hrest
    · rw [List.dropWhile_cons_of_neg (by simpa using hd)]
      intro x hx
      rcases List.mem_cons.mp hx with rfl | hx
      · exact not_le.mp hd
      · exact lt_of_lt_of_le (not_le.mp hd) (hy x hx)

theorem Sorted.insertDue (h : Sorted armed) : Sorted (insertDue timer due armed) := by
  have hsplit : Sorted (armed.takeWhile (·.2 ≤ due) ++ armed.dropWhile (·.2 ≤ due)) := by
    rwa [List.takeWhile_append_dropWhile]
  obtain ⟨hl, hm, hlm⟩ := List.pairwise_append.mp hsplit
  refine List.pairwise_append.mpr ⟨hl, List.pairwise_cons.mpr ⟨fun x hx => ?_, hm⟩,
    fun x hx y hy => ?_⟩
  · exact (h.lt_of_dropWhile x hx).le
  · rcases List.mem_cons.mp hy with rfl | hy
    · have hle := List.mem_takeWhile_imp hx
      exact of_decide_eq_true hle
    · exact hlm x hx y hy

theorem without_insertDue (h : timer ∉ armed.map Prod.fst) :
    without timer (insertDue timer due armed) = armed := by
  rw [insertDue, without, List.filter_append, List.filter_cons_of_neg (by simp),
    ← List.filter_append, List.takeWhile_append_dropWhile]
  exact without_of_not_mem h

theorem find_armed {x : Nat × Int} (h : (armed.map Prod.fst).Nodup) (hx : x ∈ armed) :
    armed.find? (·.1 = x.1) = some x := by
  induction armed with
  | nil => cases hx
  | cons y armed ih =>
    obtain ⟨hy, hnd⟩ := List.nodup_cons.mp h
    rcases List.mem_cons.mp hx with rfl | hx
    · exact List.find?_cons_of_pos (decide_eq_true rfl)
    · rw [List.find?_cons_of_neg, ih hnd hx]
      rw [decide_eq_true_iff]
      exact fun he => hy (List.mem_map.mpr ⟨x, hx, he.symm⟩)

/-- Every timer a pass may still come to is due no earlier than its last call, and it
may call all that are due. -/
structure Pass.Ok (armed : List (Nat × Int)) (p : Pass) : Prop where
  past : ∀ d ∈ p.last, d ≤ p.now
  before : ∀ d ∈ p.last, ∀ x ∈ armed, d ≤ x.2
  enough : dueBy p.now armed ≤ p.left

variable {p : Pass}

theorem Pass.Ok.without (h : p.Ok armed) : p.Ok (without timer armed) where
  past := h.past
  before := fun d hd x hx => h.before d hd x (mem_without.mp hx).1
  enough := le_trans (List.Sublist.countP_le List.filter_sublist) h.enough

theorem Pass.Ok.insertDue (h : p.Ok armed) (hdue : p.now < due) :
    p.Ok (insertDue timer due armed) where
  past := h.past
  before := fun d hd x hx => by
    rcases mem_insertDue.mp hx with rfl | hx
    · exact le_trans (h.past d hd) hdue.le
    · exact h.before d hd x hx
  enough := by
    rw [dueBy, insertDue_perm.countP_eq, List.countP_cons_of_neg (by simpa using hdue)]
    exact h.enough

theorem Pass.Ok.call (h : p.Ok ((timer, due) :: armed)) (hs : Sorted ((timer, due) :: armed))
    (hdue : due ≤ p.now) : ∃ p', p.call due = some p' ∧ p'.now = p.now ∧ p'.Ok armed := by
  have henough := h.enough
  rw [dueBy, List.countP_cons_of_pos (by simpa using hdue)] at henough
  have hcall : p.call due = some { p with
      last := some due
      left := p.left - 1 } :=
    if_pos ⟨hdue, fun d hd => h.before d hd _ List.mem_cons_self, by omega⟩
  refine ⟨_, hcall, rfl, ⟨?_, ?_, ?_⟩⟩
  · rintro d ⟨⟩
    exact hdue
  · rintro d ⟨⟩ x hx
    exact (List.pairwise_cons.mp hs).1 x hx
  · exact Nat.le_sub_one_of_lt henough

theorem Pass.ok_start (armed : List (Nat × Int)) (now : Nat) :
    Pass.Ok armed ⟨now, none, dueBy now armed⟩ :=
  ⟨fun _ h => (nomatch h), fun _ h => (nomatch h), le_rfl⟩

end

end Xfront.Timers
