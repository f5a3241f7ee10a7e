import Xfront.Timers.Steps

/-!
# Runs of timers

Whatever callbacks do, a run in which no forced callback leaves its own timer set
keeps the list in order and shows only what timers are for.
-/

namespace Xfront.Timers
open State
open List hiding set

open Option
open Run (accept exec Guarded)

/-- What can be called: a timer there is, a pass for an instant that has come, and the
return of a callback that is under way. -/
def Callable (s : State) : Action → Prop
  | .advance _ => True
  | .setNew _ _ _ _ => True
  | .set set _ => set.timer < s.allocated
  | .force timer => timer < s.allocated
  | .cancel timer => timer < s.allocated
  | .doTimers now => now ≤ s.clock
  | .callbackReturns _ => ∃ f ∈ s.stack.head?, f.pass = none

def arming (s : State) : Action → Option (Setting × Nat)
  | .setNew absolute millis func arg => some (⟨s.allocated, absolute, millis, func, arg⟩, s.clock)
  | .set set forceOld =>
    if timerPending s set.timer && forceOld then none else some (set, s.clock)
  | .callbackReturns newTime =>
    match s.stack with
    | .doTimer timer :: _ =>
      some (⟨timer, false, newTime, (s.timers timer).callback, (s.timers timer).arg⟩, s.clock)
    | .forced set now :: _ => some (set, now)
    | _ => none
  | _ => none

def dueAt (s : State) (set : Setting) (now : Nat) : Int :=
  instant s.clock (set.expires (BitVec.ofNat 32 now))

def InRange (s : State) (a : Action) : Prop :=
  (∀ x ∈ arming s a, x.1.millis ≠ 0 → Near s.clock (dueAt s x.1 x.2)) ∧
  match a with
  | .advance millis => ∀ t < s.allocated, timerPending s t = true →
    Near (s.clock + millis) (instant s.clock (s.timers t).expires)
  | _ => True

/-- A forced callback does not leave the timer set that `TimerSet` goes on to set. -/
def Unlinked (s : State) : Action → Prop
  | .callbackReturns _ =>
    match s.stack with
    | .forced set _ :: _ => set.millis ≠ 0 → timerPending s set.timer = false
    | _ => True
  | _ => True

/-- No timer is due 2³¹ ms or more after the time that a call under way works with. -/
def Timely (s : State) (a : Action) : Prop :=
  (∀ x ∈ arming s a, x.1.millis ≠ 0 → ∀ n ∈ s.times, dueAt s x.1 x.2 - n < 2 ^ 31) ∧
  match a with
  | .doTimers now => ∀ t < s.allocated, timerPending s t = true →
    instant s.clock (s.timers t).expires - now < 2 ^ 31
  | _ => True

structure Allowed (s : State) (a : Action) : Prop where
  callable : Callable s a
  inRange : InRange s a

structure Guard (s : State) (a : Action) : Prop extends Allowed s a where
  unlinked : Unlinked s a
  timely : Timely s a

instance (s : State) (a : Action) : Decidable (Callable s a) := by
  cases a <;> unfold Callable <;> infer_instance

instance (clock : Nat) (due : Int) : Decidable (Near clock due) :=
  inferInstanceAs (Decidable (_ ∧ _))

instance (s : State) (a : Action) : Decidable (InRange s a) := by
  unfold InRange
  cases a <;> infer_instance

instance (s : State) (a : Action) : Decidable (Unlinked s a) := by
  cases a <;> unfold Unlinked
  case callbackReturns => dsimp only; split <;> infer_instance
  all_goals infer_instance

instance (s : State) (a : Action) : Decidable (Timely s a) := by
  unfold Timely
  cases a <;> infer_instance

instance (s : State) (a : Action) : Decidable (Allowed s a) :=
  decidable_of_iff (Callable s a ∧ InRange s a) ⟨fun h => ⟨h.1, h.2⟩, fun h => ⟨h.1, h.2⟩⟩

instance (s : State) (a : Action) : Decidable (Guard s a) :=
  decidable_of_iff (Allowed s a ∧ Unlinked s a ∧ Timely s a)
    ⟨fun h => ⟨h.1, h.2.1, h.2.2⟩, fun h => ⟨h.1, h.2, h.3⟩⟩

section

variable {s : State} {w : Watch} {set : Setting} {timer now : Nat}

theorem Keeps.cons {w' : Watch} {r : State × List Event} {e : Event} (he : watch w e = some w')
    (h : Keeps w' r) : Keeps w (r.1, e :: r.2) := by
  obtain ⟨w'', hacc, hinv⟩ := h
  exact ⟨w'', by rw [Run.accept_cons _ he, hacc], hinv⟩

theorem Keeps.append {r : State × List Event} {f : State → State × List Event} (h : Keeps w r)
    (hf : ∀ w', Inv r.1 w' → Keeps w' (f r.1)) : Keeps w ((f r.1).1, r.2 ++ (f r.1).2) := by
  obtain ⟨w', hacc, hinv⟩ := h
  obtain ⟨w'', hacc', hinv'⟩ := hf w' hinv
  exact ⟨w'', by rw [Run.accept_append, hacc, bind_some, hacc'], hinv'⟩

theorem Inv.mayArm (h : Inv s w) (hunset : set.timer ∉ w.armed.map Prod.fst)
    (hmade : set.timer < s.allocated) (hnear : set.millis ≠ 0 → Near s.clock (dueAt s set s.clock))
    (hsoon : set.millis ≠ 0 → ∀ n ∈ s.times, dueAt s set s.clock - n < 2 ^ 31) :
    MayArm s w set s.clock where
  unset := hunset
  made := hmade
  past := le_rfl
  below := h.calls.past
  others := fun x hx => by
    have hhi := (h.agrees.near x hx).2
    omega
  near := hnear
  soon := fun hz n hn => by
    rcases mem_cons.mp hn with rfl | hn
    · have hhi := (hnear hz).2
      rw [dueAt] at hhi
      omega
    · exact hsoon hz n hn

theorem Inv.exists_due (h : Inv s w) (hp : timerPending s timer = true) :
    ∃ due, (timer, due) ∈ w.armed := by
  rw [h.agrees.pending, decide_eq_true_iff] at hp
  obtain ⟨⟨t, due⟩, hx, rfl⟩ := mem_map.mp hp
  exact ⟨due, hx⟩

theorem Inv.watch_forced (h : Inv s w) (hp : timerPending s timer = true)
    (callback arg clock : Nat) : watch w (.called timer callback arg clock .forced) =
      some { w with armed := without timer w.armed } := by
  obtain ⟨due, hx⟩ := h.exists_due hp
  rw [watch_called h.agrees hx]
  rfl

theorem Calls.pushForced (h : Calls s w) (hmade : set.timer < s.allocated)
    (hnear : ∀ x ∈ w.armed, Near s.clock x.2) :
    Calls { s with stack := .forced set s.clock :: s.stack } w where
  passes := h.passes
  made := by
    intro f hf t ht
    rcases mem_cons.mp hf with rfl | hf
    · cases ht
      exact hmade
    · exact h.made f hf t ht
  past := by
    intro n hn
    rcases mem_cons.mp hn with rfl | hn
    · exact le_rfl
    · exact h.past n hn
  above := by
    refine pairwise_cons.mpr ⟨fun g hg set now hset n hn => ?_, h.above⟩
    cases hset
    exact h.past n (mem_filterMap.mpr ⟨g, hg, hn⟩)
  fresh := by
    intro x hx n hn
    rcases mem_cons.mp hn with rfl | hn
    · have hhi := (hnear x hx).2
      omega
    · exact h.fresh x hx n hn
  passOk := h.passOk

theorem timerSet_keeps (h : Inv s w) (hmade : set.timer < s.allocated) (forceOld : Bool)
    (hnear : (timerPending s set.timer && forceOld) = false → set.millis ≠ 0 →
      Near s.clock (dueAt s set s.clock))
    (hsoon : (timerPending s set.timer && forceOld) = false → set.millis ≠ 0 →
      ∀ n ∈ s.times, dueAt s set s.clock - n < 2 ^ 31) :
    ∃ r, timerSet s set forceOld = some r ∧ Keeps w r := by
  have hpend := h.agrees.pending set.timer
  unfold timerSet
  by_cases hp : timerPending s set.timer = true
  · rw [if_pos hp]
    dsimp only
    have hunset : set.timer ∉ (without set.timer w.armed).map Prod.fst := by
      rw [without_map_fst, mem_filter]
      simp
    cases forceOld with
    | true =>
      rw [if_pos rfl]
      refine ⟨_, rfl, { w with armed := without set.timer w.armed }, ?_, ?_⟩
      · rw [accept, h.watch_forced hp, bind_some, accept]
      · have hd := h.del set.timer
        have hc := hd.calls.pushForced hmade hd.agrees.near
        exact ⟨⟨hd.agrees.holds, hd.agrees.sorted, hd.agrees.expires, hd.agrees.made,
          hd.agrees.near⟩, hc⟩
    | false =>
      rw [if_neg Bool.false_ne_true]
      obtain ⟨r, hr, hk⟩ := arm_keeps (h.del set.timer)
        ((h.del set.timer).mayArm hunset hmade (hnear (Bool.and_false _)) (hsoon (Bool.and_false _)))
      have hr' : arm { s with list := s.list.del (some set.timer) } set (getTimeInMillis s) =
        some r := hr
      rw [hr', map_some]
      exact ⟨_, rfl, hk.cons rfl⟩
  · rw [if_neg hp]
    have hf : (timerPending s set.timer && forceOld) = false := by
      rw [Bool.eq_false_iff.mpr hp, Bool.false_and]
    have hunset : set.timer ∉ w.armed.map Prod.fst := by
      rw [hpend] at hp
      simpa using hp
    exact arm_keeps h (h.mayArm hunset hmade (hnear hf) (hsoon hf))

theorem Agrees.make {armed : List (Nat × Int)} (h : Agrees s armed) : Agrees { s with
      allocated := s.allocated + 1
      list := s.list.init (some s.allocated) } armed where
  holds := h.holds.init fun hmem => by
    obtain ⟨x, hx, he⟩ := mem_map.mp hmem
    exact absurd he (Nat.ne_of_lt (h.made x hx))
  sorted := h.sorted
  expires := h.expires
  made := fun x hx => Nat.lt_succ_of_lt (h.made x hx)
  near := h.near

theorem timerSetNew_keeps (h : Inv s w) {absolute : Bool} {millis : BitVec 32} {func arg : Nat}
    (hset : set = ⟨s.allocated, absolute, millis, func, arg⟩)
    (hnear : set.millis ≠ 0 → Near s.clock (dueAt s set s.clock))
    (hsoon : set.millis ≠ 0 → ∀ n ∈ s.times, dueAt s set s.clock - n < 2 ^ 31) :
    ∃ r, timerSetNew s absolute millis func arg = some r ∧ Keeps w r := by
  subst hset
  have hmade : Inv { s with
      allocated := s.allocated + 1
      list := s.list.init (some s.allocated) } w :=
    ⟨h.agrees.make, h.calls.passes, fun f hf t ht => Nat.lt_succ_of_lt (h.calls.made f hf t ht),
      h.calls.past, h.calls.above, h.calls.fresh, h.calls.passOk⟩
  refine arm_keeps hmade (hmade.mayArm (fun hmem => ?_) (Nat.lt_succ_self _) hnear hsoon)
  obtain ⟨x, hx, he⟩ := mem_map.mp hmem
  exact absurd he (Nat.ne_of_lt (h.agrees.made x hx))

theorem timerForce_keeps (h : Inv s w) (hmade : timer < s.allocated) :
    Keeps w (timerForce s timer) := by
  unfold timerForce
  by_cases hp : timerPending s timer = true
  · rw [if_pos hp]
    refine ⟨_, ?_, doTimer_inv h hmade .forced⟩
    simp only [doTimer, accept, h.watch_forced hp, bind_some]
  · rw [if_neg hp]
    exact ⟨w, rfl, h⟩

/-! ### A pass of `DoTimers` -/

variable {stack : List Frame}

theorem Inv.pop {f : Frame} {passes : List Pass} (h : Inv s w)
    (hs : s.stack = f :: stack) (hp : stack.filterMap Frame.pass = passes.map Pass.now)
    (hsub : ∀ q ∈ passes, q ∈ w.passes) :
    Inv { s with stack := stack } { w with passes := passes } where
  agrees := ⟨h.agrees.holds, h.agrees.sorted, h.agrees.expires, h.agrees.made, h.agrees.near⟩
  calls := by
    have htimes : ∀ n ∈ stack.filterMap Frame.now, n ∈ s.times := by
      intro n hn
      rw [times, hs, filterMap_cons]
      split
      · exact hn
      · exact mem_cons_of_mem _ hn
    have ha := h.calls.above
    rw [hs] at ha
    exact ⟨hp, fun g hg => h.calls.made g (hs ▸ mem_cons_of_mem f hg),
      fun n hn => h.calls.past n (htimes n hn), (pairwise_cons.mp ha).2,
      fun x hx n hn => h.calls.fresh x hx n (htimes n hn), fun q hq => h.calls.passOk q (hsub q hq)⟩

theorem Inv.return {f : Frame} (h : Inv s w) (hs : s.stack = f :: stack)
    (hf : f.pass = none) : Inv { s with stack := stack } w := by
  have hp := h.calls.passes
  rw [hs, filterMap_cons_none hf] at hp
  exact h.pop hs hp fun q hq => hq

theorem Calls.pass (h : Calls s w) (hs : s.stack = .doTimers now :: stack) :
    ∃ p ps, w.passes = p :: ps ∧ p.now = now ∧ stack.filterMap Frame.pass = ps.map Pass.now := by
  have hp := h.passes
  have hcons : s.stack.filterMap Frame.pass = now :: stack.filterMap Frame.pass := by
    rw [hs]
    rfl
  rw [hcons] at hp
  cases hw : w.passes with
  | nil =>
    rw [hw] at hp
    cases hp
  | cons p ps =>
    rw [hw, map_cons] at hp
    obtain ⟨h1, h2⟩ := cons.inj hp
    exact ⟨p, ps, rfl, h1.symm, h2⟩

section
variable (h : Inv s w)
include h

theorem passEnd_keeps (hs : s.stack = .doTimers now :: stack)
    (hdue : ∀ x ∈ w.armed, (now : Int) < x.2) :
    Keeps w ({ s with stack := stack }, [.passEnd]) := by
  obtain ⟨p, ps, hw, rfl, hps⟩ := h.calls.pass hs
  refine ⟨{ w with passes := ps }, ?_, h.pop hs hps fun q hq => hw ▸ mem_cons_of_mem p hq⟩
  simp only [accept, watch, hw, if_pos hdue, bind_some]

theorem loopCall_keeps {due : Int} {armed : List (Nat × Int)}
    (hs : s.stack = .doTimers now :: stack) (hw : w.armed = (timer, due) :: armed)
    (hdue : due ≤ now) : Keeps w (doTimer s timer .loop) := by
  obtain ⟨p, ps, hps, rfl, -⟩ := h.calls.pass hs
  have hmem : (timer, due) ∈ w.armed := hw ▸ mem_cons_self
  have hsorted := h.agrees.sorted
  have hok := h.calls.passOk p (hps ▸ mem_cons_self)
  have hnd := h.agrees.holds.nodup
  rw [hw] at hsorted hok hnd
  have hrest : without timer w.armed = armed := by
    rw [hw, without, filter_cons_of_neg (by simp)]
    exact without_of_not_mem (nodup_cons.mp hnd).1
  obtain ⟨p', hcall, hnow, hok'⟩ := hok.call hsorted hdue
  have hpast : due ≤ s.clock := by
    have hle := h.calls.past p.now (by
      rw [times, hs]
      exact mem_cons_self)
    omega
  have hd := doTimer_inv h (h.agrees.made _ hmem) .loop
  rw [hrest] at hd
  refine ⟨{ armed := armed, passes := p' :: ps }, ?_, hd.agrees, ?_⟩
  · simp only [doTimer, accept, watch_called h.agrees hmem, Watch.call, hps, if_pos hpast, hcall,
      map_some, bind_some, hrest]
  · refine ⟨?_, hd.calls.made, hd.calls.past, hd.calls.above, hd.calls.fresh, fun q hq => ?_⟩
    · rw [hd.calls.passes, hps, map_cons, map_cons, hnow]
    · rcases mem_cons.mp hq with rfl | hq
      · exact hok'
      · exact hd.calls.passOk q (hps ▸ mem_cons_of_mem p hq)

theorem doTimersLoop_keeps : Keeps w (doTimersLoop s) := by
  unfold doTimersLoop
  split
  next now stack hs =>
    have hnow : now ∈ s.times := by
      rw [times, hs]
      exact mem_cons_self
    rw [h.agrees.holds.first]
    cases hw : w.armed with
    | nil =>
      refine passEnd_keeps h hs fun x hx => ?_
      rw [hw] at hx
      cases hx
    | cons x armed =>
      have hmem : x ∈ w.armed := hw ▸ mem_cons_self
      have hwait : ((s.timers x.1).expires - BitVec.ofNat 32 now).toInt = x.2 - now := by
        have hlo := (h.agrees.near x hmem).1
        have hpast := h.calls.past now hnow
        rw [h.agrees.expires x hmem, ← BitVec.ofInt_natCast,
          toInt_sub_ofInt (by omega) (h.calls.fresh x hmem now hnow)]
      simp only [map_cons, head?_cons, hwait]
      split
      next hlate =>
        refine passEnd_keeps h hs fun y hy => ?_
        have hsorted := h.agrees.sorted
        rw [hw] at hsorted hy
        rcases mem_cons.mp hy with rfl | hy
        · omega
        · have hle := (pairwise_cons.mp hsorted).1 y hy
          omega
      next hlate => exact loopCall_keeps h hs hw (by omega)
  next => exact ⟨w, rfl, h⟩

theorem Inv.pushPass (hpast : now ≤ s.clock)
    (hfresh : ∀ x ∈ w.armed, x.2 - now < 2 ^ 31) :
    Inv { s with stack := .doTimers now :: s.stack }
      { w with passes := ⟨now, none, dueBy now w.armed⟩ :: w.passes } where
  agrees := ⟨h.agrees.holds, h.agrees.sorted, h.agrees.expires, h.agrees.made, h.agrees.near⟩
  calls :=
    { passes := congrArg (cons now) h.calls.passes
      made := by
        intro f hf t ht
        rcases mem_cons.mp hf with rfl | hf
        · cases ht
        · exact h.calls.made f hf t ht
      past := by
        intro n hn
        rcases mem_cons.mp hn with rfl | hn
        · exact hpast
        · exact h.calls.past n hn
      above := pairwise_cons.mpr ⟨fun g _ set n hset => (nomatch hset), h.calls.above⟩
      fresh := by
        intro x hx n hn
        rcases mem_cons.mp hn with rfl | hn
        · exact hfresh x hx
        · exact h.calls.fresh x hx n hn
      passOk := by
        intro p hp
        rcases mem_cons.mp hp with rfl | hp
        · exact Pass.ok_start w.armed now
        · exact h.calls.passOk p hp }

theorem doTimers_keeps (hpast : now ≤ s.clock)
    (hfresh : ∀ x ∈ w.armed, x.2 - now < 2 ^ 31) : Keeps w (doTimers s now) :=
  Keeps.cons rfl (doTimersLoop_keeps (h.pushPass hpast hfresh))

theorem callbackReturns_keeps {newTime : BitVec 32}
    (hg : Guard s (.callbackReturns newTime)) :
    ∃ r, callbackReturns s newTime = some r ∧ Keeps w r := by
  obtain ⟨f, hhead, hf⟩ := hg.callable
  obtain ⟨stack, hs⟩ := head?_eq_some_iff.mp hhead
  have hret := h.return hs hf
  have hmade := h.calls.made f (hs ▸ mem_cons_self)
  have htimes : ∀ n ∈ times { s with stack := stack }, n ∈ s.times := by
    intro n hn
    rw [times, hs, filterMap_cons]
    split
    · exact hn
    · exact mem_cons_of_mem _ hn
  suffices hresumed : ∃ r, Keeps w r ∧ callbackReturns s newTime =
      some ((doTimersLoop r.1).1, r.2 ++ (doTimersLoop r.1).2) by
    obtain ⟨r, hk, hr⟩ := hresumed
    exact ⟨_, hr, hk.append fun w' hw' => doTimersLoop_keeps hw'⟩
  cases f with
  | doTimers now => cases hf
  | doTimer timer =>
    by_cases hz : newTime = 0
    · refine ⟨({ s with stack := stack }, []), ⟨w, rfl, hret⟩, ?_⟩
      simp only [callbackReturns, hs, if_pos hz, map_some]
    · have harm := hg.inRange.1
      have hsoon := hg.timely.1
      simp only [arming, hs] at harm hsoon
      have hset : (⟨timer, false, newTime, (s.timers timer).callback, (s.timers timer).arg⟩ :
          Setting).timer < s.allocated := hmade timer rfl
      obtain ⟨r, hr, hk⟩ := timerSet_keeps hret hset false (fun _ => harm _ rfl)
        fun _ hm n hn => hsoon _ rfl hm n (htimes n hn)
      refine ⟨r, hk, ?_⟩
      simp only [callbackReturns, hs, if_neg hz, hr, map_some]
  | forced set now =>
    have hnow : now ∈ s.times := by
      rw [times, hs]
      exact mem_cons_self
    have habove := h.calls.above
    rw [hs] at habove
    have harm := hg.inRange.1
    have hsoon := hg.timely.1
    simp only [arming, hs] at harm hsoon
    by_cases hz : set.millis = 0
    · refine ⟨({ s with stack := stack }, []), ⟨w, rfl, hret⟩, ?_⟩
      simp only [callbackReturns, hs, arm, if_pos hz, map_some]
    · have hunset : set.timer ∉ w.armed.map Prod.fst := by
        have hu := hg.unlinked
        simp only [Unlinked, hs] at hu
        replace hu := hu hz
        rw [h.agrees.pending] at hu
        simpa using hu
      obtain ⟨r, hr, hk⟩ := arm_keeps hret
        { unset := hunset
          made := hmade set.timer rfl
          past := h.calls.past now hnow
          below := fun n hn => by
            obtain ⟨g, hg, hgn⟩ := mem_filterMap.mp hn
            exact (pairwise_cons.mp habove).1 g hg set now rfl n hgn
          others := fun x hx => h.calls.fresh x hx now hnow
          near := harm (set, now) rfl
          soon := fun hm n hn => by
            rcases mem_cons.mp hn with rfl | hn
            · exact hsoon (set, n) rfl hm n hnow
            · exact hsoon (set, now) rfl hm n (htimes n hn) }
      refine ⟨r, hk, ?_⟩
      simp only [callbackReturns, hs, hr, map_some]

theorem Inv.advance {millis : Nat} (hg : Guard s (.advance millis)) :
    Inv { s with clock := s.clock + millis } w where
  agrees := { h.agrees with
      near := fun x hx => by
        have hp : timerPending s x.1 = true := by
          rw [h.agrees.pending, decide_eq_true_iff]
          exact mem_map.mpr ⟨x, hx, rfl⟩
        have hn := hg.inRange.2 x.1 (h.agrees.made x hx) hp
        rwa [h.agrees.expires x hx, instant_ofInt (h.agrees.near x hx)] at hn }
  calls := ⟨h.calls.passes, h.calls.made, fun n hn => le_trans (h.calls.past n hn) (Nat.le_add_right ..),
    h.calls.above, h.calls.fresh, h.calls.passOk⟩

theorem step_keeps {a : Action} (hg : Guard s a) : ∃ r, step s a = some r ∧ Keeps w r := by
  cases a with
  | advance millis => exact ⟨_, rfl, w, rfl, h.advance hg⟩
  | setNew absolute millis func arg =>
    exact timerSetNew_keeps h rfl (hg.inRange.1 _ rfl) (hg.timely.1 _ rfl)
  | set set forceOld =>
    have harm : (timerPending s set.timer && forceOld) = false →
        arming s (.set set forceOld) = some (set, s.clock) := by
      intro hf
      rw [arming, hf]
      rfl
    exact timerSet_keeps h hg.callable forceOld (fun hf => hg.inRange.1 _ (harm hf))
      fun hf => hg.timely.1 _ (harm hf)
  | force timer => exact ⟨_, rfl, timerForce_keeps h hg.callable⟩
  | cancel timer => exact ⟨_, rfl, _, rfl, h.del timer⟩
  | doTimers now =>
    refine ⟨_, rfl, doTimers_keeps h hg.callable fun x hx => ?_⟩
    have hp : timerPending s x.1 = true := by
      rw [h.agrees.pending, decide_eq_true_iff]
      exact mem_map.mpr ⟨x, hx, rfl⟩
    have hn := hg.timely.2 x.1 (h.agrees.made x hx) hp
    rwa [h.agrees.expires x hx, instant_ofInt (h.agrees.near x hx)] at hn
  | callbackReturns newTime => exact callbackReturns_keeps h hg

end

theorem start_inv (clock : Nat) : Inv (start clock) Watch.start where
  agrees :=
    { holds := Ring.empty_holds
      sorted := List.Pairwise.nil
      expires := fun _ hx => nomatch hx
      made := fun _ hx => nomatch hx
      near := fun _ hx => nomatch hx }
  calls :=
    { passes := rfl
      made := fun _ hf => nomatch hf
      past := fun _ hn => nomatch hn
      above := List.Pairwise.nil
      fresh := fun _ hx => nomatch hx
      passOk := fun _ hp => nomatch hp }

end

structure Ordered (s : State) (w : Watch) : Prop where
  holds : s.list.Holds (w.armed.map Prod.fst)
  sorted : (w.armed.map Prod.fst).Pairwise fun t u =>
    instant s.clock (s.timers t).expires ≤ instant s.clock (s.timers u).expires
  due : ∀ x ∈ w.armed, instant s.clock (s.timers x.1).expires = x.2

theorem Inv.ordered {s : State} {w : Watch} (h : Inv s w) : Ordered s w := by
  have hdue : ∀ x ∈ w.armed, instant s.clock (s.timers x.1).expires = x.2 := by
    intro x hx
    rw [h.agrees.expires x hx, instant_ofInt (h.agrees.near x hx)]
  refine ⟨h.agrees.holds, pairwise_map.mpr ?_, hdue⟩
  refine h.agrees.sorted.imp_of_mem fun hx hy hle => ?_
  rwa [hdue _ hx, hdue _ hy]

def rearmed : List Action :=
  [.setNew false 10 7 0, .set ⟨0, true, 4, 7, 0⟩ true, .callbackReturns 0, .advance 20,
    .doTimers (2 ^ 32 + 5), .callbackReturns 5, .advance 100, .doTimers (2 ^ 32 + 105)]

/-- A timer whose callback, forced by `TimerSet`, sets the timer itself. -/
def relinked : List Action :=
  [.setNew false 10 7 0, .set ⟨0, true, 99, 7, 0⟩ true, .set ⟨0, false, 10, 7, 0⟩ false,
    .callbackReturns 0, .callbackReturns 0, .doTimers 100]

end Xfront.Timers
