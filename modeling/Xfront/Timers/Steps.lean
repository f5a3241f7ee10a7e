import Xfront.Lib.Run
import Xfront.Timers.Model

/-!
# The timer list and the timers that are set

`Agrees` says that the list holds the timers that are set, in their order; `Inv` adds what the calls
under way rest on.
-/

namespace Xfront.Timers

open Option
open List hiding set
open Run (accept)

theorem toInt_sub_ofInt {x y : Int} (hlo : -2 ^ 31 ≤ x - y) (hhi : x - y < 2 ^ 31) :
    (BitVec.ofInt 32 x - BitVec.ofInt 32 y).toInt = x - y := by
  rw [BitVec.toInt_sub, BitVec.toInt_ofInt, BitVec.toInt_ofInt, Int.sub_bmod_bmod,
    Int.bmod_sub_bmod]
  exact Int.bmod_eq_of_le (by omega) (by omega)

theorem ofInt_instant (clock : Nat) (millis : BitVec 32) :
    BitVec.ofInt 32 (instant clock millis) = millis := by
  rw [instant, BitVec.ofInt_add, BitVec.ofInt_natCast, BitVec.ofInt_toInt]
  exact add_sub_cancel _ _

def Near (clock : Nat) (due : Int) : Prop := clock - 2 ^ 30 ≤ due ∧ due ≤ clock + 2 ^ 30

theorem instant_ofInt {clock : Nat} {due : Int} (h : Near clock due) :
    instant clock (BitVec.ofInt 32 due) = due := by
  obtain ⟨hlo, hhi⟩ := h
  rw [instant, ← BitVec.ofInt_natCast, toInt_sub_ofInt (by omega) (by omega)]
  omega

def Frame.pass : Frame → Option Nat
  | .doTimers now => some now
  | _ => none

def Frame.now : Frame → Option Nat
  | .doTimer _ => none
  | .forced _ now => some now
  | .doTimers now => some now

def Frame.timer : Frame → Option Nat
  | .doTimer timer => some timer
  | .forced set _ => some set.timer
  | .doTimers _ => none

def State.times (s : State) : List Nat := s.stack.filterMap Frame.now

/-- A `TimerSet` began no earlier than the calls it was made from. -/
def Frame.Above (f g : Frame) : Prop :=
  ∀ set now, f = .forced set now → ∀ n ∈ g.now, n ≤ now

structure Agrees (s : State) (armed : List (Nat × Int)) : Prop where
  holds : s.list.Holds (armed.map Prod.fst)
  sorted : Sorted armed
  expires : ∀ x ∈ armed, (s.timers x.1).expires = BitVec.ofInt 32 x.2
  made : ∀ x ∈ armed, x.1 < s.allocated
  near : ∀ x ∈ armed, Near s.clock x.2

structure Calls (s : State) (w : Watch) : Prop where
  passes : s.stack.filterMap Frame.pass = w.passes.map Pass.now
  made : ∀ f ∈ s.stack, ∀ t ∈ f.timer, t < s.allocated
  past : ∀ n ∈ s.times, n ≤ s.clock
  above : s.stack.Pairwise Frame.Above
  fresh : ∀ x ∈ w.armed, ∀ n ∈ s.times, x.2 - n < 2 ^ 31
  passOk : ∀ p ∈ w.passes, p.Ok w.armed

structure Inv (s : State) (w : Watch) : Prop where
  agrees : Agrees s w.armed
  calls : Calls s w

def Keeps (w : Watch) (r : State × List Event) : Prop :=
  ∃ w', accept watch w r.2 = some w' ∧ Inv r.1 w'

section

variable {s : State} {w : Watch} {armed : List (Nat × Int)} {timer : Nat}

theorem Agrees.pending (h : Agrees s armed) (timer : Nat) :
    timerPending s timer = decide (timer ∈ armed.map Prod.fst) := by
  rw [timerPending, h.holds.isEmpty, ← decide_not, decide_eq_decide, not_not]

theorem Agrees.length_le (h : Agrees s armed) : (armed.map Prod.fst).length ≤ s.allocated := by
  have hsub : (armed.map Prod.fst) ⊆ range s.allocated := by
    intro t ht
    obtain ⟨x, hx, rfl⟩ := mem_map.mp ht
    exact mem_range.mpr (h.made x hx)
  simpa using (subperm_of_subset h.holds.nodup hsub).length_le

theorem Agrees.del (h : Agrees s armed) (timer : Nat) :
    Agrees { s with list := s.list.del (some timer) } (without timer armed) where
  holds := without_map_fst ▸ h.holds.del timer
  sorted := h.sorted.without
  expires := fun x hx => h.expires x (mem_without.mp hx).1
  made := fun x hx => h.made x (mem_without.mp hx).1
  near := fun x hx => h.near x (mem_without.mp hx).1

theorem Calls.without (h : Calls s w) (timer : Nat) :
    Calls s { w with armed := without timer w.armed } where
  passes := h.passes
  made := h.made
  past := h.past
  above := h.above
  fresh := fun x hx => h.fresh x (mem_without.mp hx).1
  passOk := fun p hp => (h.passOk p hp).without

theorem Inv.del (h : Inv s w) (timer : Nat) :
    Inv { s with list := s.list.del (some timer) } { w with armed := without timer w.armed } where
  agrees := h.agrees.del timer
  calls := by
    have hc := h.calls.without timer
    exact ⟨hc.passes, hc.made, hc.past, hc.above, hc.fresh, hc.passOk⟩

theorem Calls.push (h : Calls s w) (ht : timer < s.allocated) :
    Calls { s with stack := .doTimer timer :: s.stack } w where
  passes := h.passes
  made := by
    intro f hf t hft
    rcases mem_cons.mp hf with rfl | hf
    · cases hft
      exact ht
    · exact h.made f hf t hft
  past := h.past
  above := pairwise_cons.mpr ⟨fun g _ set now hset => (nomatch hset), h.above⟩
  fresh := h.fresh
  passOk := h.passOk

theorem doTimer_inv (h : Inv s w) (ht : timer < s.allocated) (cause : Cause) :
    Inv (doTimer s timer cause).1 { w with armed := without timer w.armed } where
  agrees := by
    have ha := h.agrees.del timer
    exact ⟨ha.holds, ha.sorted, ha.expires, ha.made, ha.near⟩
  calls := by
    have hc := (h.calls.without timer).push ht
    exact ⟨hc.passes, hc.made, hc.past, hc.above, hc.fresh, hc.passOk⟩

variable {due : Int}

theorem watch_called (h : Agrees s w.armed) (hx : (timer, due) ∈ w.armed)
    (callback arg clock : Nat) (cause : Cause) :
    watch w (.called timer callback arg clock cause) = w.call timer due clock cause := by
  rw [watch, find_armed h.holds.nodup hx, bind_some]

/-- What `TimerSet` may rest on when it goes on to set the timer. -/
structure MayArm (s : State) (w : Watch) (set : Setting) (now : Nat) : Prop where
  unset : set.timer ∉ w.armed.map Prod.fst
  made : set.timer < s.allocated
  past : now ≤ s.clock
  below : ∀ n ∈ s.times, n ≤ now
  others : ∀ x ∈ w.armed, x.2 - now < 2 ^ 31
  near : set.millis ≠ 0 → Near s.clock (instant s.clock (set.expires (BitVec.ofNat 32 now)))
  soon : set.millis ≠ 0 → ∀ n ∈ now :: s.times,
    instant s.clock (set.expires (BitVec.ofNat 32 now)) - n < 2 ^ 31

variable {set : Setting} {now : Nat} {millis : BitVec 32}

theorem Inv.write (h : Inv s w) (hunset : set.timer ∉ w.armed.map Prod.fst) :
    Inv (writeTimer s set millis) w where
  agrees := { h.agrees with
      expires := fun x hx => by
        have hne : x.1 ≠ set.timer := fun he => hunset (mem_map.mpr ⟨x, hx, he⟩)
        simp only [writeTimer, Function.update_of_ne hne]
        exact h.agrees.expires x hx }
  calls := ⟨h.calls.passes, h.calls.made, h.calls.past, h.calls.above, h.calls.fresh,
    h.calls.passOk⟩

theorem writeTimer_expires : ((writeTimer s set millis).timers set.timer).expires =
    set.expires millis := by
  simp only [writeTimer, Function.update_self]

theorem Agrees.insert (h : Agrees s armed) (hunset : timer ∉ armed.map Prod.fst)
    (hmade : timer < s.allocated) (hnear : Near s.clock due)
    (hexp : (s.timers timer).expires = BitVec.ofInt 32 due) :
    Agrees { s with
      list := s.list.append (some timer) ((armed.dropWhile (·.2 ≤ due)).map Prod.fst).head? }
      (insertDue timer due armed) where
  holds := by
    rw [insertDue, map_append, map_cons]
    refine Ring.Holds.append ?_ ?_
    · rw [← map_append, takeWhile_append_dropWhile]
      exact h.holds
    · rwa [← map_append, takeWhile_append_dropWhile]
  sorted := h.sorted.insertDue
  expires := fun x hx => by
    rcases mem_insertDue.mp hx with rfl | hx
    · exact hexp
    · exact h.expires x hx
  made := fun x hx => by
    rcases mem_insertDue.mp hx with rfl | hx
    · exact hmade
    · exact h.made x hx
  near := fun x hx => by
    rcases mem_insertDue.mp hx with rfl | hx
    · exact hnear
    · exact h.near x hx

theorem Calls.insert (h : Calls s w) (hpasses : ∀ n ∈ s.times, n < due)
    (hfresh : ∀ n ∈ s.times, due - n < 2 ^ 31) :
    Calls s { w with armed := insertDue timer due w.armed } where
  passes := h.passes
  made := h.made
  past := h.past
  above := h.above
  fresh := fun x hx n hn => by
    rcases mem_insertDue.mp hx with rfl | hx
    · exact hfresh n hn
    · exact h.fresh x hx n hn
  passOk := fun p hp => by
    refine (h.passOk p hp).insertDue (hpasses p.now ?_)
    have hmem : p.now ∈ s.stack.filterMap Frame.pass := by
      rw [h.passes]
      exact mem_map.mpr ⟨p, hp, rfl⟩
    obtain ⟨f, hf, hpass⟩ := mem_filterMap.mp hmem
    refine mem_filterMap.mpr ⟨f, hf, ?_⟩
    cases f with
    | doTimer => cases hpass
    | forced => cases hpass
    | doTimers now => exact hpass

theorem dropWhile_map_congr {test : Nat → Bool} {test' : Nat × Int → Bool}
    (h : ∀ x ∈ armed, test x.1 = test' x) :
    (armed.map Prod.fst).dropWhile test = (armed.dropWhile test').map Prod.fst := by
  induction armed with
  | nil => rfl
  | cons x armed ih =>
    rw [map_cons, dropWhile_cons, dropWhile_cons, h x mem_cons_self]
    split
    · exact ih fun y hy => h y (mem_cons_of_mem x hy)
    · rfl

theorem insertDue_nodup (h : (armed.map Prod.fst).Nodup) (hunset : timer ∉ armed.map Prod.fst) :
    ((insertDue timer due armed).map Prod.fst).Nodup :=
  ((insertDue_perm.map Prod.fst).nodup_iff).mpr (nodup_cons.mpr ⟨hunset, h⟩)

theorem ready_keeps {front back : List Nat} (h : Inv s w)
    (hunset : timer ∉ w.armed.map Prod.fst) (hmade : timer < s.allocated)
    (hsplit : w.armed.map Prod.fst = front ++ back) (hdue : due ≤ s.clock) :
    Keeps w
      ((doTimer { s with list := s.list.append (some timer) back.head? } timer .ready).1,
        .armed timer due ::
          (doTimer { s with list := s.list.append (some timer) back.head? } timer .ready).2) := by
  refine ⟨w, ?_, ⟨?_, ?_⟩⟩
  · rw [accept, watch, without_of_not_mem hunset, bind_some]
    have hfind : (insertDue timer due w.armed).find? (·.1 = timer) = some (timer, due) :=
      find_armed (insertDue_nodup h.agrees.holds.nodup hunset) (mem_insertDue.mpr (.inl rfl))
    simp only [doTimer, accept, watch, hfind, bind_some, Watch.call, if_pos hdue,
      without_insertDue hunset]
  · have hholds := h.agrees.holds
    rw [hsplit] at hholds hunset
    have hdel := (hholds.append hunset).del_mem
    rw [← hsplit] at hdel
    exact ⟨hdel, h.agrees.sorted, h.agrees.expires, h.agrees.made, h.agrees.near⟩
  · have hc := h.calls.push hmade
    exact ⟨hc.passes, hc.made, hc.past, hc.above, hc.fresh, hc.passOk⟩

theorem arm_keeps (h : Inv s w) (hm : MayArm s w set now) :
    ∃ r, arm s set (BitVec.ofNat 32 now) = some r ∧ Keeps w r := by
  by_cases hz : set.millis = 0
  · exact ⟨(s, []), if_pos hz, w, rfl, h⟩
  have hnear := hm.near hz
  have hsoon := hm.soon hz
  rw [arm, if_neg hz]
  dsimp only
  generalize hdue : instant s.clock (set.expires (BitVec.ofNat 32 now)) = due at hnear hsoon ⊢
  have hexpires : set.expires (BitVec.ofNat 32 now) = BitVec.ofInt 32 due := by
    rw [← hdue, ofInt_instant]
  have hw : Inv (writeTimer s set (BitVec.ofNat 32 now)) w := h.write hm.unset
  rw [h.agrees.holds.find _ h.agrees.length_le, map_some]
  have hself := hsoon now mem_cons_self
  have hwait : (set.expires (BitVec.ofNat 32 now) - BitVec.ofNat 32 now).toInt = due - now := by
    have hpast := hm.past
    have hlo := hnear.1
    rw [hexpires, ← BitVec.ofInt_natCast, toInt_sub_ofInt (by omega) hself]
  refine ⟨_, rfl, ?_⟩
  rw [hwait]
  by_cases hready : due - now ≤ 0
  · rw [if_pos hready]
    have hpast := hm.past
    exact ready_keeps hw hm.unset hm.made (takeWhile_append_dropWhile ..).symm
      (by show due ≤ s.clock; omega)
  · rw [if_neg hready]
    have hplace : (w.armed.map Prod.fst).dropWhile
        (fun a => !decide (0 < (((writeTimer s set (BitVec.ofNat 32 now)).timers a).expires -
          set.expires (BitVec.ofNat 32 now)).toInt)) =
        (w.armed.dropWhile (·.2 ≤ due)).map Prod.fst := by
      refine dropWhile_map_congr fun x hx => ?_
      have hother := hm.others x hx
      have hlo := (h.agrees.near x hx).1
      have hhi := hnear.2
      rw [hw.agrees.expires x hx, hexpires, toInt_sub_ofInt (by omega) (by omega), ← decide_not,
        decide_eq_decide]
      omega
    rw [hplace]
    have hexp : ((writeTimer s set (BitVec.ofNat 32 now)).timers set.timer).expires =
        BitVec.ofInt 32 due := by rw [writeTimer_expires, hexpires]
    refine ⟨{ w with armed := insertDue set.timer due w.armed }, ?_, ?_, ?_⟩
    · simp only [accept, watch, without_of_not_mem hm.unset, bind_some]
    · exact hw.agrees.insert hm.unset hm.made hnear hexp
    · have hc : Calls (writeTimer s set (BitVec.ofNat 32 now))
          { w with armed := insertDue set.timer due w.armed } := hw.calls.insert
        (fun n hn => by
          have hle := hm.below n hn
          omega)
        fun n hn => hsoon n (mem_cons_of_mem now hn)
      exact ⟨hc.passes, hc.made, hc.past, hc.above, hc.fresh, hc.passOk⟩

end

end Xfront.Timers
