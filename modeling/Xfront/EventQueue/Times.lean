import Xfront.EventQueue.Runs

/-!
# Event times

The time stamps that leave the queue, against `lastEventTime`.
-/

namespace Xfront.EventQueue
open BitVec EventQueueRec

open List Option

def Reply.time : Reply → Option (BitVec 32)
  | .dequeued e => some e.event.time
  | _ => none

def Out.time (out : Out) : Option (BitVec 32) := out.reply.time

/-- The event gets a slot: that of the last one, a free one or one of a grown array. -/
def EventQueueRec.takes (q : EventQueueRec) (x : Input) (a : Allocations) : Prop :=
  q.compresses x ∨ q.numEnqueued + 1 ≠ q.nevents ∨ ∃ q', q.grow (2 * q.nevents) a = some (q', true)

/-- An event that gets a slot has no time stamp before `lastEventTime`. -/
def InOrder (q : EventQueueRec) : Act → Prop
  | .enqueue x a => q.takes x a → q.lastEventTime ≤ x.event.time
  | .resume => True
  | .dequeue => True

/-- `lastEventTime` never decreases, and neither do the time stamps of what is dequeued. -/
def Forward (q : EventQueueRec) (acts : List Act) (outs : List Out) : Prop :=
  Run.Always step (fun s _ s' _ => s.lastEventTime ≤ s'.lastEventTime) q acts ∧
    (outs.filterMap Out.time).Pairwise (· ≤ ·)

/-- The time stamps of the events lie within 10 seconds of the largest one so far. -/
def WithinTenSeconds : BitVec 32 → List Act → Prop
  | _, [] => True
  | largest, .enqueue x _ :: acts =>
    (largest ≤ x.event.time ∨ largest - x.event.time < 10000) ∧
      WithinTenSeconds (if largest ≤ x.event.time then x.event.time else largest) acts
  | largest, .resume :: acts => WithinTenSeconds largest acts
  | largest, .dequeue :: acts => WithinTenSeconds largest acts

section

variable {q q' : EventQueueRec} {f : Fifo} {cells : List (Addr × Entry)} {h : Nat}

variable {x : Input} {out : Out}

theorem put_lastEventTime {i : Nat} (hput : q.put i x = some (q', out)) :
    q'.lastEventTime = x.event.time ∧ ∃ time, out = .enqueued time := by
  unfold put at hput
  obtain ⟨slot, -, hput⟩ := bind_eq_some_iff.mp hput
  obtain ⟨evt, -, hput⟩ := bind_eq_some_iff.mp hput
  obtain ⟨old, -, hput⟩ := map_eq_some_iff.mp hput
  cases hput
  exact ⟨rfl, _, rfl⟩

variable {a : Allocations}

theorem grow_lastEventTime {n : Nat} {grown : Bool}
    (hgrow : q.grow n a = some (q', grown)) : q'.lastEventTime = q.lastEventTime := by
  unfold grow at hgrow
  by_cases hle : n ≤ q.nevents
  · rw [if_pos hle] at hgrow
    cases hgrow
    rfl
  rw [if_neg hle] at hgrow
  by_cases harray : ¬ a.array = true
  · rw [if_pos harray] at hgrow
    cases hgrow
    rfl
  rw [if_neg harray] at hgrow
  obtain ⟨hunk, -, hgrow⟩ := bind_eq_some_iff.mp hgrow
  obtain ⟨rest, -, hgrow⟩ := bind_eq_some_iff.mp hgrow
  obtain ⟨⟨storage, slots, initialized⟩, -, hgrow⟩ := map_eq_some_iff.mp hgrow
  cases initialized with
  | true | false =>
    cases hgrow
    rfl

theorem enqueue_cases (henq : q.enqueue x a = some (q', out)) :
    (q.takes x a ∧ q'.lastEventTime = x.event.time ∧ ∃ time, out = .enqueued time) ∨
    (¬ q.takes x a ∧ q'.lastEventTime = q.lastEventTime ∧ out = .dropped) := by
  unfold enqueue at henq
  by_cases hcomp : q.compresses x
  · rw [if_pos hcomp] at henq
    exact .inl ⟨.inl hcomp, put_lastEventTime henq⟩
  rw [if_neg hcomp] at henq
  by_cases hfull : q.numEnqueued + 1 = q.nevents
  · rw [if_pos hfull] at henq
    obtain ⟨⟨r, grown⟩, hgrow, henq⟩ := bind_eq_some_iff.mp henq
    cases grown with
    | true => exact .inl ⟨.inr (.inr ⟨r, hgrow⟩), put_lastEventTime henq⟩
    | false =>
      cases henq
      have hlast : r.lastEventTime = q.lastEventTime := grow_lastEventTime hgrow
      refine .inr ⟨?_, hlast, rfl⟩
      rintro (hc | hne | ⟨r', hr'⟩)
      · exact hcomp hc
      · exact hne hfull
      · rw [hgrow] at hr'
        cases hr'
  · rw [if_neg hfull] at henq
    exact .inl ⟨.inr (.inl hfull), put_lastEventTime henq⟩

theorem dequeue_lastEventTime (hdeq : q.dequeue = some (q', out)) :
    q'.lastEventTime = q.lastEventTime := by
  by_cases heq : q.head = q.tail
  · rw [dequeue, if_pos heq] at hdeq
    cases hdeq
    rfl
  rw [dequeue, if_neg heq] at hdeq
  obtain ⟨e, -, hdeq⟩ := bind_eq_some_iff.mp hdeq
  obtain ⟨evt, -, hdeq⟩ := bind_eq_some_iff.mp hdeq
  obtain ⟨event, -, hdeq⟩ := map_eq_some_iff.mp hdeq
  rw [← (Prod.mk.inj hdeq).1]

theorem inOrder_iff {act : Act} (hstep : step q act = some (q', out)) :
    InOrder q act ↔ q.lastEventTime ≤ q'.lastEventTime := by
  cases act with
  | enqueue x a =>
    rcases enqueue_cases hstep with ⟨htakes, hlast, -⟩ | ⟨hnot, hlast, -⟩
    · rw [hlast]
      exact ⟨fun hin => hin htakes, fun hle _ => hle⟩
    · rw [hlast]
      exact iff_of_true (fun htakes => absurd htakes hnot) (BitVec.le_refl _)
  | resume =>
    cases hstep
    exact iff_of_true trivial (BitVec.le_refl q.lastEventTime)
  | dequeue =>
    rw [dequeue_lastEventTime hstep]
    exact iff_of_true trivial (BitVec.le_refl q.lastEventTime)

/-- From `low` to `high`, the time stamps in the queue do not decrease. -/
structure Fifo.Ordered (f : Fifo) (low high : BitVec 32) : Prop where
  sorted : f.queue.Pairwise fun e e' => e.event.time ≤ e'.event.time
  above : ∀ e ∈ f.queue, low ≤ e.event.time
  below : ∀ e ∈ f.queue, e.event.time ≤ high
  le : low ≤ high

theorem Fifo.step_enqueued (hreply : (f.step (.enqueue x a)).2 = .enqueued) :
    ∃ kept, kept.Sublist f.queue ∧ (f.step (.enqueue x a)).1.queue = kept ++ [x.entry] := by
  rw [Fifo.step] at hreply ⊢
  split
  · exact ⟨f.queue.dropLast, dropLast_sublist _, rfl⟩
  · next hfollows =>
    rw [if_neg hfollows] at hreply
    split
    · exact ⟨f.queue, List.Sublist.refl _, rfl⟩
    · next hroom =>
      rw [if_neg hroom] at hreply
      split
      · exact ⟨f.queue, List.Sublist.refl _, rfl⟩
      · next hgrows =>
        rw [if_neg hgrows] at hreply
        cases hreply

theorem Fifo.step_dropped (hreply : (f.step (.enqueue x a)).2 = .dropped) :
    (f.step (.enqueue x a)).1.queue = f.queue := by
  rw [Fifo.step] at hreply ⊢
  split
  · next hfollows =>
    rw [if_pos hfollows] at hreply
    cases hreply
  · next hfollows =>
    rw [if_neg hfollows] at hreply
    split
    · next hroom =>
      rw [if_pos hroom] at hreply
      cases hreply
    · next hroom =>
      rw [if_neg hroom] at hreply
      split
      · next hgrows =>
        rw [if_pos hgrows] at hreply
        cases hreply
      · rfl

variable {low : BitVec 32}

theorem Fifo.Ordered.push {high : BitVec 32} (hf : f.Ordered low high) {f' : Fifo}
    {kept : List Entry} (hkept : kept.Sublist f.queue)
    (hqueue : f'.queue = kept ++ [x.entry]) (hx : high ≤ x.event.time) :
    f'.Ordered low x.event.time := by
  have hhigh : ∀ e ∈ kept, e.event.time ≤ x.event.time := fun e he =>
    BitVec.le_trans (hf.below e (hkept.subset he)) hx
  have hlow : low ≤ x.event.time := BitVec.le_trans hf.le hx
  refine ⟨?_, ?_, ?_, hlow⟩
  · rw [hqueue, pairwise_append]
    refine ⟨hf.sorted.sublist hkept, pairwise_singleton _ _, fun e he e' he' => ?_⟩
    rw [mem_singleton.mp he']
    exact hhigh e he
  · intro e he
    rw [hqueue] at he
    rcases mem_append.mp he with he | he
    · exact hf.above e (hkept.subset he)
    · rw [mem_singleton.mp he]
      exact hlow
  · intro e he
    rw [hqueue] at he
    rcases mem_append.mp he with he | he
    · exact hhigh e he
    · rw [mem_singleton.mp he]
      exact BitVec.le_refl _

theorem Fifo.Ordered.step (hf : f.Ordered low q.lastEventTime) {act : Act}
    (hin : InOrder q act) (hstep : EventQueue.step q act = some (q', out))
    (hreply : (f.step act).2 = out.reply) :
    low ≤ out.time.getD low ∧ (f.step act).1.Ordered (out.time.getD low) q'.lastEventTime := by
  cases act with
  | enqueue x a =>
    rcases enqueue_cases hstep with ⟨htakes, hlast, time, rfl⟩ | ⟨hnot, hlast, rfl⟩
    · obtain ⟨kept, hkept, hqueue⟩ := Fifo.step_enqueued hreply
      rw [hlast]
      exact ⟨BitVec.le_refl _, hf.push hkept hqueue (hin htakes)⟩
    · have hqueue := Fifo.step_dropped hreply
      rw [hlast]
      refine ⟨BitVec.le_refl _, ?_, ?_, ?_, hf.le⟩
      · rw [hqueue]
        exact hf.sorted
      · rw [hqueue]
        exact hf.above
      · rw [hqueue]
        exact hf.below
  | resume =>
    cases hstep
    exact ⟨BitVec.le_refl _, hf⟩
  | dequeue =>
    rw [dequeue_lastEventTime hstep]
    rw [Fifo.step] at hreply ⊢
    cases hqueue : f.queue with
    | nil =>
      rw [hqueue] at hreply
      cases out with
      | quiet => exact ⟨BitVec.le_refl _, hf⟩
      | enqueued time | dropped | dequeued event pScreen pDev => cases hreply
    | cons e es =>
      rw [hqueue] at hreply
      have hlow := hf.above
      have hhigh := hf.below
      have hsorted := hf.sorted
      rw [hqueue] at hlow hhigh hsorted
      cases out with
      | quiet | enqueued time | dropped => cases hreply
      | dequeued event pScreen pDev =>
        cases hreply
        exact ⟨hlow _ mem_cons_self, (pairwise_cons.mp hsorted).2,
          (pairwise_cons.mp hsorted).1, fun e he => hhigh e (mem_cons_of_mem _ he),
          hhigh _ mem_cons_self⟩

theorem Fifo.Ordered.run (hf : f.Ordered low q.lastEventTime)
    (hq : Holds q f cells h) {acts : List Act}
    (hg : Run.Guarded EventQueue.step (fun s act => Unbroken s act ∧ InOrder s act) q acts) :
    ∃ q' outs, Run.exec EventQueue.step q acts = some (q', outs) ∧
      (outs.filterMap Out.time).Pairwise (· ≤ ·) ∧ ∀ t ∈ outs.filterMap Out.time, low ≤ t := by
  induction acts generalizing q f cells h low with
  | nil => exact ⟨q, [], rfl, List.Pairwise.nil, fun t ht => absurd ht not_mem_nil⟩
  | cons act acts ih =>
    obtain ⟨q', out, cells', h', hstep, hreply, hq'⟩ := hq.step hg.1.1
    obtain ⟨hle, hf'⟩ := hf.step hg.1.2 hstep hreply
    obtain ⟨q'', outs, hexec, hsorted, hlow⟩ := ih hf' hq' (hg.2 q' out hstep)
    refine ⟨q'', out :: outs, ?_, ?_⟩
    · rw [Run.exec_cons acts hstep, hexec]
      rfl
    · cases htime : out.time with
      | none =>
        rw [htime] at hlow
        rw [filterMap_cons_none htime]
        exact ⟨hsorted, hlow⟩
      | some t =>
        rw [htime] at hle hlow
        rw [filterMap_cons_some htime]
        refine ⟨pairwise_cons.mpr ⟨hlow, hsorted⟩, forall_mem_cons.mpr ⟨hle, ?_⟩⟩
        exact fun t' ht' => BitVec.le_trans hle (hlow t' ht')

end

/-- Events that come in order leave in order, and only those keep `lastEventTime` from going
back. -/
theorem event_times_forward {now : BitVec 32} {a : Allocations} {q : EventQueueRec}
    (hinit : mieqInit now a = some q) (acts : List Act) :
    (Run.Guarded step (fun s act => Unbroken s act ∧ InOrder s act) q acts →
      ∃ q' outs, Run.exec step q acts = some (q', outs) ∧ Forward q acts outs) ∧
    ∀ q' outs, Run.exec step q acts = some (q', outs) → Forward q acts outs →
      Run.Guarded step InOrder q acts := by
  rw [eq_of_init hinit]
  constructor
  · intro hg
    have hempty : Fifo.Ordered { capacity := 512, queue := [] } 0 (startQueue now).lastEventTime :=
      ⟨List.Pairwise.nil, fun e he => absurd he not_mem_nil,
        fun e he => absurd he not_mem_nil, BitVec.le_def.mpr (Nat.zero_le _)⟩
    obtain ⟨q', outs, hexec, hsorted, -⟩ := hempty.run (startQueue_holds now) hg
    refine ⟨q', outs, hexec, ?_, hsorted⟩
    exact Run.always_of_guarded (fun s act s' out hs hstep => (inOrder_iff hstep).mp hs.2) hg
  · intro q' outs hexec hforward
    exact Run.guarded_of_always (fun s act s' out hstep => (inOrder_iff hstep).mpr) hexec
      hforward.1

def keyPressAt (time : BitVec 32) : Input :=
  { keyPress with event := { type := 2, time := time, data := [] } }

def keysAt (first second : BitVec 32) : List Act :=
  [.enqueue (keyPressAt first) allocated, .enqueue (keyPressAt second) allocated, .dequeue,
    .dequeue]

theorem keysAt_unbroken (first second : BitVec 32) :
    Run.Guarded step Unbroken (startQueue 0) (keysAt first second) := by
  apply (startQueue_holds 0).guarded_of_room
  exact (by decide : 0 + 4 < 512)

theorem keysAt_inOrder {first second : BitVec 32} (h : first ≤ second) :
    Run.Guarded step InOrder (startQueue 0) (keysAt first second) := by
  refine ⟨fun _ => BitVec.le_def.mpr (Nat.zero_le _), fun s out hstep => ⟨fun _ => ?_, ?_⟩⟩
  · have henq : (startQueue 0).enqueue (keyPressAt first) allocated = some (s, out) := hstep
    rcases enqueue_cases henq with ⟨-, hlast, -⟩ | ⟨-, hlast, -⟩
    · rw [hlast]
      exact h
    · rw [hlast]
      exact BitVec.le_def.mpr (Nat.zero_le _)
  · exact fun _ _ _ => ⟨trivial, fun _ _ _ => ⟨trivial, fun _ _ _ => trivial⟩⟩

/-- Keys with time stamps 50 and 100. -/
theorem event_times_forward_keys : ∃ q q' outs, mieqInit 0 allocated = some q ∧
    Run.exec step q (keysAt 50 100) = some (q', outs) ∧ Forward q (keysAt 50 100) outs := by
  have hinit : mieqInit 0 allocated = some (startQueue 0) :=
    init_of_allocated 0 rfl fun _ _ => rfl
  obtain ⟨q', outs, hexec, hforward⟩ := (event_times_forward hinit (keysAt 50 100)).1
    (Run.guarded_and (keysAt_unbroken 50 100) (keysAt_inOrder (by decide)))
  exact ⟨startQueue 0, q', outs, hinit, hexec, hforward⟩

/-- A key with time stamp 50 after one with 100 leaves the queue with time stamp 50. -/
theorem event_times_run_back : ∃ q q' outs, mieqInit 0 allocated = some q ∧
    WithinTenSeconds 0 (keysAt 100 50) ∧ Run.exec step q (keysAt 100 50) = some (q', outs) ∧
    outs.filterMap Out.time = [100, 50] ∧ ¬ Forward q (keysAt 100 50) outs := by
  obtain ⟨q', outs, cells, h, hexec, hreplies, -⟩ :=
    (startQueue_holds 0).run (keysAt_unbroken 100 50)
  have htimes : outs.filterMap Out.time = [100, 50] := by
    have hmap : outs.filterMap Out.time = (outs.map Out.reply).filterMap Reply.time :=
      filterMap_map.symm
    rw [hmap, hreplies]
    decide
  refine ⟨startQueue 0, q', outs, init_of_allocated 0 rfl fun _ _ => rfl, ?_, hexec, htimes, ?_⟩
  · exact ⟨.inl (by decide), .inr (by decide), trivial⟩
  · intro hforward
    have hsorted := hforward.2
    rw [htimes] at hsorted
    exact absurd hsorted (by decide)

end Xfront.EventQueue
