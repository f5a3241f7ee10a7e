import Xfront.EventQueue.Fifo

/-!
# Runs of the input event queue

Every run in which no growth fails between two event lists dequeues what a queue with merged motion
events would.
-/

namespace Xfront.EventQueue
open List Option Nat Prod
open RingBuffer (window)

structure Sound (q : EventQueueRec) : Prop where
  head : 0 ≤ q.head ∧ q.head < q.nevents
  tail : 0 ≤ q.tail ∧ q.tail < q.nevents
  length : q.events.length = q.nevents
  live : ∀ slot ∈ q.events, ∃ a event, slot.events = some a ∧ q.storage[a]? = some (some event)
  nodup : (q.events.map EventRec.events).Nodup

/-- A growth either gets no array or gets everything, and the slots can be counted in an int. -/
def Unbroken (q : EventQueueRec) : Act → Prop
  | .enqueue x a => ¬ q.compresses x → q.numEnqueued + 1 = q.nevents → a.array = true →
      2 * q.nevents ≤ 2 ^ 31 ∧ ∀ i, q.nevents ≤ i → i < 2 * q.nevents → a.lists i = true
  | .resume => True
  | .dequeue => True

section

variable {q : EventQueueRec} {f : Fifo} {cells : List (Addr × Entry)} {h : Nat}

theorem Holds.sound (hq : Holds q f cells h) : Sound q := by
  have hlt := hq.head_lt
  have hmod : (h + f.queue.length) % cells.length < cells.length := mod_lt _ hq.length_pos
  refine ⟨?_, ?_, ?_, ?_, ?_⟩
  · rw [hq.head, hq.nevents]
    omega
  · rw [hq.tail, hq.nevents]
    omega
  · rw [hq.events, hq.nevents, length_map]
  · intro slot hslot
    rw [hq.events] at hslot
    obtain ⟨c, hc, rfl⟩ := List.mem_map.mp hslot
    exact ⟨c.1, c.2.event, rfl, hq.live c hc⟩
  · have haddrs : q.events.map EventRec.events = (cells.map fst).map some := by
      rw [hq.events, List.map_map, List.map_map]
      rfl
    rw [haddrs]
    exact hq.nodup.map (some_injective Addr)

theorem Holds.head_eq_tail (hq : Holds q f cells h) : q.head = q.tail ↔ f.queue = [] := by
  rw [← not_iff_not, ← Ne.eq_def f.queue, ← hq.tail_ne_head, hq.toUnsigned_tail,
    hq.toUnsigned_head, hq.head, hq.tail]
  omega

theorem Holds.dequeue (hq : Holds q f cells h) {e : Entry} {es : List Entry}
    (hqueue : f.queue = e :: es) :
    ∃ q', q.dequeue = some (q', .dequeued e.event e.pScreen e.pDev) ∧
      Holds q' { f with queue := es } cells ((h + 1) % cells.length) := by
  have hle := hq.length_le
  have hlt := hq.head_lt
  have hlength : f.queue.length = es.length + 1 := by
    rw [hqueue]
    rfl
  have hroom := hq.room
  have hne : ¬ q.head = q.tail := by
    rw [hq.head_eq_tail, hqueue]
    exact cons_ne_nil e es
  obtain ⟨c, hc⟩ : ∃ c, cells[h]? = some c := ⟨_, getElem?_eq_getElem hlt⟩
  have hslot : q.events[h]? = some (slotOf c) := by
    rw [hq.events, getElem?_map, hc]
    rfl
  have hwindow : e = c.2 ∧ (window cells ((h + 1) % cells.length) es.length).map snd = es := by
    have hmap := hq.queue
    rw [hlength, RingBuffer.window_pop hc (by omega), map_cons, hqueue] at hmap
    exact ⟨(cons.inj hmap).1.symm, (cons.inj hmap).2⟩
  have hhead : toInt (toSize (q.head + 1) % q.nevents) = ((h + 1) % cells.length : Nat) := by
    have hsucc : (h : Int) + 1 = ((h + 1 : Nat) : Int) := by omega
    have hsize : toSize ((h + 1 : Nat) : Int) = h + 1 := toSize_nat (by omega)
    rw [hq.head, hsucc, hsize, hq.nevents, toInt_nat (hq.offset_lt 1)]
  refine ⟨{ q with head := ((h + 1) % cells.length : Nat) }, ?_, ?_⟩
  · rw [EventQueueRec.dequeue, if_neg hne, hq.toSize_head, hslot, bind_some]
    simp only [slotOf, bind_some, hq.live c (mem_of_getElem? hc), join_some,
      map_some, hwindow.1, hhead]
  · refine ⟨hq.nevents, hq.events, hq.live, hq.nodup, hq.capacity, rfl, ?_, ?_, ?_, hwindow.2,
      ?_, hq.size⟩
    · exact mod_lt _ hq.length_pos
    · rw [mod_add_mod, add_assoc, add_comm 1, ← hlength]
      exact hq.tail
    · exact lt_trans (by omega : es.length < f.queue.length) hroom
    · intro last hlast
      refine hq.lastMotion last ?_
      rw [hqueue]
      cases es with
      | nil => cases hlast
      | cons e' es => exact hlast

open Allocations

theorem Allocations.grows_iff (a : Allocations) (n : Nat) :
    a.grows n = true ↔ a.array = true ∧ ∀ i, n ≤ i → i < 2 * n → a.lists i = true := by
  rw [grows, Bool.and_eq_true, List.all_eq_true]
  simp only [mem_range'_1, and_imp, two_mul]

theorem Holds.enqueue (hq : Holds q f cells h) {x : Input} {a : Allocations}
    (hg : Unbroken q (.enqueue x a)) : ∃ q' out cells' h', q.enqueue x a = some (q', out) ∧
      (f.step (.enqueue x a)).2 = out.reply ∧ Holds q' (f.step (.enqueue x a)).1 cells' h' := by
  rw [EventQueueRec.enqueue]
  by_cases hcomp : q.compresses x
  · -- the last entry is written again
    have hfollows := (hq.compresses_iff x).mp hcomp
    have hne : f.queue ≠ [] := by
      intro hnil
      obtain ⟨last, hlast, -⟩ := hfollows
      rw [hnil] at hlast
      cases hlast
    have hpos : 0 < f.queue.length := length_pos_iff.mpr hne
    have hroom := hq.room
    obtain ⟨q', t, cells', hput, hq'⟩ := hq.put x (sub_le f.queue.length 1) (by omega)
    rw [if_pos hcomp, hq.slot_before hne, Fifo.step, if_pos hfollows]
    rw [← dropLast_eq_take] at hq'
    exact ⟨q', _, cells', h, hput, rfl, hq'⟩
  have hfollows := fun hf => hcomp ((hq.compresses_iff x).mpr hf)
  rw [if_neg hcomp, Fifo.step, if_neg hfollows, hq.numEnqueued, hq.nevents]
  have hroom := hq.room
  by_cases hfull : f.queue.length + 1 = cells.length
  · rw [if_pos hfull, if_neg (by rw [hq.capacity]; omega)]
    by_cases harray : a.array = true
    · have hall := hg hcomp (by rw [hq.numEnqueued, hq.nevents]; exact hfull) harray
      obtain ⟨q', hgrow, hq'⟩ := hq.grow harray hall.2 hall.1
      have hgrows : a.grows f.capacity = true := by
        rw [grows_iff, hq.capacity, ← hq.nevents]
        exact ⟨harray, hall.2⟩
      have hlen : f.queue.length + 1 < (cells.rotate h ++
          freshCells q.storage.length cells.length).length := by
        rw [← hq'.capacity]
        show f.queue.length + 1 < 2 * f.capacity
        rw [hq.capacity]
        omega
      obtain ⟨q'', t, cells', hput, hq''⟩ := hq'.put x (le_refl f.queue.length) hlen
      rw [if_pos hgrows, ← hq.nevents, hgrow, bind_some]
      refine ⟨q'', .enqueued t, cells', 0, ?_, rfl, ?_⟩
      · simp only [if_true, hq'.toUnsigned_tail]
        exact hput
      · rw [take_length] at hq''
        exact hq''
    · have hgrows : ¬ a.grows f.capacity = true := by
        rw [grows_iff]
        exact fun hall => harray hall.1
      have hgrow : q.grow (2 * cells.length) a = some (q, false) := by
        rw [EventQueueRec.grow, if_pos harray]
        split <;> rfl
      rw [if_neg hgrows, hgrow, bind_some]
      refine ⟨_, _, cells, h, rfl, rfl, ?_⟩
      exact ⟨hq.nevents, hq.events, hq.live, hq.nodup, hq.capacity, hq.head, hq.head_lt, hq.tail,
        hq.room, hq.queue, hq.lastMotion, hq.size⟩
  · obtain ⟨q', t, cells', hput, hq'⟩ := hq.put x (le_refl f.queue.length) (by omega)
    rw [if_neg hfull, if_pos (by rw [hq.capacity]; omega), hq.toUnsigned_tail]
    rw [take_length] at hq'
    exact ⟨q', _, cells', h, hput, rfl, hq'⟩

theorem Holds.step (hq : Holds q f cells h) {act : Act} (hg : Unbroken q act) :
    ∃ q' out cells' h', EventQueue.step q act = some (q', out) ∧
      (f.step act).2 = out.reply ∧ Holds q' (f.step act).1 cells' h' := by
  cases act with
  | enqueue x a => exact hq.enqueue hg
  | resume =>
    refine ⟨_, _, cells, h, rfl, rfl, ?_⟩
    exact ⟨hq.nevents, hq.events, hq.live, hq.nodup, hq.capacity, hq.head, hq.head_lt, hq.tail,
      hq.room, hq.queue, hq.lastMotion, hq.size⟩
  | dequeue =>
    rw [Fifo.step]
    cases hqueue : f.queue with
    | nil =>
      refine ⟨q, .quiet, cells, h, ?_, rfl, hq⟩
      exact if_pos (hq.head_eq_tail.mpr hqueue)
    | cons e es =>
      obtain ⟨q', hdeq, hq'⟩ := hq.dequeue hqueue
      exact ⟨q', _, cells, _, hdeq, rfl, hq'⟩

end

def startQueue (now : BitVec 32) : EventQueueRec :=
  { EventQueueRec.cleared now with
    events := (freshCells 0 512).map slotOf
    nevents := 512
    storage := replicate 512 (some InternalEvent.zero) }

theorem mieqInit_eq (now : BitVec 32) (a : Allocations) : mieqInit now a = if a.array = true then
      (initSlots a.lists [] 512 [] []).bind fun (storage, slots, initialized) =>
        if initialized then some { startQueue now with events := slots, storage := storage }
        else none
    else none := by
  have hnevents : (EventQueueRec.cleared now).nevents = 0 := rfl
  have hstorage : (EventQueueRec.cleared now).storage = [] := rfl
  have hhead : toSize (EventQueueRec.cleared now).head = 0 := rfl
  have hread : readSlots (EventQueueRec.cleared now).events 0 0 = some [] := rfl
  have htail : toInt (EventQueueRec.cleared now).numEnqueued = 0 := by
    rw [EventQueueRec.numEnqueued, if_neg (not_not_intro hnevents)]
    rfl
  rw [mieqInit, EventQueueRec.grow, hnevents, if_neg (by decide)]
  by_cases harray : a.array = true
  · rw [if_neg (not_not_intro harray), if_pos harray]
    simp only [hhead, hread, htail, hstorage, bind_some, append_nil, nil_append, Nat.sub_zero]
    cases initSlots a.lists [] 512 [] [] with
    | none => rfl
    | some r =>
      obtain ⟨storage, slots, initialized⟩ := r
      cases initialized <;> rfl
  · rw [if_pos harray, if_neg harray]
    rfl

variable {a : Allocations}

theorem init_of_allocated (now : BitVec 32) (harray : a.array = true)
    (hall : ∀ i, i < 512 → a.lists i = true) : mieqInit now a = some (startQueue now) := by
  rw [mieqInit_eq, if_pos harray, initSlots_all fun i _ hhi => hall i (by simpa using hhi)]
  rfl

variable {q : EventQueueRec}

theorem eq_of_init {now : BitVec 32} (hinit : mieqInit now a = some q) : q = startQueue now := by
  rw [mieqInit_eq] at hinit
  split at hinit
  · obtain ⟨⟨storage, slots, initialized⟩, hslots, hsome⟩ := bind_eq_some_iff.mp hinit
    cases initialized with
    | false => cases hsome
    | true =>
      rw [initSlots_all (lists_of_initSlots hslots)] at hslots
      cases hslots
      cases hsome
      rfl
  · cases hinit

theorem startQueue_holds (now : BitVec 32) :
    Holds (startQueue now) { capacity := 512, queue := [] } (freshCells 0 512) 0 := by
  have hlen : (freshCells 0 512).length = 512 := by
    rw [freshCells, length_map, length_range']
  refine ⟨hlen.symm, rfl, ?_, ?_, hlen.symm, rfl, ?_, ?_, ?_, rfl, ?_, ⟨9, by decide, hlen⟩⟩
  · intro c hc
    obtain ⟨a, ha, rfl⟩ := List.mem_map.mp hc
    rw [mem_range'_1] at ha
    have hlt : a < 512 := ha.2
    rw [startQueue, getElem?_replicate, if_pos hlt]
    rfl
  · rw [freshCells, List.map_map]
    exact (List.map_id (range' 0 512)).symm ▸ nodup_range'
  · rw [hlen]
    decide
  · rw [hlen]
    rfl
  · rw [hlen]
    decide
  · intro e he
    cases he

variable {f : Fifo} {cells : List (Addr × Entry)} {h : Nat}

theorem Holds.run (hq : Holds q f cells h) {acts : List Act}
    (hg : Run.Guarded EventQueue.step Unbroken q acts) :
    ∃ q' outs cells' h', Run.exec EventQueue.step q acts = some (q', outs) ∧
      outs.map Out.reply = (f.run acts).2 ∧ Holds q' (f.run acts).1 cells' h' := by
  induction acts generalizing q f cells h with
  | nil => exact ⟨q, [], cells, h, rfl, rfl, hq⟩
  | cons act acts ih =>
    obtain ⟨q', out, cells', h', hstep, hreply, hq'⟩ := hq.step hg.1
    obtain ⟨q'', outs, cells'', h'', hexec, hreplies, hq''⟩ := ih hq' (hg.2 q' out hstep)
    refine ⟨q'', out :: outs, cells'', h'', ?_, ?_, hq''⟩
    · rw [Run.exec_cons acts hstep, hexec]
      rfl
    · rw [map_cons, hreplies, ← hreply]
      rfl

theorem length_step_le (f : Fifo) (act : Act) :
    (f.step act).1.queue.length ≤ f.queue.length + 1 ∧ f.capacity ≤ (f.step act).1.capacity := by
  cases act with
  | enqueue x a =>
    rw [Fifo.step]
    split
    · refine ⟨?_, le_refl _⟩
      simp only [length_append, length_dropLast, length_singleton]
      omega
    · split
      · exact ⟨by simp, le_refl _⟩
      · split
        · exact ⟨by simp, by simp only; omega⟩
        · exact ⟨le_succ _, le_refl _⟩
  | resume => exact ⟨le_succ _, le_refl _⟩
  | dequeue =>
    rw [Fifo.step]
    split
    · exact ⟨le_succ _, le_refl _⟩
    · next e es hqueue =>
      rw [hqueue]
      exact ⟨by simp only [length_cons]; omega, le_refl _⟩

theorem Holds.guarded_of_room (hq : Holds q f cells h) {acts : List Act}
    (hroom : f.queue.length + acts.length < f.capacity) :
    Run.Guarded EventQueue.step Unbroken q acts := by
  induction acts generalizing q f cells h with
  | nil => trivial
  | cons act acts ih =>
    rw [length_cons] at hroom
    have hg : Unbroken q act := by
      cases act with
      | enqueue x a =>
        intro _ hfull
        rw [hq.numEnqueued, hq.nevents, ← hq.capacity] at hfull
        omega
      | resume => trivial
      | dequeue => trivial
    obtain ⟨q', out, cells', h', hstep, -, hq'⟩ := hq.step hg
    obtain ⟨hlen, hcap⟩ := length_step_le f act
    exact Run.guarded_cons hg hstep (ih hq' (by omega))

/-- Without a growth that breaks off, the queue gives and drops what a list would that merges
motion events, and stays sound. -/
theorem eventQueue_fifo {now : BitVec 32} {a : Allocations} {q : EventQueueRec}
    {acts : List Act} (hinit : mieqInit now a = some q) (hg : Run.Guarded step Unbroken q acts) :
    ∃ q' outs, Run.exec step q acts = some (q', outs) ∧
      outs.map Out.reply = (Fifo.run { capacity := 512, queue := [] } acts).2 ∧
      q'.nevents = (Fifo.run { capacity := 512, queue := [] } acts).1.capacity ∧ Sound q' := by
  rw [eq_of_init hinit] at hg ⊢
  obtain ⟨q', outs, cells, h, hexec, hreplies, hq⟩ := (startQueue_holds now).run hg
  exact ⟨q', outs, hexec, hreplies, hq.nevents.trans hq.capacity.symm, hq.sound⟩

def allocated : Allocations := { array := true, lists := fun _ => true }

def pointerMotion (time : BitVec 32) : Input :=
  { event := { type := motion, time := time, data := [] }
    pDev := some { id := 2, id_pos := by decide }
    enqueueScreen := some 0
    pDev_of_motion := fun _ => some_ne_none _ }

def keyPress : Input :=
  { event := { type := 2, time := 0, data := [] }
    pDev := some { id := 3, id_pos := by decide }
    enqueueScreen := some 0
    pDev_of_motion := fun _ => some_ne_none _ }

/-- Of two motion events the second is dequeued. -/
theorem eventQueue_fifo_merges : ∃ q q' outs, mieqInit 0 allocated = some q ∧
      Run.exec step q [.enqueue (pointerMotion 1) allocated, .enqueue (pointerMotion 2) allocated,
        .dequeue] = some (q', outs) ∧
      outs.map Out.reply = [.enqueued, .enqueued, .dequeued (pointerMotion 2).entry] := by
  have hinit : mieqInit 0 allocated = some (startQueue 0) :=
    init_of_allocated 0 rfl fun _ _ => rfl
  obtain ⟨q', outs, hexec, hreplies, -⟩ := eventQueue_fifo hinit
    ((startQueue_holds 0).guarded_of_room (by decide :
      0 + [Act.enqueue (pointerMotion 1) allocated, Act.enqueue (pointerMotion 2) allocated,
        Act.dequeue].length < 512))
  exact ⟨startQueue 0, q', outs, hinit, hexec, hreplies⟩

theorem freeEventLists_all {cs : List (Addr × Entry)} {storage : List (Option InternalEvent)}
    (hnodup : (cs.map fst).Nodup) (hlive : ∀ c ∈ cs, storage[c.1]? = some (some c.2.event)) :
    ∃ storage', freeEventLists (cs.map slotOf) storage = some storage' ∧
      (∀ c ∈ cs, storage'[c.1]? = some none) ∧
      ∀ a, a ∉ cs.map fst → storage'[a]? = storage[a]? := by
  induction cs generalizing storage with
  | nil => exact ⟨storage, rfl, by simp, fun _ _ => rfl⟩
  | cons c cs ih =>
    rw [map_cons, nodup_cons] at hnodup
    have hc := hlive c mem_cons_self
    have hlive' : ∀ d ∈ cs, (storage.set c.1 none)[d.1]? = some (some d.2.event) := by
      intro d hd
      have hne : c.1 ≠ d.1 := fun heq => hnodup.1 (heq ▸ List.mem_map_of_mem hd)
      rw [getElem?_set_ne hne]
      exact hlive d (mem_cons_of_mem c hd)
    obtain ⟨storage', hfree, hfreed, hframe⟩ := ih hnodup.2 hlive'
    refine ⟨storage', ?_, ?_, ?_⟩
    · rw [map_cons, freeEventLists]
      simp only [slotOf, hc, join_some, bind_some]
      exact hfree
    · intro d hd
      rcases mem_cons.mp hd with rfl | hd
      · rw [hframe d.1 hnodup.1]
        exact getElem?_set_self (List.getElem?_eq_some_iff.mp hc).1
      · exact hfreed d hd
    · intro a ha
      rw [map_cons, mem_cons, not_or] at ha
      rw [hframe a ha.2, getElem?_set_ne (Ne.symm ha.1)]

theorem initSlots_broken {lists : Nat → Bool} {copied slots : List EventRec}
    {cs : List (Addr × Entry)} {n : Nat} {storage : List (Option InternalEvent)}
    (hslots : copied ++ slots = cs.map slotOf) (hnodup : (cs.map fst).Nodup)
    (hlive : ∀ c ∈ cs, storage[c.1]? = some (some c.2.event))
    (hbroken : ∃ i, copied.length + slots.length ≤ i ∧
      i < copied.length + slots.length + n ∧ lists i = false) :
    ∃ storage' slots', initSlots lists copied n slots storage = some (storage', slots', false) ∧
      ∀ c ∈ cs, storage'[c.1]? = some none := by
  induction n generalizing slots cs storage with
  | zero =>
    obtain ⟨i, hlo, hhi, -⟩ := hbroken
    omega
  | succ n ih =>
    rw [initSlots]
    split
    · next hfirst =>
      have hfresh : ∀ c ∈ cs, c.1 < storage.length := fun c hc =>
        (List.getElem?_eq_some_iff.mp (hlive c hc)).1
      obtain ⟨storage', slots', hinit, hfreed⟩ := @ih
        (slots ++ [{ events := some storage.length, pScreen := none, pDev := none }])
        (cs ++ [(storage.length, emptyEntry)]) (storage ++ [some InternalEvent.zero])
        (by rw [← append_assoc, hslots, map_append]; rfl)
        (by
          rw [map_append, nodup_append]
          refine ⟨hnodup, nodup_singleton _, ?_⟩
          intro a ha b hb heq
          obtain ⟨c, hc, rfl⟩ := List.mem_map.mp ha
          rw [map_singleton, mem_singleton] at hb
          exact Nat.ne_of_lt (hfresh c hc) (heq.trans hb))
        (by
          intro c hc
          rcases mem_append.mp hc with hold | hnew
          · rw [getElem?_append_left (hfresh c hold)]
            exact hlive c hold
          · rw [mem_singleton] at hnew
            subst hnew
            exact getElem?_concat_length)
        (by
          obtain ⟨i, hlo, hhi, hi⟩ := hbroken
          rw [length_append, length_singleton]
          have hne : i ≠ copied.length + slots.length := by
            intro heq
            rw [heq, hfirst] at hi
            cases hi
          exact ⟨i, by omega, by omega, hi⟩)
      exact ⟨storage', slots', hinit, fun c hc => hfreed c (mem_append_left _ hc)⟩
    · obtain ⟨storage', hfree, hfreed, -⟩ := freeEventLists_all hnodup hlive
      rw [hslots, hfree]
      exact ⟨storage', slots, rfl, hfreed⟩

theorem Holds.broken (hq : Holds q f cells h) {x : Input} (hcomp : ¬ q.compresses x)
    (hfull : f.queue.length + 1 = f.capacity) (hne : f.queue ≠ []) (harray : a.array = true)
    (hbroken : ∃ i, q.nevents ≤ i ∧ i < 2 * q.nevents ∧ a.lists i = false) :
    ∃ q', q.enqueue x a = some (q', .dropped) ∧ q'.dequeue = none := by
  have hpos := hq.length_pos
  have htwo : 2 * q.nevents - cells.length = cells.length := by
    rw [hq.nevents]
    omega
  have hlive : ∀ c ∈ cells.rotate h, q.storage[c.1]? = some (some c.2.event) :=
    fun c hc => hq.live c (mem_rotate.mp hc)
  have hnodup : ((cells.rotate h).map fst).Nodup := by
    rw [map_rotate]
    exact nodup_rotate.mpr hq.nodup
  have hlists : ∃ i, ((cells.rotate h).map slotOf).length + ([] : List EventRec).length ≤ i ∧
      i < ((cells.rotate h).map slotOf).length + ([] : List EventRec).length + cells.length ∧
      a.lists i = false := by
    obtain ⟨i, hlo, hhi, hi⟩ := hbroken
    rw [hq.nevents] at hlo hhi
    rw [length_map, length_rotate, length_nil]
    exact ⟨i, by omega, by omega, hi⟩
  obtain ⟨storage', slots', hinit, hfreed⟩ := initSlots_broken (append_nil _) hnodup hlive hlists
  have hgrow : q.grow (2 * q.nevents) a = some ({ q with storage := storage' }, false) := by
    rw [hq.grow_eq harray (by rw [hq.nevents]; omega), htwo, hinit]
    rfl
  rw [hq.capacity, ← hq.nevents, ← hq.numEnqueued] at hfull
  refine ⟨{ q with storage := storage', dropped := q.dropped + 1 }, ?_, ?_⟩
  · rw [EventQueueRec.enqueue, if_neg hcomp, if_pos hfull, hgrow]
    rfl
  · have hne' : ¬ q.head = q.tail := by
      rw [hq.head_eq_tail]
      exact hne
    obtain ⟨c, hc⟩ : ∃ c, cells[h]? = some c := ⟨_, getElem?_eq_getElem hq.head_lt⟩
    have hslot : q.events[h]? = some (slotOf c) := by
      rw [hq.events, getElem?_map, hc]
      rfl
    rw [EventQueueRec.dequeue, if_neg hne', hq.toSize_head, hslot, bind_some]
    simp only [slotOf, bind_some, hfreed c (mem_rotate.mpr (mem_of_getElem? hc)), join_some,
      map_none]

theorem run_fill {x : Input} (hx : x.event.type ≠ motion) (a : Allocations) {n : Nat}
    (hroom : f.queue.length + n < f.capacity) :
    (f.run (replicate n (.enqueue x a))).1 =
      { f with queue := f.queue ++ replicate n x.entry } := by
  induction n generalizing f with
  | zero => simp [Fifo.run]
  | succ n ih =>
    have hfollows : ¬ ∃ last ∈ f.queue.getLast?, x.entry.follows last := by
      rintro ⟨last, -, hmotion, -⟩
      exact hx hmotion
    have hstep : f.step (.enqueue x a) = ({ f with queue := f.queue ++ [x.entry] }, .enqueued) := by
      rw [Fifo.step, if_neg hfollows, if_pos (by omega)]
    rw [replicate_succ, Fifo.run, hstep]
    have hroom' : (f.queue ++ [x.entry]).length + n < f.capacity := by
      rw [length_append, length_singleton]
      omega
    have hrest := @ih { f with queue := f.queue ++ [x.entry] } hroom'
    rw [append_assoc] at hrest
    exact hrest

/-- The queue is full of key events, and the first event list of the new portion cannot be
had. -/
theorem eventQueue_dangles : ∃ q, mieqInit 0 allocated = some q ∧
      Run.exec step q (List.replicate 511 (.enqueue keyPress allocated) ++
        [.enqueue keyPress { array := true, lists := fun _ => false }, .dequeue]) = none := by
  have hkey : keyPress.event.type ≠ motion := by decide
  refine ⟨startQueue 0, init_of_allocated 0 rfl fun _ _ => rfl, ?_⟩
  have hg : Run.Guarded step Unbroken (startQueue 0)
      (replicate 511 (.enqueue keyPress allocated)) :=
    (startQueue_holds 0).guarded_of_room (by rw [length_replicate]; decide)
  obtain ⟨q, outs, cells, h, hexec, -, hq⟩ := (startQueue_holds 0).run hg
  rw [run_fill hkey allocated (by decide), nil_append] at hq
  have hcomp : ¬ q.compresses keyPress := by
    rw [hq.compresses_iff]
    rintro ⟨last, -, hmotion, -⟩
    exact hkey hmotion
  have hnevents : q.nevents = 512 := hq.nevents.trans hq.capacity.symm
  obtain ⟨q', henqueue, hdequeue⟩ := hq.broken hcomp (by rw [length_replicate])
    (by rw [Ne, replicate_eq_nil_iff]; decide) (a := { array := true, lists := fun _ => false }) rfl
    ⟨512, by omega, by omega, rfl⟩
  have hstep : step q (.enqueue keyPress { array := true, lists := fun _ => false }) =
      some (q', .dropped) := henqueue
  rw [Run.exec_append hexec, Run.exec_cons _ hstep, Run.exec, step, hdequeue]
  rfl

end Xfront.EventQueue
