import Xfront.EventQueue.Model
import Xfront.Lib.RingBuffer

/-!
# The input event queue is a queue

The queue as a list, to whose last entry a motion event of the same device is merged, and the
proof that the ring of slots behaves like it as long as no growth fails halfway.
-/

namespace Xfront.EventQueue
open List Option Nat Prod EventQueueRec
open RingBuffer (window)

structure Entry where
  event : InternalEvent
  pScreen : Option Screen
  pDev : Option Device
deriving DecidableEq

def Input.entry (x : Input) : Entry :=
  { event := x.event
    pScreen := x.pDev.bind fun _ => x.enqueueScreen
    pDev := x.pDev }

structure Fifo where
  capacity : Nat
  queue : List Entry
deriving DecidableEq

inductive Reply where
  | enqueued
  | dropped
  | dequeued (e : Entry)
  | quiet
deriving DecidableEq

def Out.reply : Out → Reply
  | .enqueued _ => .enqueued
  | .dropped => .dropped
  | .dequeued event pScreen pDev => .dequeued ⟨event, pScreen, pDev⟩
  | .quiet => .quiet

def Entry.follows (e last : Entry) : Prop :=
  e.event.type = motion ∧ last.event.type = motion ∧ e.pDev = last.pDev

instance (e last : Entry) : Decidable (e.follows last) := inferInstanceAs (Decidable (_ ∧ _))

def Allocations.grows (a : Allocations) (capacity : Nat) : Bool :=
  a.array && (range' capacity capacity).all a.lists

def Fifo.step (f : Fifo) : Act → Fifo × Reply
  | .enqueue x a =>
    if ∃ last ∈ f.queue.getLast?, x.entry.follows last then
      ({ f with queue := f.queue.dropLast ++ [x.entry] }, .enqueued)
    else if f.queue.length + 1 < f.capacity then
      ({ f with queue := f.queue ++ [x.entry] }, .enqueued)
    else if a.grows f.capacity then
      ({ capacity := 2 * f.capacity, queue := f.queue ++ [x.entry] }, .enqueued)
    else (f, .dropped)
  | .resume => (f, .quiet)
  | .dequeue =>
    match f.queue with
    | [] => (f, .quiet)
    | e :: es => ({ f with queue := es }, .dequeued e)

def Fifo.run : Fifo → List Act → Fifo × List Reply
  | f, [] => (f, [])
  | f, act :: acts =>
    let (f', reply) := f.step act
    let (f'', replies) := f'.run acts
    (f'', reply :: replies)

def slotOf (c : Addr × Entry) : EventRec :=
  { events := some c.1, pScreen := c.2.pScreen, pDev := c.2.pDev }

def Entry.isMotion (e : Entry) : Nat :=
  if e.event.type = motion then
    match e.pDev with
    | some dev => dev.id
    | none => 0
  else 0

/-- The slots hold the entries of the queue in storage of their own. `cells` are all slots, in
use or not. -/
structure Holds (q : EventQueueRec) (f : Fifo) (cells : List (Addr × Entry)) (h : Nat) : Prop where
  nevents : q.nevents = cells.length
  events : q.events = cells.map slotOf
  live : ∀ c ∈ cells, q.storage[c.1]? = some (some c.2.event)
  nodup : (cells.map fst).Nodup
  capacity : f.capacity = cells.length
  head : q.head = h
  head_lt : h < cells.length
  tail : q.tail = ((h + f.queue.length) % cells.length : Nat)
  room : f.queue.length < cells.length
  queue : (window cells h f.queue.length).map snd = f.queue
  lastMotion : ∀ e ∈ f.queue.getLast?, q.lastMotion = e.isMotion
  size : ∃ k, k ≤ 31 ∧ cells.length = 2 ^ k

variable {n : Nat}

theorem toUnsigned_nat (h : n < 2 ^ 31) : toUnsigned n = n := by
  rw [toUnsigned]
  omega

theorem toSize_nat (h : n < 2 ^ 32) : toSize n = n := by
  rw [toSize]
  omega

theorem toInt_nat (h : n < 2 ^ 31) : toInt n = n := by
  exact Int.bmod_eq_of_le (by omega) (by omega)

section

variable {q : EventQueueRec} {f : Fifo} {cells : List (Addr × Entry)} {h : Nat}

section
variable (hq : Holds q f cells h)
include hq

theorem Holds.length_pos : 0 < cells.length := zero_lt_of_lt hq.head_lt

theorem Holds.length_le : cells.length ≤ 2 ^ 31 := by
  obtain ⟨k, hk, hlen⟩ := hq.size
  rw [hlen]
  exact Nat.pow_le_pow_right (by decide) hk

theorem Holds.length_dvd : cells.length ∣ 2 ^ 32 := by
  obtain ⟨k, hk, hlen⟩ := hq.size
  rw [hlen]
  exact Nat.pow_dvd_pow 2 (le_trans hk (by decide))

theorem Holds.offset_lt (i : Nat) : (h + i) % cells.length < 2 ^ 31 :=
  lt_of_lt_of_le (mod_lt _ hq.length_pos) hq.length_le

theorem Holds.toUnsigned_tail : toUnsigned q.tail = (h + f.queue.length) % cells.length := by
  rw [hq.tail, toUnsigned_nat (hq.offset_lt _)]

theorem Holds.toSize_head : toSize q.head = h := by
  have hlt := hq.head_lt
  have hle := hq.length_le
  rw [hq.head, toSize_nat (by omega)]

theorem Holds.toUnsigned_head : toUnsigned q.head = h := by
  have hlt := hq.head_lt
  have hle := hq.length_le
  rw [hq.head, toUnsigned_nat (by omega)]

end

variable {n : Nat}

theorem offset_cases {len : Nat} (hh : h < len) (hn : n < len) :
    (h + n < len ∧ (h + n) % len = h + n) ∨ (len ≤ h + n ∧ (h + n) % len = h + n - len) := by
  rcases lt_or_ge (h + n) len with hlt | hge
  · exact .inl ⟨hlt, mod_eq_of_lt hlt⟩
  · refine .inr ⟨hge, ?_⟩
    rw [mod_eq_sub_mod hge, mod_eq_of_lt (by omega)]

theorem Holds.numEnqueued (hq : Holds q f cells h) : q.numEnqueued = f.queue.length := by
  have hpos := hq.length_pos
  have hle := hq.length_le
  have hlt := hq.head_lt
  have hroom := hq.room
  have hne : cells.length ≠ 0 := ne_of_gt hpos
  simp only [EventQueueRec.numEnqueued, hq.nevents, hq.head, hq.tail, toSize, if_pos hne]
  rcases offset_cases hq.head_lt hq.room with ⟨hin, hmod⟩ | ⟨hge, hmod⟩
  · rw [hmod, if_pos (by omega)]
    omega
  · rw [hmod, if_neg (by omega)]
    omega

theorem Holds.tail_ne_head (hq : Holds q f cells h) :
    toUnsigned q.tail ≠ toUnsigned q.head ↔ f.queue ≠ [] := by
  rw [hq.toUnsigned_tail, hq.toUnsigned_head, ← length_pos_iff]
  have hroom := hq.room
  have hlt := hq.head_lt
  rcases offset_cases hq.head_lt hq.room with ⟨hin, hmod⟩ | ⟨hge, hmod⟩
  · rw [hmod]
    omega
  · rw [hmod]
    omega

variable {c : Addr × Entry}

theorem Holds.eq_of_addr (hq : Holds q f cells h) {d : Addr × Entry} (hc : c ∈ cells)
    (hd : d ∈ cells) (heq : c.1 = d.1) : c = d :=
  inj_on_of_nodup_map hq.nodup hc hd heq

variable {i : Nat}

theorem Holds.live_set (hq : Holds q f cells h) (hc : cells[i]? = some c) (e : Entry) :
    ∀ d ∈ cells.set i (c.1, e),
      (q.storage.set c.1 (some e.event))[d.1]? = some (some d.2.event) := by
  obtain ⟨hi, hget⟩ := List.getElem?_eq_some_iff.mp hc
  have hmem : c ∈ cells := mem_of_getElem? hc
  have hlive := hq.live c hmem
  have hlt : c.1 < q.storage.length := (List.getElem?_eq_some_iff.mp hlive).1
  intro d hd
  obtain ⟨j, hj⟩ := mem_iff_getElem?.mp hd
  rw [getElem?_set] at hj
  split at hj
  · cases hj
    exact getElem?_set_self hlt
  · next hij =>
    have hdmem : d ∈ cells := mem_of_getElem? hj
    have hne : c.1 ≠ d.1 := by
      intro heq
      rw [hq.eq_of_addr hmem hdmem heq] at hc
      obtain ⟨hj', hgetj⟩ := List.getElem?_eq_some_iff.mp hj
      obtain ⟨hi', hgeti⟩ := List.getElem?_eq_some_iff.mp hc
      exact hij ((List.Nodup.getElem_inj_iff hq.nodup.of_map).mp (hgeti.trans hgetj.symm))
    rw [getElem?_set_ne hne]
    exact hq.live d hdmem

theorem isMotion_entry (x : Input) : x.entry.isMotion = x.isMotion := rfl

theorem Holds.put (hq : Holds q f cells h) (x : Input) (hi : i ≤ f.queue.length)
    (hroom : i + 1 < cells.length) :
    ∃ q' t cells', q.put ((h + i) % cells.length) x = some (q', .enqueued t) ∧
      Holds q' { f with queue := f.queue.take i ++ [x.entry] } cells' h := by
  have hidx : (h + i) % cells.length < cells.length := mod_lt _ hq.length_pos
  obtain ⟨c, hc⟩ : ∃ c, cells[(h + i) % cells.length]? = some c := ⟨_, getElem?_eq_getElem hidx⟩
  have hmem : c ∈ cells := mem_of_getElem? hc
  have hslot : q.events[(h + i) % cells.length]? = some (slotOf c) := by
    rw [hq.events, getElem?_map, hc]
    rfl
  have hlength : (f.queue.take i ++ [x.entry]).length = i + 1 := by
    rw [length_append, length_take, min_eq_left hi, length_singleton]
  have hset : (cells.set ((h + i) % cells.length) (c.1, x.entry)).length = cells.length :=
    length_set
  have htail : toInt (((h + i) % cells.length + 1) % 2 ^ 32 % q.nevents) =
      ((h + (i + 1)) % cells.length : Nat) := by
    have hle := hq.length_le
    rw [hq.nevents, mod_eq_of_lt (lt_of_le_of_lt hidx (by omega) : _ + 1 < 2 ^ 32),
      mod_add_mod, add_assoc, toInt_nat (hq.offset_lt _)]
  have hput : q.put ((h + i) % cells.length) x = some
      ({ q with
        storage := q.storage.set c.1 (some x.event)
        lastEventTime := x.event.time
        events := q.events.set ((h + i) % cells.length) (slotOf (c.1, x.entry))
        lastMotion := x.isMotion
        tail := toInt (((h + i) % cells.length + 1) % 2 ^ 32 % q.nevents) },
      .enqueued (if x.event.time < q.lastEventTime ∧
        q.lastEventTime - x.event.time < 10000 then q.lastEventTime else x.event.time)) := by
    simp only [EventQueueRec.put, hslot, bind_some, slotOf, hq.live c hmem, join_some, map_some]
    rfl
  rw [htail] at hput
  refine ⟨_, _, cells.set ((h + i) % cells.length) (c.1, x.entry), hput, ?_⟩
  refine ⟨?_, ?_, ?_, ?_, ?_, hq.head, ?_, ?_, ?_, ?_, ?_, ?_⟩
  · rw [hset]
    exact hq.nevents
  · rw [map_set, hq.events]
  · exact hq.live_set hc x.entry
  · have hfst : (cells.set ((h + i) % cells.length) (c.1, x.entry)).map fst = cells.map fst := by
      have hfst : (cells.map fst)[(h + i) % cells.length]? = some c.1 := by
        rw [getElem?_map, hc]
        rfl
      obtain ⟨hlt, hget⟩ := List.getElem?_eq_some_iff.mp hfst
      rw [map_set]
      calc (cells.map fst).set ((h + i) % cells.length) c.1
          = (cells.map fst).set ((h + i) % cells.length)
              (cells.map fst)[(h + i) % cells.length] := by rw [hget]
        _ = cells.map fst := set_getElem_self hlt
    rw [hfst]
    exact hq.nodup
  · rw [hset]
    exact hq.capacity
  · rw [hset]
    exact hq.head_lt
  · rw [hset, hlength]
  · rw [hset, hlength]
    exact hroom
  · rw [hlength, RingBuffer.window_push (by omega), map_append, map_singleton]
    have htake : window cells h i = (window cells h f.queue.length).take i := by
      rw [RingBuffer.window, RingBuffer.window, take_take, min_eq_left hi]
    rw [htake, map_take, hq.queue]
  · intro e he
    rw [getLast?_concat, mem_some_iff] at he
    rw [← he]
    rfl
  · rw [hset]
    exact hq.size

theorem Holds.compresses_iff (hq : Holds q f cells h) (x : Input) :
    q.compresses x ↔ ∃ last ∈ f.queue.getLast?, x.entry.follows last := by
  rw [compresses, hq.tail_ne_head]
  constructor
  · rintro ⟨hx, hlast, hne⟩
    have hget := getLast?_eq_some_getLast hne
    refine ⟨f.queue.getLast hne, hget, ?_⟩
    rw [hq.lastMotion _ hget, Entry.isMotion] at hlast
    rw [hlast] at hx
    rw [Input.isMotion] at hlast
    split at hlast
    · next hmotion =>
      split at hlast
      · next dev hdev =>
        split at hlast
        · next hmotion' =>
          split at hlast
          · next dev' hdev' =>
            have hsame : dev = dev' := by
              cases dev
              cases dev'
              cases hlast
              rfl
            exact ⟨hmotion, hmotion', by rw [hdev', ← hsame]; exact hdev⟩
          · next hnone =>
            simp [hnone] at hx
        · next hother =>
          simp [hother] at hx
      · next hnone => exact absurd hnone (x.pDev_of_motion hmotion)
    · next hother =>
      rw [← hlast] at hx
      exact absurd rfl hx
  · rintro ⟨last, hlast, hmotion, hmotion', hdev⟩
    have hne : f.queue ≠ [] := by
      intro hnil
      rw [hnil] at hlast
      cases hlast
    have hsame : x.isMotion = last.isMotion := by
      rw [← isMotion_entry, Entry.isMotion, Entry.isMotion, if_pos hmotion, if_pos hmotion', hdev]
    refine ⟨?_, by rw [hq.lastMotion last hlast, hsame], hne⟩
    have hevent : x.event.type = motion := hmotion
    rw [Input.isMotion, if_pos hevent]
    split
    · next dev _ => exact ne_of_gt (lt_trans Nat.zero_lt_one dev.id_pos)
    · next hnone => exact absurd hnone (x.pDev_of_motion hmotion)

theorem Holds.slot_before (hq : Holds q f cells h) (hne : f.queue ≠ []) :
    (toUnsigned q.tail + (2 ^ 32 - 1)) % 2 ^ 32 % q.nevents =
      (h + (f.queue.length - 1)) % cells.length := by
  have hpos : 0 < f.queue.length := length_pos_iff.mpr hne
  obtain ⟨m, hm⟩ := hq.length_dvd
  rw [hq.toUnsigned_tail, hq.nevents, mod_mod_of_dvd _ hq.length_dvd, mod_add_mod]
  have hsplit : h + f.queue.length + (2 ^ 32 - 1) =
      h + (f.queue.length - 1) + cells.length * m := by
    rw [← hm]
    omega
  rw [hsplit, add_mul_mod_self_left]

def emptyEntry : Entry := { event := InternalEvent.zero, pScreen := none, pDev := none }

/-- The cells of a new portion, in storage that is allocated from `a` on. -/
def freshCells (a n : Nat) : List (Addr × Entry) := (range' a n).map fun a => (a, emptyEntry)

theorem freshCells_succ (a n : Nat) : freshCells a (n + 1) = (a, emptyEntry) :: freshCells (a + 1) n :=
  rfl

variable {lists : Nat → Bool} {copied slots : List EventRec} {storage : List (Option InternalEvent)}

theorem initSlots_all
    (hall : ∀ i, copied.length + slots.length ≤ i → i < copied.length + slots.length + n →
      lists i = true) : initSlots lists copied n slots storage =
      some (storage ++ replicate n (some InternalEvent.zero),
        slots ++ (freshCells storage.length n).map slotOf, true) := by
  induction n generalizing slots storage with
  | zero =>
    rw [initSlots, freshCells, range'_zero, replicate_zero, append_nil]
    simp
  | succ n ih =>
    rw [initSlots, if_pos (hall _ (le_refl _) (by omega)), ih]
    · rw [append_assoc, append_assoc, length_append, length_singleton,
        freshCells_succ, map_cons, replicate_succ]
      rfl
    · intro i hlo hhi
      rw [length_append, length_singleton] at hlo hhi
      exact hall i (by omega) (by omega)

theorem lists_of_initSlots {slots' : List EventRec} {storage' : List (Option InternalEvent)}
    (hinit : initSlots lists copied n slots storage = some (storage', slots', true)) :
    ∀ i, copied.length + slots.length ≤ i → i < copied.length + slots.length + n →
      lists i = true := by
  induction n generalizing slots storage with
  | zero =>
    intro i hlo hhi
    omega
  | succ n ih =>
    rw [initSlots] at hinit
    split at hinit
    · next hfirst =>
      intro i hlo hhi
      rcases eq_or_lt_of_le hlo with heq | hlt
      · rw [← heq]
        exact hfirst
      · refine ih hinit i ?_ ?_
        all_goals
          rw [length_append, length_singleton]
          omega
    · obtain ⟨st, -, hst⟩ := map_eq_some_iff.mp hinit
      cases hst

theorem Holds.readSlots_hunk (hq : Holds q f cells h) :
    readSlots q.events (toSize q.head) (q.nevents - toSize q.head) =
      some ((cells.drop h).map slotOf) := by
  have hlt := hq.head_lt
  rw [readSlots, hq.toSize_head, hq.nevents, hq.events, if_pos (by rw [length_map]; omega),
    map_drop, take_of_length_le (by rw [length_drop, length_map])]

theorem Holds.readSlots_rest (hq : Holds q f cells h) :
    readSlots q.events 0 (toSize q.head) = some ((cells.take h).map slotOf) := by
  have hlt := hq.head_lt
  rw [readSlots, hq.toSize_head, hq.events, if_pos (by rw [length_map]; omega), drop_zero, map_take]

variable {a : Allocations}

theorem Holds.grow_eq (hq : Holds q f cells h) (harray : a.array = true) (hn : cells.length < n) :
    q.grow n a = (initSlots a.lists ((cells.rotate h).map slotOf) (n - cells.length) []
      q.storage).map fun (storage, slots, initialized) =>
        if initialized then
          ({ q with
            tail := f.queue.length
            head := 0
            nevents := n
            events := (cells.rotate h).map slotOf ++ slots
            storage := storage }, true)
        else ({ q with storage := storage }, false) := by
  have hlt := hq.head_lt
  have hle := hq.length_le
  have hroom := hq.room
  have hrotate : (cells.drop h).map slotOf ++ (cells.take h).map slotOf =
      (cells.rotate h).map slotOf := by
    rw [rotate_eq_drop_append_take (le_of_lt hlt), map_append]
  rw [grow, if_neg (by rw [hq.nevents]; omega), if_neg (by rw [harray]; simp)]
  simp only [hq.readSlots_hunk, hq.readSlots_rest, bind_some, hrotate, hq.numEnqueued,
    toInt_nat (show f.queue.length < 2 ^ 31 by omega)]
  rw [hq.nevents]

theorem nodup_fresh (hq : Holds q f cells h) (n : Nat) :
    ((cells.rotate h ++ freshCells q.storage.length n).map fst).Nodup := by
  have hfresh : (freshCells q.storage.length n).map fst = range' q.storage.length n := by
    rw [freshCells, List.map_map]
    exact List.map_id _
  rw [map_append, map_rotate, hfresh, nodup_append]
  refine ⟨nodup_rotate.mpr hq.nodup, nodup_range', ?_⟩
  intro b hb c hc heq
  rw [mem_rotate] at hb
  obtain ⟨d, hd, rfl⟩ := List.mem_map.mp hb
  have hlt : d.1 < q.storage.length := (List.getElem?_eq_some_iff.mp (hq.live d hd)).1
  rw [← heq, mem_range'_1] at hc
  exact not_le_of_gt hlt hc.1

theorem live_fresh (hq : Holds q f cells h) (n : Nat) :
    ∀ c ∈ cells.rotate h ++ freshCells q.storage.length n,
      (q.storage ++ replicate n (some InternalEvent.zero))[c.1]? = some (some c.2.event) := by
  intro c hc
  rcases mem_append.mp hc with hold | hnew
  · have hlive := hq.live c (mem_rotate.mp hold)
    rw [getElem?_append_left (List.getElem?_eq_some_iff.mp hlive).1]
    exact hlive
  · obtain ⟨b, hb, rfl⟩ := List.mem_map.mp hnew
    rw [mem_range'_1] at hb
    rw [getElem?_append_right hb.1, getElem?_replicate, if_pos (by omega)]
    rfl

theorem Holds.grow (hq : Holds q f cells h) (harray : a.array = true)
    (hall : ∀ i, q.nevents ≤ i → i < 2 * q.nevents → a.lists i = true)
    (hsize : 2 * q.nevents ≤ 2 ^ 31) :
    ∃ q', q.grow (2 * q.nevents) a = some (q', true) ∧
      Holds q' { f with capacity := 2 * f.capacity }
        (cells.rotate h ++ freshCells q.storage.length cells.length) 0 := by
  have hpos := hq.length_pos
  have hroom := hq.room
  rw [hq.nevents] at hall hsize ⊢
  have hlen : (cells.rotate h ++ freshCells q.storage.length cells.length).length =
      2 * cells.length := by
    rw [length_append, length_rotate, freshCells, length_map, length_range']
    omega
  have htwo : 2 * cells.length - cells.length = cells.length := by omega
  rw [hq.grow_eq harray (by omega), htwo, initSlots_all, map_some]
  · refine ⟨_, rfl, ?_⟩
    refine ⟨?_, ?_, ?_, ?_, ?_, rfl, ?_, ?_, ?_, ?_, hq.lastMotion, ?_⟩
    · rw [hlen]
    · rw [map_append]
      rfl
    · exact live_fresh hq _
    · exact nodup_fresh hq _
    · rw [hlen, ← hq.capacity]
    · rw [hlen]
      omega
    · rw [hlen, zero_add, mod_eq_of_lt (by omega : f.queue.length < 2 * cells.length)]
    · rw [hlen]
      exact (by omega : f.queue.length < 2 * cells.length)
    · rw [RingBuffer.window_append (le_of_lt hroom)]
      exact hq.queue
    · obtain ⟨k, hk, hpow⟩ := hq.size
      rw [hpow] at hsize
      refine ⟨k + 1, ?_, by rw [hlen, hpow, pow_succ, mul_comm]⟩
      rw [← Nat.pow_succ'] at hsize
      exact (Nat.pow_le_pow_iff_right (by decide)).mp hsize
  · intro i hlo hhi
    rw [length_map, length_rotate, length_nil] at hlo hhi
    exact hall i (by omega) (by omega)

end

end Xfront.EventQueue
