import Xfront.Barriers.Groups
import Xfront.Barriers.Model

/-!
# Records and what is generated for them

A record tells where its master is in the sequence of groups: `Follows` relates it
to the log of its entries, and each write to a record comes with the entries that
keep the relation.
-/

namespace Xfront.Barriers

open List

structure Logged where
  serial : Nat
  master : Nat
  entry : Entry
deriving DecidableEq

def entriesOf (serial master : Nat) (log : List Logged) : List Entry :=
  log.filterMap fun l => if l.serial = serial ∧ l.master = master then some l.entry else none

def record (clients : List PointerBarrierClient) (serial master : Nat) :
    Option PointerBarrierDevice :=
  (clients.find? fun c => c.serial == serial).bind fun c => c.getBarrierDevice master

/-- The number of leaves after which the event id, an `int`, has no successor. -/
def leaveLimit : Nat := 2 ^ 31 - 1

structure Tracks (p : PointerBarrierDevice) (t : Track) : Prop where
  id : t.id = p.barrierEventId.toInt
  alive : t.destroyed = false
  released : t.released = true ↔ p.barrierEventId = p.releaseEventId
  hits : t.hits = true → p.hit = true
  hit : p.hit = true → t.hits = true ∨ t.released = true
  order : p.releaseEventId.toNat ≤ p.barrierEventId.toNat
  small : p.barrierEventId.toNat < 2 ^ 31

def Follows (p : PointerBarrierDevice) (log : List Entry) : Prop :=
  leaves log < leaveLimit → ∃ t, Run.accept Track.next Track.start log = some t ∧ Tracks p t

def Closed (log : List Entry) : Prop :=
  leaves log < leaveLimit → ∃ t, Run.accept Track.next Track.start log = some t

section

variable {p p' : PointerBarrierDevice} {log : List Entry} {e : Entry} {t t' : Track}

theorem Follows.closed (h : Follows p log) : Closed log := fun hl => by
  obtain ⟨t, ht, _⟩ := h hl
  exact ⟨t, ht⟩

theorem follows_alloc (deviceid : Nat) : Follows (allocBarrierDevice deviceid) [] := fun _ =>
  ⟨Track.start, rfl, {
      id := (by decide : (1 : Int) = (1 : BitVec 32).toInt)
      alive := rfl
      released := ⟨fun h => (nomatch h), fun h => absurd h (by decide : (1 : BitVec 32) ≠ 0)⟩
      hits := fun h => (nomatch h)
      hit := fun h => (nomatch h)
      order := Nat.zero_le _
      small := (by decide : (1 : BitVec 32).toNat < 2 ^ 31) }⟩

theorem leaves_le_snoc (log : List Entry) (e : Entry) : leaves log ≤ leaves (log ++ [e]) := by
  rw [leaves_snoc]
  exact Nat.le_add_right _ _

theorem accept_snoc (ha : Run.accept Track.next Track.start log = some t)
    (hn : t.next e = some t') : Run.accept Track.next Track.start (log ++ [e]) = some t' := by
  rw [Run.accept_append, ha, Option.bind_some, Run.accept, hn]
  rfl

theorem Follows.snoc (h : Follows p log)
    (hn : ∀ t, Tracks p t → leaves (log ++ [e]) < leaveLimit → t.id = currentId log →
      ∃ t', t.next e = some t' ∧ Tracks p' t') : Follows p' (log ++ [e]) := fun hl => by
  obtain ⟨t, ha, ht⟩ := h (lt_of_le_of_lt (leaves_le_snoc log e) hl)
  have hid : t.id = currentId log := (Track.reads_of_accept Track.reads_start ha).id
  obtain ⟨t', hn', ht'⟩ := hn t ht hl hid
  exact ⟨t', accept_snoc ha hn', ht'⟩

theorem Follows.congr (h : Follows p log) (hid : p'.barrierEventId = p.barrierEventId)
    (hrel : p'.releaseEventId = p.releaseEventId) (hhit : p'.hit = p.hit) : Follows p' log :=
  fun hl => by
    obtain ⟨t, ha, ht⟩ := h hl
    exact ⟨t, ha, {
        id := by rw [ht.id, hid]
        alive := ht.alive
        released := by rw [ht.released, hid, hrel]
        hits := by rw [hhit]; exact ht.hits
        hit := by rw [hhit]; exact ht.hit
        order := by rw [hid, hrel]; exact ht.order
        small := by rw [hid]; exact ht.small }⟩

theorem Follows.pass (h : Follows p log) (hr : p.barrierEventId = p.releaseEventId)
    (hid : p'.barrierEventId = p.barrierEventId) (hrel : p'.releaseEventId = p.releaseEventId)
    (hhit : p'.hit = true) : Follows p' log := fun hl => by
  obtain ⟨t, ha, ht⟩ := h hl
  exact ⟨t, ha, {
      id := by rw [ht.id, hid]
      alive := ht.alive
      released := by rw [ht.released, hid, hrel]
      hits := fun _ => hhit
      hit := fun _ => .inr (ht.released.mpr hr)
      order := by rw [hid, hrel]; exact ht.order
      small := by rw [hid]; exact ht.small }⟩

theorem Follows.strike (h : Follows p log) (hr : p.barrierEventId ≠ p.releaseEventId)
    (hid : p'.barrierEventId = p.barrierEventId) (hrel : p'.releaseEventId = p.releaseEventId)
    (hhit : p'.hit = true) : Follows p' (log ++ [.hit p.barrierEventId.toInt]) := by
  refine h.snoc fun t ht _ _ => ⟨{ t with hits := true }, ?_, ?_⟩
  · have hnr : t.released = false := by
      rw [← Bool.not_eq_true, ht.released]
      exact hr
    rw [Track.next, if_pos ⟨ht.id.symm, by rw [hnr]; rfl, by rw [ht.alive]; rfl⟩]
  · exact
      { id := by rw [hid]; exact ht.id
        alive := ht.alive
        released := by rw [hid, hrel]; exact ht.released
        hits := fun _ => hhit
        hit := fun _ => .inl rfl
        order := by rw [hid, hrel]; exact ht.order
        small := by rw [hid]; exact ht.small }

theorem Tracks.next_leave (ht : Tracks p t) (hhit : p.hit = true) (destroyed : Bool) :
    t.next (.leave p.barrierEventId.toInt
      (decide (p.barrierEventId = p.releaseEventId) || destroyed) destroyed) =
      some { id := t.id + 1, hits := false, released := false, destroyed := destroyed } := by
  have hr : t.released = decide (p.barrierEventId = p.releaseEventId) := by
    rw [Bool.eq_iff_iff, ht.released, decide_eq_true_iff]
  rw [Track.next, if_pos ⟨ht.id.symm, (Bool.or_eq_true _ _).mpr (ht.hit hhit), by rw [hr], by
    rw [ht.alive]; rfl⟩]

theorem Follows.depart (h : Follows p log) (hhit : p.hit = true)
    (hid : p'.barrierEventId = p.barrierEventId + 1)
    (hrel : p'.releaseEventId = p.releaseEventId) (hhit' : p'.hit = false) :
    Follows p' (log ++ [.leave p.barrierEventId.toInt
      (decide (p.barrierEventId = p.releaseEventId)) false]) := by
  refine h.snoc fun t ht hl htid => ?_
  have hint : p.barrierEventId.toInt = p.barrierEventId.toNat :=
    BitVec.toInt_eq_toNat_of_lt (by have := ht.small; omega)
  have hbound : p.barrierEventId.toNat + 1 < 2 ^ 31 := by
    have hc : (p.barrierEventId.toNat : Int) = 1 + leaves log := by
      rw [← hint, ← ht.id, htid, currentId]
    rw [leaves_snoc] at hl
    simp only [Entry.isLeave, if_true, leaveLimit] at hl
    omega
  have hsucc : (p.barrierEventId + 1).toNat = p.barrierEventId.toNat + 1 := by
    rw [BitVec.toNat_add_of_lt]
    · rfl
    · show p.barrierEventId.toNat + 1 < 2 ^ 32
      omega
  have hn := ht.next_leave hhit false
  rw [Bool.or_false] at hn
  refine ⟨_, hn, {
      id := ?_
      alive := rfl
      released := ⟨by simp, fun he => ?_⟩
      hits := by simp
      hit := fun hf => ?_
      order := ?_
      small := ?_ }⟩
  · have hint' : (p.barrierEventId + 1).toInt = (p.barrierEventId + 1).toNat :=
      BitVec.toInt_eq_toNat_of_lt (by omega)
    rw [hid, hint', hsucc, ht.id, hint]
    push_cast
    rfl
  · have he' : (p.barrierEventId + 1).toNat = p.releaseEventId.toNat := by rw [← hid, he, hrel]
    have := ht.order
    omega
  · rw [hhit'] at hf
    cases hf
  · rw [hid, hrel, hsucc]
    exact Nat.le_succ_of_le ht.order
  · rw [hid, hsucc]
    exact hbound

theorem Follows.destroy (h : Follows p log) (hhit : p.hit = true) :
    Closed (log ++ [.leave p.barrierEventId.toInt true true]) := fun hl => by
  obtain ⟨t, ha, ht⟩ := h (lt_of_le_of_lt (leaves_le_snoc log _) hl)
  have hn := ht.next_leave hhit true
  rw [Bool.or_true] at hn
  exact ⟨_, accept_snoc ha hn⟩

theorem Follows.release (h : Follows p log) (hid : p'.barrierEventId = p.barrierEventId)
    (hrel : p'.releaseEventId = p.barrierEventId) (hhit : p'.hit = p.hit) :
    Follows p' (log ++ [.release p.barrierEventId.toInt]) := by
  refine h.snoc fun t ht _ _ => ⟨{ t with released := true }, ?_, ?_⟩
  · rw [Track.next, ht.alive]
    simp only [Bool.false_eq_true, if_false]
    rw [if_pos ht.id.symm]
  · exact
      { id := by rw [hid]; exact ht.id
        alive := ht.alive
        released := ⟨fun _ => by rw [hid, hrel], fun _ => rfl⟩
        hits := by rw [hhit]; exact ht.hits
        hit := fun _ => .inr rfl
        order := le_of_eq (congrArg BitVec.toNat (hrel.trans hid.symm))
        small := by rw [hid]; exact ht.small }

theorem Follows.stale {eventid : BitVec 32} (h : Follows p log)
    (hne : p.barrierEventId ≠ eventid) : Follows p (log ++ [.release eventid.toInt]) := by
  refine h.snoc fun t ht _ _ => ⟨t, ?_, ht⟩
  have hne' : eventid.toInt ≠ t.id := by
    rw [ht.id]
    exact fun he => hne (BitVec.eq_of_toInt_eq he.symm)
  rw [Track.next, ht.alive]
  simp only [Bool.false_eq_true, if_false]
  rw [if_neg hne']

end

section

variable {serial master : Nat} {log log' : List Logged} {es : List Entry}

theorem entriesOf_append (serial master : Nat) (log log' : List Logged) :
    entriesOf serial master (log ++ log') =
      entriesOf serial master log ++ entriesOf serial master log' :=
  filterMap_append

theorem entriesOf_same (serial master : Nat) (es : List Entry) :
    entriesOf serial master (es.map fun e => { serial := serial, master := master, entry := e }) =
      es := by
  induction es with
  | nil => rfl
  | cons e es ih =>
    rw [map_cons, entriesOf, filterMap_cons]
    simp only [and_self, if_true]
    exact congrArg (e :: ·) ih

theorem entriesOf_eq_nil (h : ∀ l ∈ log, ¬ (l.serial = serial ∧ l.master = master)) :
    entriesOf serial master log = [] :=
  filterMap_eq_nil_iff.mpr fun l hl => if_neg (h l hl)

end

section

variable {clients : List PointerBarrierClient} {c : PointerBarrierClient}
  {p : PointerBarrierDevice} {f : PointerBarrierDevice → PointerBarrierDevice}
  {serial serial' deviceid deviceid' : Nat}

theorem find_writeDevice (hf : ∀ p, (f p).deviceid = p.deviceid) (deviceid deviceid' : Nat)
    (ps : List PointerBarrierDevice) :
    (writeDevice deviceid f ps).find? (fun p => p.deviceid == deviceid') =
      if deviceid' = deviceid then (ps.find? fun p => p.deviceid == deviceid').map f
      else ps.find? fun p => p.deviceid == deviceid' := by
  induction ps with
  | nil => simp [writeDevice]
  | cons p ps ih =>
    rw [writeDevice]
    by_cases hp : p.deviceid = deviceid
    · rw [if_pos hp, find?_cons, find?_cons, hf]
      by_cases hd : deviceid' = deviceid
      · simp [hp, hd]
      · have hne : (p.deviceid == deviceid') = false := by
          rw [beq_eq_false_iff_ne, hp]
          exact fun he => hd he.symm
        simp [hne, hd]
    · rw [if_neg hp, find?_cons, find?_cons, ih]
      by_cases hd : deviceid' = deviceid
      · subst hd
        simp only [beq_eq_false_iff_ne.mpr hp, if_true]
      · simp only [if_neg hd]

theorem getBarrierDevice_setDevice (hf : ∀ p, (f p).deviceid = p.deviceid)
    (c : PointerBarrierClient) (deviceid deviceid' : Nat) :
    (c.setDevice deviceid f).getBarrierDevice deviceid' =
      if deviceid' = deviceid then (c.getBarrierDevice deviceid').map f
      else c.getBarrierDevice deviceid' :=
  find_writeDevice hf deviceid deviceid' c.perDevice

theorem writeDevice_ids (hf : ∀ p, (f p).deviceid = p.deviceid) (deviceid : Nat)
    (ps : List PointerBarrierDevice) :
    (writeDevice deviceid f ps).map PointerBarrierDevice.deviceid =
      ps.map PointerBarrierDevice.deviceid := by
  induction ps with
  | nil => rfl
  | cons p ps ih =>
    rw [writeDevice]
    split
    · rw [map_cons, map_cons, hf]
    · rw [map_cons, map_cons, ih]

theorem record_cons (c : PointerBarrierClient) (clients : List PointerBarrierClient)
    (serial master : Nat) : record (c :: clients) serial master =
      if c.serial = serial then c.getBarrierDevice master else record clients serial master := by
  unfold record
  rw [find?_cons]
  by_cases h : c.serial = serial
  · rw [if_pos h, beq_iff_eq.mpr h]
    rfl
  · rw [if_neg h, beq_eq_false_iff_ne.mpr h]

theorem record_writeClient (hf : ∀ p, (f p).deviceid = p.deviceid)
    (clients : List PointerBarrierClient) (serial deviceid serial' deviceid' : Nat) :
    record (writeClient serial deviceid f clients) serial' deviceid' =
      if serial' = serial ∧ deviceid' = deviceid then (record clients serial' deviceid').map f
      else record clients serial' deviceid' := by
  induction clients with
  | nil => simp [writeClient, record]
  | cons c clients ih =>
    have hserial : (if c.serial = serial then c.setDevice deviceid f else c).serial = c.serial := by
      split <;> rfl
    rw [writeClient, map_cons, record_cons, hserial]
    rw [show map _ clients = writeClient serial deviceid f clients from rfl, ih, record_cons]
    by_cases hs : c.serial = serial'
    · rw [if_pos hs, if_pos hs]
      by_cases hc : c.serial = serial
      · rw [if_pos hc, getBarrierDevice_setDevice hf]
        have he : serial' = serial := hs.symm.trans hc
        simp only [he, true_and]
      · rw [if_neg hc, if_neg fun he => hc (hs.trans he.1)]
    · rw [if_neg hs, if_neg hs]

theorem record_of_mem (hnd : (clients.map PointerBarrierClient.serial).Nodup) (hc : c ∈ clients)
    (master : Nat) : record clients c.serial master = c.getBarrierDevice master := by
  induction clients with
  | nil => cases hc
  | cons d clients ih =>
    rw [map_cons, nodup_cons] at hnd
    rw [record_cons]
    rcases mem_cons.mp hc with rfl | hc
    · rw [if_pos rfl]
    · have hne : d.serial ≠ c.serial := fun he =>
        hnd.1 (he ▸ mem_map_of_mem hc)
      rw [if_neg hne]
      exact ih hnd.2 hc

theorem writeClient_split {pre post : List PointerBarrierClient}
    (hnd : ((pre ++ c :: post).map PointerBarrierClient.serial).Nodup) :
    writeClient c.serial deviceid f (pre ++ c :: post) = pre ++ c.setDevice deviceid f :: post := by
  have hne : ∀ d, d ∈ pre ∨ d ∈ post → d.serial ≠ c.serial := by
    rw [map_append, map_cons, nodup_append] at hnd
    obtain ⟨_, hpost, hdisj⟩ := hnd
    rintro d (hd | hd) he
    · exact hdisj _ (mem_map_of_mem hd) _ mem_cons_self he
    · rw [nodup_cons] at hpost
      exact hpost.1 (he ▸ mem_map_of_mem hd)
  have hkeep : ∀ l : List PointerBarrierClient, (∀ d ∈ l, d.serial ≠ c.serial) →
      l.map (fun d => if d.serial = c.serial then d.setDevice deviceid f else d) = l := by
    intro l hl
    conv_rhs => rw [← map_id l]
    exact map_congr_left fun d hd => if_neg (hl d hd)
  rw [writeClient, map_append, map_cons, if_pos rfl, hkeep pre fun d hd => hne d (.inl hd),
    hkeep post fun d hd => hne d (.inr hd)]

end

end Xfront.Barriers
