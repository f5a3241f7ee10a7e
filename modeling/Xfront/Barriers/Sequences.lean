import Xfront.Barriers.Passes

/-!
# Runs on barriers

Motions, release requests, and barriers that come and go. Every action ends, no
barrier is left seen, and what each master does at each barrier is a sequence of groups.
-/

namespace Xfront.Barriers
open Option Generated

open List

/-- `constrain` is a motion of a device of `owner`; `destroy` names the barrier by its id. -/
inductive Action
  | constrain (dev : Nat) (owner : Option Nat) (scr : Screen) (ms : BitVec 32)
    (currentX currentY destX destY : Int)
  | release (look : Lookups) (client : Nat) (infos : List ReleasePointerInfo)
  | create (look : Lookups) (stuff : CreatePointerBarrierReq)
  | destroy (id : Nat) (ms : BitVec 32)

/-- One action, with what it adds to the log; `none` is a motion whose loop does not end. -/
def step (g : Geometry) (masters : Masters) (w : World) : Action → Option (World × List Logged)
  | .constrain dev owner scr ms currentX currentY destX destY =>
    (inputConstrainCursor g w.clients.length w.clients dev owner scr ms currentX currentY
      destX destY).map fun r =>
      ({ w with clients := r.clients }, r.events.map (logged false))
  | .release look client infos =>
    let (w', requested, _) := releasePointer look client w infos
    some (w', requested.map Requested.logged)
  | .create look stuff =>
    match xiCreatePointerBarrier masters look w stuff with
    | .error _ => some (w, [])
    | .ok w' => some (w', [])
  | .destroy id ms =>
    match w.find id with
    | none => some (w, [])
    | some c =>
      let (w', events) := barrierFreeBarrier masters w ms c
      some (w', events.map (logged true))

def run (g : Geometry) (masters : Masters) (as : List Action) : Option (World × List Logged) :=
  (Run.exec (step g masters) World.init as).map fun (w, logs) => (w, logs.flatten)

structure WorldOk (w : World) (log : List Logged) : Prop where
  ok : Ok w.clients log
  fresh : ∀ c ∈ w.clients, c.serial < w.nextSerial
  unused : ∀ l ∈ log, l.serial < w.nextSerial
  seen : NoneSeen w.clients

section

variable {g : Geometry} {masters : Masters} {w w' : World} {log : List Logged}
  {c : PointerBarrierClient} {serial master : Nat}

theorem worldOk_init : WorldOk World.init [] where
  ok :=
    { serials := nodup_nil
      devices := fun _ h => (nomatch h)
      told := fun _ _ _ => ⟨Track.start, rfl⟩ }
  fresh := fun _ h => (nomatch h)
  unused := fun _ h => (nomatch h)
  seen := fun _ h => (nomatch h)

variable {p : PointerBarrierDevice}

theorem find_alloc {ids : List Nat}
    (h : (ids.map allocBarrierDevice).reverse.find? (fun p => p.deviceid == master) = some p) :
    p = allocBarrierDevice master := by
  have hmem := mem_of_find?_eq_some h
  have hid : p.deviceid = master := by simpa using find?_some h
  obtain ⟨id, _, rfl⟩ := mem_map.mp (mem_reverse.mp hmem)
  rw [← hid]
  rfl

variable {look : Lookups}

theorem WorldOk.create {stuff : CreatePointerBarrierReq} (h : WorldOk w log)
    (hc : createPointerBarrierClient masters look w stuff = .ok w') : WorldOk w' log := by
  unfold createPointerBarrierClient at hc
  split at hc
  next => cases hc
  next pScreen _ =>
    split at hc
    next =>
      cases hc
      refine ⟨⟨?_, fun c hc => ?_, fun serial master => ?_⟩, fun c hc => ?_, fun l hl => ?_,
        fun c hc d hd => ?_⟩
      · refine nodup_cons.mpr ⟨fun hmem => ?_, h.ok.serials⟩
        obtain ⟨c, hc, he⟩ := List.mem_map.mp hmem
        exact Nat.ne_of_lt (h.fresh c hc) he
      · rcases mem_cons.mp hc with rfl | hc
        · rw [map_reverse, nodup_reverse, List.map_map]
          exact (List.map_id masters.ids).symm ▸ masters.nodup
        · exact h.ok.devices c hc
      · rw [record_cons]
        split
        next hs =>
          have hnil : entriesOf serial master log = [] := entriesOf_eq_nil fun l hl he =>
            Nat.ne_of_lt (h.unused l hl) (he.1.trans hs.symm)
          rw [hnil]
          cases hp : PointerBarrierClient.getBarrierDevice _ master with
          | none => exact fun _ => ⟨Track.start, rfl⟩
          | some p =>
            rw [find_alloc hp]
            exact follows_alloc master
        next => exact h.ok.told serial master
      · rcases mem_cons.mp hc with rfl | hc
        · exact Nat.lt_succ_self _
        · exact Nat.lt_succ_of_lt (h.fresh c hc)
      · exact Nat.lt_succ_of_lt (h.unused l hl)
      · rcases mem_cons.mp hc with rfl | hc
        · obtain ⟨id, _, rfl⟩ := List.mem_map.mp (mem_reverse.mp hd)
          rfl
        · exact h.seen c hc d hd
    next => cases hc

theorem xiCreatePointerBarrier_ok {stuff : CreatePointerBarrierReq}
    (h : xiCreatePointerBarrier masters look w stuff = .ok w') :
    createPointerBarrierClient masters look w stuff = .ok w' := by
  unfold xiCreatePointerBarrier at h
  simp only at h
  split_ifs at h
  exact h

theorem World.find_some {id : Nat} (h : w.find id = some c) : c ∈ w.clients :=
  mem_of_find?_eq_some h

theorem WorldOk.write {f : PointerBarrierDevice → PointerBarrierDevice} {e : Entry}
    (h : WorldOk w log) (hc : c ∈ w.clients) (hp : c.getBarrierDevice master = some p)
    (hf : ∀ p, (f p).deviceid = p.deviceid ∧ (f p).seen = p.seen)
    (hfol : ∀ log, Follows p log → Follows (f p) (log ++ [e])) :
    WorldOk { w with clients := writeClient c.serial master f w.clients }
      (log ++ [⟨c.serial, master, e⟩]) where
  ok := h.ok.write [e] (fun p => (hf p).1)
    (by rw [record_of_mem h.ok.serials hc, hp]) hfol
  fresh := fun d hd => by
    obtain ⟨d', hd', rfl⟩ := mem_map.mp hd
    split <;> exact h.fresh d' hd'
  unused := fun l hl => by
    rcases mem_append.mp hl with hl | hl
    · exact h.unused l hl
    · rw [mem_singleton.mp hl]
      exact h.fresh c hc
  seen := fun d hd q hq => by
    obtain ⟨d', hd', rfl⟩ := mem_map.mp hd
    split at hq
    · rcases mem_setDevice (h.ok.devices d' hd') hq with ⟨hq, _⟩ | ⟨q', hq', _, rfl⟩
      · exact h.seen d' hd' q hq
      · rw [(hf q').2]
        exact h.seen d' hd' q' hq'
    · exact h.seen d' hd' q hq

theorem WorldOk.tell {e : Entry} (h : WorldOk w log)
    (hc : c ∈ w.clients) (hp : c.getBarrierDevice master = some p)
    (hfol : ∀ log, Follows p log → Follows p (log ++ [e])) :
    WorldOk w (log ++ [⟨c.serial, master, e⟩]) where
  ok := h.ok.tell [e] (by rw [record_of_mem h.ok.serials hc, hp]) hfol
  fresh := h.fresh
  unused := fun l hl => by
    rcases mem_append.mp hl with hl | hl
    · exact h.unused l hl
    · rw [mem_singleton.mp hl]
      exact h.fresh c hc
  seen := h.seen

theorem WorldOk.release {client : Nat} {infos : List ReleasePointerInfo} (h : WorldOk w log) :
    WorldOk (releasePointer look client w infos).1
      (log ++ (releasePointer look client w infos).2.1.map Requested.logged) := by
  induction infos generalizing w log with
  | nil => simpa [releasePointer] using h
  | cons info infos ih =>
    have hsame : WorldOk w (log ++ ([] : List Requested).map Requested.logged) := by
      rw [map_nil, append_nil]
      exact h
    rw [releasePointer]
    split
    next => exact hsame
    next =>
      split
      next => exact hsame
      next c hfind =>
        split
        next => exact hsame
        next =>
          split
          next => exact hsame
          next =>
            split
            next => exact hsame
            next pbd hpbd =>
              have hc := World.find_some hfind
              simp only [map_cons]
              rw [append_cons]
              refine ih ?_
              split
              next heq =>
                have hrel := h.write (e := .release pbd.barrierEventId.toInt)
                  (f := fun p => { p with releaseEventId := info.eventid }) hc hpbd
                  (fun p => ⟨rfl, rfl⟩) fun log hlog => hlog.release rfl heq.symm rfl
                rw [heq] at hrel
                exact hrel
              next hne => exact h.tell hc hpbd fun log hlog => hlog.stale hne

theorem record_filter {clients : List PointerBarrierClient} (serial serial' master : Nat) :
    record (clients.filter fun d => d.serial ≠ serial) serial' master =
      if serial' = serial then none else record clients serial' master := by
  induction clients with
  | nil => simp [record]
  | cons d clients ih =>
    rw [filter_cons, record_cons]
    by_cases hd : d.serial = serial
    · rw [if_neg (by simpa using hd), ih, hd]
      by_cases hs : serial' = serial
      · rw [if_pos hs, if_pos hs]
      · rw [if_neg hs, if_neg hs, if_neg fun he => hs he.symm]
    · rw [if_pos (by simpa using hd), record_cons, ih]
      by_cases hs : serial' = serial
      · rw [if_pos hs, if_pos hs, if_neg fun he => hd (he.trans hs)]
      · rw [if_neg hs, if_neg hs]

variable {ms : BitVec 32}

theorem entriesOf_freeLeave_ne {master' : Nat} (h : ¬ (c.serial = serial ∧ master' = master)) :
    entriesOf serial master ((freeLeave ms c master').map (logged true)) = [] := by
  refine entriesOf_eq_nil fun l hl hk => h ?_
  obtain ⟨ev, hev, rfl⟩ := mem_map.mp hl
  unfold freeLeave at hev
  split at hev
  next => cases hev
  next =>
    split at hev
    next => cases hev
    next =>
      rw [mem_singleton.mp hev] at hk
      exact hk

theorem entriesOf_freeLeaves {ids : List Nat} (hnd : ids.Nodup) :
    entriesOf serial master ((ids.flatMap (freeLeave ms c)).map (logged true)) =
      if c.serial = serial ∧ master ∈ ids then
        entriesOf serial master ((freeLeave ms c master).map (logged true)) else [] := by
  induction ids with
  | nil => simp [entriesOf]
  | cons id ids ih =>
    rw [nodup_cons] at hnd
    rw [flatMap_cons, map_append, entriesOf_append, ih hnd.2]
    by_cases hs : c.serial = serial
    · by_cases hid : id = master
      · subst hid
        rw [if_neg fun h => hnd.1 h.2, append_nil, if_pos ⟨hs, mem_cons_self⟩]
      · rw [entriesOf_freeLeave_ne fun h => hid h.2, nil_append]
        simp only [mem_cons, Ne.symm hid, false_or]
    · rw [entriesOf_freeLeave_ne fun h => hs h.1, if_neg fun h => hs h.1, if_neg fun h => hs h.1]
      rfl

theorem closed_freeLeave {es : List Entry} (h : Told (c.getBarrierDevice master) es) :
    Closed (es ++ entriesOf c.serial master ((freeLeave ms c master).map (logged true))) := by
  cases hp : c.getBarrierDevice master with
  | none =>
    rw [hp] at h
    have hnil : freeLeave ms c master = [] := by
      unfold freeLeave
      rw [hp]
    rw [hnil, map_nil, entriesOf, filterMap_nil, append_nil]
    exact h
  | some p =>
    rw [hp] at h
    by_cases hhit : p.hit = true
    · have hent : (freeLeave ms c master).map (logged true) =
          [Entry.leave p.barrierEventId.toInt true true].map fun e => ⟨c.serial, master, e⟩ := by
        simp [freeLeave, hp, hhit, logged, xiBarrierPointerReleased]
      rw [hent, entriesOf_same]
      exact Follows.destroy h hhit
    · have hnil : freeLeave ms c master = [] := by
        simp [freeLeave, hp, hhit]
      rw [hnil, map_nil]
      simpa [entriesOf] using Follows.closed h

theorem WorldOk.destroy (h : WorldOk w log) (hc : c ∈ w.clients) :
    WorldOk (barrierFreeBarrier masters w ms c).1
      (log ++ (barrierFreeBarrier masters w ms c).2.map (logged true)) where
  ok :=
    { serials := h.ok.serials.sublist (filter_sublist.map _)
      devices := fun d hd => h.ok.devices d (mem_of_mem_filter hd)
      told := fun serial master => by
        have htold := h.ok.told serial master
        simp only [barrierFreeBarrier]
        rw [record_filter, entriesOf_append, entriesOf_freeLeaves masters.nodup]
        by_cases hs : serial = c.serial
        · subst hs
          rw [record_of_mem h.ok.serials hc] at htold
          rw [if_pos rfl]
          by_cases hm : master ∈ masters.ids
          · rw [if_pos ⟨rfl, hm⟩]
            exact closed_freeLeave htold
          · rw [if_neg fun he => hm he.2, append_nil]
            cases hp : c.getBarrierDevice master with
            | none => rwa [hp] at htold
            | some p =>
              rw [hp] at htold
              exact Follows.closed htold
        · rw [if_neg hs, if_neg fun he => hs he.1.symm, append_nil]
          exact htold }
  fresh := fun d hd => h.fresh d (mem_of_mem_filter hd)
  unused := fun l hl => by
    rcases mem_append.mp hl with hl | hl
    · exact h.unused l hl
    · obtain ⟨ev, hev, rfl⟩ := mem_map.mp hl
      obtain ⟨id, _, hev⟩ := mem_flatMap.mp hev
      have hserial : ev.serial = c.serial := by
        unfold freeLeave at hev
        split at hev
        next => cases hev
        next =>
          split at hev
          next => cases hev
          next => rw [mem_singleton.mp hev]
      show ev.serial < _
      rw [hserial]
      exact h.fresh c hc
  seen := fun d hd => h.seen d (mem_of_mem_filter hd)

theorem WorldOk.constrain (g : Geometry) (dev : Nat) (owner : Option Nat) (scr : Screen)
    (ms : BitVec 32) (cx cy dx dy : Int) (h : WorldOk w log) :
    ∃ r, inputConstrainCursor g w.clients.length w.clients dev owner scr ms cx cy dx dy = some r ∧
      WorldOk { w with clients := r.clients } (log ++ r.events.map (logged false)) := by
  obtain ⟨r, hr, hok, hseen, hsame, habout⟩ := inputConstrainCursor_spec g dev owner scr ms cx
    cy dx dy h.ok h.seen
  have hfresh : ∀ serial ∈ w.clients.map PointerBarrierClient.serial, serial < w.nextSerial := by
    intro serial hserial
    obtain ⟨c, hc, rfl⟩ := mem_map.mp hserial
    exact h.fresh c hc
  refine ⟨r, hr, hok, fun c hc => ?_, fun l hl => ?_, hseen⟩
  · refine hfresh c.serial ?_
    rw [← hsame]
    exact mem_map_of_mem hc
  · rcases mem_append.mp hl with hl | hl
    · exact h.unused l hl
    · obtain ⟨ev, hev, rfl⟩ := mem_map.mp hl
      exact hfresh ev.serial (habout ev hev)

theorem WorldOk.step (g : Geometry) (masters : Masters) (h : WorldOk w log) (a : Action) :
    ∃ w' log', step g masters w a = some (w', log') ∧ WorldOk w' (log ++ log') := by
  have hsame : WorldOk w (log ++ []) := by
    rw [append_nil]
    exact h
  cases a with
  | constrain dev owner scr ms cx cy dx dy =>
    obtain ⟨r, hr, hok⟩ := h.constrain g dev owner scr ms cx cy dx dy
    exact ⟨_, _, by rw [Barriers.step, hr]; rfl, hok⟩
  | release look client infos => exact ⟨_, _, rfl, h.release⟩
  | create look stuff =>
    rw [Barriers.step]
    cases hc : xiCreatePointerBarrier masters look w stuff with
    | error _ => exact ⟨w, [], rfl, hsame⟩
    | ok w' =>
      refine ⟨w', [], rfl, ?_⟩
      rw [append_nil]
      exact h.create (xiCreatePointerBarrier_ok hc)
  | destroy id ms =>
    rw [Barriers.step]
    cases hc : w.find id with
    | none => exact ⟨w, [], rfl, hsame⟩
    | some c => exact ⟨_, _, rfl, h.destroy (World.find_some hc)⟩

theorem exec_ok (g : Geometry) (masters : Masters) (as : List Action) (h : WorldOk w log) :
    ∃ w' logs, Run.exec (step g masters) w as = some (w', logs) ∧
      WorldOk w' (log ++ logs.flatten) := by
  induction as generalizing w log with
  | nil =>
    refine ⟨w, [], rfl, ?_⟩
    rw [flatten_nil, append_nil]
    exact h
  | cons a as ih =>
    obtain ⟨w', log', hs, hok⟩ := h.step g masters a
    obtain ⟨w'', logs, hexec, hok'⟩ := ih hok
    refine ⟨w'', log' :: logs, ?_, ?_⟩
    · rw [Run.exec_cons as hs, hexec, map_some]
    · rw [flatten_cons, ← append_assoc]
      exact hok'

theorem Told.grouped {p : Option PointerBarrierDevice} {es : List Entry} (h : Told p es)
    (hl : leaves es < leaveLimit) : Grouped Released Unhit es := by
  have hclosed : Closed es := by
    cases p with
    | none => exact h
    | some p => exact Follows.closed h
  obtain ⟨t, ht⟩ := hclosed hl
  exact Track.grouped ht

/-- Every run goes on to its end, each motion in it included, with no barrier left seen; and
for each barrier and master what is generated is a sequence of groups, as long as there are
ids for them. -/
theorem run_sequences (g : Geometry) (masters : Masters) (as : List Action) :
    ∃ w log, run g masters as = some (w, log) ∧ NoneSeen w.clients ∧
      ∀ serial master, leaves (entriesOf serial master log) < leaveLimit →
        Grouped Released Unhit (entriesOf serial master log) := by
  obtain ⟨w, logs, hexec, hok⟩ := exec_ok g masters as worldOk_init
  rw [nil_append] at hok
  exact ⟨w, logs.flatten, by rw [run, hexec]; rfl, hok.seen,
    fun serial master hl => (hok.ok.told serial master).grouped hl⟩

end

def alongX : Geometry where
  Distance := Nat
  greater := fun a b => decide (a > b)
  intMax := 2147483647
  barrierIsBlocking := fun b x1 _ x2 _ =>
    if min x1 x2 ≤ b.x1 ∧ b.x1 ≤ max x1 x2 then some (b.x1 - x1).natAbs else none

def onePointer : Masters := { ids := [2], nodup := by decide }

def screen0 : Screen := { index := 0, root := 100 }

def anyone : Lookups where
  window := fun _ => some screen0
  device := fun _ => true
  master := fun _ => true
  barrier := fun _ => true
  clientIdForXID := fun _ => 1

def wall : CreatePointerBarrierReq where
  barrier := 10
  window := 100
  x1 := 50
  y1 := 0
  x2 := 50
  y2 := 100
  directions := 0
  devices := []

/-- The client releases the first id, which no event has told it of, and the pointer crosses. -/
def releasedUnseen : List Action :=
  [.create anyone wall, .release anyone 1 [{ deviceid := 2, barrier := 10, eventid := 1 }],
    .constrain 5 (some 2) screen0 7 0 50 90 50]

def stoppedTwice : List Action :=
  [.create anyone wall, .constrain 5 (some 2) screen0 7 0 50 90 50,
    .constrain 5 (some 2) screen0 8 49 50 90 50,
    .constrain 5 (some 2) screen0 9 49 50 0 50]

theorem run_sequences_stopped : ∃ w log, run alongX onePointer stoppedTwice = some (w, log) ∧
    NoneSeen w.clients ∧ entriesOf 0 2 log = [.hit 1, .hit 1, .leave 1 false false] ∧
    Grouped Released Unhit (entriesOf 0 2 log) := by
  obtain ⟨w, log, hrun, hseen, hgroups⟩ := run_sequences alongX onePointer stoppedTwice
  have hlog : (run alongX onePointer stoppedTwice).map (fun r => entriesOf 0 2 r.2) =
      some [.hit 1, .hit 1, .leave 1 false false] := rfl
  rw [hrun] at hlog
  have hlog : entriesOf 0 2 log = [.hit 1, .hit 1, .leave 1 false false] := some.inj hlog
  refine ⟨w, log, hrun, hseen, hlog, hgroups 0 2 ?_⟩
  rw [hlog]
  decide

/-- The Leave is a group without a Hit, whatever is taken to release an id. -/
theorem released_unseen_bare : ∃ w log, run alongX onePointer releasedUnseen = some (w, log) ∧
    entriesOf 0 2 log = [.release 1, .leave 1 true false] ∧
    ∀ released, ¬ Grouped released (fun _ _ => False) (entriesOf 0 2 log) := by
  have hrun : (run alongX onePointer releasedUnseen).map (fun r => entriesOf 0 2 r.2) =
      some [.release 1, .leave 1 true false] := rfl
  obtain ⟨⟨w, log⟩, hrun, hlog⟩ := map_eq_some_iff.mp hrun
  refine ⟨w, log, hrun, hlog, fun released h => ?_⟩
  rw [hlog] at h
  obtain ⟨gs, hgen, _, hhits, _⟩ := h.groups
  cases gs with
  | nil => cases hgen
  | cons g gs =>
    have hpos : 0 < g.hits := (hhits g mem_cons_self).resolve_right id
    obtain ⟨n, hn⟩ := Nat.exists_eq_succ_of_ne_zero (Nat.pos_iff_ne_zero.mp hpos)
    rw [flatMap_cons, Group.entries, hn, replicate_succ] at hgen
    have hhead := congrArg head? hgen
    cases hhead

end Xfront.Barriers
