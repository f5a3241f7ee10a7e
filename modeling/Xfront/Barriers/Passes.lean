import Xfront.Barriers.Records

/-!
# The two passes over the barriers

The loop and the second pass of `input_constrain_cursor`, write by write: `Ok` is
what every write keeps, and `SeenOnly` says where `seen` can be set within a call.
-/

namespace Xfront.Barriers
open Option Function Prod

open List

open Generated

/-- The log that the code's own events stand for; `destroyed` marks those of a barrier that goes. -/
def Generated.logged (destroyed : Bool) (ev : Generated) : Logged where
  serial := ev.serial
  master := ev.master
  entry :=
    match ev.event.type with
    | .barrierHit => .hit ev.event.eventId.toInt
    | .barrierLeave =>
      .leave ev.event.eventId.toInt (ev.event.flags &&& xiBarrierPointerReleased != 0) destroyed

def Requested.logged (r : Requested) : Logged where
  serial := r.serial
  master := r.master
  entry := .release r.eventid.toInt

def Told (p : Option PointerBarrierDevice) (log : List Entry) : Prop :=
  match p with
  | some p => Follows p log
  | none => Closed log

open PointerBarrierDevice

structure Ok (clients : List PointerBarrierClient) (log : List Logged) : Prop where
  serials : (clients.map PointerBarrierClient.serial).Nodup
  devices : ∀ c ∈ clients, (c.perDevice.map deviceid).Nodup
  told : ∀ serial master, Told (record clients serial master) (entriesOf serial master log)

/-- Within a call `seen` is set for one master and on one screen only. -/
def SeenOnly (scr : Screen) (master : Nat) (clients : List PointerBarrierClient) : Prop :=
  ∀ c ∈ clients, ∀ d ∈ c.perDevice, d.seen = true → c.pScreen = scr ∧ d.deviceid = master

def NoneSeen (clients : List PointerBarrierClient) : Prop :=
  ∀ c ∈ clients, ∀ d ∈ c.perDevice, d.seen = false

section

variable {clients clients' : List PointerBarrierClient} {log : List Logged} {es : List Entry}
  {c : PointerBarrierClient} {p : PointerBarrierDevice}
  {f : PointerBarrierDevice → PointerBarrierDevice} {serial master : Nat} {scr : Screen}

theorem writeClient_serials (serial deviceid : Nat) (f : PointerBarrierDevice → PointerBarrierDevice)
    (clients : List PointerBarrierClient) :
    (writeClient serial deviceid f clients).map PointerBarrierClient.serial =
      clients.map PointerBarrierClient.serial := by
  rw [writeClient, List.map_map]
  refine map_congr_left fun c _ => ?_
  simp only [Function.comp_apply]
  split <;> rfl

theorem Ok.told_write (h : Ok clients log)
    (hrec : ∀ serial' master', record clients' serial' master' =
      if serial' = serial ∧ master' = master then (record clients serial' master').map f
      else record clients serial' master') (hp : record clients serial master = some p)
    (hfol : ∀ log, Follows p log → Follows (f p) (log ++ es)) (serial' master' : Nat) :
    Told (record clients' serial' master')
      (entriesOf serial' master' (log ++ es.map fun e => ⟨serial, master, e⟩)) := by
  rw [hrec, entriesOf_append]
  have htold := h.told serial' master'
  by_cases hk : serial' = serial ∧ master' = master
  · obtain ⟨rfl, rfl⟩ := hk
    rw [if_pos ⟨rfl, rfl⟩, entriesOf_same, hp]
    rw [hp] at htold
    exact hfol _ htold
  · have hnil : entriesOf serial' master'
        (es.map fun e => (⟨serial, master, e⟩ : Logged)) = [] := by
      refine entriesOf_eq_nil fun l hl => ?_
      obtain ⟨e, _, rfl⟩ := mem_map.mp hl
      exact fun hk' => hk ⟨hk'.1.symm, hk'.2.symm⟩
    rw [if_neg hk, hnil, append_nil]
    exact htold

theorem Ok.write (es : List Entry) (h : Ok clients log) (hf : ∀ p, (f p).deviceid = p.deviceid)
    (hp : record clients serial master = some p)
    (hfol : ∀ log, Follows p log → Follows (f p) (log ++ es)) :
    Ok (writeClient serial master f clients)
      (log ++ es.map fun e => ⟨serial, master, e⟩) where
  serials := by
    rw [writeClient_serials]
    exact h.serials
  devices := fun c hc => by
    obtain ⟨d, hd, rfl⟩ := mem_map.mp hc
    have hnd := h.devices d hd
    split
    · show ((writeDevice master f d.perDevice).map _).Nodup
      rw [writeDevice_ids hf]
      exact hnd
    · exact hnd
  told := h.told_write (record_writeClient hf clients serial master) hp hfol

theorem Ok.tell (es : List Entry) (h : Ok clients log) (hp : record clients serial master = some p)
    (hfol : ∀ log, Follows p log → Follows p (log ++ es)) :
    Ok clients (log ++ es.map fun e => ⟨serial, master, e⟩) where
  serials := h.serials
  devices := h.devices
  told := h.told_write (f := id) (fun serial' master' => by
    rw [Option.map_id, id_eq, ite_self]) hp hfol

theorem mem_setDevice {d : PointerBarrierDevice} (hnd : (c.perDevice.map deviceid).Nodup)
    (hd : d ∈ (c.setDevice master f).perDevice) :
    (d ∈ c.perDevice ∧ d.deviceid ≠ master) ∨ ∃ p ∈ c.perDevice, p.deviceid = master ∧ d = f p := by
  have hmem : ∀ ps : List PointerBarrierDevice, (ps.map deviceid).Nodup →
      d ∈ writeDevice master f ps →
      (d ∈ ps ∧ d.deviceid ≠ master) ∨ ∃ p ∈ ps, p.deviceid = master ∧ d = f p := by
    intro ps
    induction ps with
    | nil => exact fun _ h => (nomatch h)
    | cons p ps ih =>
      intro hnd h
      rw [map_cons, nodup_cons] at hnd
      rw [writeDevice] at h
      split at h
      next hp =>
        rcases mem_cons.mp h with rfl | h
        · exact .inr ⟨p, mem_cons_self, hp, rfl⟩
        · refine .inl ⟨mem_cons_of_mem _ h, fun he => hnd.1 ?_⟩
          rw [hp, ← he]
          exact mem_map_of_mem h
      next hp =>
        rcases mem_cons.mp h with rfl | h
        · exact .inl ⟨mem_cons_self, hp⟩
        · rcases ih hnd.2 h with ⟨h, hne⟩ | ⟨q, hq, he⟩
          · exact .inl ⟨mem_cons_of_mem _ h, hne⟩
          · exact .inr ⟨q, mem_cons_of_mem _ hq, he⟩
  exact hmem c.perDevice hnd hd

theorem SeenOnly.write (h : SeenOnly scr master clients)
    (hnd : ∀ c ∈ clients, (c.perDevice.map deviceid).Nodup) (hf : ∀ p, (f p).deviceid = p.deviceid)
    (hscr : ∀ c ∈ clients, c.serial = serial → c.pScreen = scr) :
    SeenOnly scr master (writeClient serial master f clients) := by
  intro c hc d hd hseen
  obtain ⟨c', hc', rfl⟩ := mem_map.mp hc
  split at hd
  next hserial =>
    have hs : c'.pScreen = scr := hscr c' hc' hserial
    rw [if_pos hserial]
    refine ⟨hs, ?_⟩
    rcases mem_setDevice (hnd c' hc') hd with ⟨hd, _⟩ | ⟨p, _, hp, rfl⟩
    · exact (h c' hc' d hd hseen).2
    · rw [hf, hp]
  next hserial =>
    rw [if_neg hserial]
    exact h c' hc' d hd hseen

variable {g : Geometry}

def Findable (scr : Screen) (master : Nat) (c : PointerBarrierClient) : Prop :=
  c.pScreen = scr ∧ c.blocksDevice master = true ∧
    ∃ pbd, c.getBarrierDevice master = some pbd ∧ pbd.seen = false

theorem nearer_cases (g : Geometry) (scr : Screen) (master : Nat) (dir : BitVec 32)
    (x1 y1 x2 y2 : Int) (best : g.Distance × Option PointerBarrierClient)
    (c : PointerBarrierClient) : nearer g scr master dir x1 y1 x2 y2 best c = best ∨
      (nearer g scr master dir x1 y1 x2 y2 best c).2 = some c ∧ Findable scr master c := by
  unfold nearer
  split
  next => exact .inl rfl
  next hscr =>
    have hs : c.pScreen = scr := by simpa using hscr
    split
    next => exact .inl rfl
    next pbd hpbd =>
      split
      next => exact .inl rfl
      next hseen =>
        split
        next => exact .inl rfl
        next =>
          split
          next => exact .inl rfl
          next hblocks =>
            have hf : Findable scr master c :=
              ⟨hs, by simpa using hblocks, pbd, hpbd, by simpa using hseen⟩
            split
            next => exact .inl rfl
            next =>
              split
              · exact .inr ⟨rfl, hf⟩
              · exact .inl rfl

theorem barrierFindNearest_some {dir : BitVec 32} {x1 y1 x2 y2 : Int}
    (h : barrierFindNearest g clients scr master dir x1 y1 x2 y2 = some c) :
    c ∈ clients ∧ Findable scr master c := by
  have hall : ∀ (l : List PointerBarrierClient) (best : g.Distance × Option PointerBarrierClient),
      (∀ c, best.2 = some c → c ∈ clients ∧ Findable scr master c) → (∀ c ∈ l, c ∈ clients) →
      ∀ c, (l.foldl (nearer g scr master dir x1 y1 x2 y2) best).2 = some c →
        c ∈ clients ∧ Findable scr master c := by
    intro l
    induction l with
    | nil => exact fun best hb _ => hb
    | cons d l ih =>
      intro best hb hl
      refine ih _ (fun c hc => ?_) fun c hc => hl c (mem_cons_of_mem _ hc)
      rcases nearer_cases g scr master dir x1 y1 x2 y2 best d with he | ⟨he, hf⟩
      · rw [he] at hc
        exact hb c hc
      · rw [he] at hc
        cases hc
        exact ⟨hl d mem_cons_self, hf⟩
  exact hall clients (g.intMax, none) (fun _ hc => (nomatch hc)) (fun _ hc => hc) c h

variable {o : Origin} {m : Motion} {pbd : PointerBarrierDevice}

def unseen (master : Nat) (clients : List PointerBarrierClient) : Nat :=
  clients.countP fun c => (c.getBarrierDevice master).any fun p => !p.seen

theorem Motion.block_spec (m : Motion) (o : Origin) (master : Nat) (c : PointerBarrierClient)
    (pbd : PointerBarrierDevice) :
    ∃ (f : PointerBarrierDevice → PointerBarrierDevice) (es : List Generated),
      (m.block o master c pbd).clients = writeClient c.serial master f m.clients ∧
      (m.block o master c pbd).events = m.events ++ es ∧
      (∀ p, (f p).deviceid = p.deviceid ∧ (f p).seen = true ∧ (f p).hit = true ∧
        (f p).barrierEventId = p.barrierEventId ∧ (f p).releaseEventId = p.releaseEventId) ∧
      (∀ ev ∈ es, ev.serial = c.serial) ∧ (pbd.barrierEventId = pbd.releaseEventId ∧ es = [] ∨
        pbd.barrierEventId ≠ pbd.releaseEventId ∧ es.map (logged false) =
          [⟨c.serial, master, .hit pbd.barrierEventId.toInt⟩]) := by
  unfold Motion.block
  split
  next hr =>
    exact ⟨fun p => { p with seen := true, hit := true }, [], rfl, (append_nil _).symm,
      fun p => ⟨rfl, rfl, rfl, rfl, rfl⟩, fun _ h => (nomatch h), .inl ⟨hr, rfl⟩⟩
  next hr =>
    refine ⟨fun p => { p with seen := true, hit := true, lastTimestamp := o.ms },
      [{ serial := c.serial
         master := master
         event := o.event .barrierHit c
          (if pbd.hit then o.ms - pbd.lastTimestamp else 0) pbd.barrierEventId 0 }],
      ?_, ?_, fun p => ⟨rfl, rfl, rfl, rfl, rfl⟩,
      fun ev hev => by rw [mem_singleton.mp hev], .inr ⟨hr, rfl⟩⟩
    all_goals
      simp only
      split
      · rfl
      · split <;> rfl

theorem Motion.block_unseen (hok : Ok m.clients log) (hc : c ∈ m.clients)
    (hpbd : c.getBarrierDevice master = some pbd) (hseen : pbd.seen = false) :
    unseen master (m.block o master c pbd).clients < unseen master m.clients := by
  obtain ⟨f, _, hcl, _, hf, _, _⟩ := m.block_spec o master c pbd
  obtain ⟨pre, post, hsplit⟩ := append_of_mem hc
  have hnd := hok.serials
  rw [hsplit] at hnd
  rw [hcl, hsplit, writeClient_split hnd]
  simp only [unseen, countP_append, countP_cons]
  rw [getBarrierDevice_setDevice fun p => (hf p).1, if_pos rfl, hpbd]
  simp only [map_some, any_some, (hf pbd).2.1, hseen]
  simp only [Bool.not_true, Bool.not_false, Bool.false_eq_true, if_false, if_true]
  omega

/-- What the loop keeps, with the log of the run so far before the events of the call. -/
structure LoopOk (scr : Screen) (master : Nat) (serials : List Nat) (log : List Logged)
    (m : Motion) : Prop where
  ok : Ok m.clients (log ++ m.events.map (logged false))
  seen : SeenOnly scr master m.clients
  same : m.clients.map PointerBarrierClient.serial = serials
  about : ∀ ev ∈ m.events, ev.serial ∈ serials

theorem LoopOk.start (scr : Screen) (master : Nat) (cx cy dx dy : Int) (h : Ok clients log)
    (hseen : NoneSeen clients) : LoopOk scr master (clients.map PointerBarrierClient.serial) log
      { clients := clients
        dir := barrierGetDirection cx cy dx dy
        currentX := cx
        currentY := cy
        x := dx
        y := dy
        events := [] } where
  ok := by simpa using h
  seen c hc d hd hs := by
    rw [hseen c hc d hd] at hs
    cases hs
  same := rfl
  about _ h := absurd h not_mem_nil

theorem LoopOk.block {serials : List Nat} (h : LoopOk scr master serials log m)
    (hc : c ∈ m.clients) (hscr : c.pScreen = scr) (hpbd : c.getBarrierDevice master = some pbd) :
    LoopOk scr master serials log (m.block o master c pbd) := by
  obtain ⟨f, es, hcl, hev, hf, habout, hes⟩ := m.block_spec o master c pbd
  have hrec : record m.clients c.serial master = some pbd := by
    rw [record_of_mem h.ok.serials hc, hpbd]
  refine ⟨?_, ?_, ?_, fun ev hmem => ?_⟩
  · rw [hcl, hev, map_append, ← append_assoc]
    rcases hes with ⟨hr, rfl⟩ | ⟨hr, hes⟩
    · have hw := h.ok.write [] (fun p => (hf p).1) hrec fun log hlog => by
        rw [append_nil]
        exact hlog.pass hr (hf pbd).2.2.2.1 (hf pbd).2.2.2.2 (hf pbd).2.2.1
      exact hw
    · rw [hes]
      exact h.ok.write [.hit pbd.barrierEventId.toInt] (fun p => (hf p).1) hrec
        fun log hlog => hlog.strike hr (hf pbd).2.2.2.1 (hf pbd).2.2.2.2 (hf pbd).2.2.1
  · rw [hcl]
    refine h.seen.write h.ok.devices (fun p => (hf p).1) fun d hd hserial => ?_
    have he : d = c := inj_on_of_nodup_map h.ok.serials hd hc hserial
    rw [he, hscr]
  · rw [hcl, writeClient_serials, h.same]
  · rw [hev] at hmem
    rcases mem_append.mp hmem with hmem | hmem
    · exact h.about ev hmem
    · rw [habout ev hmem, ← h.same]
      exact mem_map_of_mem hc

theorem constrainLoop_spec (g : Geometry) (fuel : Nat) {serials : List Nat}
    (h : LoopOk o.scr master serials log m) (hfuel : unseen master m.clients ≤ fuel) :
    ∃ m', constrainLoop g o master fuel m = some m' ∧ LoopOk o.scr master serials log m' := by
  induction fuel generalizing m with
  | zero =>
    rw [constrainLoop]
    split
    next => exact ⟨m, rfl, h⟩
    next =>
      split
      next => exact ⟨m, rfl, h⟩
      next c hfound =>
        obtain ⟨hc, hscr, _, pbd, hpbd, hseen⟩ := barrierFindNearest_some hfound
        have := Motion.block_unseen (o := o) h.ok hc hpbd hseen
        omega
  | succ fuel ih =>
    rw [constrainLoop]
    split
    next => exact ⟨m, rfl, h⟩
    next =>
      split
      next => exact ⟨m, rfl, h⟩
      next c hfound =>
        obtain ⟨hc, hscr, _, pbd, hpbd, hseen⟩ := barrierFindNearest_some hfound
        have hlt := Motion.block_unseen (o := o) h.ok hc hpbd hseen
        simp only [hpbd]
        exact ih (h.block hc hscr hpbd) (by omega)

theorem leaveOne_cases (o : Origin) (master : Nat) (x y : Int) (c : PointerBarrierClient) :
    (leaveOne o master x y c = (c, []) ∧ (c.pScreen ≠ o.scr ∨ c.getBarrierDevice master = none)) ∨
    ∃ (pbd : PointerBarrierDevice) (f : PointerBarrierDevice → PointerBarrierDevice)
      (es : List Entry),
      c.getBarrierDevice master = some pbd ∧ (leaveOne o master x y c).1 = c.setDevice master f ∧
      (leaveOne o master x y c).2.map (logged false) = es.map (fun e => ⟨c.serial, master, e⟩) ∧
      (∀ p, (f p).deviceid = p.deviceid ∧ (f p).seen = false) ∧
      ∀ log, Follows pbd log → Follows (f pbd) (log ++ es) := by
  unfold leaveOne
  split
  next hscr => exact .inl ⟨rfl, .inl hscr⟩
  next =>
    split
    next hnone => exact .inl ⟨rfl, .inr hnone⟩
    next pbd hpbd =>
      right
      split
      next =>
        refine ⟨pbd, _, [], hpbd, rfl, rfl, fun p => ⟨rfl, rfl⟩, fun log hlog => ?_⟩
        rw [append_nil]
        exact hlog.congr rfl rfl rfl
      next hstay =>
        have hhit : pbd.hit = true := by
          rw [Bool.or_eq_true, not_or] at hstay
          simpa using hstay.1
        refine ⟨pbd, _, [.leave pbd.barrierEventId.toInt
          (decide (pbd.barrierEventId = pbd.releaseEventId)) false], hpbd, rfl, ?_,
          fun p => ⟨rfl, rfl⟩, fun log hlog => hlog.depart hhit rfl rfl rfl⟩
        by_cases hr : pbd.barrierEventId = pbd.releaseEventId
        · simp [logged, Origin.event, hr, xiBarrierPointerReleased]
        · simp [logged, Origin.event, hr]

theorem leaveAll_ok (o : Origin) (master : Nat) (x y : Int)
    {pre post : List PointerBarrierClient} (h : Ok (pre ++ post) log) :
    Ok (pre ++ (post.map (leaveOne o master x y)).map fst)
      (log ++ ((post.map (leaveOne o master x y)).flatMap snd).map (logged false)) := by
  induction post generalizing pre log with
  | nil => simpa using h
  | cons c post ih =>
    rw [map_cons, map_cons, flatMap_cons, map_append, ← append_assoc, append_cons]
    refine ih ?_
    rw [← append_cons]
    rcases leaveOne_cases o master x y c with ⟨he, _⟩ | ⟨pbd, f, es, hpbd, hfst, hsnd, hf, hfol⟩
    · rw [he]
      simpa using h
    · rw [hfst, hsnd, ← writeClient_split h.serials]
      refine h.write es (fun p => (hf p).1) ?_ hfol
      rw [record_of_mem h.serials (mem_append_right pre mem_cons_self), hpbd]

theorem leaveAll_noneSeen {x y : Int} (h : SeenOnly o.scr master clients)
    (hnd : ∀ c ∈ clients, (c.perDevice.map deviceid).Nodup) :
    NoneSeen ((clients.map (leaveOne o master x y)).map Prod.fst) := by
  intro c' hc' d hd
  rw [List.map_map] at hc'
  obtain ⟨c, hc, rfl⟩ := List.mem_map.mp hc'
  by_contra hseen
  have hseen : d.seen = true := by simpa using hseen
  rw [Function.comp_apply] at hd
  rcases leaveOne_cases o master x y c with ⟨he, hno⟩ | ⟨pbd, f, es, hpbd, hfst, _, hf, _⟩
  · rw [he] at hd
    obtain ⟨hs, hm⟩ := h c hc d hd hseen
    rcases hno with hno | hno
    · exact hno hs
    · have := List.find?_eq_none.mp hno d hd
      simp [hm] at this
  · rw [hfst] at hd
    rcases mem_setDevice (hnd c hc) hd with ⟨hd, hne⟩ | ⟨p, _, _, rfl⟩
    · exact hne (h c hc d hd hseen).2
    · rw [(hf p).2] at hseen
      cases hseen

theorem leaveOne_serial (o : Origin) (master : Nat) (x y : Int) (c : PointerBarrierClient) :
    (leaveOne o master x y c).1.serial = c.serial ∧
      ∀ ev ∈ (leaveOne o master x y c).2, ev.serial = c.serial := by
  unfold leaveOne
  split
  next => exact ⟨rfl, fun _ h => (nomatch h)⟩
  next =>
    split
    next => exact ⟨rfl, fun _ h => (nomatch h)⟩
    next =>
      split
      next => exact ⟨rfl, fun _ h => (nomatch h)⟩
      next => exact ⟨rfl, fun ev h => by rw [mem_singleton.mp h]⟩

theorem inputConstrainCursor_spec (g : Geometry) (dev : Nat) (owner : Option Nat) (scr : Screen)
    (ms : BitVec 32) (cx cy dx dy : Int) (h : Ok clients log) (hseen : NoneSeen clients) :
    ∃ r, inputConstrainCursor g clients.length clients dev owner scr ms cx cy dx dy = some r ∧
      Ok r.clients (log ++ r.events.map (logged false)) ∧ NoneSeen r.clients ∧
      r.clients.map PointerBarrierClient.serial = clients.map PointerBarrierClient.serial ∧
      ∀ ev ∈ r.events, ev.serial ∈ clients.map PointerBarrierClient.serial := by
  unfold inputConstrainCursor
  split
  next => exact ⟨_, rfl, by simpa using h, hseen, rfl, fun _ h => (nomatch h)⟩
  next master =>
    split
    next => exact ⟨_, rfl, by simpa using h, hseen, rfl, fun _ h => (nomatch h)⟩
    next =>
      have hloop := LoopOk.start scr master cx cy dx dy h hseen
      let o : Origin := { dev := dev, scr := scr, ms := ms, dx := dx - cx, dy := dy - cy }
      obtain ⟨m', hm', hok⟩ := constrainLoop_spec (o := o) g clients.length hloop
        countP_le_length
      refine ⟨_, by simp only; rw [hm']; rfl, ?_, ?_, ?_, fun ev hev => ?_⟩
      · rw [map_append, ← append_assoc]
        exact @leaveAll_ok _ o master m'.x m'.y [] _ hok.ok
      · exact leaveAll_noneSeen hok.seen hok.ok.devices
      · rw [← hok.same, List.map_map, List.map_map]
        exact map_congr_left fun c _ => (leaveOne_serial _ master m'.x m'.y c).1
      · rcases mem_append.mp hev with hev | hev
        · exact hok.about ev hev
        · obtain ⟨_, hl, hev⟩ := mem_flatMap.mp hev
          obtain ⟨c, hc, rfl⟩ := List.mem_map.mp hl
          rw [(leaveOne_serial _ master m'.x m'.y c).2 ev hev, ← hok.same]
          exact List.mem_map_of_mem hc

end

end Xfront.Barriers
