import Xfront.Barriers.Sequences

/-!
# How many events a motion has

A barrier gives a motion at most one Hit and one Leave, and none for a pointer that
stays where it is within the hit boxes it is in.
-/

namespace Xfront.Barriers

open List Option

/-- The events that a motion on the screen can still have for one barrier: a Hit unless the
current id is released or the barrier was seen, and a Leave. -/
def weight (scr : Screen) (master : Nat) (c : PointerBarrierClient) : Nat :=
  if c.pScreen ≠ scr then 0
  else match c.getBarrierDevice master with
  | none => 0
  | some p =>
    (if c.blocksDevice master && !p.seen && p.barrierEventId != p.releaseEventId then 1 else 0) +
      if p.hit || c.blocksDevice master && !p.seen then 1 else 0

def totalWeight (scr : Screen) (master : Nat) (clients : List PointerBarrierClient) : Nat :=
  (clients.map (weight scr master)).sum

/-- The pointer stays at a point that is in the hit box of every barrier it is at. -/
def Quiet (owner : Option Nat) (scr : Screen) (currentX currentY destX destY : Int)
    (clients : List PointerBarrierClient) : Prop :=
  ∀ master, owner = some master → currentX = destX ∧ currentY = destY ∧
    ∀ c ∈ clients, c.pScreen = scr → ∀ p, c.getBarrierDevice master = some p → p.hit = true →
      c.barrier.insideHitBox destX destY = true

section

variable {g : Geometry} {o : Origin} {m m' : Motion} {scr : Screen} {master : Nat}
  {clients : List PointerBarrierClient} {log : List Logged} {c : PointerBarrierClient}
  {pbd : PointerBarrierDevice} {serials : List Nat}

theorem totalWeight_split (pre post : List PointerBarrierClient) (c : PointerBarrierClient) :
    totalWeight scr master (pre ++ c :: post) =
      totalWeight scr master pre + weight scr master c + totalWeight scr master post := by
  simp only [totalWeight, map_append, map_cons, sum_append, sum_cons]
  omega

theorem Motion.block_weight (hok : Ok m.clients log) (hc : c ∈ m.clients)
    (hscr : c.pScreen = scr) (hblocks : c.blocksDevice master = true)
    (hpbd : c.getBarrierDevice master = some pbd) (hseen : pbd.seen = false) :
    (m.block o master c pbd).events.length +
        totalWeight scr master (m.block o master c pbd).clients ≤
      m.events.length + totalWeight scr master m.clients := by
  obtain ⟨f, es, hcl, hev, hf, _, hes⟩ := m.block_spec o master c pbd
  obtain ⟨pre, post, hsplit⟩ := append_of_mem hc
  have hnd := hok.serials
  rw [hsplit] at hnd
  have hafter : weight scr master (c.setDevice master f) = 1 := by
    have hscr' : (c.setDevice master f).pScreen = scr := hscr
    rw [weight, if_neg (not_not.mpr hscr'), getBarrierDevice_setDevice fun p => (hf p).1,
      if_pos rfl, hpbd]
    simp [(hf pbd).2.1, (hf pbd).2.2.1]
  have hbefore : weight scr master c =
      (if pbd.barrierEventId ≠ pbd.releaseEventId then 1 else 0) + 1 := by
    rw [weight, if_neg (not_not.mpr hscr), hpbd]
    simp [hblocks, hseen]
  rw [hcl, hev, hsplit, writeClient_split hnd, totalWeight_split, totalWeight_split, hafter,
    hbefore, length_append]
  rcases hes with ⟨hr, rfl⟩ | ⟨hr, hes⟩
  · rw [if_neg (not_not.mpr hr), length_nil]
    omega
  · have hlen : es.length = 1 := by
      have := congrArg length hes
      simpa using this
    rw [if_pos hr, hlen]
    omega

variable {fuel : Nat}

theorem constrainLoop_weight (h : LoopOk o.scr master serials log m)
    (hloop : constrainLoop g o master fuel m = some m') :
    m'.events.length + totalWeight o.scr master m'.clients ≤
      m.events.length + totalWeight o.scr master m.clients := by
  induction fuel generalizing m with
  | zero =>
    rw [constrainLoop] at hloop
    split at hloop
    next =>
      cases hloop
      exact le_refl _
    next =>
      split at hloop
      next =>
        cases hloop
        exact le_refl _
      next => cases hloop
  | succ fuel ih =>
    rw [constrainLoop] at hloop
    split at hloop
    next =>
      cases hloop
      exact le_refl _
    next =>
      split at hloop
      next =>
        cases hloop
        exact le_refl _
      next c hfound =>
        obtain ⟨hc, hscr, hblocks, pbd, hpbd, hseen⟩ := barrierFindNearest_some hfound
        simp only [hpbd] at hloop
        have hle := ih (h.block hc hscr hpbd) hloop
        have hstep := Motion.block_weight (o := o) h.ok hc hscr hblocks hpbd hseen
        omega

theorem leaveOne_weight (o : Origin) (master : Nat) (x y : Int) (c : PointerBarrierClient) :
    (leaveOne o master x y c).2.length ≤ weight o.scr master c := by
  unfold leaveOne weight
  by_cases hscr : c.pScreen ≠ o.scr
  · rw [if_pos hscr, if_pos hscr]
    exact le_refl _
  · rw [if_neg hscr, if_neg hscr]
    cases c.getBarrierDevice master with
    | none => exact le_refl _
    | some p =>
      simp only
      split
      next => exact Nat.zero_le _
      next hstay =>
        have hhit : p.hit = true := by
          rw [Bool.or_eq_true, not_or] at hstay
          simpa using hstay.1
        rw [hhit, Bool.true_or, if_pos rfl, length_singleton]
        omega

theorem leaveAll_weight (o : Origin) (master : Nat) (x y : Int)
    (clients : List PointerBarrierClient) :
    ((clients.map (leaveOne o master x y)).flatMap Prod.snd).length ≤
      totalWeight o.scr master clients := by
  induction clients with
  | nil => exact le_refl _
  | cons c clients ih =>
    have hc := leaveOne_weight o master x y c
    rw [map_cons, flatMap_cons, length_append, totalWeight, map_cons, sum_cons]
    rw [totalWeight] at ih
    omega

variable {dev : Nat} {ms : BitVec 32} {cx cy dx dy : Int} {r : Constrained}

theorem inputConstrainCursor_weight (hok : Ok clients log) (hseen : NoneSeen clients)
    (h : inputConstrainCursor g fuel clients dev (some master) scr ms cx cy dx dy = some r) :
    r.events.length ≤ totalWeight scr master clients := by
  unfold inputConstrainCursor at h
  simp only at h
  split at h
  next =>
    cases h
    exact Nat.zero_le _
  next =>
    obtain ⟨m', hm', he⟩ := map_eq_some_iff.mp h
    have hloop := LoopOk.start scr master cx cy dx dy hok hseen
    let o : Origin := { dev := dev, scr := scr, ms := ms, dx := dx - cx, dy := dy - cy }
    have hle := constrainLoop_weight (o := o) hloop hm'
    have hleft := leaveAll_weight o master m'.x m'.y m'.clients
    cases he
    rw [length_append]
    rw [length_nil] at hle
    exact le_trans (Nat.add_le_add_left hleft _) (le_trans hle (le_of_eq
      (zero_add _)))

theorem barrierGetDirection_same (x y : Int) : barrierGetDirection x y x y = 0 := by
  simp [barrierGetDirection]

theorem leaveOne_quiet {x y : Int} (h : c.pScreen = o.scr →
    ∀ p, c.getBarrierDevice master = some p → p.hit = true → c.barrier.insideHitBox x y = true) :
    (leaveOne o master x y c).2 = [] ∧
      ((leaveOne o master x y c).1 = c ∨ (leaveOne o master x y c).1 =
        c.setDevice master fun p => { p with seen := false }) := by
  unfold leaveOne
  split
  next => exact ⟨rfl, .inl rfl⟩
  next hscr =>
    have hs : c.pScreen = o.scr := by simpa using hscr
    split
    next => exact ⟨rfl, .inl rfl⟩
    next p hp =>
      have hstay : (!p.hit || c.barrier.insideHitBox x y) = true := by
        cases hhit : p.hit with
        | false => rfl
        | true => exact h hs p hp hhit
      rw [if_pos hstay]
      exact ⟨rfl, .inr rfl⟩

theorem inputConstrainCursor_quiet (g : Geometry) (dev : Nat) {owner : Option Nat} (ms : BitVec 32)
    (fuel : Nat) (h : Quiet owner scr cx cy dx dy clients) :
    ∃ r, inputConstrainCursor g fuel clients dev owner scr ms cx cy dx dy = some r ∧
      r.events = [] ∧ ∀ scr' cx' cy' dx' dy', Quiet owner scr' cx' cy' dx' dy' clients →
        Quiet owner scr' cx' cy' dx' dy' r.clients := by
  unfold inputConstrainCursor
  split
  next => exact ⟨_, rfl, rfl, fun _ _ _ _ _ hq => hq⟩
  next master =>
    obtain ⟨rfl, rfl, hin⟩ := h master rfl
    split
    next => exact ⟨_, rfl, rfl, fun _ _ _ _ _ hq => hq⟩
    next =>
      let o : Origin := { dev := dev, scr := scr, ms := ms, dx := cx - cx, dy := cy - cy }
      have hloop : constrainLoop g o master fuel
          { clients := clients
            dir := barrierGetDirection cx cy cx cy
            currentX := cx
            currentY := cy
            x := cx
            y := cy
            events := [] } = some
          { clients := clients
            dir := barrierGetDirection cx cy cx cy
            currentX := cx
            currentY := cy
            x := cx
            y := cy
            events := [] } := by
        rw [constrainLoop.eq_def, if_pos (barrierGetDirection_same cx cy)]
      have hone : ∀ c ∈ clients, (leaveOne o master cx cy c).2 = [] ∧ _ := fun c hc =>
        leaveOne_quiet (hin c hc)
      refine ⟨_, by simp only; rw [hloop]; rfl, ?_, fun scr' cx' cy' dx' dy' hq => ?_⟩
      · dsimp only
        rw [nil_append, flatMap_map, flatMap_eq_nil_iff]
        exact fun c hc => (hone c hc).1
      · intro master' hm
        cases hm
        obtain ⟨hx, hy, hin'⟩ := hq master rfl
        refine ⟨hx, hy, fun c' hc' hscr' p hp hhit => ?_⟩
        dsimp only at hc'
        rw [List.map_map] at hc'
        obtain ⟨c, hc, rfl⟩ := List.mem_map.mp hc'
        rw [Function.comp_apply] at hscr' hp ⊢
        rcases (hone c hc).2 with he | he
        · rw [he] at hscr' hp ⊢
          exact hin' c hc hscr' p hp hhit
        · rw [he] at hscr' hp ⊢
          have hget := getBarrierDevice_setDevice (f := fun p => { p with seen := false })
            (fun _ => rfl) c master master
          rw [hget, if_pos rfl] at hp
          obtain ⟨q, hq', rfl⟩ := map_eq_some_iff.mp hp
          exact hin' c hc hscr' q hq' hhit

structure Crossed (g : Geometry) (scr : Screen) (master : Nat) (dir : BitVec 32)
    (cx cy dx dy : Int) (c : PointerBarrierClient) : Prop where
  scr : c.pScreen = scr
  blocks : c.blocksDevice master = true
  dir : c.barrier.isBlockingDirection dir = true
  near : ∃ d, g.barrierIsBlocking c.barrier cx cy dx dy = some d ∧ g.greater g.intMax d = true
  outside : c.barrier.insideHitBox dx dy = false
  released : ∃ p, c.getBarrierDevice master = some p ∧ p.barrierEventId = p.releaseEventId ∧
    (p.seen = true → p.hit = true)

variable {dir : BitVec 32} {cx cy dx dy : Int}

theorem barrierFindNearest_none
    (h : barrierFindNearest g clients scr master dir cx cy dx dy = none) (hc : c ∈ clients)
    (hcross : Crossed g scr master dir cx cy dx dy c) {p : PointerBarrierDevice}
    (hp : c.getBarrierDevice master = some p) : p.seen = true := by
  by_contra hseen
  obtain ⟨d, hd, hgreater⟩ := hcross.near
  have hnew : ∀ found, (nearer g scr master dir cx cy dx dy (g.intMax, found) c).2 = some c := by
    intro found
    simp only [nearer, hcross.scr, ne_eq, not_true_eq_false, if_false, hp, hseen, hcross.dir,
      Bool.not_true, Bool.false_eq_true, hcross.blocks, hd, hgreater, if_true]
  have hkeep : ∀ (l : List PointerBarrierClient)
      (best : g.Distance × Option PointerBarrierClient), best.2 ≠ none →
      (l.foldl (nearer g scr master dir cx cy dx dy) best).2 ≠ none := by
    intro l
    induction l with
    | nil => exact fun _ hb => hb
    | cons e l ih =>
      intro best hb
      refine ih _ ?_
      rcases nearer_cases g scr master dir cx cy dx dy best e with he | ⟨he, _⟩
      · rwa [he]
      · rw [he]
        exact some_ne_none e
  have hfind : ∀ l : List PointerBarrierClient, c ∈ l →
      (l.foldl (nearer g scr master dir cx cy dx dy) (g.intMax, none)).2 ≠ none := by
    intro l
    induction l with
    | nil => exact fun hm => (nomatch hm)
    | cons e l ih =>
      intro hm
      rw [foldl_cons]
      rcases mem_cons.mp hm with rfl | hm
      · refine hkeep l _ ?_
        rw [hnew]
        exact some_ne_none c
      · rcases nearer_cases g scr master dir cx cy dx dy (g.intMax, none) e with he | ⟨he, _⟩
        · rw [he]
          exact ih hm
        · refine hkeep l _ ?_
          rw [he]
          exact some_ne_none e
  exact hfind clients hc h

theorem Crossed.write (h : Crossed g scr master dir cx cy dx dy c)
    {f : PointerBarrierDevice → PointerBarrierDevice}
    (hf : ∀ p, (f p).deviceid = p.deviceid ∧ (f p).seen = true ∧ (f p).hit = true ∧
      (f p).barrierEventId = p.barrierEventId ∧ (f p).releaseEventId = p.releaseEventId) :
    Crossed g scr master dir cx cy dx dy (c.setDevice master f) where
  scr := h.scr
  blocks := h.blocks
  dir := h.dir
  near := h.near
  outside := h.outside
  released := by
    obtain ⟨p, hp, hr, _⟩ := h.released
    refine ⟨f p, ?_, ?_, fun _ => (hf p).2.2.1⟩
    · rw [getBarrierDevice_setDevice fun p => (hf p).1, if_pos rfl, hp, map_some]
    · rw [(hf p).2.2.2.1, (hf p).2.2.2.2, hr]

theorem Motion.block_crossed (hall : ∀ c ∈ m.clients, Crossed g scr master dir cx cy dx dy c)
    (hr : pbd.barrierEventId = pbd.releaseEventId) :
    (∀ c' ∈ (m.block o master c pbd).clients, Crossed g scr master dir cx cy dx dy c') ∧
    m.block o master c pbd = { m with clients := (m.block o master c pbd).clients } ∧
    (m.block o master c pbd).clients.length = m.clients.length := by
  rw [Motion.block, if_pos hr]
  refine ⟨fun c' hc' => ?_, rfl, length_map ..⟩
  obtain ⟨d, hd, rfl⟩ := List.mem_map.mp hc'
  split
  · exact (hall d hd).write fun p => ⟨rfl, rfl, rfl, rfl, rfl⟩
  · exact hall d hd

theorem constrainLoop_crossed (hdir : m.dir ≠ 0)
    (hall : ∀ c ∈ m.clients, Crossed g o.scr master m.dir m.currentX m.currentY m.x m.y c)
    (hloop : constrainLoop g o master fuel m = some m') :
    m' = { m with clients := m'.clients } ∧ m'.clients.length = m.clients.length ∧
    (∀ c ∈ m'.clients, Crossed g o.scr master m.dir m.currentX m.currentY m.x m.y c) ∧
    barrierFindNearest g m'.clients o.scr master m.dir m.currentX m.currentY m.x m.y = none := by
  induction fuel generalizing m with
  | zero =>
    rw [constrainLoop, if_neg hdir] at hloop
    split at hloop
    next hnone =>
      cases hloop
      exact ⟨rfl, rfl, hall, hnone⟩
    next => cases hloop
  | succ fuel ih =>
    rw [constrainLoop, if_neg hdir] at hloop
    split at hloop
    next hnone =>
      cases hloop
      exact ⟨rfl, rfl, hall, hnone⟩
    next c hfound =>
      obtain ⟨p, hp, hr, _⟩ := (hall c (barrierFindNearest_some hfound).1).released
      simp only [hp] at hloop
      obtain ⟨hall', he, hlen⟩ := Motion.block_crossed (o := o) (c := c) hall hr
      rw [he] at hloop
      obtain ⟨hm', hlen', hcross, hnone⟩ := ih
        (m := { m with clients := (m.block o master c p).clients }) hdir hall' hloop
      exact ⟨hm', hlen'.trans hlen, hcross, hnone⟩

theorem inputConstrainCursor_crossed (hdir : barrierGetDirection cx cy dx dy ≠ 0)
    (hall : ∀ c ∈ clients, Crossed g scr master (barrierGetDirection cx cy dx dy) cx cy dx dy c)
    (h : inputConstrainCursor g fuel clients dev (some master) scr ms cx cy dx dy = some r) :
    r.events.length = clients.length := by
  unfold inputConstrainCursor at h
  simp only at h
  split at h
  next hnone =>
    cases h
    cases clients with
    | nil => rfl
    | cons c clients =>
      have hscr := (hall c mem_cons_self).scr
      simp [hscr] at hnone
  next =>
    obtain ⟨m', hm', he⟩ := map_eq_some_iff.mp h
    cases he
    obtain ⟨hkeep, hlen, hcross, hnone⟩ := constrainLoop_crossed hdir hall hm'
    have hx : m'.x = dx := by rw [hkeep]
    have hy : m'.y = dy := by rw [hkeep]
    have hev : m'.events = [] := by rw [hkeep]
    have hone : ∀ c ∈ m'.clients, ((fun a => a.2.length) ∘
        leaveOne ⟨dev, scr, ms, dx - cx, dy - cy⟩ master dx dy) c = 1 := by
      intro c hc
      obtain ⟨p, hp, hr, himp⟩ := (hcross c hc).released
      have hseen := barrierFindNearest_none hnone hc (hcross c hc) hp
      simp [leaveOne, (hcross c hc).scr, hp, himp hseen, (hcross c hc).outside]
    rw [hx, hy, hev, nil_append, length_flatMap, List.map_map,
      map_congr_left (g := fun _ => 1) hone]
    simpa using hlen

end

end Xfront.Barriers
