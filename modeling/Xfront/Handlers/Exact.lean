import Xfront.Handlers.Model

/-!
# Handlers in every run

What every action keeps, then runs: the array holds what is registered, a handler is called
only while it is registered, and a pass calls each entry it began with once unless the entry
is removed before its turn.
-/

namespace Xfront.Handlers
open List Option
open Run (exec Guarded exec_keeps)

variable {s s' : State} {e : Event}

theorem next_cases (hs : s.Sound) (h : s.next = some (s', e)) :
    (s.pass ≠ none ∧ s' = s.finish ∧ e = .quiet) ∨
      (∃ p, p ≠ none ∧ (∀ i, p = some (.wakeup i) → i ≤ s.numHandlers) ∧ s' = { s with pass := p } ∧
        (e = .quiet ∨ ∃ i x, s.handlers[i]? = some x ∧ x.deleted = false ∧
          e = .called i x.toRegistration)) := by
  have hturn : ∀ (i : Nat) (p : Pass), (∀ j, some p = some (.wakeup j) → j ≤ s.numHandlers) →
      s.turn i p = some (s', e) →
      ∃ p, p ≠ none ∧ (∀ i, p = some (.wakeup i) → i ≤ s.numHandlers) ∧ s' = { s with pass := p } ∧
        (e = .quiet ∨ ∃ i x, s.handlers[i]? = some x ∧ x.deleted = false ∧
          e = .called i x.toRegistration) := by
    intro i p hp ht
    obtain ⟨x, hx, he⟩ := map_eq_some_iff.mp ht
    cases he
    refine ⟨some p, by simp, hp, rfl, ?_⟩
    cases hd : x.deleted with
    | true => exact .inl (by simp)
    | false => exact .inr ⟨i, x, hx, hd, by simp⟩
  rw [State.next] at h
  split at h
  · cases h
  · next i hp =>
    split at h
    · exact .inr (hturn i _ (by simp) h)
    · cases h
      exact .inr ⟨_, by simp, by simp, rfl, .inl rfl⟩
  · next hp =>
    cases h
    exact .inl ⟨by simp [hp], rfl, rfl⟩
  · cases h
    exact .inr ⟨_, by simp, by simp, rfl, .inl rfl⟩
  · next hp =>
    cases h
    exact .inl ⟨by simp [hp], rfl, rfl⟩
  · next i hp =>
    refine .inr (hturn i _ (fun j hj => ?_) h)
    cases hj
    have := hs.inside _ hp
    omega

theorem next_busy (h : s.next = some (s', e)) : s.pass ≠ none := by
  intro hp
  rw [State.next, hp] at h
  cases h

variable {p : Pass}

theorem begin_cases (h : s.begin p = some (s', e)) :
    s.pass = none ∧ s' = { s with inHandler := s.inHandler + 1, pass := some p } ∧ e = .quiet := by
  rw [State.begin] at h
  split at h
  · next hp =>
    cases h
    exact ⟨hp, rfl, rfl⟩
  · cases h

theorem begin_sound (hs : s.Sound)
    (hp : ∀ i, p ≠ .wakeup i) (h : s.begin p = some (s', e)) : s'.Sound := by
  obtain ⟨hidle, rfl, _⟩ := begin_cases h
  have := (hs.idle hidle).2
  refine ⟨hs.unmarked, by simp, fun _ => by simp [this], hs.fits, fun i hi => ?_⟩
  exact absurd (some.inj hi) (hp i)

variable {a : Act}

theorem step_sound (hs : s.Sound) (h : step s a = some (s', e)) : s'.Sound := by
  cases a with
  | register r allocated =>
    cases h
    exact (register_sound hs r allocated).1
  | remove r =>
    cases h
    exact remove_sound hs r
  | beginBlock | beginWakeup => exact begin_sound hs (by simp) h
  | next =>
    rcases next_cases hs h with ⟨hp, rfl, _⟩ | ⟨p, hp, hi, rfl, _⟩
    · exact (finish_sound hs hp).1
    · exact ⟨hs.unmarked, fun h => absurd h hp, fun _ => hs.busy (next_busy h), hs.fits, hi⟩

theorem step_live (hs : s.Sound) (hf : Fresh s a) (h : step s a = some (s', e)) :
    live s'.handlers = e.after (live s.handlers) ∧
      ∀ i r, e = .called i r → r ∈ live s.handlers := by
  cases a with
  | register r allocated =>
    cases h
    exact ⟨(register_sound hs r allocated).2, by simp⟩
  | remove r =>
    cases h
    exact ⟨remove_live hs hf, by simp⟩
  | beginBlock | beginWakeup =>
    obtain ⟨_, rfl, rfl⟩ := begin_cases h
    exact ⟨rfl, by simp⟩
  | next =>
    rcases next_cases hs h with ⟨hp, rfl, rfl⟩ | ⟨p, _, _, rfl, rfl | ⟨i, x, hx, hd, rfl⟩⟩
    · exact ⟨(finish_sound hs hp).2, by simp⟩
    · exact ⟨rfl, by simp⟩
    · refine ⟨rfl, fun j r hr => ?_⟩
      cases hr
      exact mem_live.mpr ⟨x, mem_of_getElem? hx, hd, rfl⟩

def Event.calls (i : Nat) : Event → Bool
  | .called j _ => j == i
  | _ => false

def Event.removes (i : Nat) : Event → Bool
  | .removed _ entry => entry == some i
  | _ => false

def Act.begins : Act → Bool
  | .beginBlock => true
  | .beginWakeup => true
  | _ => false

def State.looped (s : State) : Prop :=
  s.pass = some .blockScreens ∨ s.pass = some (.wakeup 0)

/-- What a pass does with the `n` entries it begins with. -/
structure PassExact (n : Nat) (es : List Event) : Prop where
  once : ∀ i < n, (∀ e ∈ es, e.removes i = false) → es.countP (Event.calls i) = 1
  atMostOnce : ∀ i, es.countP (Event.calls i) ≤ 1
  notAfter : es.Pairwise fun e e' => ∀ i, e.removes i = true → e'.calls i = false

def State.passed (s : State) (i : Nat) : Prop :=
  match s.pass with
  | none => False
  | some (.block k) => i < k
  | some .blockScreens => True
  | some .wakeupScreens => False
  | some (.wakeup k) => k ≤ i

/-- A pass under way, with what has happened since it began with `n` entries. -/
structure Passing (n : Nat) (s : State) (es : List Event) : Prop where
  begun : s.pass ≠ none
  room : n ≤ s.numHandlers
  marked : ∀ i, (∃ x, s.handlers[i]? = some x ∧ x.deleted = true) ↔ ∃ e ∈ es, e.removes i = true
  waiting : ∀ i, ¬ s.passed i → es.countP (Event.calls i) = 0
  exact : ∀ i < n, s.passed i → (∀ e ∈ es, e.removes i = false) → es.countP (Event.calls i) = 1
  atMostOnce : ∀ i, es.countP (Event.calls i) ≤ 1
  notAfter : es.Pairwise fun e e' => ∀ i, e.removes i = true → e'.calls i = false

variable {n : Nat} {es : List Event}

theorem Passing.looped (h : Passing n s es) (hl : s.looped) : PassExact n es := by
  refine ⟨fun i hi => h.exact i hi ?_, h.atMostOnce, h.notAfter⟩
  rcases hl with hl | hl <;> simp [State.passed, hl]

theorem Passing.idle (h : Passing n s es)
    (hbegun : s'.pass ≠ none) (hroom : s.numHandlers ≤ s'.numHandlers)
    (hon : ∀ i, s.passed i → s'.passed i) (hback : ∀ i < n, s'.passed i → s.passed i)
    (hcall : ∀ i, e.calls i = false)
    (hmark : ∀ i, (∃ x, s'.handlers[i]? = some x ∧ x.deleted = true) ↔
      ∃ f ∈ es ++ [e], f.removes i = true) : Passing n s' (es ++ [e]) := by
  have hcount : ∀ i, (es ++ [e]).countP (Event.calls i) = es.countP (Event.calls i) := by
    intro i
    simp [countP_append, hcall i]
  refine ⟨hbegun, h.room.trans hroom, hmark, ?_, ?_, ?_, ?_⟩
  · intro i hi
    rw [hcount]
    exact h.waiting i (mt (hon i) hi)
  · intro i hi hpa hrem
    rw [hcount]
    exact h.exact i hi (hback i hi hpa) fun f hf => hrem f (mem_append_left _ hf)
  · intro i
    rw [hcount]
    exact h.atMostOnce i
  · rw [pairwise_append]
    refine ⟨h.notAfter, pairwise_singleton .., fun f _ f' hf' i _ => ?_⟩
    rw [mem_singleton.mp hf']
    exact hcall i

theorem removes_snoc {i : Nat} : (∃ f ∈ es ++ [e], f.removes i = true) ↔
      (∃ f ∈ es, f.removes i = true) ∨ e.removes i = true := by
  simp [or_and_right, exists_or]

theorem Passing.unremoved (h : Passing n s es) (he : ∀ i, e.removes i = false) (i : Nat) :
    (∃ x, s.handlers[i]? = some x ∧ x.deleted = true) ↔ ∃ f ∈ es ++ [e], f.removes i = true := by
  rw [h.marked i, removes_snoc, he i]
  simp

theorem Passing.turn {i : Nat}
    (h : Passing n s es) (ht : s.turn i p = some (s', e)) (hwait : ¬ s.passed i)
    (hpassed : ∀ j, { s with pass := some p }.passed j ↔ s.passed j ∨ j = i) :
    Passing n s' (es ++ [e]) := by
  obtain ⟨x, hx, he⟩ := map_eq_some_iff.mp ht
  cases he
  have hquiet : ∀ j, (if x.deleted then Event.quiet else .called i x.toRegistration).removes j =
      false := by
    intro j
    split <;> rfl
  have hrem : x.deleted = false → ∀ f ∈ es, f.removes i = false := by
    intro hd f hf
    by_contra hr
    obtain ⟨y, hy, hdy⟩ := (h.marked i).mpr ⟨f, hf, by simpa using hr⟩
    rw [hx] at hy
    cases hy
    rw [hd] at hdy
    cases hdy
  have hcount : ∀ j, (es ++ [if x.deleted then Event.quiet else .called i x.toRegistration]).countP
      (Event.calls j) = es.countP (Event.calls j) + if x.deleted = false ∧ j = i then 1 else 0 := by
    intro j
    rw [countP_append, countP_singleton]
    cases hd : x.deleted with
    | true => rfl
    | false =>
      by_cases hji : j = i
      · simp [Event.calls, hji]
      · simp [Event.calls, hji, Ne.symm hji]
  refine ⟨by simp, h.room, h.unremoved hquiet, ?_, ?_, ?_, ?_⟩
  · intro j hj
    rw [hpassed j, not_or] at hj
    rw [hcount, h.waiting j hj.1, if_neg (fun hc => hj.2 hc.2)]
  · intro j hj hpa hno
    have hno' : ∀ f ∈ es, f.removes j = false := fun f hf => hno f (mem_append_left _ hf)
    rw [hcount]
    rcases (hpassed j).mp hpa with hpa | rfl
    · have hne : j ≠ i := by
        rintro rfl
        exact hwait hpa
      rw [h.exact j hj hpa hno', if_neg (fun hc => hne hc.2)]
    · cases hd : x.deleted with
      | false => simp [h.waiting j hwait]
      | true =>
        obtain ⟨f, hf, hr⟩ := (h.marked j).mp ⟨x, hx, hd⟩
        rw [hno' f hf] at hr
        cases hr
  · intro j
    rw [hcount]
    split
    · next hc => simp [hc.2, h.waiting i hwait]
    · exact h.atMostOnce j
  · rw [pairwise_append]
    refine ⟨h.notAfter, pairwise_singleton .., fun f hf f' hf' j hr => ?_⟩
    rw [mem_singleton.mp hf']
    cases hd : x.deleted with
    | true => rfl
    | false =>
      by_contra hc
      have hji : i = j := by simpa [Event.calls] using hc
      subst hji
      rw [hrem hd f hf] at hr
      cases hr

theorem Passing.remove (hs : s.Sound) (h : Passing n s es) (r : Registration) :
    Passing n (s.remove r) (es ++ [.removed r (s.search r)]) := by
  have hin : 0 < s.inHandler := by
    rw [hs.busy h.begun]
    exact Nat.one_pos
  cases hi : s.search r with
  | none =>
    rw [show s.remove r = s by rw [State.remove, hi]]
    exact h.idle h.begun le_rfl (fun _ hp => hp) (fun _ _ hp => hp) (fun _ => rfl)
      (h.unremoved fun _ => rfl)
  | some i =>
    rw [show s.remove r =
        { s with handlerDeleted := true, handlers := s.handlers.modify i markDeleted } by
      rw [State.remove, hi]
      exact if_pos hin]
    refine h.idle h.begun (by simp [State.numHandlers]) (fun _ hp => hp) (fun _ _ hp => hp)
      (fun _ => rfl) fun j => ?_
    obtain ⟨x, hx, _⟩ := search_some hi
    rw [removes_snoc, ← h.marked j, getElem?_modify]
    by_cases hji : i = j
    · subst hji
      simp [hx, markDeleted, Event.removes]
    · simp [hji, Event.removes]

theorem Passing.register (h : Passing n s es) (r : Registration) (allocated : Bool) :
    Passing n (s.register r allocated).1 (es ++ [.registered r (s.register r allocated).2]) := by
  have hadded : ∀ (size : Nat) (e : Event), (∀ i, e.removes i = false) → (∀ i, e.calls i = false) →
      Passing n { s with
        handlers := s.handlers ++ [{ r with deleted := false }], sizeHandlers := size } (es ++ [e]) := by
    intro size e hrem hcall
    refine h.idle h.begun (by simp [State.numHandlers]) (fun _ hp => hp) (fun _ _ hp => hp) hcall
      fun i => ?_
    rw [← h.unremoved hrem i]
    constructor
    · rintro ⟨x, hx, hd⟩
      rw [getElem?_append] at hx
      split at hx
      · exact ⟨x, hx, hd⟩
      · rw [mem_singleton.mp (mem_of_getElem? hx)] at hd
        cases hd
    · rintro ⟨x, hx, hd⟩
      exact ⟨x, getElem?_append_left (List.getElem?_eq_some_iff.mp hx).1 ▸ hx, hd⟩
  rw [State.register]
  split
  · split
    · exact hadded _ _ (fun _ => rfl) (fun _ => rfl)
    · exact h.idle h.begun le_rfl (fun _ hp => hp) (fun _ _ hp => hp) (fun _ => rfl)
        (h.unremoved fun _ => rfl)
  · exact hadded _ _ (fun _ => rfl) (fun _ => rfl)

theorem Passing.next (h : Passing n s es)
    (hnext : s.next = some (s', e)) (hbegun : s'.pass ≠ none) : Passing n s' (es ++ [e]) := by
  have hroom := h.room
  rw [State.next] at hnext
  split at hnext
  · cases hnext
  · next i hp =>
    split at hnext
    · exact h.turn hnext (by simp [State.passed, hp]) fun j => by
        simp only [State.passed, hp]
        omega
    · cases hnext
      refine h.idle hbegun le_rfl (fun j _ => by simp [State.passed]) (fun j hj _ => ?_)
        (fun _ => rfl) (h.unremoved fun _ => rfl)
      simp only [State.passed, hp]
      omega
  · cases hnext
    exact absurd rfl hbegun
  · next hp =>
    cases hnext
    refine h.idle hbegun le_rfl (fun j hj => by simp [State.passed, hp] at hj) (fun j hj hpa => ?_)
      (fun _ => rfl) (h.unremoved fun _ => rfl)
    simp only [State.passed] at hpa
    omega
  · cases hnext
    exact absurd rfl hbegun
  · next i hp =>
    exact h.turn hnext (by simp [State.passed, hp]) fun j => by
      simp only [State.passed, hp]
      omega

theorem Passing.step (hs : s.Sound) (h : Passing n s es) (hb : a.begins = false)
    (hstep : Handlers.step s a = some (s', e)) (hbegun : s'.pass ≠ none) :
    Passing n s' (es ++ [e]) := by
  cases a with
  | register r allocated =>
    cases hstep
    exact h.register r allocated
  | remove r =>
    cases hstep
    exact h.remove hs r
  | beginBlock => cases hb
  | beginWakeup => cases hb
  | next => exact h.next hstep hbegun

theorem step_idle (hp : s.pass = none)
    (hb : a.begins = false) (h : step s a = some (s', e)) : s'.pass = none := by
  cases a with
  | register r allocated =>
    cases h
    rw [State.register]
    split
    · split <;> exact hp
    · exact hp
  | remove r =>
    cases h
    rw [State.remove]
    split
    · exact hp
    · split <;> exact hp
  | beginBlock => cases hb
  | beginWakeup => cases hb
  | next => exact absurd hp (next_busy h)

variable {acts : List Act}

theorem exec_idle (hp : s.pass = none)
    (hb : ∀ a ∈ acts, a.begins = false) (h : exec step s acts = some (s', es)) :
    s'.pass = none := by
  induction acts generalizing s es with
  | nil =>
    cases h
    exact hp
  | cons a acts ih =>
    obtain ⟨⟨u, e⟩, hu, hrest⟩ := bind_eq_some_iff.mp h
    obtain ⟨⟨_, es'⟩, hexec, he⟩ := map_eq_some_iff.mp hrest
    cases he
    exact ih (step_idle hp (hb a mem_cons_self) hu)
      (fun b hb' => hb b (mem_cons_of_mem _ hb')) hexec

theorem exec_passing {es' : List Event}
    (hs : s.Sound) (hpassing : Passing n s es) (hb : ∀ a ∈ acts, a.begins = false)
    (hbegun : s'.pass ≠ none) (h : exec step s acts = some (s', es')) :
    Passing n s' (es ++ es') := by
  induction acts generalizing s es es' with
  | nil =>
    cases h
    rwa [append_nil]
  | cons a acts ih =>
    obtain ⟨⟨u, e⟩, hu, hrest⟩ := bind_eq_some_iff.mp h
    obtain ⟨⟨_, es''⟩, hexec, he⟩ := map_eq_some_iff.mp hrest
    cases he
    have hb' : ∀ b ∈ acts, b.begins = false := fun b hb' => hb b (mem_cons_of_mem _ hb')
    -- a pass that has ended is not taken up again
    have hu' : u.pass ≠ none := fun hp => hbegun (exec_idle hp hb' hexec)
    have := ih (step_sound hs hu) (hpassing.step hs (hb a mem_cons_self) hu hu') hb' hexec
    rwa [append_assoc, singleton_append] at this

theorem begin_passing (hs : s.Sound)
    (hp : ∀ i, ¬ { s with pass := some p }.passed i) (h : s.begin p = some (s', e)) :
    Passing s.numHandlers s' [e] := by
  obtain ⟨hidle, rfl, rfl⟩ := begin_cases h
  refine ⟨by simp, le_rfl, fun i => ?_, fun _ _ => by simp [Event.calls], fun i _ hpa => ?_,
    fun _ => by simp [Event.calls], pairwise_singleton ..⟩
  · constructor
    · rintro ⟨x, hx, hd⟩
      rw [hs.unmarked (hs.idle hidle).1 x (mem_of_getElem? hx)] at hd
      cases hd
    · rintro ⟨f, hf, hr⟩
      rw [mem_singleton.mp hf] at hr
      cases hr
  · exact absurd hpa (hp i)

theorem pass_exact {during : List Act} (hs : s.Sound)
    (ha : a.begins = true) (hb : ∀ b ∈ during, b.begins = false) (hl : s'.looped)
    (h : exec step s (a :: during) = some (s', es)) : PassExact s.numHandlers es := by
  have hbegun : s'.pass ≠ none := by
    rcases hl with hl | hl <;> simp [hl]
  obtain ⟨⟨u, e⟩, hu, hrest⟩ := bind_eq_some_iff.mp h
  obtain ⟨⟨_, es'⟩, hexec, he⟩ := map_eq_some_iff.mp hrest
  cases he
  have hstart : Passing s.numHandlers u [e] := by
    cases a with
    | beginBlock | beginWakeup => exact begin_passing hs (by simp [State.passed]) hu
    | register | remove | next => cases ha
  exact (exec_passing (step_sound hs hu) hstart hb hbegun hexec).looped hl

structure Exact (s : State) (es : List Event) : Prop where
  live : live s.handlers = registered es
  settled : s.pass = none → ∀ h ∈ s.handlers, h.deleted = false
  calls : ∀ front i r back, es = front ++ .called i r :: back → r ∈ registered front

theorem exec_live (hs : s.Sound)
    (hg : Guarded step Fresh s acts) (h : exec step s acts = some (s', es)) :
    live s'.handlers = es.foldl Event.after (live s.handlers) ∧
      ∀ front i r back, es = front ++ .called i r :: back →
        r ∈ front.foldl Event.after (live s.handlers) := by
  induction acts generalizing s es with
  | nil =>
    cases h
    exact ⟨rfl, by simp⟩
  | cons a acts ih =>
    obtain ⟨⟨u, e⟩, hu, hrest⟩ := bind_eq_some_iff.mp h
    obtain ⟨⟨_, es'⟩, hexec, he⟩ := map_eq_some_iff.mp hrest
    cases he
    obtain ⟨hlive, hcalls⟩ := step_live hs hg.1 hu
    obtain ⟨hrun, hall⟩ := ih (step_sound hs hu) (hg.2 u e hu) hexec
    rw [hlive] at hrun hall
    refine ⟨hrun, fun front i r back hsplit => ?_⟩
    cases front with
    | nil =>
      obtain ⟨rfl, _⟩ := cons.inj hsplit
      exact hcalls i r rfl
    | cons f front =>
      obtain ⟨rfl, hrest'⟩ := cons.inj hsplit
      exact hall front i r back hrest'

theorem exec_sound (hs : s.Sound) (h : exec step s acts = some (s', es)) : s'.Sound :=
  exec_keeps (fun _ _ _ _ hi _ hu => step_sound hi hu) hs (Run.guarded_true s acts) h

/-- While no removal inside a pass stops at a marked entry with an unmarked one behind it, the
array is what is registered, handlers are called only while they are registered, and every
pass is exact. -/
theorem handlers_exact {acts : List Act} {s : State} {es : List Event}
    (hg : Guarded step Fresh State.start acts) (h : exec step State.start acts = some (s, es)) :
    Exact s es ∧ ∀ before a during u es₀ es₁, acts = before ++ a :: during →
      exec step State.start before = some (u, es₀) → exec step u (a :: during) = some (s, es₁) →
      a.begins = true → (∀ b ∈ during, b.begins = false) → s.looped →
      PassExact u.numHandlers es₁ := by
  have hs := exec_sound State.start_sound h
  obtain ⟨hlive, hcalls⟩ := exec_live State.start_sound hg h
  refine ⟨⟨hlive, fun hp => hs.unmarked (hs.idle hp).1, hcalls⟩, ?_⟩
  intro before a during u es₀ es₁ _ hbefore hduring ha hb hl
  exact pass_exact (exec_sound State.start_sound hbefore) ha hb hl hduring

def first : Registration := { blockHandler := 1, wakeupHandler := 2, blockData := 3 }

def once : List Act :=
  [.register first true, .beginBlock, .next, .remove first, .next]

def onceEnd : State :=
  { handlers := [{ first with deleted := true }]
    sizeHandlers := 1
    inHandler := 1
    handlerDeleted := true
    pass := some .blockScreens }

theorem once_fresh : Guarded step Fresh State.start once := by
  refine Run.guarded_cons trivial rfl (Run.guarded_cons trivial rfl (Run.guarded_cons trivial rfl
    (Run.guarded_cons (fun i x hi hx hd => ?_) rfl ⟨trivial, fun _ _ _ => trivial⟩)))
  cases hi
  cases hx
  cases hd

theorem handlers_exact_once : Exact onceEnd
      [.registered first true, .quiet, .called 0 first, .removed first (some 0), .quiet] ∧
      PassExact 1 [.quiet, .called 0 first, .removed first (some 0), .quiet] := by
  have hrun : exec step State.start once = some (onceEnd,
      [.registered first true, .quiet, .called 0 first, .removed first (some 0), .quiet]) := by
    decide +kernel
  obtain ⟨hexact, hpass⟩ := handlers_exact once_fresh hrun
  exact ⟨hexact, hpass [.register first true] .beginBlock [.next, .remove first, .next]
    { State.start with
      handlers := [{ first with deleted := false }]
      sizeHandlers := 1 }
    [.registered first true] _ rfl (by decide +kernel) (by decide +kernel) rfl (by decide)
    (.inl rfl)⟩

def twice : List Act :=
  [.register first true, .register first true, .beginBlock, .remove first, .remove first, .next,
    .next, .next, .next, .beginBlock, .next]

/-- The second removal marks the first entry again. The other one stays, and is called. -/
theorem handlers_removed_twice :
    ∃ s es, exec step State.start twice = some (s, es ++ [.called 0 first]) ∧
      registered es = 0 ∧ live s.handlers = {first} :=
  ⟨{ handlers := [{ first with deleted := false }], sizeHandlers := 2, inHandler := 1,
      handlerDeleted := false, pass := some (.block 1) },
    [.registered first true, .registered first true, .quiet, .removed first (some 0),
      .removed first (some 0), .quiet, .called 1 first, .quiet, .quiet, .quiet],
    by decide +kernel, by decide +kernel, by decide +kernel⟩

end Xfront.Handlers
