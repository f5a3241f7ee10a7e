import Xfront.Input.Server

/-!
# What one operation does to one client and to the others

A buffer changes hands only when nothing is pending in it (`State.WF.idle`,
`State.WF.available`), so an operation for one client leaves the streams of all
others as they were.
-/

namespace Xfront.Input
open Xfront.Bytes List Option Function Or

variable {κ : Type}

open ConnectionInput

def held (input : Option ConnectionInput) : List Byte := input.elim [] unread

def ignored (input : Option ConnectionInput) : Nat := input.elim 0 ignoreBytes

def State.sock (s : State κ) (k : κ) : List Byte := (s.osPrivate k).elim [] OsComm.sock

def State.view (srv : Server) (s : State κ) (k : κ) : View :=
  let input := s.inputs.content k
  ⟨srv.dialect (s.client k), held input ++ s.sock k, ignored input, (held input).length⟩

structure State.WF (srv : Server) (s : State κ) : Prop where
  pool : s.inputs.WF
  ready : ∀ k oci, s.inputs.content k = some oci → oci.WF srv
  idle : s.inputs.AllFree fun oci => oci.WF srv ∧ oci.Idle
  available : ∀ k, s.availableInput = some k → ∃ oci, s.inputs.content k = some oci ∧ oci.Idle

open Pool

theorem State.start_wf (srv : Server) (client : κ → Client) (sock : κ → List Byte) :
    (State.start client sock).WF srv :=
  ⟨empty_wf, fun _ _ h => (by cases h), fun _ h => (by cases h), fun _ h => (by cases h)⟩

/-- What the operations for other clients may do to `k`: at most take away a
buffer in which nothing is pending. -/
structure Untouched (s s' : State κ) (k : κ) : Prop where
  osPrivate : s'.osPrivate k = s.osPrivate k
  client : s'.client k = s.client k
  content : s'.inputs.content k = s.inputs.content k ∨
    s'.inputs.content k = none ∧ ∃ oci, s.inputs.content k = some oci ∧ oci.Idle

theorem Untouched.refl (s : State κ) (k : κ) : Untouched s s k := ⟨rfl, rfl, inl rfl⟩

theorem Untouched.trans {s s' s'' : State κ} {k : κ} (h : Untouched s s' k)
    (h' : Untouched s' s'' k) : Untouched s s'' k := by
  refine ⟨h'.osPrivate.trans h.osPrivate, h'.client.trans h.client, ?_⟩
  rcases h'.content with hc' | ⟨hc', oci, ho, hi⟩
  · rw [hc']
    exact h.content
  · rcases h.content with hc | ⟨hc, _⟩
    · exact inr ⟨hc', oci, hc ▸ ho, hi⟩
    · rw [hc] at ho
      cases ho

theorem Untouched.view {srv : Server} {s s' : State κ} {k : κ} (h : Untouched s s' k) :
    s'.view srv k = s.view srv k := by
  unfold State.view State.sock
  rw [h.osPrivate, h.client]
  rcases h.content with hc | ⟨hc, oci, ho, hi⟩
  · rw [hc]
  · rw [hc, ho]
    simp only [held, ignored, elim_some, elim_none, hi.unread, hi.2]

section
variable [DecidableEq κ] {srv : Server} {env : Env} {s : State κ} {k : κ}

theorem nextAvailableInput_spec (h : s.WF srv) :
    ∃ s', nextAvailableInput s k = some s' ∧ s'.WF srv ∧ s'.availableInput = none ∧
      s'.inputs.owner k = s.inputs.owner k ∧ s'.inputs.content k = s.inputs.content k ∧
      s'.client = s.client ∧ s'.osPrivate = s.osPrivate ∧ ∀ k', Untouched s s' k' := by
  have hnone : ∀ k' : κ, (none : Option κ) = some k' → ∃ oci : ConnectionInput,
      s.inputs.content k' = some oci ∧ oci.Idle := fun _ he => by cases he
  unfold nextAvailableInput
  cases ha : s.availableInput with
  | none =>
    exact ⟨s, rfl, h, ha, rfl, rfl, rfl, rfl, fun k' => .refl s k'⟩
  | some o =>
    by_cases hok : o = k
    · simp only [if_pos hok]
      exact ⟨_, rfl, ⟨h.pool, h.ready, h.idle, hnone⟩, rfl, rfl, rfl, rfl, rfl,
        fun k' => ⟨rfl, rfl, inl rfl⟩⟩
    · obtain ⟨oci, hc, hidle⟩ := h.available o ha
      obtain ⟨a, ho⟩ : ∃ a, s.inputs.owner o = some a := by
        cases ho : s.inputs.owner o with
        | none => rw [content_none ho] at hc; cases hc
        | some a => exact ⟨a, rfl⟩
      have hcell : s.inputs.cell a = some oci := (content_eq ho).symm.trans hc
      have hko : k ≠ o := fun he => hok he.symm
      simp only [if_neg hok, ho, hcell, bind_some, map_some]
      by_cases hbig : bufWatermark < oci.size
      · simp only [if_pos hbig]
        have hother : ∀ {k'}, k' ≠ o →
            (s.inputs.discard o a).content k' = s.inputs.content k' := fun hne =>
          content_discard_of_ne h.pool ho hne
        refine ⟨_, rfl, ⟨h.pool.discard ho, ?_, h.idle.discard, fun _ he => by cases he⟩, rfl,
          update_of_ne hko .., hother hko, rfl, rfl, fun k' => ⟨rfl, rfl, ?_⟩⟩
        · intro k' x hx
          by_cases hk : k' = o
          · subst hk
            rw [content_discard_self] at hx
            cases hx
          · exact h.ready k' x (hother hk ▸ hx)
        · by_cases hk : k' = o
          · subst hk
            exact inr ⟨content_discard_self, oci, hc, hidle⟩
          · exact inl (hother hk)
      · simp only [if_neg hbig]
        have hother : ∀ {k'}, k' ≠ o →
            (s.inputs.release o a).content k' = s.inputs.content k' := fun hne =>
          content_release_of_ne hne
        have hfree : (s.inputs.release o a).AllFree fun oci => oci.WF srv ∧ oci.Idle :=
          h.idle.release fun x hx => by
            rw [hcell] at hx
            cases hx
            exact ⟨h.ready o oci hc, hidle⟩
        refine ⟨_, rfl, ⟨h.pool.release ho, ?_, hfree, fun _ he => by cases he⟩, rfl,
          update_of_ne hko .., hother hko, rfl, rfl, fun k' => ⟨rfl, rfl, ?_⟩⟩
        · intro k' x hx
          by_cases hk : k' = o
          · subst hk
            rw [content_release_self] at hx
            cases hx
          · exact h.ready k' x (hother hk ▸ hx)
        · by_cases hk : k' = o
          · subst hk
            exact inr ⟨content_release_self, oci, hc, hidle⟩
          · exact inl (hother hk)

variable (srv) in
theorem allocateInputBuffer_wf : allocateInputBuffer.WF srv ∧ allocateInputBuffer.Idle := by
  have hcap := srv.cap_bounds
  have hv : bufSize = 16384 := rfl
  refine ⟨⟨⟨rfl, Nat.zero_le _, Nat.zero_le _, le_rfl, ?_⟩, Nat.zero_le _⟩, rfl, rfl⟩
  simp only [allocateInputBuffer]
  omega

/-- What `ensureInput` leaves for the client it served. -/
structure Ensured (srv : Server) (s s' : State κ) (k : κ) (a : Nat) (oci : ConnectionInput) :
    Prop where
  wf : s'.WF srv
  owner : s'.inputs.owner k = some a
  cell : s'.inputs.cell a = some oci
  ready : oci.WF srv
  same : s.inputs.content k = some oci ∨ s.inputs.content k = none ∧ oci.Idle
  view : s'.view srv k = s.view srv k
  client : s'.client = s.client
  osPrivate : s'.osPrivate = s.osPrivate
  available : s'.availableInput = s.availableInput
  others : ∀ k', k' ≠ k → Untouched s s' k'

theorem ensureInput_spec (alloc : Bool) (h : s.WF srv) (hav : s.availableInput = none) :
    (ensureInput alloc s k = none ∧ alloc = false ∧ s.inputs.content k = none) ∨
    ∃ s' a oci, ensureInput alloc s k = some (s', a) ∧ Ensured srv s s' k a oci := by
  have hview : ∀ (p : Pool κ ConnectionInput) (oci : ConnectionInput),
      p.content k = some oci → oci.Idle → s.inputs.content k = none →
      ({ s with inputs := p } : State κ).view srv k = s.view srv k := by
    intro p oci hp hi hn
    simp only [State.view, State.sock, hp, hn, held, ignored, elim_some, elim_none, hi.unread, hi.2]
  unfold ensureInput
  cases ho : s.inputs.owner k with
  | some a =>
    obtain ⟨oci, hcell⟩ := h.pool.owned ho
    have hc : s.inputs.content k = some oci := (content_eq ho).trans hcell
    exact inr ⟨s, a, oci, rfl, h, ho, hcell, h.ready k oci hc, inl hc, rfl, rfl, rfl, rfl,
      fun k' _ => .refl s k'⟩
  | none =>
    have hn : s.inputs.content k = none := content_none ho
    cases hfree : s.inputs.free with
    | cons a rest =>
      have hm : a ∈ s.inputs.free := hfree ▸ mem_cons_self ..
      obtain ⟨oci, hcell⟩ := h.pool.alive hm
      obtain ⟨hwf, hidle⟩ := h.idle a hm oci hcell
      have hself : (s.inputs.acquire k a rest).content k = some oci :=
        content_acquire_self.trans hcell
      refine inr ⟨_, a, oci, rfl, ⟨h.pool.acquire hfree, ?_, h.idle.acquire hfree, ?_⟩,
        update_self .., hcell, hwf, inr ⟨hn, hidle⟩, hview _ oci hself hidle hn, rfl,
        rfl, rfl, fun k' hne => ⟨rfl, rfl, inl (content_acquire_of_ne hne)⟩⟩
      · intro k' x hx
        by_cases hk : k' = k
        · subst hk
          rw [hself] at hx
          cases hx
          exact hwf
        · rw [content_acquire_of_ne hk] at hx
          exact h.ready k' x hx
      · intro k' he
        rw [hav] at he
        cases he
    | nil =>
      cases alloc with
      | false => exact inl ⟨rfl, rfl, hn⟩
      | true =>
        obtain ⟨hwf, hidle⟩ := allocateInputBuffer_wf srv
        have hself : (s.inputs.alloc k allocateInputBuffer).content k = some allocateInputBuffer :=
          content_alloc_self
        refine inr ⟨_, _, allocateInputBuffer, rfl, ⟨h.pool.alloc, ?_, h.idle.alloc h.pool, ?_⟩,
          update_self .., update_self .., hwf, inr ⟨hn, hidle⟩,
          hview _ _ hself hidle hn, rfl, rfl, rfl,
          fun k' hne => ⟨rfl, rfl, inl (content_alloc_of_ne h.pool hne)⟩⟩
        · intro k' x hx
          by_cases hk : k' = k
          · subst hk
            rw [hself] at hx
            cases hx
            exact hwf
          · rw [content_alloc_of_ne h.pool hk] at hx
            exact h.ready k' x hx
        · intro k' he
          rw [hav] at he
          cases he

variable {oci : ConnectionInput}

theorem wf_put {a : Nat} {av : Option κ} {op : κ → Option OsComm}
    {cl : κ → Client} (h : s.WF srv) (ho : s.inputs.owner k = some a) (hw : oci.WF srv)
    (hav : ∀ k', av = some k' → k' = k ∧ oci.Idle ∨ k' ≠ k ∧ s.availableInput = some k') :
    State.WF srv ⟨s.inputs.put a oci, av, op, cl⟩ := by
  refine ⟨h.pool.put (h.pool.owned ho), ?_, h.idle.put (h.pool.apart ho), ?_⟩
  · intro k' x hx
    by_cases hk : k' = k
    · subst hk
      rw [content_put_self ho] at hx
      cases hx
      exact hw
    · rw [content_put_of_ne h.pool ho hk] at hx
      exact h.ready k' x hx
  · intro k' he
    rcases hav k' he with ⟨rfl, hi⟩ | ⟨hne, ha⟩
    · exact ⟨oci, content_put_self ho, hi⟩
    · rw [content_put_of_ne h.pool ho hne]
      exact h.available k' ha

structure Stored (s' : State κ) (k : κ) (oc : OsComm) (d : Done) : Prop where
  content : s'.inputs.content k = some d.conn.input
  client : s'.client k = d.conn.client
  osPrivate : s'.osPrivate k = some { oc with sock := d.conn.sock }

variable {oc : OsComm}

variable (srv) in
omit [DecidableEq κ] in
theorem Stored.view {s' : State κ} {d : Done} (h : Stored s' k oc d) :
    s'.view srv k = d.conn.view srv := by
  simp only [State.view, State.sock, h.content, h.client, h.osPrivate, held, ignored,
    elim_some, Conn.view, Conn.pending]

theorem Outcome.idle {connected : Bool} {v : View} {d : Done}
    (h : Outcome srv env connected v d) : d.available = true → d.conn.input.Idle := by
  intro ha
  cases h with
  | progress _ _ _ _ _ _ _ _ idle | request _ _ _ _ _ _ _ _ _ _ idle | rejected _ _ _ idle =>
    exact idle ha
  | blocked _ _ idle _ _ _ | short _ _ _ _ _ _ _ _ _ idle | malformed _ _ _ idle | failed _ idle _ _ =>
    rw [idle] at ha; cases ha

variable (env) in
theorem readRequestFromClient_spec (h : s.WF srv) (hoc : s.osPrivate k = some oc) :
    ∃ r s', readRequestFromClient srv env s k = some (r, s') ∧
      (∀ k', k' ≠ k → Untouched s s' k') ∧ (r ≠ .badLength → s'.WF srv) ∧
      ((r = .death ∧ env.alloc = false ∧ s.inputs.content k = none ∧ s'.osPrivate k = some oc) ∨
        ∃ d, d.result = r ∧ Outcome srv env oc.transConn (s.view srv k) d ∧ Stored s' k oc d) := by
  obtain ⟨s₁, hnext, hwf₁, hav, _, hcont, hcl₁, hop₁, hunt⟩ := nextAvailableInput_spec (k := k) h
  have hview : s₁.view srv k = s.view srv k := (hunt k).view
  unfold readRequestFromClient
  rw [hoc, bind_some, hnext, bind_some]
  rcases ensureInput_spec (k := k) env.alloc hwf₁ hav with
    ⟨he, hno, hnone⟩ | ⟨s₂, a, oci, he, hens⟩
  · rw [he]
    exact ⟨_, s₁, rfl, fun k' _ => hunt k', fun _ => hwf₁,
      inl ⟨rfl, hno, hcont.symm.trans hnone, (congrFun hop₁ k).trans hoc⟩⟩
  · rw [he]
    dsimp only
    have hc₂ : s₂.inputs.content k = some oci := (content_eq hens.owner).trans hens.cell
    have hoc₂ : s₂.osPrivate k = some oc := by rw [hens.osPrivate, hop₁, hoc]
    rw [hens.cell, bind_some]
    obtain ⟨d, hd, hout, hdwf⟩ := readRequest_outcome env oc.transConn
      (c := ⟨s₂.client k, oci, oc.sock⟩) hens.ready
    rw [hd, map_some]
    have hv : Conn.view srv ⟨s₂.client k, oci, oc.sock⟩ = s.view srv k := by
      rw [← hview, ← hens.view]
      simp only [State.view, State.sock, hc₂, hoc₂, held, ignored, elim_some, Conn.view,
        Conn.pending]
    rw [hv] at hout
    refine ⟨_, _, rfl, ?_, ?_, inr ⟨d, rfl, hout, content_put_self hens.owner,
      update_self .., update_self ..⟩⟩
    · intro k' hne
      refine ((hunt k').trans (hens.others k' hne)).trans ⟨?_, ?_, inl ?_⟩
      · exact update_of_ne hne ..
      · exact update_of_ne hne ..
      · exact content_put_of_ne hens.wf.pool hens.owner hne
    · intro hne
      refine wf_put hens.wf hens.owner (hdwf hne) fun k' hk' => ?_
      rw [hens.available, hav] at hk'
      by_cases ha : d.available = true
      · rw [if_pos ha] at hk'
        cases hk'
        exact inl ⟨rfl, hout.idle ha⟩
      · rw [if_neg ha] at hk'
        cases hk'

theorem closeDownConnection_spec (h : s.WF srv) (hoc : s.osPrivate k = some oc) :
    ∃ s', closeDownConnection s k = some s' ∧ s'.WF srv ∧ s'.osPrivate k = none ∧
      ∀ k', k' ≠ k → Untouched s s' k' := by
  have hav : ∀ {k'}, (if s.availableInput = some k then none else s.availableInput) = some k' →
      k' ≠ k ∧ s.availableInput = some k' := by
    intro k' he
    by_cases ha : s.availableInput = some k
    · rw [if_pos ha] at he
      cases he
    · rw [if_neg ha] at he
      refine ⟨?_, he⟩
      rintro rfl
      exact ha he
  unfold closeDownConnection freeOsBuffers
  rw [hoc, bind_some]
  dsimp only
  cases ho : s.inputs.owner k with
  | none =>
    refine ⟨_, rfl, ⟨h.pool, h.ready, h.idle, fun k' he => h.available k' (hav he).2⟩,
      update_self .., fun k' hne => ⟨update_of_ne hne .., rfl, inl rfl⟩⟩
  | some a =>
    obtain ⟨oci, hcell⟩ := h.pool.owned ho
    have hc : s.inputs.content k = some oci := (content_eq ho).trans hcell
    have hwf := h.ready k oci hc
    dsimp only
    by_cases hfree : s.inputs.free ≠ []
    · rw [if_pos hfree]
      have hother : ∀ {k'}, k' ≠ k → (s.inputs.discard k a).content k' = s.inputs.content k' :=
        fun hne => content_discard_of_ne h.pool ho hne
      refine ⟨_, rfl, ⟨h.pool.discard ho, ?_, h.idle.discard, ?_⟩, update_self ..,
        fun k' hne => ⟨update_of_ne hne .., rfl, inl (hother hne)⟩⟩
      · intro k' x hx
        by_cases hk : k' = k
        · subst hk
          rw [content_discard_self] at hx
          cases hx
        · exact h.ready k' x (hother hk ▸ hx)
      · intro k' he
        obtain ⟨hne, ha⟩ := hav he
        obtain ⟨x, hx, hi⟩ := h.available k' ha
        exact ⟨x, (hother hne).trans hx, hi⟩
    · rw [if_neg hfree, hcell, map_some]
      have hput := h.pool.put (x := { oci with
        bufptr := 0, bufcnt := 0, lenLastReq := 0, ignoreBytes := 0 }) ⟨oci, hcell⟩
      have hother : ∀ {k'}, k' ≠ k → ((s.inputs.put a { oci with
          bufptr := 0, bufcnt := 0, lenLastReq := 0, ignoreBytes := 0 }).release k a).content k' =
          s.inputs.content k' := fun hne =>
        (content_release_of_ne hne).trans (content_put_of_ne h.pool ho hne)
      refine ⟨_, rfl, ⟨hput.release ho, ?_, ?_, ?_⟩, update_self ..,
        fun k' hne => ⟨update_of_ne hne .., rfl, inl (hother hne)⟩⟩
      · intro k' x hx
        by_cases hk : k' = k
        · subst hk
          rw [content_release_self] at hx
          cases hx
        · exact h.ready k' x (hother hk ▸ hx)
      · refine (h.idle.put (h.pool.apart ho)).release fun x hx => ?_
        simp only [put, update_self, Option.some.injEq] at hx
        subst hx
        exact ⟨⟨⟨hwf.block, le_rfl, Nat.zero_le _, hwf.lo, hwf.hi⟩, le_rfl⟩, rfl, rfl⟩
      · intro k' he
        obtain ⟨hne, ha⟩ := hav he
        obtain ⟨x, hx, hi⟩ := h.available k' ha
        exact ⟨x, (hother hne).trans hx, hi⟩

/-- The request the client was last served is still the one at its `bufptr`. -/
def Current (srv : Server) (s : State κ) (k : κ) (reqLen : Nat) (bytes rest : List Byte) : Prop :=
  ∃ oci, s.inputs.content k = some oci ∧ oci.ignoreBytes = 0 ∧
    Live srv ⟨s.client k, oci, s.sock k⟩ reqLen bytes rest

/-- What one round for `k` does with the front of its stream. -/
inductive Serving (srv : Server) (env : Env) (s : State κ) (k : κ) (s' : State κ) : Served → Prop
  | blocked (view : s'.view srv k = s.view srv k)
      (why : ∀ n, env.trans = .grant n →
        n = 0 ∨ (s.view srv k).stream.length = (s.view srv k).buffered)
      (starved : (s.view srv k).Starved srv.cap)
      (skipping : 0 < (s.view srv k).ignore → (s.view srv k).buffered < (s.view srv k).ignore) :
      Serving srv env s k s' .more
  | progress (n : Nat) (skipped : n ≤ (s.view srv k).ignore)
      (dialect : (s'.view srv k).dialect = (s.view srv k).dialect)
      (stream : (s'.view srv k).stream = (s.view srv k).stream.drop n)
      (ignore : (s'.view srv k).ignore = (s.view srv k).ignore - n)
      (less : (s'.view srv k).measure < (s.view srv k).measure)
      (starved : (s.view srv k).Starved srv.cap) : Serving srv env s k s' .more
  | request (r : Report) (rest : List Byte) (ignore : (s.view srv k).ignore = 0)
      (frame : frame srv.cap (s.view srv k).dialect (s.view srv k).stream = .request r rest)
      (dialect : (s'.view srv k).dialect = (s.view srv k).dialect)
      (stream : (s'.view srv k).stream.drop (s'.view srv k).ignore = rest)
      (less : (s'.view srv k).measure < (s.view srv k).measure)
      (current : ∀ count reqLen bytes, r = .whole count reqLen bytes →
        Current srv s' k reqLen bytes rest)
      (skip : ∀ count, r = .oversized count → 0 < (s'.view srv k).ignore) :
      Serving srv env s k s' (.reported r)
  | short (header rest : List Byte) (ignore : (s.view srv k).ignore = 0)
      (frame : frame srv.cap (s.view srv k).dialect (s.view srv k).stream = .short header rest)
      (dialect : (s'.view srv k).dialect = (s.view srv k).dialect)
      (stream : (s'.view srv k).stream = header ++ rest) (none : (s'.view srv k).ignore = 0)
      (current : Current srv s' k 0 header rest) :
      Serving srv env s k s' (.reported (.whole 4 0 header))
  | rejected (ignore : (s.view srv k).ignore = 0)
      (frame : frame srv.cap (s.view srv k).dialect (s.view srv k).stream = .rejected)
      (closed : s'.osPrivate k = none) : Serving srv env s k s' .closed
  | failed (why : env.alloc = false ∨ env.grow = false ∨
        (∃ oc, s.osPrivate k = some oc ∧ oc.transConn = false) ∨ env.trans = .fail)
      (starved : (s.view srv k).Starved srv.cap) (closed : s'.osPrivate k = none) : Serving srv env s k s' .closed
  | malformed (ignore : (s.view srv k).ignore = 0)
      (frame : frame srv.cap (s.view srv k).dialect (s.view srv k).stream = .malformed) :
      Serving srv env s k s' .badLength

omit [DecidableEq κ] in
theorem starved_of_none (h : s.inputs.content k = none) : (s.view srv k).Starved srv.cap := by
  intro _
  simp only [State.view, h, held, elim_none, length_nil, take_zero]
  rfl

open Block

omit [DecidableEq κ] in
theorem observe_current {count reqLen : Nat} {bytes rest : List Byte}
    (hc : s.inputs.content k = some oci) (hw : oci.WF srv) (hcount : count ≤ srv.cap)
    (h : Current srv s k reqLen bytes rest) :
    observe srv (s.client k) oci count = some (.whole count reqLen bytes) := by
  obtain ⟨oci', hc', _, hl⟩ := h
  rw [hc] at hc'
  cases hc'
  have hb := hw.block
  have hcnt := hw.cnt
  have hptr := hw.ptr
  have hplace : (s.client k).requestBuffer = oci.bufptr := hl.place
  have hlen : (s.client k).reqLen = reqLen := hl.len
  have hbuf : bytes.length ≤ oci.bufcnt - oci.bufptr := by
    rw [← data_length]
    exact hl.buffered
  have hsize : max sizeofReq (reqLen * 4) = bytes.length := hl.size.symm
  have hexp : oci.buffer.slice (s.client k).requestBuffer bytes.length = bytes := hl.exposed
  unfold observe
  rw [if_neg (not_lt.mpr hcount), hlen, hsize, read_eq (by omega), hexp, map_some]

variable (env) in
theorem serve_spec (h : s.WF srv) (hoc : s.osPrivate k = some oc) :
    ∃ sv s', serve srv env s k = some (sv, s') ∧ (∀ k', k' ≠ k → Untouched s s' k') ∧
      Serving srv env s k s' sv ∧ (sv ≠ .badLength → s'.WF srv) ∧
      (sv ≠ .closed → ∃ oc', s'.osPrivate k = some oc' ∧ oc'.transConn = oc.transConn) := by
  obtain ⟨r, s₁, hread, hunt, hwf, hcase⟩ := readRequestFromClient_spec env h hoc
  have hclose : ∀ {oc'}, s₁.osPrivate k = some oc' → r = .death →
      (∀ s', s'.osPrivate k = none → Serving srv env s k s' .closed) →
      ∃ sv s', serve srv env s k = some (sv, s') ∧ (∀ k', k' ≠ k → Untouched s s' k') ∧
        Serving srv env s k s' sv ∧ (sv ≠ .badLength → s'.WF srv) ∧
        (sv ≠ .closed → ∃ oc', s'.osPrivate k = some oc' ∧ oc'.transConn = oc.transConn) := by
    intro oc' hoc' hr hs
    subst hr
    obtain ⟨s', hcl, hwf', hnone, hunt'⟩ := closeDownConnection_spec (hwf (by simp)) hoc'
    refine ⟨.closed, s', ?_, fun k' hne => (hunt k' hne).trans (hunt' k' hne), hs s' hnone,
      fun _ => hwf', fun hne => absurd rfl hne⟩
    unfold serve
    rw [hread, bind_some]
    simp only [hcl, map_some]
  rcases hcase with ⟨hr, halloc, hnone, hoc'⟩ | ⟨d, hr, hout, hst⟩
  · exact hclose hoc' hr fun s' hs' => .failed (inl halloc) (starved_of_none hnone) hs'
  · have hv := hst.view srv
    have hwf' : d.result ≠ .badLength → s₁.WF srv := hr ▸ hwf
    have hconn : ∀ sv : Served, sv ≠ .closed →
        ∃ oc', s₁.osPrivate k = some oc' ∧ oc'.transConn = oc.transConn := fun _ _ =>
      ⟨_, hst.osPrivate, rfl⟩
    have hreported : ∀ {count reqLen bytes rest}, d.result = .request count → count ≤ srv.cap →
        Current srv s₁ k reqLen bytes rest →
        serve srv env s k = some (.reported (.whole count reqLen bytes), s₁) := by
      intro count reqLen bytes rest hres hcount hcur
      have hw : d.conn.input.WF srv := (hwf' (by rw [hres]; simp)).ready k _ hst.content
      unfold serve
      rw [hread, bind_some, ← hr, hres]
      simp only [hst.content, bind_some]
      rw [observe_current hst.content hw hcount hcur, map_some]
    have hcurrent : ∀ {reqLen bytes rest}, d.conn.input.ignoreBytes = 0 →
        Live srv d.conn reqLen bytes rest → Current srv s₁ k reqLen bytes rest := by
      intro reqLen bytes rest h0 hl
      refine ⟨d.conn.input, hst.content, h0, ?_⟩
      have he : (⟨s₁.client k, d.conn.input, s₁.sock k⟩ : Conn) = d.conn := by
        simp only [hst.client, State.sock, hst.osPrivate, elim_some]
      rwa [he]
    cases hout with
    | blocked result view idle why starved skipping =>
      refine ⟨.more, s₁, ?_, hunt, .blocked (hv.trans view) why starved skipping, fun _ => hwf' ?_,
        hconn _⟩
      · unfold serve
        rw [hread, bind_some, ← hr, result]
      · simp [result]
    | progress n result skipped dialect stream ignore less starved _ =>
      refine ⟨.more, s₁, ?_, hunt, .progress n skipped (hv ▸ dialect) (hv ▸ stream) (hv ▸ ignore)
        (hv ▸ less) starved, fun _ => hwf' ?_, hconn _⟩
      · unfold serve
        rw [hread, bind_some, ← hr, result]
      · simp [result]
    | request r' rest ignore frame result dialect stream less whole skip _ =>
      have hcap := frame_cap frame
      refine ⟨.reported r', s₁, ?_, hunt, .request r' rest ignore frame (hv ▸ dialect)
        (hv ▸ stream) (hv ▸ less) ?_ (hv ▸ skip), fun _ => hwf' (by simp [result]), hconn _⟩
      · cases r' with
        | whole count reqLen bytes =>
          obtain ⟨h0, hl⟩ := whole count reqLen bytes rfl
          exact hreported result hcap (hcurrent h0 hl)
        | oversized count =>
          have hres : d.result = .request count := result
          unfold serve
          rw [hread, bind_some, ← hr, hres]
          simp only [hst.content, bind_some, observe]
          rw [if_pos (show srv.cap < count from hcap), map_some]
      · intro count reqLen bytes hr'
        obtain ⟨h0, hl⟩ := whole count reqLen bytes hr'
        exact hcurrent h0 hl
    | short header rest ignore frame result dialect stream none live _ =>
      have hcur := hcurrent none live
      have hcap := srv.cap_bounds
      have hig : (s₁.view srv k).ignore = 0 := by
        rw [hv]
        exact none
      exact ⟨_, s₁, hreported result (by omega) hcur, hunt, .short header rest ignore frame
        (hv ▸ dialect) (hv ▸ stream) hig hcur, fun _ => hwf' (by simp [result]), hconn _⟩
    | rejected ignore frame result _ =>
      exact hclose hst.osPrivate (hr.symm.trans result) fun s' hs' => .rejected ignore frame hs'
    | malformed ignore frame result _ =>
      refine ⟨.badLength, s₁, ?_, hunt, .malformed ignore frame, fun hne => absurd rfl hne, hconn _⟩
      unfold serve
      rw [hread, bind_some, ← hr, result]
    | failed result _ why starved =>
      refine hclose hst.osPrivate (hr.symm.trans result) fun s' hs' => .failed ?_ starved hs'
      rcases why with hw | hw | hw
      · exact inr (inl hw)
      · exact inr (inr (inl ⟨oc, hoc, hw⟩))
      · exact inr (inr (inr hw))

/-- The stream `ResetCurrentRequest` restores: a big request gets a length word
back, which holds `req_len`. -/
def rewound (d : Dialect) (reqLen : Nat) (current : List Byte) : List Byte :=
  if wordAt16 d.bigEndian current 2 = 0 ∧ d.bigRequests then
    current.take 4 ++ (bytes32 d.bigEndian reqLen ++ current.drop 4)
  else current

omit [DecidableEq κ] in
theorem rewind_spec {cli : Client} {sock bytes rest : List Byte}
    {reqLen : Nat} (h : oci.WF srv) (hl : Live srv ⟨cli, oci, sock⟩ reqLen bytes rest) :
    ∃ oci', rewind srv cli oci = some oci' ∧ oci'.WF srv ∧ oci'.ignoreBytes = oci.ignoreBytes ∧
      bytes.length ≤ oci'.unread.length ∧
      oci'.unread ++ sock = rewound (srv.dialect cli) reqLen (bytes ++ rest) := by
  have hb := h.block
  have hcnt := h.cnt
  have hptr := h.ptr
  have hlt := h.bufcnt_lt
  have hlen := oci.data_length
  have hbuf : bytes.length ≤ oci.data.length := hl.buffered
  have h4 : 4 ≤ bytes.length := by
    rw [hl.size]
    exact le_max_left ..
  have hcur : oci.data ++ sock = bytes ++ rest := hl.current
  have hreq : cli.reqLen = reqLen := hl.len
  -- the 16-bit length word is the same in the buffer, the request and the stream
  have hword : wordAt16 (srv.order cli) bytes 2 = wordAt16 (srv.order cli) oci.data 2 := by
    rw [← wordAt16_extend (b := rest) (show 2 + 2 ≤ bytes.length by omega), ← hcur,
      wordAt16_extend (by omega)]
  have hword' : wordAt16 (srv.dialect cli).bigEndian (bytes ++ rest) 2 =
      wordAt16 (srv.order cli) oci.data 2 := by
    rw [← hcur, wordAt16_extend (by omega)]
    rfl
  have hload : oci.buffer.load16 (srv.order cli) (oci.bufptr + 2) =
      some (wordAt16 (srv.order cli) oci.data 2) :=
    getReqLen_eq (c := ⟨cli, oci, sock⟩) h.toReady (by dsimp only; omega)
  unfold rewind
  rw [if_neg (by simp only [sizeofReq]; omega), hload, bind_some]
  unfold rewound
  rw [hword']
  by_cases hz : wordAt16 (srv.order cli) oci.data 2 = 0 ∧ cli.bigRequests = true
  · rw [if_pos hz, if_pos (show _ ∧ (srv.dialect cli).bigRequests = true from hz)]
    have hroom : 4 ≤ oci.bufptr := hl.room (hword.trans hz.1) hz.2
    rw [if_neg (by simp only [sizeofBigReq, sizeofReq]; omega), read_eq (by
      simp only [sizeofReq]; omega), bind_some, write_eq (by
      simp only [sizeofBigReq, sizeofReq, slice_length]; omega), bind_some,
      write_eq (by
        simp only [sizeofBigReq, sizeofReq, bytes32_length, store_size]; omega),
      map_some]
    have hdata : ((oci.buffer.store (oci.bufptr - 4) (oci.buffer.slice oci.bufptr 4)).store
        oci.bufptr (bytes32 (srv.order cli) reqLen)).slice (oci.bufptr - 4)
        (4 + (4 + (oci.data.length - 4))) =
        oci.data.take 4 ++ (bytes32 (srv.order cli) reqLen ++ oci.data.drop 4) := by
      have hhead : oci.data.take 4 = oci.buffer.slice oci.bufptr 4 := slice_take (by omega)
      have htail : oci.data.drop 4 = oci.buffer.slice (oci.bufptr + 4) (oci.data.length - 4) := by
        rw [hlen]
        exact slice_drop (by omega)
      have hself := slice_store_self oci.buffer (oci.bufptr - 4)
        (oci.buffer.slice oci.bufptr 4)
      have hself' := slice_store_self
        (oci.buffer.store (oci.bufptr - 4) (oci.buffer.slice oci.bufptr 4)) oci.bufptr
        (bytes32 (srv.order cli) reqLen)
      rw [slice_length] at hself
      rw [bytes32_length] at hself'
      rw [slice_append, slice_append, show oci.bufptr - 4 + 4 = oci.bufptr by omega,
        slice_store_before (by omega), hself, hself',
        slice_store_after (by rw [bytes32_length]),
        slice_store_after (by rw [slice_length]; omega), hhead, htail]
    refine ⟨_, rfl, ⟨⟨hb, ?_, hcnt, h.lo, h.hi⟩, ?_⟩, rfl, ?_, ?_⟩
    · simp only [sizeofBigReq, sizeofReq]
      omega
    · simp only [sizeofBigReq, sizeofReq]
      omega
    · simp only [unread, advance, data_length, sizeofBigReq, sizeofReq]
      omega
    · simp only [unread, advance, data,
        sizeofBigReq, sizeofReq, show 8 - 4 = 4 from rfl, add_zero, hreq,
        show oci.bufptr - 4 + 4 = oci.bufptr by omega]
      rw [show oci.bufcnt - (oci.bufptr - 4) = 4 + (4 + (oci.data.length - 4)) by omega, hdata,
        ← hcur, take_append_of_le_length (by omega), drop_append_of_le_length (by omega)]
      simp only [append_assoc]
      rfl
  · rw [if_neg hz, if_neg (show ¬ (_ ∧ (srv.dialect cli).bigRequests = true) from hz)]
    refine ⟨_, rfl, ⟨⟨hb, hptr, hcnt, h.lo, h.hi⟩, hptr⟩, rfl, hbuf, hcur⟩

theorem resetCurrentRequest_spec {reqLen : Nat} {bytes rest : List Byte}
    (h : s.WF srv) (hoc : s.osPrivate k = some oc) (hcur : Current srv s k reqLen bytes rest) :
    ∃ s', resetCurrentRequest srv s k = some s' ∧ s'.WF srv ∧ s'.osPrivate = s.osPrivate ∧
      s'.client = s.client ∧ (s'.view srv k).ignore = 0 ∧ bytes.length ≤ (s'.view srv k).buffered ∧
      (s'.view srv k).stream = rewound (s.view srv k).dialect reqLen (bytes ++ rest) ∧
      ∀ k', k' ≠ k → Untouched s s' k' := by
  obtain ⟨oci, hc, h0, hl⟩ := hcur
  obtain ⟨oci', hrew, hwf, hig, hbuf, hstream⟩ := rewind_spec (h.ready k oci hc) hl
  obtain ⟨a, ho⟩ : ∃ a, s.inputs.owner k = some a := by
    cases ho : s.inputs.owner k with
    | none => rw [content_none ho] at hc; cases hc
    | some a => exact ⟨a, rfl⟩
  have hcell : s.inputs.cell a = some oci := (content_eq ho).symm.trans hc
  have hself : (s.inputs.put a oci').content k = some oci' := content_put_self ho
  unfold resetCurrentRequest
  simp only [hoc, ho, hcell, hrew, bind_some, map_some]
  refine ⟨_, rfl, wf_put h ho hwf ?_, rfl, rfl, ?_, ?_, ?_, fun k' hne =>
    ⟨rfl, rfl, inl (content_put_of_ne h.pool ho hne)⟩⟩
  · intro k' he
    by_cases ha : s.availableInput = some k
    · rw [if_pos ha] at he
      cases he
    · rw [if_neg ha] at he
      refine inr ⟨?_, he⟩
      rintro rfl
      exact ha he
  · simp only [State.view, hself, ignored, elim_some, hig, h0]
  · simp only [State.view, hself, held, elim_some]
    exact hbuf
  · simp only [State.view, hself, held, elim_some]
    exact hstream

theorem moveUp_spec {b : Block} {p g : Nat} (count : Nat) (hp : p + g ≤ b.size)
    (hroom : g + count ≤ b.size) : ∃ m : Block, (if 0 < count - p ∧ 0 < (g : Int) then
        (b.read p (g : Int).toNat).bind (b.write (p + (count - p))) else some b) = some m ∧
      m.size = b.size ∧ m.slice (p + (count - p)) g = b.slice p g := by
  by_cases hm : 0 < count - p ∧ 0 < (g : Int)
  · rw [if_pos hm, Int.toNat_natCast, read_eq hp, bind_some, write_eq (by rw [slice_length]; omega)]
    refine ⟨_, rfl, rfl, ?_⟩
    have hs := slice_store_self b (p + (count - p)) (b.slice p g)
    rwa [slice_length] at hs
  · rw [if_neg hm]
    refine ⟨b, rfl, rfl, ?_⟩
    by_cases hz : count - p = 0
    · rw [hz, add_zero]
    · rw [show g = 0 by omega]
      rfl

variable (env) in
omit [DecidableEq κ] in
theorem growInput_spec {total : Nat} (h : oci.Ready srv)
    (ht : total ≤ srv.cap) :
    let o := growInput env oci total
    o.Ready srv ∧ o.data = oci.data ∧ o.bufptr = oci.bufptr ∧ o.bufcnt = oci.bufcnt ∧
      total ≤ o.size ∧ o.lenLastReq = oci.lenLastReq ∧ o.ignoreBytes = oci.ignoreBytes := by
  have hb := h.block
  have hptr := h.ptr
  have hcnt := h.cnt
  have hlo := h.lo
  unfold growInput
  by_cases hgrow : (oci.size : Int) < (total : Int)
  · rw [if_pos hgrow, Int.toNat_natCast]
    refine ⟨⟨rfl, hptr, ?_, ?_, ht⟩, slice_resize ?_, rfl, rfl, le_rfl, rfl, rfl⟩ <;>
      dsimp only <;> omega
  · rw [if_neg hgrow]
    exact ⟨h, rfl, rfl, rfl, by omega, rfl, rfl⟩

variable {data : List Byte}

variable (env) in
omit [DecidableEq κ] in
theorem insertAtPtr_spec {o : ConnectionInput} (hr : o.Ready srv)
    (hlast : o.lenLastReq = 0) (hfit : o.data.length + data.length ≤ srv.cap) :
    ∃ oci' ok, insertAtPtr env o data = some (oci', ok) ∧ oci'.WF srv ∧
      oci'.ignoreBytes = o.ignoreBytes ∧ (ok = false → env.grow = false) ∧
      oci'.unread = if ok then data ++ o.data else o.data := by
  have hptr := hr.ptr
  have hlen := o.data_length
  obtain ⟨g, hg⟩ : ∃ g, o.bufcnt = o.bufptr + g := ⟨o.bufcnt - o.bufptr, by omega⟩
  have hint : ((o.bufcnt : Int) - o.bufptr) = (g : Int) := by omega
  have htotal : ((g : Int) + data.length) = ((g + data.length : Nat) : Int) := by omega
  obtain ⟨hr', hdata', hptr', hcnt', hsize, hlast', hig'⟩ :=
    growInput_spec env hr (show g + data.length ≤ srv.cap by omega)
  unfold insertAtPtr
  dsimp only
  rw [hint, htotal]
  by_cases hfail : (o.size : Int) < ((g + data.length : Nat) : Int) ∧ (!env.grow) = true
  · rw [if_pos hfail]
    refine ⟨o, false, rfl, ⟨hr, by omega⟩, rfl, fun _ => by simpa using hfail.2, ?_⟩
    simp only [Bool.false_eq_true, if_false]
    exact unread_of_last hlast
  · rw [if_neg hfail]
    generalize growInput env o ((g + data.length : Nat) : Int) = q at *
    have hq := hr'.cnt
    have hqb := hr'.block
    obtain ⟨m, hm, hmsize, hmslice⟩ :=
      moveUp_spec (b := q.buffer) (p := q.bufptr) (g := g) data.length (by omega)
        (by omega)
    rw [hm, bind_some, write_eq (by omega), map_some]
    refine ⟨_, true, rfl, ⟨⟨?_, ?_, ?_, hr'.lo, hr'.hi⟩, ?_⟩, hig', fun he => (by cases he), ?_⟩
    · rw [store_size, hmsize, hqb]
    · dsimp only
      omega
    · dsimp only
      omega
    · dsimp only
      omega
    · have hz : q.lenLastReq = 0 := hlast'.trans hlast
      rw [unread_of_last (by exact hz), if_pos rfl]
      simp only [ConnectionInput.data]
      rw [show q.bufcnt + (data.length - q.bufptr) - (q.bufptr + (data.length - q.bufptr) -
        data.length) = data.length + g by omega, slice_append, slice_store_self,
        show q.bufptr + (data.length - q.bufptr) - data.length + data.length =
          q.bufptr + (data.length - q.bufptr) by omega,
        slice_store_after (by omega), hmslice]
      have hd : q.buffer.slice q.bufptr (q.bufcnt - q.bufptr) = o.data := hdata'
      rw [show q.bufcnt - q.bufptr = g by omega] at hd
      rw [hd]
      rfl

variable (env) in
omit [DecidableEq κ] in
theorem insertInto_spec (h : oci.WF srv) (hfit : oci.unread.length + data.length ≤ srv.cap) :
    ∃ oci' ok, insertInto env oci data = some (oci', ok) ∧ oci'.WF srv ∧
      oci'.ignoreBytes = oci.ignoreBytes ∧ (ok = false → env.grow = false) ∧
      oci'.unread = if ok then data ++ oci.unread else oci.unread :=
  insertAtPtr_spec env (o := { oci.advance with lenLastReq := 0 })
    ⟨h.advance.block, h.advance.ptr, h.advance.cnt, h.advance.lo, h.advance.hi⟩ rfl hfit

variable (env) in
theorem insertFakeRequest_spec (h : s.WF srv)
    (hoc : s.osPrivate k = some oc) (hfit : (s.view srv k).buffered + data.length ≤ srv.cap) :
    ∃ ok s', insertFakeRequest env s k data = some (ok, s') ∧ s'.WF srv ∧
      s'.osPrivate = s.osPrivate ∧ s'.client = s.client ∧
      (s'.view srv k).ignore = (s.view srv k).ignore ∧
      (s'.view srv k).stream = (if ok then data ++ (s.view srv k).stream
        else (s.view srv k).stream) ∧ ∀ k', k' ≠ k → Untouched s s' k' := by
  obtain ⟨s₁, hnext, hwf₁, hav, _, hcont, hcl₁, hop₁, hunt⟩ := nextAvailableInput_spec (k := k) h
  have hview : s₁.view srv k = s.view srv k := (hunt k).view
  unfold insertFakeRequest
  rw [hoc, bind_some, hnext, bind_some]
  rcases ensureInput_spec (k := k) env.alloc hwf₁ hav with
    ⟨he, hno, hnone⟩ | ⟨s₂, a, oci, he, hens⟩
  · rw [he]
    exact ⟨false, s₁, rfl, hwf₁, hop₁, hcl₁, by rw [hview],
      by rw [hview, if_neg Bool.false_ne_true], fun k' _ => hunt k'⟩
  · rw [he]
    dsimp only
    have hc₂ : s₂.inputs.content k = some oci := (content_eq hens.owner).trans hens.cell
    have hv₂ : s₂.view srv k = s.view srv k := hens.view.trans hview
    have hheld : oci.unread.length = (s.view srv k).buffered := by
      rw [← hv₂]
      simp only [State.view, hc₂, held, elim_some]
    rw [hens.cell, bind_some]
    obtain ⟨oci', ok, hins, hwf', hig', hno, hun⟩ :=
      insertInto_spec env hens.ready (show oci.unread.length + data.length ≤ srv.cap by
        omega)
    rw [hins, map_some]
    have hself : (s₂.inputs.put a oci').content k = some oci' := content_put_self hens.owner
    refine ⟨ok, _, rfl, wf_put hens.wf hens.owner hwf' ?_, hens.osPrivate.trans hop₁,
      hens.client.trans hcl₁, ?_, ?_, fun k' hne => ((hunt k').trans (hens.others k' hne)).trans
        ⟨rfl, rfl, inl (content_put_of_ne hens.wf.pool hens.owner hne)⟩⟩
    · intro k' hk'
      rw [hens.available, hav] at hk'
      cases hk'
    · rw [← hv₂]
      simp only [State.view, hself, hc₂, ignored, elim_some, hig']
    · rw [← hv₂]
      simp only [State.view, State.sock, hself, hc₂, held, elim_some, hun]
      cases ok <;> simp

end
end Xfront.Input
