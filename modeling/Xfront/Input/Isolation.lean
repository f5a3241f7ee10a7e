import Xfront.Lib.Run
import Xfront.Input.Reexecute

/-!
# Clients do not see each other's input

Any number of clients are served, get requests inserted, are reset and closed in any order over the
shared buffers.
-/

namespace Xfront.Input
open Xfront.Bytes Option Function List

inductive Action (κ : Type) where
  | read (k : κ) (env : Env)
  | insert (k : κ) (env : Env) (data : List Byte)
  | reset (k : κ)
  | close (k : κ)

def Action.client {κ : Type} : Action κ → κ
  | .read k _ => k
  | .insert k _ _ => k
  | .reset k => k
  | .close k => k

/-- What happens to a client: a request is reported to the dispatcher, a fake
one is inserted, the current one is reset. -/
inductive Event where
  | reported (r : Report)
  | inserted (data : List Byte)
  | reset
  deriving DecidableEq

variable {κ : Type} [DecidableEq κ]

/-- The server, and for each client whether the last thing that happened to it
was a report of a whole request, so that its handler may ask for a reset. -/
structure Running (κ : Type) where
  state : State κ
  handling : κ → Bool

def Event.handled : Event → Bool
  | .reported (.whole ..) => true
  | _ => false

def act (srv : Server) (s : State κ) : Action κ → Option (State κ × Option Event)
  | .read k env => (serve srv env s k).map fun (sv, s') => (s', sv.report.map .reported)
  | .insert k env data => (insertFakeRequest env s k data).map fun (ok, s') =>
    (s', if ok then some (.inserted data) else none)
  | .reset k => (resetCurrentRequest srv s k).map fun s' => (s', some .reset)
  | .close k => (closeDownConnection s k).map fun s' => (s', none)

def step (srv : Server) (m : Running κ) (a : Action κ) :
    Option (Running κ × Option (κ × Event)) :=
  (act srv m.state a).map fun (s', e) =>
    (⟨s', update m.handling a.client (e.elim false Event.handled)⟩, e.map fun e => (a.client, e))

def eventsOf (k : κ) (os : List (Option (κ × Event))) : List Event :=
  os.filterMap fun o => o.bind fun (k', e) => if k' = k then some e else none

/-- What the callers of the four functions guarantee, and that no big header
with a length above `MAXINT >> 2` is read: `ResetCurrentRequest` is called by the
handler of the request just reported, while the buffer is still the client's;
a fake request is inserted where it fits and no request is being skipped. -/
def Proper (srv : Server) (m : Running κ) : Action κ → Prop
  | .read k _ => (m.state.osPrivate k).isSome ∧ ((m.state.view srv k).ignore = 0 →
      ∀ n, header (m.state.view srv k).dialect (m.state.view srv k).stream = .big n → n ≤ maxUnits)
  | .insert k _ data => (m.state.osPrivate k).isSome ∧ (m.state.view srv k).ignore = 0 ∧
      (m.state.view srv k).buffered + data.length ≤ srv.cap
  | .reset k => (m.state.osPrivate k).isSome ∧ m.handling k ∧ (m.state.inputs.owner k).isSome
  | .close k => (m.state.osPrivate k).isSome

/-- A client without buffers: the stream that is still to be read, and the
stream from the last whole request on with its `req_len`. -/
structure Session where
  stream : List Byte
  live : Option (List Byte × Nat)

def Session.step (cap : Nat) (d : Dialect) (t : Session) : Event → Option Session
  | .reported r =>
    match frame cap d t.stream with
    | .request r' rest =>
      if r = r' then
        match r with
        | .whole _ reqLen bytes => some ⟨rest, some (bytes ++ rest, reqLen)⟩
        | .oversized _ => some ⟨rest, none⟩
      else none
    | .short hd rest =>
      if r = .whole 4 0 hd then some ⟨hd ++ rest, some (hd ++ rest, 0)⟩ else none
    | _ => none
  | .inserted data => some ⟨data ++ t.stream, none⟩
  | .reset => t.live.map fun (current, reqLen) => ⟨rewound d reqLen current, none⟩

/-- What the world around a client decides: that a request is reported, not which. -/
inductive Cue where
  | report
  | insert (data : List Byte)
  | reset
  deriving DecidableEq

def Event.cue : Event → Cue
  | .reported _ => .report
  | .inserted data => .insert data
  | .reset => .reset

theorem Session.step_det {cap : Nat} {d : Dialect} {t t₁ t₂ : Session} {e e' : Event}
    (h : t.step cap d e = some t₁) (h' : t.step cap d e' = some t₂) (hc : e.cue = e'.cue) :
    e = e' := by
  cases e with
  | reported r =>
    cases e' with
    | reported r' =>
      congr 1
      simp only [Session.step] at h h'
      cases hf : frame cap d t.stream with
      | request q rest | short hd rest =>
        simp only [hf] at h h'
        split_ifs at h with hr
        split_ifs at h' with hr'
        exact hr.trans hr'.symm
      | incomplete | malformed | rejected => simp [hf] at h
    | inserted _ => cases hc
    | reset => cases hc
  | inserted data =>
    cases e' with
    | reported _ => cases hc
    | inserted data' =>
      cases hc
      rfl
    | reset => cases hc
  | reset =>
    cases e' with
    | reported _ => cases hc
    | inserted _ => cases hc
    | reset => rfl

/-- The open connection of `k` is where its session says. -/
structure Follows (srv : Server) (m : Running κ) (k : κ) (d : Dialect) (t : Session) : Prop where
  dialect : (m.state.view srv k).dialect = d
  stream : m.state.upcoming srv k = t.stream
  live : m.handling k = true → ∃ bytes rest reqLen, t.live = some (bytes ++ rest, reqLen) ∧
    ((m.state.inputs.content k).isSome → Current srv m.state k reqLen bytes rest)

def Tracks (srv : Server) (d : κ → Dialect) (m : Running κ) (t : κ → Session) : Prop :=
  m.state.WF srv ∧ ∀ k, (m.state.osPrivate k).isSome → Follows srv m k (d k) (t k)

def sessions (cap : Nat) (d : κ → Dialect) (t : κ → Session) :
    Option (κ × Event) → Option (κ → Session)
  | none => some t
  | some (k, e) => ((t k).step cap (d k) e).map (update t k)

section
variable {srv : Server} {m : Running κ} {s s' : State κ} {k k' : κ} {d : Dialect} {t : Session}

open State

omit [DecidableEq κ] in
theorem Untouched.current {reqLen : Nat} {bytes rest : List Byte} (h : Untouched s s' k)
    (hc : Current srv s k reqLen bytes rest) (hsome : (s'.inputs.content k).isSome) :
    Current srv s' k reqLen bytes rest := by
  obtain ⟨oci, hoci, h0, hl⟩ := hc
  have hsame : s'.inputs.content k = s.inputs.content k := by
    refine h.content.resolve_right ?_
    rintro ⟨hnone, _⟩
    rw [hnone] at hsome
    cases hsome
  refine ⟨oci, hsame.trans hoci, h0, ?_⟩
  rw [h.client]
  simp only [sock, h.osPrivate]
  exact hl

omit [DecidableEq κ] in
theorem isSome_content (h : s.WF srv) : (s.inputs.content k).isSome = (s.inputs.owner k).isSome := by
  cases ho : s.inputs.owner k with
  | none =>
    rw [Pool.content_none ho]
    rfl
  | some a =>
    obtain ⟨x, hx⟩ := h.pool.owned ho
    rw [Pool.content_eq ho, hx]
    rfl

omit [DecidableEq κ] in
theorem Follows.other {b : κ → Bool} (h : Follows srv m k d t) (hu : Untouched m.state s' k)
    (hb : b k = m.handling k) : Follows srv ⟨s', b⟩ k d t := by
  have hv : s'.view srv k = m.state.view srv k := hu.view
  refine ⟨hv ▸ h.dialect, ?_, fun hh => ?_⟩
  · rw [← h.stream]
    simp only [upcoming, hv]
  · obtain ⟨bytes, rest, reqLen, hlive, hcur⟩ := h.live (hb ▸ hh)
    exact ⟨bytes, rest, reqLen, hlive, fun hs => hu.current (hcur (by
      rcases hu.content with hc | ⟨hc, oci, ho, _⟩
      · rwa [← hc]
      · rw [ho]
        rfl)) hs⟩

/-- What an action of `k` itself must leave, by the event it puts out. -/
def Answers (srv : Server) (k : κ) (d : Dialect) (t : Session) (s' : State κ) (e : Option Event) :
    Prop :=
  s'.WF srv ∧ ∃ t', (match e with | none => some t | some e => t.step srv.cap d e) = some t' ∧
    ((s'.osPrivate k).isSome → (s'.view srv k).dialect = d ∧ s'.upcoming srv k = t'.stream ∧
      (e.elim false Event.handled = true → ∃ bytes rest reqLen,
        t'.live = some (bytes ++ rest, reqLen) ∧ Current srv s' k reqLen bytes rest))

section
variable (h : m.state.WF srv)
include h

theorem read_answers {env : Env} (hf : Follows srv m k d t)
    (hg : Proper srv m (.read k env)) : ∃ s' e, act srv m.state (.read k env) = some (s', e) ∧
      (∀ k', k' ≠ k → Untouched m.state s' k') ∧ Answers srv k d t s' e := by
  obtain ⟨oc, hoc⟩ := isSome_iff_exists.mp hg.1
  obtain ⟨sv, s', hserve, hunt, hround, hwf, _⟩ := serve_spec env h hoc
  have hstream := hf.stream
  have hdialect := hf.dialect
  refine ⟨s', sv.report.map .reported, ?_, hunt, ?_⟩
  · simp only [act, hserve, map_some]
  · cases hround with
    | blocked view _ _ _ =>
      refine ⟨hwf (by simp), t, rfl, fun _ => ⟨view ▸ hdialect, ?_, fun hh => by cases hh⟩⟩
      rw [← hstream]
      simp only [upcoming, view]
    | progress n skipped dialect stream ignore _ _ =>
      refine ⟨hwf (by simp), t, rfl, fun _ => ⟨dialect.trans hdialect, ?_, fun hh => by cases hh⟩⟩
      rw [← hstream]
      simp only [upcoming, stream, ignore, drop_drop]
      congr 1
      omega
    | request r rest ignore frame dialect stream _ current _ =>
      rw [← upcoming_of_ignore ignore, hstream, hdialect] at frame
      refine ⟨hwf (by simp), ?_⟩
      cases r with
      | whole count reqLen bytes =>
        refine ⟨⟨rest, some (bytes ++ rest, reqLen)⟩, ?_, fun _ => ⟨dialect.trans hdialect, stream,
          fun _ => ⟨bytes, rest, reqLen, rfl, current _ _ _ rfl⟩⟩⟩
        simp only [Served.report, map_some, Session.step, frame, if_true]
      | oversized count =>
        refine ⟨⟨rest, none⟩, ?_, fun _ => ⟨dialect.trans hdialect, stream, fun hh => by cases hh⟩⟩
        simp only [Served.report, map_some, Session.step, frame, if_true]
    | short hd rest ignore frame dialect stream hnone current =>
      rw [← upcoming_of_ignore ignore, hstream, hdialect] at frame
      refine ⟨hwf (by simp), ⟨hd ++ rest, some (hd ++ rest, 0)⟩, ?_, fun _ =>
        ⟨dialect.trans hdialect, ?_, fun _ => ⟨hd, rest, 0, rfl, current⟩⟩⟩
      · simp only [Served.report, map_some, Session.step, frame, if_true]
      · rw [upcoming_of_ignore hnone, stream]
    | rejected _ _ closed | failed _ _ closed =>
      exact ⟨hwf (by simp), t, rfl, fun hs => by rw [closed] at hs; cases hs⟩
    | malformed ignore frame =>
      obtain ⟨n, hn, hlt⟩ := frame_malformed_header frame
      exact absurd (hg.2 ignore n hn) (not_le.mpr hlt)

theorem insert_answers {env : Env} {data : List Byte}
    (hf : Follows srv m k d t) (hg : Proper srv m (.insert k env data)) :
    ∃ s' e, act srv m.state (.insert k env data) = some (s', e) ∧
      (∀ k', k' ≠ k → Untouched m.state s' k') ∧ Answers srv k d t s' e := by
  obtain ⟨hopen, hig, hfit⟩ := hg
  obtain ⟨oc, hoc⟩ := isSome_iff_exists.mp hopen
  obtain ⟨ok, s', hins, hwf, _, hcl, hig', hstream', hunt⟩ := insertFakeRequest_spec env h hoc hfit
  have hd' : (s'.view srv k).dialect = d := by
    rw [← hf.dialect]
    simp only [view, hcl]
  have hup' := upcoming_of_ignore (hig'.trans hig)
  have hup := upcoming_of_ignore hig
  rw [hf.stream] at hup
  refine ⟨s', if ok then some (.inserted data) else none, ?_, hunt, hwf, ?_⟩
  · simp only [act, hins, map_some]
  · cases ok with
    | true =>
      refine ⟨⟨data ++ t.stream, none⟩, rfl, fun _ => ⟨hd', ?_, fun hh => by cases hh⟩⟩
      rw [hup', hstream', hup]
      rfl
    | false =>
      refine ⟨t, rfl, fun _ => ⟨hd', ?_, fun hh => by cases hh⟩⟩
      rw [hup', hstream', hup]
      rfl

theorem reset_answers (hf : Follows srv m k d t)
    (hg : Proper srv m (.reset k)) : ∃ s' e, act srv m.state (.reset k) = some (s', e) ∧
      (∀ k', k' ≠ k → Untouched m.state s' k') ∧ Answers srv k d t s' e := by
  obtain ⟨hopen, hhandling, howner⟩ := hg
  obtain ⟨oc, hoc⟩ := isSome_iff_exists.mp hopen
  obtain ⟨bytes, rest, reqLen, hlive, hcur⟩ := hf.live hhandling
  obtain ⟨s', hreset, hwf, _, hcl, hig, _, hstream', hunt⟩ :=
    resetCurrentRequest_spec h hoc (hcur ((isSome_content h).trans howner))
  refine ⟨s', some .reset, ?_, hunt, hwf, ⟨rewound d reqLen (bytes ++ rest), none⟩, ?_, fun _ =>
    ⟨?_, ?_, fun hh => by cases hh⟩⟩
  · simp only [act, hreset, map_some]
  · simp only [Session.step, hlive, map_some]
  · rw [← hf.dialect]
    simp only [view, hcl]
  · rw [upcoming_of_ignore hig, hstream', hf.dialect]

theorem close_answers (hg : Proper srv m (.close k)) :
    ∃ s' e, act srv m.state (.close k) = some (s', e) ∧
      (∀ k', k' ≠ k → Untouched m.state s' k') ∧ Answers srv k d t s' e := by
  obtain ⟨oc, hoc⟩ := isSome_iff_exists.mp hg
  obtain ⟨s', hclose, hwf, hnone, hunt⟩ := closeDownConnection_spec h hoc
  refine ⟨s', none, ?_, hunt, hwf, t, rfl, fun hs => by rw [hnone] at hs; cases hs⟩
  simp only [act, hclose, map_some]

theorem act_answers {a : Action κ} (hg : Proper srv m a)
    (hf : Follows srv m a.client d t) : ∃ s' e, act srv m.state a = some (s', e) ∧
      (∀ k', k' ≠ a.client → Untouched m.state s' k') ∧ Answers srv a.client d t s' e := by
  cases a with
  | read k env => exact read_answers h hf hg
  | insert k env data => exact insert_answers h hf hg
  | reset k => exact reset_answers h hf hg
  | close k => exact close_answers h hg

end

theorem step_tracks {d : κ → Dialect} {t : κ → Session} {a : Action κ}
    (h : Tracks srv d m t) (hg : Proper srv m a) :
    ∃ m' o t', step srv m a = some (m', o) ∧ sessions srv.cap d t o = some t' ∧
      Tracks srv d m' t' := by
  obtain ⟨hwf, hall⟩ := h
  have hopen : (m.state.osPrivate a.client).isSome := by
    cases a with
    | read | insert | reset => exact hg.1
    | close => exact hg
  obtain ⟨s', e, hact, hunt, hwf', t', ht', hown⟩ := act_answers hwf hg (hall _ hopen)
  obtain ⟨u, hu, hself, hother⟩ : ∃ u, sessions srv.cap d t (e.map fun e => (a.client, e)) = some u ∧
      u a.client = t' ∧ ∀ k, k ≠ a.client → u k = t k := by
    cases e with
    | none =>
      cases ht'
      exact ⟨t, rfl, rfl, fun _ _ => rfl⟩
    | some e =>
      refine ⟨update t a.client t', ?_, update_self .., fun k hne => update_of_ne hne ..⟩
      simp only [map_some, sessions]
      exact congrArg _ ht'
  refine ⟨_, _, u, by rw [step, hact, map_some], hu, hwf', fun k hk => ?_⟩
  by_cases hne : k = a.client
  · subst hne
    obtain ⟨hd, hstream, hlive⟩ := hown hk
    rw [hself]
    refine ⟨hd, hstream, fun hh => ?_⟩
    simp only [update_self] at hh
    obtain ⟨bytes, rest, reqLen, hl, hc⟩ := hlive hh
    exact ⟨bytes, rest, reqLen, hl, fun _ => hc⟩
  · have hu' := hunt k hne
    rw [hother k hne]
    refine (hall k ?_).other hu' (update_of_ne hne ..)
    rwa [← hu'.osPrivate]

omit [DecidableEq κ] in
theorem start_tracks (srv : Server) (client : κ → Client) (sock : κ → List Byte) :
    Tracks srv (fun k => srv.dialect (client k)) ⟨start client sock, fun _ => false⟩
      (fun k => ⟨sock k, none⟩) :=
  ⟨start_wf srv client sock, fun k _ =>
    ⟨rfl, (Serviced.fresh (start_wf srv client sock) rfl rfl rfl).1.upcoming,
      fun hh => by cases hh⟩⟩

theorem run_accepts (client : κ → Client) (sock : κ → List Byte) {as : List (Action κ)}
    (hg : Run.Guarded (step srv) (Proper srv) ⟨start client sock, fun _ => false⟩ as) :
    ∃ m os, Run.exec (step srv) ⟨start client sock, fun _ => false⟩ as = some (m, os) ∧
      ∀ k, ∃ t, Run.accept (Session.step srv.cap (srv.dialect (client k))) ⟨sock k, none⟩
        (eventsOf k os) = some t := by
  obtain ⟨m, os, t, hrun, hacc, _⟩ :=
    Run.exec_simulates (fun _ _ _ => step_tracks) (start_tracks srv client sock) hg
  refine ⟨m, os, hrun, fun k => ⟨t k, ?_⟩⟩
  refine Run.accept_project (v := fun t => t k) ?_ ?_ hacc
  · intro t o t' hs hp
    cases o with
    | none =>
      cases hs
      rfl
    | some ke =>
      obtain ⟨u, _, rfl⟩ := map_eq_some_iff.mp hs
      have hne : ke.1 ≠ k := by
        intro he
        simp [he] at hp
      exact update_of_ne (Ne.symm hne) ..
  · intro t o t' e hs hp
    obtain ⟨⟨k', e'⟩, rfl, hk⟩ := bind_eq_some_iff.mp hp
    obtain ⟨u, hu, rfl⟩ := map_eq_some_iff.mp hs
    dsimp only at hk
    by_cases he : k' = k
    · subst he
      rw [if_pos rfl] at hk
      cases hk
      rw [update_self]
      exact hu
    · rw [if_neg he] at hk
      cases hk

end

/-- Two clients with big requests enabled; `sock true` and `sock false` are what they send. -/
def twoClients (sock : Bool → List Byte) : Running Bool :=
  ⟨State.start (fun _ => sampleClient) sock, fun _ => false⟩

/-- The second client sends a big header of `2 ^ 30` units behind its request
and is read three times on the buffer of the first one. -/
def recycledRun (tail : List Byte) : Option (List Event) :=
  (Run.exec (step Server.standard)
    (twoClients fun k => if k then [1, 0, 7, 0] ++ replicate 20 0 ++ tail
      else [2, 0, 3, 0, 0, 0, 0, 0, 0, 0, 0, 0, 128, 5, 0, 0, 0, 0, 0, 64])
    [.read true atOnce, .read false atOnce, .read false atOnce, .read false atOnce]).map
    fun r => eventsOf false r.2

end Xfront.Input
