import Xfront.Input.ServerSpec

/-!
# Reading one client's stream to the end

One client is served again and again while the transport cuts its stream into
arbitrary pieces. The reports are the requests of the stream, in order.
-/

namespace Xfront.Input
open Xfront.Bytes List Option Nat

/-- A request with a correct length: an ordinary one of `units` 4-byte units, or
one with length word 0 and a 32-bit length that covers its own header. -/
inductive WireRequest (d : Dialect) where
  | ordinary (major data : Byte) (units : Nat) (body : List Byte) (pos : 1 ≤ units)
      (word : units < 2 ^ 16) (size : 4 + body.length = units * 4)
  | big (allowed : d.bigRequests = true) (major data : Byte) (units : Nat) (body : List Byte)
      (pos : 2 ≤ units) (max : units ≤ maxUnits) (size : 8 + body.length = units * 4)

namespace WireRequest
variable {d : Dialect} {cap : Nat}

def encode : WireRequest d → List Byte
  | .ordinary major data units body _ _ _ => major :: data :: (bytes16 d.bigEndian units ++ body)
  | .big _ major data units body _ _ _ =>
    major :: data :: (bytes16 d.bigEndian 0 ++ (bytes32 d.bigEndian units ++ body))

def report (cap : Nat) : WireRequest d → Report
  | .ordinary major data units body _ _ _ =>
    .whole (units * 4) units (major :: data :: (bytes16 d.bigEndian units ++ body))
  | .big _ major data units body _ _ _ =>
    if cap < units * 4 then .oversized (units * 4)
    else .whole (units * 4) (units - 1) (major :: data :: (bytes16 d.bigEndian 0 ++ body))

theorem encode_pos (r : WireRequest d) : 4 ≤ r.encode.length := by
  cases r with
  | ordinary => simp [encode]
  | big => simp [encode]

theorem wordAt16_cons (be : Bool) (a b : Byte) (n : Nat) (bs : List Byte) (hn : n < 2 ^ 16) :
    wordAt16 be (a :: b :: (bytes16 be n ++ bs)) 2 = n :=
  (wordAt16_append be [a, b] (bytes16 be n ++ bs)).trans (wordAt16_bytes16 be n bs hn)

variable {bs rest : List Byte}

theorem header_encode (r : WireRequest d) (h : bs <+: r.encode ++ rest)
    (hne : header d bs ≠ .incomplete) : match r with
      | .ordinary _ _ units _ _ _ _ => header d bs = .ordinary units
      | .big _ _ _ units _ _ _ _ => header d bs = .big units := by
  obtain ⟨t, ht⟩ := h
  have h4 : ¬ bs.length < 4 := fun hl => hne (header_of_length_lt hl)
  have happ := header_append t hne
  rw [ht] at happ
  have hlen : (r.encode ++ rest).length = bs.length + t.length := by
    rw [← ht, length_append]
  cases r with
  | ordinary major data units body pos word size =>
    rw [← happ]
    unfold header
    rw [if_neg (by omega)]
    simp only [encode, cons_append, append_assoc]
    rw [wordAt16_cons _ _ _ _ _ word, if_neg (by omega)]
  | big allowed major data units body pos max size =>
    have hv : maxUnits = 536870911 := by decide
    rw [← happ]
    unfold header
    rw [if_neg (by omega)]
    have h8 : ¬ (encode (.big allowed major data units body pos max size) ++ rest).length < 8 := by
      simp only [encode, length_append, length_cons, bytes16_length, bytes32_length]
      omega
    rw [if_neg h8]
    simp only [encode, cons_append, append_assoc]
    rw [wordAt16_cons _ _ _ _ _ (by omega), if_pos ⟨rfl, allowed⟩]
    have hw := wordAt32_append d.bigEndian (major :: data :: bytes16 d.bigEndian 0)
      (bytes32 d.bigEndian units ++ (body ++ rest))
    rw [wordAt32_bytes32 _ _ _ (by omega)] at hw
    simp only [length_cons, bytes16_length, cons_append] at hw
    rw [hw]

theorem take_of_prefix {as : List Byte} {n : Nat} (h : bs <+: as ++ rest)
    (hn : as.length = n) (hl : n ≤ bs.length) : bs.take n = as := by
  obtain ⟨t, ht⟩ := h
  have htake : (bs ++ t).take n = bs.take n := take_append_of_le_length hl
  rw [← htake, ht, take_left' hn]

theorem frame_encode (r : WireRequest d) (hcap : 2 ^ 18 ≤ cap) (h : bs <+: r.encode ++ rest) :
    (frame cap d bs = .incomplete ∧ bs.length < r.encode.length) ∨
      frame cap d bs = .request (r.report cap) (bs.drop r.encode.length) := by
  by_cases hne : header d bs = .incomplete
  · left
    refine ⟨by simp only [frame, hne], ?_⟩
    by_contra hlen
    have h4 := r.encode_pos
    obtain ⟨h8, hz, hb⟩ := header_incomplete_iff hne (by omega)
    cases r with
    | ordinary major data units body pos word size =>
      obtain ⟨t, ht⟩ := h
      have hw : wordAt16 d.bigEndian bs 2 = units := by
        rw [← wordAt16_extend (b := t) (show 2 + 2 ≤ bs.length by omega), ht]
        simp only [encode, cons_append, append_assoc]
        exact wordAt16_cons _ _ _ _ _ word
      omega
    | big allowed major data units body pos max size =>
      simp only [encode, length_cons, length_append, bytes16_length, bytes32_length] at hlen
      omega
  · have hd := r.header_encode h hne
    cases r with
    | ordinary major data units body pos word size =>
      have hsize : (encode (d := d) (.ordinary major data units body pos word size)).length =
          units * 4 := by
        simp only [encode, length_cons, length_append, bytes16_length]
        omega
      simp only [frame, hd, hsize]
      rw [if_neg (show ¬ units = 0 by omega), if_neg (by omega)]
      by_cases hl : bs.length < units * 4
      · exact .inl ⟨if_pos hl, hl⟩
      · rw [if_neg hl, take_of_prefix h hsize (by omega)]
        exact .inr rfl
    | big allowed major data units body pos max size =>
      have hsize : (encode (.big allowed major data units body pos max size)).length =
          units * 4 := by
        simp only [encode, length_cons, length_append, bytes16_length, bytes32_length]
        omega
      simp only [frame, hd, hsize, report]
      rw [if_neg (by omega), if_neg (by omega), if_neg (by omega)]
      by_cases hbig : cap < units * 4
      · rw [if_pos hbig, if_pos hbig]
        exact .inr rfl
      · rw [if_neg hbig, if_neg hbig]
        by_cases hl : bs.length < units * 4
        · exact .inl ⟨if_pos hl, hl⟩
        · have htake := take_of_prefix h hsize (by omega)
          have htake4 : bs.take 4 = (bs.take (units * 4)).take 4 := by
            rw [take_take, min_eq_left (by omega)]
          rw [if_neg hl, shown, htake4, htake]
          right
          simp only [encode]
          congr 2
          rw [show major :: data :: (bytes16 d.bigEndian 0 ++ (bytes32 d.bigEndian units ++ body)) =
            (major :: data :: bytes16 d.bigEndian 0) ++ (bytes32 d.bigEndian units ++ body) from rfl,
            take_left' (by simp), ← append_assoc, drop_left' (by simp)]
          rfl

end WireRequest

variable {κ : Type} [DecidableEq κ]

def serveAll (srv : Server) (k : κ) : State κ → List Env → Option (List Served × State κ)
  | s, [] => some ([], s)
  | s, env :: envs => (serve srv env s k).bind fun (sv, s') =>
    if sv = .closed then some ([sv], s')
    else (serveAll srv k s' envs).map fun (svs, s'') => (sv :: svs, s'')

def Served.report : Served → Option Report
  | .reported r => some r
  | _ => none

def reports (svs : List Served) : List Report := svs.filterMap Served.report

def State.upcoming (srv : Server) (s : State κ) (k : κ) : List Byte :=
  (s.view srv k).stream.drop (s.view srv k).ignore

def Env.Works (env : Env) : Prop :=
  env.alloc = true ∧ env.grow = true ∧ ∃ n, env.trans = .grant n

def bytewise : Env := ⟨true, true, true, fun _ => 0, .grant 1⟩

def Env.productive (env : Env) : Bool :=
  match env.trans with
  | .grant n => 0 < n
  | .fail => false

/-- A client that is being served: its stream is `bs`, its words are read as `d`. -/
structure Serviced (srv : Server) (s : State κ) (k : κ) (d : Dialect) (bs : List Byte) : Prop where
  wf : s.WF srv
  conn : ∃ oc, s.osPrivate k = some oc ∧ oc.transConn = true
  dialect : (s.view srv k).dialect = d
  upcoming : s.upcoming srv k = bs

section
variable {srv : Server} {env : Env} {s s' : State κ} {k : κ} {d : Dialect} {bs : List Byte}

omit [DecidableEq κ] in
theorem upcoming_of_ignore (h : (s.view srv k).ignore = 0) :
    s.upcoming srv k = (s.view srv k).stream := by
  rw [State.upcoming, h]
  rfl

omit [DecidableEq κ] in
theorem Serviced.fresh {oc : OsComm} (h : s.WF srv) (hoc : s.osPrivate k = some oc)
    (hconn : oc.transConn = true) (hnew : s.inputs.owner k = none) :
    Serviced srv s k (srv.dialect (s.client k)) oc.sock ∧ (s.view srv k).measure ≤
      2 * oc.sock.length := by
  have hc := Pool.content_none hnew
  refine ⟨⟨h, ⟨oc, hoc, hconn⟩, rfl, ?_⟩, ?_⟩
  · simp only [State.upcoming, State.view, State.sock, hc, hoc, held, ignored, elim_none,
      elim_some, nil_append, drop_zero]
  · simp only [View.measure, State.view, State.sock, hc, hoc, held, elim_none,
      elim_some, nil_append]
    omega

inductive Round (srv : Server) (env : Env) (s s' : State κ) (k : κ) (d : Dialect)
    (bs : List Byte) : Served → Prop
  | more (upcoming : s'.upcoming srv k = bs)
      (less : (s'.view srv k).measure < (s.view srv k).measure ∨
        s'.view srv k = s.view srv k ∧ (∀ n, env.trans = .grant n → 0 < n →
          (0 < (s.view srv k).ignore ∧ bs = []) ∨
            ((s.view srv k).ignore = 0 ∧ frame srv.cap d bs = .incomplete))) :
      Round srv env s s' k d bs .more
  | request (r : Report) (frame : frame srv.cap d bs = .request r (s'.upcoming srv k))
      (less : (s'.view srv k).measure < (s.view srv k).measure) :
      Round srv env s s' k d bs (.reported r)
  | short (header rest : List Byte) (frame : frame srv.cap d bs = .short header rest) :
      Round srv env s s' k d bs (.reported (.whole 4 0 header))
  | malformed (frame : frame srv.cap d bs = .malformed) : Round srv env s s' k d bs .badLength
  | rejected (frame : frame srv.cap d bs = .rejected) (closed : s'.osPrivate k = none) :
      Round srv env s s' k d bs .closed
  | failed (broken : ¬ env.Works) (closed : s'.osPrivate k = none) :
      Round srv env s s' k d bs .closed

omit [DecidableEq κ] in
variable {sv : Served}

theorem Serving.round (h : Serving srv env s k s' sv)
    (hs : Serviced srv s k d bs) : Round srv env s s' k d bs sv := by
  obtain ⟨_, ⟨oc, hoc, hconn⟩, rfl, rfl⟩ := hs
  cases h with
  | blocked view why starved skipping =>
    refine .more (by simp only [State.upcoming, view]) (.inr ⟨view, fun n hn hpos => ?_⟩)
    have hall : (s.view srv k).stream.length = (s.view srv k).buffered :=
      (why n hn).resolve_left (by omega)
    by_cases hi : (s.view srv k).ignore = 0
    · refine .inr ⟨hi, ?_⟩
      have hs := starved hi
      rwa [take_of_length_le (by omega), ← upcoming_of_ignore hi] at hs
    · have hlt := skipping (by omega)
      exact .inl ⟨by omega, drop_eq_nil_of_le (by omega)⟩
  | progress n skipped dialect stream ignore less _ =>
    refine .more ?_ (.inl less)
    simp only [State.upcoming, stream, ignore, drop_drop]
    congr 1
    omega
  | request r rest ignore frame dialect stream less _ _ =>
    refine .request r ?_ less
    rw [upcoming_of_ignore ignore, frame, ← stream]
    rfl
  | short header rest ignore frame _ _ _ _ =>
    exact .short header rest (upcoming_of_ignore ignore ▸ frame)
  | malformed ignore frame => exact .malformed (upcoming_of_ignore ignore ▸ frame)
  | rejected ignore frame closed => exact .rejected (upcoming_of_ignore ignore ▸ frame) closed
  | failed why _ closed =>
    refine .failed (fun hworks => ?_) closed
    obtain ⟨halloc, hgrow, n, hn⟩ := hworks
    rcases why with hw | hw | ⟨oc', hoc', hw⟩ | hw
    · rw [halloc] at hw
      cases hw
    · rw [hgrow] at hw
      cases hw
    · rw [hoc] at hoc'
      cases hoc'
      rw [hconn] at hw
      cases hw
    · rw [hn] at hw
      cases hw

omit [DecidableEq κ] in
theorem Round.dialect (h : Serving srv env s k s' sv)
    (hopen : sv ≠ .closed) (hgood : sv ≠ .badLength) :
    (s'.view srv k).dialect = (s.view srv k).dialect := by
  cases h with
  | blocked view => rw [view]
  | progress _ _ dialect | request _ _ _ _ dialect | short _ _ _ _ dialect => exact dialect
  | rejected | failed => exact absurd rfl hopen
  | malformed => exact absurd rfl hgood

variable (env) in
theorem serve_round (h : Serviced srv s k d bs) :
    ∃ sv s', serve srv env s k = some (sv, s') ∧ Round srv env s s' k d bs sv ∧
      (sv ≠ .closed → sv ≠ .badLength → Serviced srv s' k d (s'.upcoming srv k)) := by
  obtain ⟨oc, hoc, hconn⟩ := h.conn
  obtain ⟨sv, s', hserve, _, hround, hwf, hopen⟩ := serve_spec env h.wf hoc
  refine ⟨sv, s', hserve, hround.round h, fun hc hb => ⟨hwf hb, ?_, ?_, rfl⟩⟩
  · obtain ⟨oc', hoc', ht⟩ := hopen hc
    exact ⟨oc', hoc', ht.trans hconn⟩
  · exact (Round.dialect hround hc hb).trans h.dialect

theorem serveAll_cons (envs : List Env) (h : serve srv env s k = some (sv, s'))
    (hopen : sv ≠ .closed) : serveAll srv k s (env :: envs) =
      (serveAll srv k s' envs).map fun (svs, s'') => (sv :: svs, s'') := by
  rw [serveAll, h, bind_some]
  exact if_neg hopen

theorem serveAll_closed (envs : List Env) (h : serve srv env s k = some (.closed, s')) :
    serveAll srv k s (env :: envs) = some ([.closed], s') := by
  rw [serveAll, h, bind_some]
  exact if_pos rfl

end

section Wire
variable {srv : Server} {s : State κ} {k : κ} {d : Dialect} {bs : List Byte}
  {reqs : List (WireRequest d)}

def Quiet : List Byte → List (WireRequest d) → Prop
  | _, [] => True
  | bs, q :: _ => bs.length < q.encode.length

theorem quiet_nil (reqs : List (WireRequest d)) : Quiet [] reqs := by
  cases reqs with
  | nil => trivial
  | cons q qs => exact lt_of_lt_of_le (by decide) q.encode_pos

theorem frame_wire (srv : Server) (h : bs <+: reqs.flatMap WireRequest.encode) :
    (frame srv.cap d bs = .incomplete ∧ Quiet bs reqs) ∨ ∃ q qs, reqs = q :: qs ∧
      frame srv.cap d bs = .request (q.report srv.cap) (bs.drop q.encode.length) ∧
      bs.drop q.encode.length <+: qs.flatMap WireRequest.encode := by
  have hcap := srv.cap_bounds
  cases reqs with
  | nil =>
    rw [flatMap_nil, prefix_nil] at h
    subst h
    exact .inl ⟨rfl, trivial⟩
  | cons q qs =>
    rw [flatMap_cons] at h
    rcases q.frame_encode (show 2 ^ 18 ≤ srv.cap by omega) h with ⟨hf, hl⟩ | hf
    · exact .inl ⟨hf, hl⟩
    · refine .inr ⟨q, qs, rfl, hf, ?_⟩
      have hd := List.IsPrefix.drop h q.encode.length
      rwa [drop_left' rfl] at hd

structure Framed (srv : Server) (s' : State κ) (k : κ) (bs : List Byte)
    (reqs : List (WireRequest d)) (svs : List Served) (n : Nat) : Prop where
  count : n ≤ reqs.length
  served : ∀ sv ∈ svs, sv = .more ∨ ∃ r, sv = .reported r
  reports : reports svs = (reqs.take n).map (WireRequest.report srv.cap)
  rest : Serviced srv s' k d (bs.drop ((reqs.take n).flatMap WireRequest.encode).length)

theorem serveAll_wire (envs : List Env) (henv : ∀ env ∈ envs, env.Works)
    (h : Serviced srv s k d bs) (hbs : bs <+: reqs.flatMap WireRequest.encode) :
    ∃ svs s' n, serveAll srv k s envs = some (svs, s') ∧ svs.length = envs.length ∧
      Framed srv s' k bs reqs svs n ∧
      ((s.view srv k).measure < envs.countP Env.productive ∨ Quiet bs reqs →
        Quiet (bs.drop ((reqs.take n).flatMap WireRequest.encode).length) (reqs.drop n)) := by
  induction envs generalizing s bs reqs with
  | nil =>
    refine ⟨[], s, 0, rfl, rfl, ⟨zero_le _, by simp, rfl, h⟩, ?_⟩
    rintro (hm | hq)
    · exact absurd hm (Nat.not_lt_zero _)
    · exact hq
  | cons env envs ih =>
    obtain ⟨hworks, henvs⟩ := forall_mem_cons.mp henv
    obtain ⟨sv, s₁, hserve, hround, hnext⟩ := serve_round env h
    have hcount : (env :: envs).countP Env.productive =
        envs.countP Env.productive + if env.productive then 1 else 0 := countP_cons ..
    have hwire := frame_wire srv hbs
    cases hround with
    | more upcoming less =>
      have h₁ := hnext (by simp) (by simp)
      rw [upcoming] at h₁
      obtain ⟨svs, s', n, hrun, hlen, hframed, hquiet⟩ := ih henvs h₁ hbs
      refine ⟨.more :: svs, s', n, ?_, by rw [length_cons, length_cons, hlen],
        ⟨hframed.count, forall_mem_cons.mpr ⟨.inl rfl, hframed.served⟩, hframed.reports,
          hframed.rest⟩, fun hq => hquiet ?_⟩
      · rw [serveAll_cons envs hserve (by simp), hrun, map_some]
      · rcases hq with hm | hq
        · rcases less with hless | ⟨hview, hblock⟩
          · left
            split_ifs at hcount <;> omega
          · by_cases hp : env.productive = true
            · obtain ⟨_, _, n', hn'⟩ := hworks
              have hpos : 0 < n' := by
                simp only [Env.productive, hn', decide_eq_true_eq] at hp
                exact hp
              right
              rcases hblock n' hn' hpos with ⟨_, hnil⟩ | ⟨_, hinc⟩
              · exact hnil ▸ quiet_nil reqs
              · rcases hwire with ⟨_, hq⟩ | ⟨q, qs, _, hf, _⟩
                · exact hq
                · rw [hinc] at hf
                  cases hf
            · left
              rw [hview]
              rw [if_neg hp] at hcount
              omega
        · exact .inr hq
    | request r hf less =>
      rcases hwire with ⟨hinc, _⟩ | ⟨q, qs, rfl, hf', hpre⟩
      · rw [hinc] at hf
        cases hf
      · rw [hf'] at hf
        obtain ⟨hr, hup⟩ := Frame.request.inj hf
        subst hr
        have h₁ := hnext (by simp) (by simp)
        rw [← hup] at h₁
        obtain ⟨svs, s', n, hrun, hlen, hframed, hquiet⟩ := ih henvs h₁ hpre
        have hdrop : (bs.drop q.encode.length).drop
            ((qs.take n).flatMap WireRequest.encode).length =
            bs.drop (((q :: qs).take (n + 1)).flatMap WireRequest.encode).length := by
          rw [drop_drop, take_succ_cons, flatMap_cons, length_append]
        refine ⟨.reported (q.report srv.cap) :: svs, s', n + 1, ?_,
          by rw [length_cons, length_cons, hlen], ⟨?_, ?_, ?_, ?_⟩, fun hq => ?_⟩
        · rw [serveAll_cons envs hserve (by simp), hrun, map_some]
        · rw [length_cons]
          exact succ_le_succ hframed.count
        · exact forall_mem_cons.mpr ⟨.inr ⟨_, rfl⟩, hframed.served⟩
        · simp only [reports, filterMap_cons, Served.report, take_succ_cons, map_cons]
          exact congrArg _ hframed.reports
        · exact hdrop ▸ hframed.rest
        · rw [← hdrop]
          refine hquiet ?_
          rcases hq with hm | hq
          · left
            split_ifs at hcount <;> omega
          · right
            rw [drop_eq_nil_of_le (le_of_lt hq)]
            exact quiet_nil qs
    | short header rest hf | malformed hf | rejected hf =>
      rcases hwire with ⟨hw, _⟩ | ⟨_, _, _, hw, _⟩ <;> rw [hw] at hf <;> cases hf
    | failed hbroken => exact absurd hworks hbroken

/-- The requests of a stream are reported in order, whole, and without gaps,
however the transport cuts the stream; what has arrived is reported once the
transport has been productive often enough. -/
theorem serveAll_frames {oc : OsComm} (hwf : s.WF srv) (hoc : s.osPrivate k = some oc)
    (hconn : oc.transConn = true) (hnew : s.inputs.owner k = none)
    (reqs : List (WireRequest (srv.dialect (s.client k))))
    (hsent : oc.sock <+: reqs.flatMap WireRequest.encode) (envs : List Env)
    (henv : ∀ env ∈ envs, env.Works) :
    ∃ svs s', serveAll srv k s envs = some (svs, s') ∧ svs.length = envs.length ∧
      (∀ sv ∈ svs, sv = .more ∨ ∃ r, sv = .reported r) ∧
      reports svs <+: reqs.map (WireRequest.report srv.cap) ∧ s'.upcoming srv k =
        oc.sock.drop ((reqs.take (reports svs).length).flatMap WireRequest.encode).length ∧
      (2 * oc.sock.length < envs.countP Env.productive → ∀ m ≤ reqs.length,
        ((reqs.take m).flatMap WireRequest.encode).length ≤ oc.sock.length →
          m ≤ (reports svs).length) := by
  obtain ⟨hserv, hmeasure⟩ := Serviced.fresh hwf hoc hconn hnew
  obtain ⟨svs, s', n, hrun, hlen, hframed, hquiet⟩ := serveAll_wire envs henv hserv hsent
  have hn : (reports svs).length = n := by
    rw [hframed.reports, length_map, length_take_of_le hframed.count]
  refine ⟨svs, s', hrun, hlen, hframed.served, ?_, ?_, ?_⟩
  · rw [hframed.reports, map_take]
    exact take_prefix ..
  · rw [hn]
    exact hframed.rest.upcoming
  · intro hprod m hm hfit
    rw [hn]
    by_contra hlt
    -- the next request is among the first `m`, so it has arrived completely
    have hq := hquiet (Or.inl (by omega))
    obtain ⟨q, qs, hcons⟩ : ∃ q qs, reqs.drop n = q :: qs := by
      cases hd : reqs.drop n with
      | nil =>
        rw [drop_eq_nil_iff] at hd
        omega
      | cons q qs => exact ⟨q, qs, rfl⟩
    rw [hcons] at hq
    simp only [Quiet, length_drop] at hq
    have hsplit : reqs.take m = reqs.take n ++ (q :: qs).take (m - n) := by
      rw [← hcons, ← take_add, Nat.add_sub_cancel' (by omega)]
    obtain ⟨j, hj⟩ : ∃ j, m - n = j + 1 := ⟨m - n - 1, by omega⟩
    rw [hsplit, hj, take_succ_cons, flatMap_append, flatMap_cons,
      length_append, length_append] at hfit
    omega

end Wire

def sampleClient : Client := ⟨false, true, 0, 0⟩

open Server

def sampleRequests : List (WireRequest (standard.dialect sampleClient)) :=
  [.ordinary 1 0 2 [9, 9, 9, 9] (by decide) (by decide) rfl,
   .big rfl 2 0 3 [7, 7, 7, 7] (by decide) (by decide) rfl]

theorem serveAll_frames_sample : ∃ svs s', serveAll Server.standard ()
    (State.start (fun _ => sampleClient) fun _ => sampleRequests.flatMap WireRequest.encode)
    (List.replicate 48 bytewise) = some (svs, s') ∧
    reports svs = sampleRequests.map (WireRequest.report Server.standard.cap) := by
  obtain ⟨svs, s', hrun, _, _, hpre, _, hall⟩ := serveAll_frames (State.start_wf standard
    (fun _ : Unit => sampleClient) fun _ => sampleRequests.flatMap WireRequest.encode)
    (k := ()) rfl rfl rfl sampleRequests prefix_rfl (replicate 48 bytewise)
    (fun env he => eq_of_mem_replicate he ▸ ⟨rfl, rfl, 1, rfl⟩)
  exact ⟨svs, s', hrun, hpre.eq_of_length_le (hall (by decide) 2 (by decide) (by decide))⟩

section Arbitrary
variable {srv : Server} {s : State κ} {k : κ} {d : Dialect} {bs : List Byte}

/-- Every report is the request that starts where the one before it ended,
according to the lengths declared in the stream. -/
def Tiles (cap : Nat) (d : Dialect) : List Byte → List Report → Prop
  | _, [] => True
  | bs, r :: rs => frame cap d bs = .request r (bs.drop r.count) ∧ Tiles cap d (bs.drop r.count) rs

def consumed (rs : List Report) : Nat := (rs.map Report.count).sum

/-- No big header that declares one unit or more than `MAXINT >> 2`. -/
def Sound (d : Dialect) (bs : List Byte) : Prop := ∀ n, header d bs = .big n → n ≠ 1 ∧ n ≤ maxUnits

variable {cap : Nat}

theorem frame_rest {r : Report} {rest : List Byte}
    (h : frame cap d bs = .request r rest) : rest = bs.drop r.count := by
  unfold frame at h
  split at h
  · cases h
  · dsimp only at h
    split_ifs at h <;> cases h <;> rfl
  · split_ifs at h <;> cases h <;> rfl

theorem frame_short_header {hd rest : List Byte}
    (h : frame cap d bs = .short hd rest) : header d bs = .big 1 := by
  unfold frame at h
  split at h
  · cases h
  · dsimp only at h
    split_ifs at h
  · rename_i n hn
    split_ifs at h with h1 h2 h3
    rw [hn, h3]

theorem frame_malformed_header (h : frame cap d bs = .malformed) :
    ∃ n, header d bs = .big n ∧ maxUnits < n := by
  unfold frame at h
  split at h
  · cases h
  · dsimp only at h
    split_ifs at h
  · rename_i n hn
    split_ifs at h with h1
    exact ⟨n, hn, h1⟩

theorem serveAll_tiles (envs : List Env) (h : Serviced srv s k d bs)
    (hgood : ∀ rs, Tiles srv.cap d bs rs → Sound d (bs.drop (consumed rs))) :
    ∃ svs s', serveAll srv k s envs = some (svs, s') ∧ Tiles srv.cap d bs (reports svs) ∧
      .badLength ∉ svs ∧ (.closed ∈ svs → s'.osPrivate k = none) := by
  induction envs generalizing s bs with
  | nil => exact ⟨[], s, rfl, trivial, by simp, by simp⟩
  | cons env envs ih =>
    obtain ⟨sv, s₁, hserve, hround, hnext⟩ := serve_round env h
    have hhere : Sound d bs := hgood [] trivial
    cases hround with
    | more upcoming _ =>
      have h₁ := hnext (by simp) (by simp)
      rw [upcoming] at h₁
      obtain ⟨svs, s', hrun, htiles, hbad, hclosed⟩ := ih h₁ hgood
      refine ⟨.more :: svs, s', ?_, htiles, by simpa using hbad, by simpa using hclosed⟩
      rw [serveAll_cons envs hserve (by simp), hrun, map_some]
    | request r hf _ =>
      have h₁ := hnext (by simp) (by simp)
      rw [frame_rest hf] at h₁ hf
      obtain ⟨svs, s', hrun, htiles, hbad, hclosed⟩ := ih h₁ fun rs hrs => by
        have hs := hgood (r :: rs) ⟨hf, hrs⟩
        rwa [consumed, map_cons, sum_cons, ← drop_drop] at hs
      refine ⟨.reported r :: svs, s', ?_, ⟨hf, htiles⟩, by simpa using hbad, by simpa using hclosed⟩
      rw [serveAll_cons envs hserve (by simp), hrun, map_some]
    | short hd rest hf => exact absurd rfl (hhere 1 (frame_short_header hf)).1
    | malformed hf =>
      obtain ⟨n, hn, hlt⟩ := frame_malformed_header hf
      exact absurd (hhere n hn).2 (not_le.mpr hlt)
    | rejected _ hclosed | failed _ hclosed =>
      exact ⟨[.closed], s₁, serveAll_closed envs hserve, trivial, by simp, fun _ => hclosed⟩

theorem frame_of_not_sound (h : ¬ Sound d bs) :
    (∃ hd rest, frame cap d bs = .short hd rest) ∨ frame cap d bs = .malformed := by
  simp only [Sound, not_forall] at h
  obtain ⟨n, hn, hbad⟩ := h
  simp only [frame, hn]
  by_cases hm : maxUnits < n
  · exact .inr (if_pos hm)
  · have h1 : n = 1 := by
      by_contra hne
      exact hbad ⟨hne, by omega⟩
    left
    rw [if_neg hm, if_neg (by omega), if_pos h1]
    exact ⟨_, _, rfl⟩

theorem serveAll_reaches (n : Nat) {rs : List Report} (h : Serviced srv s k d bs)
    (hrs : Tiles srv.cap d bs rs) (hbad : ¬ Sound d (bs.drop (consumed rs)))
    (hn : (s.view srv k).measure < n) {svs : List Served} {s' : State κ}
    (hrun : serveAll srv k s (replicate n bytewise) = some (svs, s')) :
    ¬ (Tiles srv.cap d bs (reports svs) ∧ .badLength ∉ svs) := by
  induction n generalizing s bs rs svs with
  | zero => exact absurd hn (Nat.not_lt_zero _)
  | succ n ih =>
    rw [replicate_succ] at hrun
    obtain ⟨sv, s₁, hserve, hround, hnext⟩ := serve_round bytewise h
    -- what is at the front: a request of the tiling, or the header itself
    have hfront : (∃ r rs', rs = r :: rs' ∧ frame srv.cap d bs = .request r (bs.drop r.count)) ∨
        (∃ hd rest, frame srv.cap d bs = .short hd rest) ∨ frame srv.cap d bs = .malformed := by
      cases rs with
      | nil => exact .inr (frame_of_not_sound hbad)
      | cons r rs' => exact .inl ⟨r, rs', rfl, hrs.1⟩
    have hcons : ∀ sv', sv' = sv → sv' ≠ .closed → ∃ svs', svs = sv' :: svs' ∧
        serveAll srv k s₁ (replicate n bytewise) = some (svs', s') := by
      rintro sv' rfl hopen
      rw [serveAll_cons _ hserve hopen] at hrun
      obtain ⟨⟨svs', s''⟩, hrest, he⟩ := map_eq_some_iff.mp hrun
      cases he
      exact ⟨svs', rfl, hrest⟩
    cases hround with
    | more hup hless =>
      have h₁ := hnext (by simp) (by simp)
      rw [hup] at h₁
      obtain ⟨svs', rfl, hrest⟩ := hcons _ rfl (by simp)
      have hlt : (s₁.view srv k).measure < (s.view srv k).measure := by
        refine hless.resolve_right ?_
        rintro ⟨_, hblock⟩
        have hinc : frame srv.cap d bs = .incomplete := by
          rcases hblock 1 rfl (by decide) with ⟨_, hnil⟩ | ⟨_, hinc⟩
          · rw [hnil]
            rfl
          · exact hinc
        rcases hfront with ⟨_, _, _, hf⟩ | ⟨_, _, hf⟩ | hf <;> rw [hinc] at hf <;> cases hf
      have hstep := ih h₁ hrs hbad (by omega) hrest
      simpa [reports, filterMap_cons, Served.report] using hstep
    | request r hf hlt =>
      have h₁ := hnext (by simp) (by simp)
      rw [frame_rest hf] at h₁ hf
      obtain ⟨svs', rfl, hrest⟩ := hcons _ rfl (by simp)
      rcases hfront with ⟨r', rs', rfl, hf'⟩ | ⟨_, _, hf'⟩ | hf'
      · have hr : r = r' := (Frame.request.inj (hf.symm.trans hf')).1
        subst hr
        rw [consumed, map_cons, sum_cons, ← drop_drop] at hbad
        have hstep := ih h₁ hrs.2 hbad (by omega) hrest
        rintro ⟨htiles, hmem⟩
        exact hstep ⟨htiles.2, fun hm => hmem (mem_cons_of_mem _ hm)⟩
      · rw [hf] at hf'
        cases hf'
      · rw [hf] at hf'
        cases hf'
    | short hd rest hf =>
      obtain ⟨svs', rfl, _⟩ := hcons _ rfl (by simp)
      rintro ⟨htiles, _⟩
      have hf' := htiles.1
      rw [hf] at hf'
      cases hf'
    | malformed hf =>
      obtain ⟨svs', rfl, _⟩ := hcons _ rfl (by simp)
      exact fun hc => hc.2 (mem_cons_self ..)
    | rejected hf _ =>
      rcases hfront with ⟨_, _, _, hf'⟩ | ⟨_, _, hf'⟩ | hf' <;> rw [hf] at hf' <;> cases hf'
    | failed hbroken _ => exact absurd ⟨rfl, rfl, 1, rfl⟩ hbroken

/-- Every call reports the next request, waits, or closes the client, whatever
the transport does. -/
def StaysInStep (srv : Server) (s : State κ) (k : κ) (bs : List Byte) : Prop :=
  ∀ envs, ∃ svs s', serveAll srv k s envs = some (svs, s') ∧
    Tiles srv.cap (srv.dialect (s.client k)) bs (reports svs) ∧ .badLength ∉ svs ∧
    (.closed ∈ svs → s'.osPrivate k = none)

theorem staysInStep_iff {oc : OsComm} (hwf : s.WF srv) (hoc : s.osPrivate k = some oc)
    (hconn : oc.transConn = true) (hnew : s.inputs.owner k = none) :
    StaysInStep srv s k oc.sock ↔ ∀ rs, Tiles srv.cap (srv.dialect (s.client k)) oc.sock rs →
      Sound (srv.dialect (s.client k)) (oc.sock.drop (consumed rs)) := by
  have hs := (Serviced.fresh hwf hoc hconn hnew).1
  constructor
  · intro h rs hrs
    by_contra hbad
    obtain ⟨svs, s', hrun, htiles, hmem, _⟩ :=
      h (replicate ((s.view srv k).measure + 1) bytewise)
    exact serveAll_reaches _ hs hrs hbad (lt_succ_self _) hrun ⟨htiles, hmem⟩
  · intro hgood envs
    exact serveAll_tiles envs hs hgood

end Arbitrary

theorem staysInStep_sample : StaysInStep Server.standard
    (State.start (fun _ : Unit => sampleClient) fun _ => [1, 0, 1, 0]) () [1, 0, 1, 0] := by
  refine (staysInStep_iff (State.start_wf standard (fun _ : Unit => sampleClient)
    fun _ => [1, 0, 1, 0]) (k := ()) rfl rfl rfl).mpr ?_
  intro rs _ n hn
  -- four bytes are too few for a big header
  obtain ⟨h8, _⟩ := header_big_iff hn
  rw [length_drop] at h8
  simp only [length_cons, length_nil] at h8
  omega

/-- A header that declares one unit is reported, and the bytes that the header
move wrote are read as the next request, which the client did not send. -/
theorem serveAll_rereads_header :
    let sent : List Byte := [128, 5, 0, 0, 1, 0, 0, 0, 2, 0, 0, 0]
    let run := serveAll standard () (State.start (fun _ => sampleClient) fun _ => sent)
      [⟨true, true, true, fun _ => 0, .grant 12⟩, bytewise]
    run.map (fun r => reports r.1) = some [.whole 4 0 [128, 5, 0, 0], .whole 8 1 [128, 5, 0, 0]] ∧
      ¬ Tiles standard.cap (standard.dialect sampleClient) sent
        [.whole 4 0 [128, 5, 0, 0], .whole 8 1 [128, 5, 0, 0]] := by
  refine ⟨by decide, fun h => ?_⟩
  have hshort : frame standard.cap (standard.dialect sampleClient)
      [128, 5, 0, 0, 1, 0, 0, 0, 2, 0, 0, 0] = .short [128, 5, 0, 0] [2, 0, 0, 0] := rfl
  have hf := h.1
  rw [hshort] at hf
  cases hf

end Xfront.Input
