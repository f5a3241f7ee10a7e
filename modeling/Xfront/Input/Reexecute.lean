import Xfront.Input.Framing

/-!
# Executing a request again (os/io.c)

`ResetCurrentRequest` makes the request that was just read the next one again.
-/

namespace Xfront.Input
open Xfront.Bytes List Option Server

variable {κ : Type} [DecidableEq κ] {srv : Server} {env : Env} {s s₁ : State κ} {k : κ}

/-- Resetting and reading again reports the same request, without anything from
the transport, and what follows is what followed before. -/
def Reexecutes (srv : Server) (s₁ : State κ) (k : κ) (r : Report) : Prop :=
  ∀ env, ∃ s₂ s₃, resetCurrentRequest srv s₁ k = some s₂ ∧
    serve srv env s₂ k = some (.reported r, s₃) ∧ s₃.upcoming srv k = s₁.upcoming srv k

omit [DecidableEq κ] in
theorem rewind_wf {cli : Client} {oci oci' : ConnectionInput} (h : oci.WF srv)
    (hr : rewind srv cli oci = some oci') : oci'.WF srv ∧ oci'.ignoreBytes = oci.ignoreBytes := by
  have hptr := h.ptr
  have hkeep : ConnectionInput.WF srv { oci with lenLastReq := 0 } :=
    ⟨⟨h.block, hptr, h.cnt, h.lo, h.hi⟩, hptr⟩
  unfold rewind at hr
  by_cases hshort : ((oci.bufcnt : Int) - oci.bufptr) % 2 ^ 64 < sizeofReq
  · rw [if_pos hshort] at hr
    cases hr
    exact ⟨hkeep, rfl⟩
  · rw [if_neg hshort] at hr
    obtain ⟨needed, _, hr⟩ := bind_eq_some_iff.mp hr
    by_cases hbig : needed = 0 ∧ cli.bigRequests = true
    · rw [if_pos hbig] at hr
      by_cases hroom : oci.bufptr < sizeofBigReq - sizeofReq
      · rw [if_pos hroom] at hr
        cases hr
      · rw [if_neg hroom] at hr
        obtain ⟨request, _, hr⟩ := bind_eq_some_iff.mp hr
        obtain ⟨b, hb, hr⟩ := bind_eq_some_iff.mp hr
        obtain ⟨b', hb', hr⟩ := map_eq_some_iff.mp hr
        have hsize : b'.size = oci.buffer.size := by
          rw [Block.write_size hb', Block.write_size hb]
        cases hr
        refine ⟨⟨⟨hsize.trans h.block, ?_, h.cnt, h.lo, h.hi⟩, ?_⟩, rfl⟩ <;> dsimp only <;> omega
    · rw [if_neg hbig] at hr
      cases hr
      exact ⟨hkeep, rfl⟩

variable {oc : OsComm}

theorem resetCurrentRequest_wf {s₂ : State κ} (h : s₁.WF srv)
    (hoc : s₁.osPrivate k = some oc) (hr : resetCurrentRequest srv s₁ k = some s₂) :
    s₂.WF srv ∧ s₂.osPrivate k = some oc ∧ (s₂.view srv k).ignore = (s₁.view srv k).ignore := by
  unfold resetCurrentRequest at hr
  rw [hoc] at hr
  obtain ⟨a, ho, hr⟩ := bind_eq_some_iff.mp hr
  obtain ⟨oci, hcell, hr⟩ := bind_eq_some_iff.mp hr
  obtain ⟨oci', hrew, hr⟩ := map_eq_some_iff.mp hr
  subst hr
  have hc : s₁.inputs.content k = some oci := (Pool.content_eq ho).trans hcell
  obtain ⟨hwf, hig⟩ := rewind_wf (h.ready k oci hc) hrew
  refine ⟨wf_put h ho hwf ?_, hoc, ?_⟩
  · intro k' he
    by_cases ha : s₁.availableInput = some k
    · rw [if_pos ha] at he
      cases he
    · rw [if_neg ha] at he
      refine .inr ⟨?_, he⟩
      rintro rfl
      exact ha he
  · simp only [State.view, Pool.content_put_self ho, hc, ignored, elim_some, hig]

section Frames
variable {cap n : Nat} {d : Dialect} {bs : List Byte} {r : Report} {rest : List Byte}

theorem frame_big_count (hh : header d bs = .big n)
    (hf : frame cap d bs = .request r rest) : r.count = n * 4 ∧ 2 ≤ n := by
  simp only [frame, hh] at hf
  split_ifs at hf
  · cases hf
    exact ⟨rfl, by omega⟩
  · cases hf
    exact ⟨rfl, by omega⟩

theorem frame_big (hh : header d bs = .big n) (hf : frame cap d bs = .request r rest) :
    r = .oversized (n * 4) ∨ r = .whole (n * 4) (n - 1) (shown (n * 4) bs) ∧ n ≤ maxUnits := by
  simp only [frame, hh] at hf
  split_ifs at hf
  · cases hf
    exact .inl rfl
  · cases hf
    exact .inr ⟨rfl, by omega⟩

theorem frame_short {hd : List Byte} (hf : frame cap d bs = .short hd rest) : hd = bs.take 4 := by
  simp only [frame, frame_short_header hf] at hf
  split_ifs at hf
  cases hf
  rfl

theorem header_rewound {reqLen : Nat} (h4 : 4 ≤ bs.length)
    (hz : wordAt16 d.bigEndian bs 2 = 0) (hb : d.bigRequests = true) (hlt : reqLen < 2 ^ 32) :
    header d (rewound d reqLen bs) = .big reqLen := by
  have htake : (bs.take 4).length = 4 := length_take_of_le h4
  have hlen : 8 ≤ (bs.take 4 ++ (bytes32 d.bigEndian reqLen ++ bs.drop 4)).length := by
    simp only [length_append, htake, bytes32_length]
    omega
  have hw : wordAt16 d.bigEndian (bs.take 4 ++ (bytes32 d.bigEndian reqLen ++ bs.drop 4)) 2 = 0 := by
    rw [wordAt16_extend (by omega), wordAt16_take (by omega), hz]
  have hw32 := wordAt32_append d.bigEndian (bs.take 4) (bytes32 d.bigEndian reqLen ++ bs.drop 4)
  rw [wordAt32_bytes32 _ _ _ hlt, htake] at hw32
  rw [rewound, if_pos ⟨hz, hb⟩, header, if_neg (by omega), if_pos ⟨hw, hb⟩, if_neg (by omega), hw32]

theorem rewound_ordinary {reqLen : Nat} (hh : header d bs = .ordinary n) :
    rewound d reqLen bs = bs := by
  obtain ⟨_, hn, hor⟩ := header_ordinary_iff hh
  refine if_neg ?_
  rintro ⟨hz, hb⟩
  rcases hor with hne | hf
  · exact hne (hn.trans hz)
  · exact Bool.false_ne_true (hf.symm.trans hb)

theorem frame_ordinary (hcap : 2 ^ 18 ≤ cap)
    (hh : header d bs = .ordinary n) (hf : frame cap d bs = .request r rest) :
    ∃ count, count = (if n = 0 then 4 else n * 4) ∧ count ≤ bs.length ∧
      r = .whole count n (bs.take count) ∧ rest = bs.drop count := by
  have hlt := header_ordinary_lt hh
  refine ⟨_, rfl, ?_⟩
  generalize hc : (if n = 0 then 4 else n * 4) = count
  have hcount : count < 2 ^ 18 := by
    subst hc
    split_ifs <;> omega
  simp only [frame, hh, hc] at hf
  rw [if_neg (by omega)] at hf
  by_cases hl : bs.length < count
  · rw [if_pos hl] at hf
    cases hf
  · rw [if_neg hl] at hf
    cases hf
    exact ⟨by omega, rfl, rfl⟩

theorem frame_take_ordinary {m : Nat} (hh : header d bs = .ordinary n) (hcap : 2 ^ 18 ≤ cap)
    (hm : (if n = 0 then 4 else n * 4) ≤ m) (hl : (if n = 0 then 4 else n * 4) ≤ bs.length) :
    frame cap d (bs.take m) ≠ .incomplete := by
  have hlt := header_ordinary_lt hh
  obtain ⟨h4, hn, hor⟩ := header_ordinary_iff hh
  generalize hc : (if n = 0 then 4 else n * 4) = count at hm hl
  have hcount : 4 ≤ count ∧ count < 2 ^ 18 := by
    subst hc
    split_ifs <;> omega
  have hlen : count ≤ (bs.take m).length := by
    rw [length_take]
    omega
  have hhead : header d (bs.take m) = .ordinary n := by
    unfold header
    rw [if_neg (by omega), wordAt16_take (by omega), ← hn]
    refine if_neg ?_
    rintro ⟨hz, hb⟩
    rcases hor with hne | hf
    · exact hne hz
    · exact Bool.false_ne_true (hf.symm.trans hb)
  simp only [frame, hhead, hc]
  rw [if_neg (by omega), if_neg (by omega)]
  exact Frame.noConfusion

end Frames

variable {r : Report}

theorem reexecutes_of_ordinary {n : Nat} (h : s₁.WF srv)
    (hoc : s₁.osPrivate k = some oc) (hs : Serving srv env s k s₁ (.reported r))
    (hh : header (s.view srv k).dialect (s.view srv k).stream = .ordinary n) :
    Reexecutes srv s₁ k r := by
  have hcap := srv.cap_bounds
  intro env'
  cases hs with
  | short hd rest ignore frame =>
    rw [frame_short_header frame] at hh
    cases hh
  | request r rest ignore frame dialect stream less current skip =>
    obtain ⟨count, hcount, hle, rfl, rfl⟩ := frame_ordinary (by omega) hh frame
    obtain ⟨s₂, hreset, hwf₂, hop₂, hcl₂, hig₂, hbuf₂, hstream₂, _⟩ :=
      resetCurrentRequest_spec h hoc (current _ _ _ rfl)
    have hd₂ : (s₂.view srv k).dialect = (s.view srv k).dialect := by
      rw [← dialect]
      simp only [State.view, hcl₂]
    have hst : (s₂.view srv k).stream = (s.view srv k).stream := by
      rw [hstream₂, take_append_drop, dialect, rewound_ordinary hh]
    obtain ⟨sv, s₃, hserve, _, hround, _, _⟩ := serve_spec env' hwf₂ (hop₂ ▸ hoc)
    -- the whole request is buffered, so the transport is not asked
    have hnot : ¬ (s₂.view srv k).Starved srv.cap := by
      intro hst'
      have hinc := hst' hig₂
      rw [hd₂, hst] at hinc
      rw [length_take_of_le hle] at hbuf₂
      exact frame_take_ordinary hh (by omega) (hcount ▸ hbuf₂) (hcount ▸ hle) hinc
    refine ⟨s₂, s₃, hreset, ?_⟩
    cases hround with
    | blocked _ _ starved _ | progress _ _ _ _ _ _ starved | failed _ starved _ =>
      exact absurd starved hnot
    | request r' rest' _ frame' _ stream' _ _ _ =>
      rw [hd₂, hst, frame] at frame'
      cases frame'
      refine ⟨hserve, ?_⟩
      rw [State.upcoming, State.upcoming, stream', stream]
    | short _ _ _ frame' | rejected _ frame' _ | malformed _ frame' =>
      rw [hd₂, hst, frame] at frame'
      cases frame'

theorem reexecuted_count {reqLen : Nat} {bytes rest : List Byte}
    (h : s₁.WF srv) (hoc : s₁.osPrivate k = some oc) (hcur : Current srv s₁ k reqLen bytes rest)
    (h4 : 4 ≤ bytes.length) (hz : wordAt16 (s₁.view srv k).dialect.bigEndian bytes 2 = 0)
    (hb : (s₁.view srv k).dialect.bigRequests = true) (hlt : reqLen < 2 ^ 32)
    (hre : Reexecutes srv s₁ k r) : r.count = reqLen * 4 := by
  obtain ⟨s₂, s₃, hreset, hserve, _⟩ := hre bytewise
  obtain ⟨s₂', hreset', hwf₂, hop₂, hcl₂, hig₂, hbuf₂, hstream₂, _⟩ :=
    resetCurrentRequest_spec h hoc hcur
  rw [hreset] at hreset'
  cases hreset'
  have hd₂ : (s₂.view srv k).dialect = (s₁.view srv k).dialect := by
    simp only [State.view, hcl₂]
  have hhead : header (s₂.view srv k).dialect (s₂.view srv k).stream = .big reqLen := by
    rw [hd₂, hstream₂]
    refine header_rewound ?_ ?_ hb hlt
    · rw [length_append]
      omega
    · rw [wordAt16_extend (by omega), hz]
  obtain ⟨sv, s₃', hserve', _, hround, _, _⟩ := serve_spec bytewise hwf₂ (hop₂ ▸ hoc)
  rw [hserve] at hserve'
  cases hserve'
  cases hround with
  | request _ rest' _ frame' => exact (frame_big_count hhead frame').1
  | short hd rest' _ frame' =>
    rw [frame_short_header frame'] at hhead
    cases hhead
    rfl

theorem not_reexecutes_of_big {n : Nat} (h : s₁.WF srv)
    (hoc : s₁.osPrivate k = some oc) (hs : Serving srv env s k s₁ (.reported r))
    (hh : header (s.view srv k).dialect (s.view srv k).stream = .big n) :
    ¬ Reexecutes srv s₁ k r := by
  intro hre
  obtain ⟨h8, hz, hb, _⟩ := header_big_iff hh
  have hv : maxUnits = 536870911 := by decide
  cases hs with
  | request _ rest ignore frame dialect stream less current skip =>
    obtain ⟨hcount, h2⟩ := frame_big_count hh frame
    rcases frame_big hh frame with rfl | ⟨rfl, hm⟩
    · -- the rest of an oversized request is still to be skipped
      obtain ⟨s₂, s₃, hreset, hserve, _⟩ := hre bytewise
      obtain ⟨hwf₂, hoc₂, hig₂⟩ := resetCurrentRequest_wf h hoc hreset
      obtain ⟨sv, s₃', hserve', _, hround, _, _⟩ := serve_spec bytewise hwf₂ hoc₂
      have hpos := skip _ rfl
      rw [hserve] at hserve'
      cases hserve'
      cases hround with
      | request _ _ ignore' => omega
    · have hlen : 4 ≤ (shown (n * 4) (s.view srv k).stream).length := by
        simp only [shown, length_append, length_take]
        omega
      have hword : wordAt16 (s₁.view srv k).dialect.bigEndian
          (shown (n * 4) (s.view srv k).stream) 2 = 0 := by
        rw [dialect, shown, wordAt16_extend (by rw [length_take]; omega),
          wordAt16_take (by omega), hz]
      have hc := reexecuted_count h hoc (current _ _ _ rfl) hlen hword (dialect ▸ hb)
        (by omega) hre
      simp only [Report.count] at hc
      omega
  | short hd rest ignore frame dialect stream none current =>
    have hhd := frame_short frame
    have hlen : hd.length = 4 := by
      rw [hhd]
      exact length_take_of_le (by omega)
    have hword : wordAt16 (s₁.view srv k).dialect.bigEndian hd 2 = 0 := by
      rw [dialect, hhd, wordAt16_take (by omega), hz]
    have hc := reexecuted_count h hoc current (by omega) hword (dialect ▸ hb) (by decide) hre
    simp only [Report.count] at hc
    omega

theorem reexecutes_iff {oc : OsComm} {r : Report} (h : s.WF srv) (hoc : s.osPrivate k = some oc)
    (hread : serve srv env s k = some (.reported r, s₁)) : Reexecutes srv s₁ k r ↔
      ∃ n, header (s.view srv k).dialect (s.view srv k).stream = .ordinary n := by
  obtain ⟨sv, s₁', hserve, _, hs, hwf, hopen⟩ := serve_spec env h hoc
  rw [hread] at hserve
  cases hserve
  obtain ⟨oc₁, hoc₁, _⟩ := hopen (by simp)
  have hwf₁ := hwf (by simp)
  constructor
  · intro hre
    cases hh : header (s.view srv k).dialect (s.view srv k).stream with
    | ordinary n => exact ⟨n, rfl⟩
    | big n => exact absurd hre (not_reexecutes_of_big hwf₁ hoc₁ hs hh)
    | incomplete =>
      cases hs with
      | request _ _ _ frame =>
        simp only [Input.frame, hh] at frame
        cases frame
      | short _ _ _ frame =>
        rw [frame_short_header frame] at hh
        cases hh
  · rintro ⟨n, hn⟩
    exact reexecutes_of_ordinary hwf₁ hoc₁ hs hn

def sending (bs : List Byte) : State Unit := State.start (fun _ => sampleClient) fun _ => bs

def atOnce : Env := ⟨true, true, true, fun _ => 0, .grant 4096⟩

theorem reexecutes_sample : ∃ s₁,
    serve Server.standard atOnce (sending [1, 0, 2, 0, 9, 9, 9, 9]) () =
      some (.reported (.whole 8 2 [1, 0, 2, 0, 9, 9, 9, 9]), s₁) ∧
    Reexecutes Server.standard s₁ () (.whole 8 2 [1, 0, 2, 0, 9, 9, 9, 9]) := by
  have hrun : (serve standard atOnce (sending [1, 0, 2, 0, 9, 9, 9, 9]) ()).map Prod.fst =
      some (.reported (.whole 8 2 [1, 0, 2, 0, 9, 9, 9, 9])) := by decide
  obtain ⟨⟨sv, s₁⟩, hserve, hsv⟩ := map_eq_some_iff.mp hrun
  cases hsv
  exact ⟨s₁, hserve, (reexecutes_iff (State.start_wf standard _ _) rfl hserve).mpr
    ⟨2, rfl⟩⟩

/-- A big request of three units comes back as one of two. -/
theorem reset_shortens_big : ∃ s₁ s₂ s₃,
    serve Server.standard atOnce (sending [128, 5, 0, 0, 3, 0, 0, 0, 1, 2, 3, 4]) () =
      some (.reported (.whole 12 2 [128, 5, 0, 0, 1, 2, 3, 4]), s₁) ∧
    resetCurrentRequest Server.standard s₁ () = some s₂ ∧
    serve Server.standard atOnce s₂ () = some (.reported (.whole 8 1 [128, 5, 0, 0]), s₃) ∧
    ¬ Reexecutes Server.standard s₁ () (.whole 12 2 [128, 5, 0, 0, 1, 2, 3, 4]) := by
  have hrun : ((serve standard atOnce
      (sending [128, 5, 0, 0, 3, 0, 0, 0, 1, 2, 3, 4]) ()).bind fun a =>
      (resetCurrentRequest standard a.2 ()).bind fun s₂ =>
        (serve standard atOnce s₂ ()).map fun b => (a.1, b.1)) =
      some (.reported (.whole 12 2 [128, 5, 0, 0, 1, 2, 3, 4]),
        .reported (.whole 8 1 [128, 5, 0, 0])) := by decide
  obtain ⟨⟨a, s₁⟩, hserve, hrest⟩ := bind_eq_some_iff.mp hrun
  obtain ⟨s₂, hreset, hrest⟩ := bind_eq_some_iff.mp hrest
  obtain ⟨⟨b, s₃⟩, hserve', hab⟩ := map_eq_some_iff.mp hrest
  cases hab
  refine ⟨s₁, s₂, s₃, hserve, hreset, hserve', fun hre => ?_⟩
  obtain ⟨s₂', s₃', hreset', hsame, _⟩ := hre atOnce
  rw [hreset] at hreset'
  cases hreset'
  rw [hserve'] at hsame
  cases hsame

end Xfront.Input
