import Xfront.Output.Model

/-!
# What the output functions keep

One specification for each function of `Xfront.Output.Model`: for the client it is called for, what
it makes of the bytes that wait in its buffer; for every other one, that nothing changes.
-/

namespace Xfront.Output
open Xfront.Bytes List Option Function

variable {κ : Type}

structure ConnectionOutput.WF (oco : ConnectionOutput) : Prop where
  block : oco.buf.size = oco.size
  fits : oco.count ≤ oco.size
  lo : bufSize ≤ oco.size
  hi : oco.size ≤ intMax

def ConnectionOutput.data (oco : ConnectionOutput) : List Byte := oco.buf.slice 0 oco.count

def State.pending (s : State κ) (k : κ) : List Byte :=
  (s.outputs.content k).elim [] ConnectionOutput.data

def State.stream (s : State κ) (k : κ) : List Byte := s.accepted k ++ s.pending k

structure State.WF (s : State κ) : Prop where
  pool : s.outputs.WF
  ready : ∀ k oco, s.outputs.content k = some oco → oco.WF
  clean : s.outputs.AllFree fun oco => oco.WF ∧ oco.count = 0

structure Same (s s' : State κ) (k : κ) : Prop where
  content : s'.outputs.content k = s.outputs.content k
  accepted : s'.accepted k = s.accepted k
  gone : s'.clientGone k = s.clientGone k

theorem Same.refl (s : State κ) (k : κ) : Same s s k := ⟨rfl, rfl, rfl⟩

theorem Same.trans {s s' s'' : State κ} {k : κ} (h : Same s s' k) (h' : Same s' s'' k) :
    Same s s'' k :=
  ⟨h'.content.trans h.content, h'.accepted.trans h.accepted, h'.gone.trans h.gone⟩

theorem Same.stream {s s' : State κ} {k : κ} (h : Same s s' k) : s'.stream k = s.stream k := by
  simp only [State.stream, State.pending, h.content, h.accepted]

theorem paddingForInt32_le (n : Nat) : paddingForInt32 n ≤ 3 := by
  unfold paddingForInt32
  omega

theorem OutBlock.padded_length (b : OutBlock) :
    b.padded.length = b.val.length + paddingForInt32 b.val.length := by
  rw [OutBlock.padded, length_append, length_replicate]

open Block

theorem ConnectionOutput.data_length (oco : ConnectionOutput) : oco.data.length = oco.count :=
  slice_length ..

section
variable [DecidableEq κ] {s : State κ} {k : κ} {a : Nat} {oco : ConnectionOutput} {b : OutBlock}

open Pool

omit [DecidableEq κ] in
theorem pending_of_owner (ho : s.outputs.owner k = some a) (hc : s.outputs.cell a = some oco) :
    s.pending k = oco.data := by
  rw [State.pending, content_eq ho, hc]
  rfl

omit [DecidableEq κ] in
theorem WF.of_owner (h : s.WF) (ho : s.outputs.owner k = some a)
    (hc : s.outputs.cell a = some oco) : oco.WF :=
  h.ready k oco ((content_eq ho).trans hc)

variable {o : ConnectionOutput}

omit [DecidableEq κ] in
theorem put_spec {t g : κ → Bool} {c : κ → List Byte} (h : s.WF)
    (ho : s.outputs.owner k = some a) (hw : o.WF) : State.WF ⟨s.outputs.put a o, t, g, c⟩ ∧
      (s.outputs.put a o).content k = some o ∧
      ∀ k', k' ≠ k → (s.outputs.put a o).content k' = s.outputs.content k' := by
  have hself : (s.outputs.put a o).content k = some o := content_put_self ho
  have hother : ∀ k', k' ≠ k → (s.outputs.put a o).content k' = s.outputs.content k' :=
    fun k' hne => content_put_of_ne h.pool ho hne
  refine ⟨⟨h.pool.put (h.pool.owned ho), ?_, h.clean.put (h.pool.apart ho)⟩, hself, hother⟩
  intro k' x hx
  by_cases hk : k' = k
  · subst hk
    rw [hself] at hx
    cases hx
    exact hw
  · rw [hother k' hk] at hx
    exact h.ready k' x hx

/-- The buffer the client ends up with: its own, an empty recycled one or a new one. -/
structure Ensured (s s' : State κ) (k : κ) (a : Nat) (oco : ConnectionOutput) : Prop where
  wf : s'.WF
  owner : s'.outputs.owner k = some a
  cell : s'.outputs.cell a = some oco
  pending : oco.data = s.pending k
  accepted : s'.accepted = s.accepted
  gone : s'.clientGone = s.clientGone
  others : ∀ k', k' ≠ k → Same s s' k'

omit [DecidableEq κ] in
theorem Ensured.stream {s' : State κ} (h : Ensured s s' k a oco) : s'.stream k = s.stream k := by
  rw [State.stream, State.stream, pending_of_owner h.owner h.cell, h.pending, h.accepted]

theorem allocateOutputBuffer_wf : allocateOutputBuffer.WF := ⟨rfl, Nat.zero_le _, le_rfl, by decide⟩

theorem data_of_empty (h : o.count = 0) : o.data = [] := by
  rw [ConnectionOutput.data, h, slice_zero]

theorem outputEnsureBuffer_spec (alloc : Bool) (h : s.WF) : outputEnsureBuffer alloc s k = none ∨
      ∃ s' a oco, outputEnsureBuffer alloc s k = some (s', a) ∧ Ensured s s' k a oco := by
  unfold outputEnsureBuffer
  cases ho : s.outputs.owner k with
  | some a =>
    obtain ⟨oco, hcell⟩ := h.pool.owned ho
    exact .inr ⟨s, a, oco, rfl, h, ho, hcell, (pending_of_owner ho hcell).symm, rfl, rfl,
      fun k' _ => .refl s k'⟩
  | none =>
    have hn : s.outputs.content k = none := content_none ho
    have hp : s.pending k = [] := by
      rw [State.pending, hn]
      rfl
    cases hfree : s.outputs.free with
    | cons a rest =>
      have hm : a ∈ s.outputs.free := hfree ▸ mem_cons_self ..
      obtain ⟨oco, hcell⟩ := h.pool.alive hm
      obtain ⟨hwf, hzero⟩ := h.clean a hm oco hcell
      have hself : (s.outputs.acquire k a rest).content k = some oco :=
        content_acquire_self.trans hcell
      refine .inr ⟨_, a, oco, rfl, ⟨h.pool.acquire hfree, ?_, h.clean.acquire hfree⟩,
        update_self .., hcell, by rw [hp, data_of_empty hzero], rfl, rfl,
        fun k' hne => ⟨content_acquire_of_ne hne, rfl, rfl⟩⟩
      intro k' x hx
      by_cases hk : k' = k
      · subst hk
        rw [hself] at hx
        cases hx
        exact hwf
      · rw [content_acquire_of_ne hk] at hx
        exact h.ready k' x hx
    | nil =>
      cases alloc with
      | false => exact .inl rfl
      | true =>
        have hself : (s.outputs.alloc k allocateOutputBuffer).content k =
            some allocateOutputBuffer := content_alloc_self
        refine .inr ⟨_, _, allocateOutputBuffer, rfl, ⟨h.pool.alloc, ?_, h.clean.alloc h.pool⟩,
          update_self .., update_self .., by rw [hp]; rfl, rfl, rfl,
          fun k' hne => ⟨content_alloc_of_ne h.pool hne, rfl, rfl⟩⟩
        intro k' x hx
        by_cases hk : k' = k
        · subst hk
          rw [hself] at hx
          cases hx
          exact allocateOutputBuffer_wf
        · rw [content_alloc_of_ne h.pool hk] at hx
          exact h.ready k' x hx

/-- What the loop of `FlushClient` has delivered is the front of the buffer. -/
def Flushed.Delivers (buf : Block) (count : Nat) : Flushed → Prop
  | .all out => out = buf.slice 0 count
  | .blocked written notWritten out => written + notWritten = count ∧ out = buf.slice 0 written
  | .failed _ => True

theorem flushLoop_spec {buf : Block} {count : Nat} (hc : count ≤ buf.size) (ts : List Write)
    {written notWritten todo : Nat} (hw : written + notWritten = count) (ht : todo ≤ notWritten) :
    ∃ f, flushLoop buf written notWritten todo (buf.slice 0 written) ts = some f ∧
      f.Delivers buf count := by
  induction ts generalizing written notWritten todo with
  | nil =>
    refine ⟨_, rfl, ?_⟩
    by_cases hz : notWritten = 0
    · rw [if_pos hz]
      simp only [Flushed.Delivers]
      congr 1
      omega
    · rw [if_neg hz]
      exact ⟨hw, rfl⟩
  | cons t ts ih =>
    unfold flushLoop
    by_cases hz : notWritten = 0
    · rw [if_pos hz]
      refine ⟨_, rfl, ?_⟩
      simp only [Flushed.Delivers]
      congr 1
      omega
    · rw [if_neg hz]
      cases t with
      | accept n =>
        dsimp only
        rw [read_eq (by omega), bind_some]
        have hs := slice_append buf 0 written (min n todo)
        rw [zero_add] at hs
        rw [← hs]
        exact ih (by omega) (by omega)
      | wouldBlock => exact ⟨_, rfl, hw, rfl⟩
      | emsgsize => exact ih hw (by omega)
      | fatal => exact ⟨_, rfl, trivial⟩

theorem abortFlush_spec (h : s.WF) (ho : s.outputs.owner k = some a)
    (hc : s.outputs.cell a = some oco) (out : List Byte) :
    (abortFlush (s.deliver k out) k a oco).WF ∧
      (∀ k', k' ≠ k → Same s (abortFlush (s.deliver k out) k a oco) k') ∧
      (abortFlush (s.deliver k out) k a oco).clientGone = s.clientGone := by
  have hw := WF.of_owner h ho hc
  obtain ⟨hwf, _, hother⟩ := put_spec (t := Function.update s.transConn k false)
    (g := s.clientGone) (c := (s.deliver k out).accepted) h ho
    (o := { oco with count := 0 }) ⟨hw.block, Nat.zero_le _, hw.lo, hw.hi⟩
  exact ⟨hwf, fun k' hne => ⟨hother k' hne, update_of_ne hne .., rfl⟩, rfl⟩

theorem giveUp_spec (h : s.WF) (ho : s.outputs.owner k = some a)
    (hc : s.outputs.cell a = some oco) (c : Prop) [Decidable c] {t g : κ → Bool}
    {w : κ → List Byte} :
    let p := if c then s.outputs.discard k a
      else (s.outputs.put a { oco with count := 0 }).release k a
    State.WF ⟨p, t, g, w⟩ ∧ p.content k = none ∧
      ∀ k', k' ≠ k → p.content k' = s.outputs.content k' := by
  intro p
  have hw := WF.of_owner h ho hc
  have hz : ConnectionOutput.WF { oco with count := 0 } := ⟨hw.block, Nat.zero_le _, hw.lo, hw.hi⟩
  have hready : p.content k = none → (∀ k', k' ≠ k → p.content k' = s.outputs.content k') →
      ∀ k' x, p.content k' = some x → x.WF := by
    intro hnone hother k' x hx
    by_cases hk : k' = k
    · subst hk
      rw [hnone] at hx
      cases hx
    · exact h.ready k' x (hother k' hk ▸ hx)
  by_cases hcc : c
  · have hp : p = s.outputs.discard k a := if_pos hcc
    have hnone : p.content k = none := hp ▸ content_discard_self
    have hother : ∀ k', k' ≠ k → p.content k' = s.outputs.content k' := fun k' hne =>
      hp ▸ content_discard_of_ne h.pool ho hne
    exact ⟨⟨hp ▸ h.pool.discard ho, hready hnone hother, hp ▸ h.clean.discard⟩, hnone, hother⟩
  · have hp : p = (s.outputs.put a { oco with count := 0 }).release k a := if_neg hcc
    have hput := (put_spec (t := t) (g := g) (c := w) h ho hz).1
    have hnone : p.content k = none := hp ▸ content_release_self
    have hother : ∀ k', k' ≠ k → p.content k' = s.outputs.content k' := fun k' hne =>
      hp ▸ (content_release_of_ne hne).trans (content_put_of_ne h.pool ho hne)
    refine ⟨⟨hp ▸ hput.pool.release ho, hready hnone hother, hp ▸ hput.clean.release ?_⟩, hnone,
      hother⟩
    intro x hx
    simp only [put, update_self, Option.some.injEq] at hx
    subst hx
    exact ⟨hz, rfl⟩

structure FlushKeeps (s s' : State κ) (k : κ) (ok : Bool) : Prop where
  wf : s'.WF
  others : ∀ k', k' ≠ k → Same s s' k'
  gone : s'.clientGone = s.clientGone
  stream : ok = true → s'.stream k = s.stream k
  pending : ok = true → (s'.pending k).length ≤ (s.pending k).length

omit [DecidableEq κ] in
theorem FlushKeeps.refl (h : s.WF) (k : κ) : FlushKeeps s s k true :=
  ⟨h, fun k' _ => .refl s k', rfl, fun _ => rfl, fun _ => le_rfl⟩

theorem FlushKeeps.abort (h : s.WF) (ho : s.outputs.owner k = some a)
    (hc : s.outputs.cell a = some oco) (out : List Byte) :
    FlushKeeps s (abortFlush (s.deliver k out) k a oco) k false := by
  obtain ⟨hwf, hother, hgone⟩ := abortFlush_spec h ho hc out
  exact ⟨hwf, hother, hgone, nofun, nofun⟩

theorem FlushKeeps.deliver {p : Pool κ ConnectionOutput} {out : List Byte}
    {o : Option ConnectionOutput}
    (hwf : State.WF ⟨p, s.transConn, s.clientGone, (s.deliver k out).accepted⟩)
    (hother : ∀ k', k' ≠ k → p.content k' = s.outputs.content k')
    (hrest : p.content k = o) (hcat : s.pending k = out ++ o.elim [] ConnectionOutput.data) :
    FlushKeeps s ⟨p, s.transConn, s.clientGone, (s.deliver k out).accepted⟩ k true := by
  have hacc : (s.deliver k out).accepted k = s.accepted k ++ out := update_self ..
  refine ⟨hwf, fun k' hne => ⟨hother k' hne, update_of_ne hne .., rfl⟩, rfl,
    fun _ => ?_, fun _ => ?_⟩
  · simp only [State.stream, State.pending] at hcat ⊢
    rw [hrest, hcat, hacc, append_assoc]
  · simp only [State.pending] at hcat ⊢
    rw [hrest, hcat, length_append]
    exact Nat.le_add_left ..

theorem flushClient_spec (h : s.WF) (ts : List Write) :
    ∃ ok s', flushClient s k ts = some (ok, s') ∧ FlushKeeps s s' k ok := by
  unfold flushClient
  cases ho : s.outputs.owner k with
  | none => exact ⟨true, s, rfl, .refl h k⟩
  | some a =>
    obtain ⟨oco, hc⟩ := h.pool.owned ho
    have hw := WF.of_owner h ho hc
    have hpend := pending_of_owner ho hc
    have hfits := hw.fits
    have hblock := hw.block
    dsimp only
    rw [hc, bind_some]
    by_cases ht : (!s.transConn k) = true
    · rw [if_pos ht]
      have he : s.deliver k [] = s := by
        simp only [State.deliver, append_nil, update_eq_self]
      have hkeep := FlushKeeps.abort h ho hc []
      rw [he] at hkeep
      exact ⟨false, _, rfl, hkeep⟩
    · rw [if_neg ht]
      by_cases hz : oco.count = 0
      · rw [if_pos hz]
        exact ⟨true, s, rfl, .refl h k⟩
      · rw [if_neg hz]
        obtain ⟨f, hf, hdel⟩ := flushLoop_spec (show oco.count ≤ oco.buf.size from
          hw.block ▸ hw.fits) ts (zero_add oco.count) le_rfl
        rw [slice_zero] at hf
        rw [hf, bind_some]
        cases f with
        | all out =>
          -- the buffer is empty and is given away
          obtain ⟨hwf, hnone, hother⟩ := giveUp_spec h ho hc (bufWatermark < oco.size)
          have hout : out = oco.data := hdel
          refine ⟨true, _, rfl, .deliver hwf hother hnone ?_⟩
          rw [hpend, hout]
          exact (append_nil _).symm
        | blocked written notWritten out =>
          obtain ⟨hsum, hout⟩ := hdel
          -- the rest is moved to the front
          obtain ⟨buf, hbuf, hsize, hslice⟩ : ∃ buf : Block, (if 0 < written then
              (oco.buf.read written (oco.count - written)).bind (oco.buf.write 0)
              else some oco.buf) = some buf ∧ buf.size = oco.buf.size ∧
              buf.slice 0 notWritten = oco.buf.slice written notWritten := by
            by_cases hpos : 0 < written
            · have hn : oco.count - written = notWritten := by omega
              rw [if_pos hpos, hn, read_eq (by omega), bind_some,
                write_eq (by rw [slice_length]; omega)]
              refine ⟨_, rfl, rfl, ?_⟩
              have hs := slice_store_self oco.buf 0 (oco.buf.slice written notWritten)
              rwa [slice_length] at hs
            · rw [if_neg hpos]
              refine ⟨_, rfl, rfl, ?_⟩
              rw [show written = 0 by omega]
          obtain ⟨hwf, hself, hother⟩ := put_spec h ho
            (o := { oco with buf := buf, count := notWritten })
            ⟨hsize.trans hblock, (by dsimp only; omega), hw.lo, hw.hi⟩
          dsimp only
          rw [hbuf, map_some]
          refine ⟨true, _, rfl, .deliver hwf hother hself ?_⟩
          calc s.pending k = oco.buf.slice 0 (written + notWritten) := by rw [hpend, hsum]; rfl
            _ = oco.buf.slice 0 written ++ oco.buf.slice written notWritten := by
              rw [slice_append, zero_add]
            _ = out ++ buf.slice 0 notWritten := by rw [hout, hslice]
        | failed out => exact ⟨false, _, rfl, .abort h ho hc out⟩

theorem append_spec (hw : oco.WF) (hroom : oco.count + b.padded.length ≤ oco.size) :
    ∃ o, append oco b = some o ∧ o.WF ∧ o.data = oco.data ++ b.padded := by
  have hblock := hw.block
  rw [OutBlock.padded_length] at hroom
  have h₁ : oco.count + b.val.length ≤ oco.buf.size := by omega
  have h₂ : oco.count + b.val.length + (replicate (paddingForInt32 b.val.length)
      (0 : Byte)).length ≤ (oco.buf.store oco.count b.val).size := by
    rw [length_replicate, store_size]
    omega
  rw [append, write_eq h₁, bind_some, write_eq h₂, map_some]
  refine ⟨_, rfl, ⟨hblock, by dsimp only; omega, hw.lo, hw.hi⟩, ?_⟩
  -- behind the old bytes the block, behind the block the padding
  set c := oco.buf.store oco.count b.val with hcdef
  set pad := replicate (paddingForInt32 b.val.length) (0 : Byte) with hpad
  have hlen : pad.length = paddingForInt32 b.val.length := length_replicate ..
  calc (c.store (oco.count + b.val.length) pad).slice 0
        (oco.count + b.val.length + paddingForInt32 b.val.length)
      = c.slice 0 (oco.count + b.val.length) ++ pad := by
        rw [← hlen, slice_append, zero_add, slice_store_self, slice_store_before (by omega)]
    _ = oco.buf.slice 0 oco.count ++ b.val ++ pad := by
        rw [slice_append c 0, zero_add, hcdef, slice_store_self, slice_store_before (by omega)]
    _ = oco.data ++ b.padded := append_assoc ..

theorem append_none (hw : oco.WF) (hroom : oco.size < oco.count + b.padded.length) :
    append oco b = none := by
  have hblock := hw.block
  rw [OutBlock.padded_length] at hroom
  unfold append write
  by_cases h₁ : oco.count + b.val.length ≤ oco.buf.size
  · rw [if_pos h₁, bind_some, if_neg, map_none]
    rw [length_replicate, store_size]
    omega
  · rw [if_neg h₁, bind_none]

/-- What a call that was to append `b` keeps; `ok` is off for `-1`. -/
structure WriteKeeps (s s' : State κ) (k : κ) (b : OutBlock) (ok : Bool) : Prop where
  wf : s'.WF
  others : ∀ k', k' ≠ k → Same s s' k'
  gone : s'.clientGone = s.clientGone
  stream : ok = true → s'.stream k = s.stream k ++ b.padded

omit [DecidableEq κ] in
theorem WriteKeeps.of_flush {s₁ s' : State κ} {ok : Bool} (h : FlushKeeps s s₁ k true)
    (h' : WriteKeeps s₁ s' k b ok) : WriteKeeps s s' k b ok :=
  ⟨h'.wf, fun k' hne => (h.others k' hne).trans (h'.others k' hne), h'.gone.trans h.gone,
    fun hok => by rw [h'.stream hok, h.stream rfl]⟩

omit [DecidableEq κ] in
theorem WriteKeeps.of_ensured {s₁ s' : State κ} {ok : Bool} (h : Ensured s s₁ k a oco)
    (h' : WriteKeeps s₁ s' k b ok) : WriteKeeps s s' k b ok :=
  ⟨h'.wf, fun k' hne => (h.others k' hne).trans (h'.others k' hne), h'.gone.trans h.gone,
    fun hok => by rw [h'.stream hok, h.stream]⟩

omit [DecidableEq κ] in
theorem put_stream (h : s.WF) (ho : s.outputs.owner k = some a)
    (hc : s.outputs.cell a = some oco) (hw : o.WF) (hd : o.data = oco.data ++ b.padded) :
    WriteKeeps s { s with outputs := s.outputs.put a o } k b true := by
  obtain ⟨hwf, hself, hother⟩ := put_spec h ho hw
  refine ⟨hwf, fun k' hne => ⟨hother k' hne, rfl, rfl⟩, rfl, fun _ => ?_⟩
  have hp := pending_of_owner ho hc
  simp only [State.stream, State.pending] at hp ⊢
  rw [hself, hp, elim_some, hd, append_assoc]

theorem memcpyAndFlush_spec (h : s.WF) (ho : s.outputs.owner k = some a)
    (hc : s.outputs.cell a = some oco) (hroom : oco.count + b.padded.length ≤ oco.size)
    (ts : List Write) :
    ∃ ok s', memcpyAndFlush s k a b ts = some (ok, s') ∧ WriteKeeps s s' k b ok := by
  obtain ⟨o, happ, hw, hd⟩ := append_spec (WF.of_owner h ho hc) hroom
  have hput := put_stream h ho hc hw hd
  rw [memcpyAndFlush, hc, bind_some, happ, bind_some]
  obtain ⟨ok, s', hflush, hkeep⟩ := flushClient_spec (k := k) hput.wf ts
  exact ⟨ok, s', hflush, hkeep.wf, fun k' hne => (hput.others k' hne).trans (hkeep.others k' hne),
    hkeep.gone.trans hput.gone, fun hok => by rw [hkeep.stream hok, hput.stream rfl]⟩

theorem WriteKeeps.abort (h : s.WF) (ho : s.outputs.owner k = some a)
    (hc : s.outputs.cell a = some oco) : WriteKeeps s (abortFlush s k a oco) k b false := by
  have hkeep := FlushKeeps.abort h ho hc []
  rw [State.deliver, append_nil, update_eq_self] at hkeep
  exact ⟨hkeep.wf, hkeep.others, hkeep.gone, nofun⟩

theorem int_of_le {n : Nat} (h : n ≤ intMax) : int n = n := by
  unfold int intMax at *
  omega

@[simp] theorem grown_count (n : Nat) (junk : Nat → Byte) :
    (oco.grown n junk).count = oco.count := rfl

@[simp] theorem grown_size (n : Nat) (junk : Nat → Byte) : (oco.grown n junk).size = n := rfl

omit [DecidableEq κ] in
theorem grown_spec {n : Nat} (h : s.WF) (ho : s.outputs.owner k = some a)
    (hc : s.outputs.cell a = some oco) (hn : oco.size ≤ n) (hhi : n ≤ intMax)
    (junk : Nat → Byte) :
    State.WF { s with outputs := s.outputs.put a (oco.grown n junk) } ∧
      (∀ k', k' ≠ k → Same s { s with outputs := s.outputs.put a (oco.grown n junk) } k') ∧
      State.stream { s with outputs := s.outputs.put a (oco.grown n junk) } k = s.stream k := by
  have hw := WF.of_owner h ho hc
  have hg : (oco.grown n junk).WF := ⟨resize_size .., hw.fits.trans hn, hw.lo.trans hn, hhi⟩
  obtain ⟨hwf, hself, hother⟩ := put_spec h ho hg
  refine ⟨hwf, fun k' hne => ⟨hother k' hne, rfl, rfl⟩, ?_⟩
  have hdata : (oco.grown n junk).data = oco.data :=
    slice_resize (show 0 + oco.count ≤ oco.buf.size by
      have := hw.block
      have := hw.fits
      omega)
  simp only [State.stream, State.pending]
  rw [hself, content_eq ho, hc, elim_some, hdata, elim_some]

theorem growAndFlush_spec (env : Env) (h : s.WF) (ho : s.outputs.owner k = some a)
    (hc : s.outputs.cell a = some oco) (hint : oco.count + b.padded.length ≤ intMax + 3) :
    ∃ ok s', growAndFlush env s k a b = some (ok, s') ∧ WriteKeeps s s' k b ok := by
  rw [growAndFlush, hc, bind_some]
  simp only [← OutBlock.padded_length]
  by_cases hroom : oco.count + b.padded.length ≤ oco.size
  · rw [if_pos hroom]
    exact memcpyAndFlush_spec h ho hc hroom _
  · rw [if_neg hroom]
    generalize hnew : int (oco.count + (b.padded.length / bufSize + 1) * bufSize) = newsize
    by_cases hg : env.grow ∧ 0 < newsize
    · rw [if_pos hg]
      obtain ⟨hfit, hhi⟩ : oco.count + b.padded.length ≤ newsize.toNat ∧
          newsize.toNat ≤ intMax := by
        unfold int intMax bufSize at *
        omega
      obtain ⟨hwf, hother, hsame⟩ := grown_spec h ho hc
        (show oco.size ≤ newsize.toNat by omega) hhi env.junk
      have hfit' : (oco.grown newsize.toNat env.junk).count + b.padded.length ≤
        (oco.grown newsize.toNat env.junk).size := by
        rw [grown_count, grown_size]
        exact hfit
      obtain ⟨ok, s', hm, hkeep⟩ := memcpyAndFlush_spec hwf ho put_cell_self hfit'
        env.second
      exact ⟨ok, s', hm, hkeep.wf, fun k' hne => (hother k' hne).trans (hkeep.others k' hne),
        hkeep.gone, fun hok => by rw [hkeep.stream hok, hsame]⟩
    · rw [if_neg hg]
      exact ⟨false, _, rfl, .abort h ho hc⟩

theorem ensureAndGrow_spec (env : Env) {s₁ : State κ} (hkeep : FlushKeeps s s₁ k true)
    (hint : (s.pending k).length + b.padded.length ≤ intMax + 3) : ∃ ok s',
      (match outputEnsureBuffer env.alloc s₁ k with
        | none => some (false, abortClient s₁ k)
        | some (s, a) => growAndFlush env s k a b) = some (ok, s') ∧
      WriteKeeps s s' k b ok := by
  have hle := hkeep.pending rfl
  rcases outputEnsureBuffer_spec (k := k) env.alloc hkeep.wf with
    hnone | ⟨s₂, a, oco, hsome, hens⟩
  · rw [hnone]
    refine ⟨false, _, rfl, ⟨?_, ?_, ?_⟩, fun k' hne => ?_, hkeep.gone, by simp⟩
    · exact hkeep.wf.pool
    · exact hkeep.wf.ready
    · exact hkeep.wf.clean
    · exact ⟨(hkeep.others k' hne).content, (hkeep.others k' hne).accepted,
        (hkeep.others k' hne).gone⟩
  · rw [hsome]
    have hcount : oco.count ≤ (s.pending k).length := by
      rw [← oco.data_length, hens.pending]
      exact hle
    obtain ⟨ok, s', hgrow, hk⟩ := growAndFlush_spec env hens.wf hens.owner hens.cell
      (b := b) (by omega)
    exact ⟨ok, s', hgrow, .of_flush hkeep (.of_ensured hens hk)⟩

theorem outputBufferMakeRoomAndFlush_spec (env : Env) (h : s.WF)
    (hint : (s.pending k).length + b.padded.length ≤ intMax + 3) :
    ∃ ok s', outputBufferMakeRoomAndFlush env s k b = some (ok, s') ∧ WriteKeeps s s' k b ok := by
  unfold outputBufferMakeRoomAndFlush
  cases ho : s.outputs.owner k with
  | none => exact ensureAndGrow_spec env (.refl h k) hint
  | some a =>
    obtain ⟨oco, hc⟩ := h.pool.owned ho
    dsimp only
    rw [hc, bind_some]
    by_cases hroom : oco.count + (b.val.length + paddingForInt32 b.val.length) ≤ oco.size
    · rw [if_pos hroom]
      exact memcpyAndFlush_spec h ho hc (by rw [OutBlock.padded_length]; exact hroom) _
    · rw [if_neg hroom]
      obtain ⟨ok, s₁, hflush, hkeep⟩ := flushClient_spec (k := k) h env.first
      rw [hflush, bind_some]
      cases ok with
      | true => exact ensureAndGrow_spec env hkeep hint
      | false => exact ⟨false, s₁, rfl, hkeep.wf, hkeep.others, hkeep.gone, by simp⟩

/-- The sum of the size test is an `int`, unless the test is not reached. -/
def Fits (isLocal alloc : Bool) (s : State κ) (k : κ) (b : OutBlock) : Prop :=
  b.val ≠ [] → s.clientGone k = false → (outputEnsureBuffer alloc s k).isSome →
    (s.pending k = [] ∧ isLocal) ∨ (s.pending k).length + b.padded.length ≤ intMax

/-- What `dixWriteToClient` keeps, with its return value. -/
structure ClientWritten (s s' : State κ) (k : κ) (b : OutBlock) (r : Int) : Prop where
  wf : s'.WF
  others : ∀ k', k' ≠ k → Same s s' k'
  gone : s'.clientGone = s.clientGone
  result : r = -1 ∨ (r = 0 ∧ (b.val = [] ∨ s.clientGone k = true) ∧ s'.stream k = s.stream k) ∨
    (r = b.val.length ∧ b.val ≠ [] ∧ s.clientGone k = false ∧ s'.stream k = s.stream k ++ b.padded)

theorem dixWriteToClient_spec {isLocal : Bool} {env : Env} (h : s.WF)
    (hfits : Fits isLocal env.alloc s k b) :
    ∃ r s', dixWriteToClient isLocal env s k b = some (r, s') ∧ ClientWritten s s' k b r := by
  unfold dixWriteToClient
  by_cases hz : b.val.length = 0 ∨ s.clientGone k = true
  · rw [if_pos hz]
    exact ⟨0, s, rfl, h, fun k' _ => .refl s k', rfl,
      .inr (.inl ⟨rfl, hz.imp_left length_eq_zero_iff.mp, rfl⟩)⟩
  · rw [if_neg hz]
    have hne : b.val ≠ [] := fun he => hz (.inl (length_eq_zero_iff.mpr he))
    have hgone : s.clientGone k = false := Bool.eq_false_of_not_eq_true fun he => hz (.inr he)
    rcases outputEnsureBuffer_spec (k := k) env.alloc h with hnone | ⟨s₁, a, oco, hsome, hens⟩
    · rw [hnone]
      exact ⟨-1, _, rfl, ⟨h.pool, h.ready, h.clean⟩, fun k' _ => ⟨rfl, rfl, rfl⟩, rfl, .inl rfl⟩
    · rw [hsome]
      dsimp only
      rw [hens.cell, bind_some]
      have hfit := hfits hne hgone (hsome ▸ rfl)
      rw [← hens.pending] at hfit
      have hpad := paddingForInt32_le b.val.length
      have hmax := b.property
      have hplen := b.padded_length
      have hlen := oco.data_length
      by_cases hflush : (oco.count = 0 ∧ isLocal) ∨
          (oco.size : Int) < int (oco.count + b.val.length + paddingForInt32 b.val.length)
      · rw [if_pos hflush]
        have hint : (s₁.pending k).length + b.padded.length ≤ intMax + 3 := by
          rw [pending_of_owner hens.owner hens.cell]
          rcases hfit with ⟨he, _⟩ | hle
          · rw [he, length_nil]
            omega
          · omega
        obtain ⟨ok, s', hmake, hkeep⟩ := outputBufferMakeRoomAndFlush_spec env hens.wf hint
        have hk := WriteKeeps.of_ensured hens hkeep
        rw [hmake, map_some]
        refine ⟨_, s', rfl, hk.wf, hk.others, hk.gone, ?_⟩
        cases ok with
        | true => exact .inr (.inr ⟨rfl, hne, hgone, hk.stream rfl⟩)
        | false => exact .inl rfl
      · rw [if_neg hflush]
        push Not at hflush
        have hroom : oco.count + b.padded.length ≤ oco.size := by
          rcases hfit with ⟨he, hl⟩ | hle
          · have hzero : oco.count = 0 := by
              rw [← hlen, he, length_nil]
            exact absurd hl (hflush.1 hzero)
          · have hle' := hflush.2
            rw [int_of_le (by omega)] at hle'
            omega
        obtain ⟨o, happ, hw, hd⟩ := append_spec (WF.of_owner hens.wf hens.owner hens.cell) hroom
        have hk := WriteKeeps.of_ensured hens (put_stream hens.wf hens.owner hens.cell hw hd)
        rw [happ, map_some]
        exact ⟨_, _, rfl, hk.wf, hk.others, hk.gone, .inr (.inr ⟨rfl, hne, hgone, hk.stream rfl⟩)⟩

theorem dixWriteToClient_stuck {isLocal : Bool} {env : Env} (h : s.WF)
    (hfits : ¬ Fits isLocal env.alloc s k b) : dixWriteToClient isLocal env s k b = none := by
  unfold Fits at hfits
  push Not at hfits
  obtain ⟨hne, hgone, hens, hfast, hbig⟩ := hfits
  obtain ⟨⟨s₁, a⟩, hsome⟩ := isSome_iff_exists.mp hens
  rcases outputEnsureBuffer_spec (k := k) env.alloc h with hnone | ⟨s₂, a', oco, hsome', hens'⟩
  · rw [hnone] at hsome
    cases hsome
  · unfold dixWriteToClient
    have hlen := oco.data_length
    have hplen := b.padded_length
    have hw := WF.of_owner hens'.wf hens'.owner hens'.cell
    have hfit := hw.fits
    have hlo := hw.lo
    have hhi := hw.hi
    have hmax := b.property
    have hpad := paddingForInt32_le b.val.length
    rw [hens'.pending] at hlen
    rw [if_neg (by simp [hne, hgone]), hsome']
    dsimp only
    rw [hens'.cell, bind_some, if_neg, append_none hw (by omega), map_none]
    rintro (⟨hzero, hl⟩ | hlt)
    · exact hfast (length_eq_zero_iff.mp (hlen.trans hzero)) hl
    · unfold int intMax bufSize at *
      omega

theorem freeOsBuffers_spec (h : s.WF) :
    ∃ s', freeOsBuffers s k = some s' ∧ s'.WF ∧ (∀ k', k' ≠ k → Same s s' k') ∧
      s'.clientGone = s.clientGone := by
  unfold freeOsBuffers
  cases ho : s.outputs.owner k with
  | none => exact ⟨s, rfl, h, fun k' _ => .refl s k', rfl⟩
  | some a =>
    obtain ⟨oco, hc⟩ := h.pool.owned ho
    obtain ⟨hwf, _, hother⟩ := giveUp_spec (t := s.transConn) (g := s.clientGone)
      (w := s.accepted) h ho hc (s.outputs.free ≠ [])
    by_cases hfree : s.outputs.free ≠ []
    · simp only [if_pos hfree] at hwf hother ⊢
      exact ⟨_, rfl, hwf, fun k' hne => ⟨hother k' hne, rfl, rfl⟩, rfl⟩
    · simp only [if_neg hfree, hc, map_some] at hwf hother ⊢
      exact ⟨_, rfl, hwf, fun k' hne => ⟨hother k' hne, rfl, rfl⟩, rfl⟩

theorem closeDownConnection_spec (h : s.WF) (ts : List Write) :
    ∃ s', closeDownConnection s k ts = some s' ∧ s'.WF ∧ ∀ k', k' ≠ k → Same s s' k' := by
  obtain ⟨ok, s₁, hflush, hkeep⟩ := flushClient_spec (k := k) h ts
  have habort : (abortClient s₁ k).WF := ⟨hkeep.wf.pool, hkeep.wf.ready, hkeep.wf.clean⟩
  obtain ⟨s₂, hfree, hwf, hother, hgone⟩ := freeOsBuffers_spec (k := k) habort
  rw [closeDownConnection, hflush, bind_some]
  dsimp only
  rw [hfree, map_some]
  refine ⟨_, rfl, ⟨hwf.pool, hwf.ready, hwf.clean⟩, fun k' hne => ?_⟩
  have h₁ := hkeep.others k' hne
  have h₂ := hother k' hne
  refine ⟨h₂.content.trans h₁.content, h₂.accepted.trans h₁.accepted, ?_⟩
  exact (update_of_ne hne ..).trans ((congrFun hgone k').trans h₁.gone)

end

theorem State.start_wf (κ : Type) : (State.start κ).WF where
  pool := Pool.empty_wf
  ready k oco h := by
    cases h
  clean a ha := by
    cases ha

end Xfront.Output
