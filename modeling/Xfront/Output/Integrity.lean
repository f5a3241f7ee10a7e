import Xfront.Lib.Run
import Xfront.Output.Spec

/-!
# Integrity of the output streams

What the transport of a client has accepted, followed by what its output buffer holds, is what was
written to the client, block after block with the padding.
-/

namespace Xfront.Output
open Xfront.Bytes List Option Function Bool State

variable {κ : Type} [DecidableEq κ]

inductive Action (κ : Type) where
  | write (k : κ) (env : Env) (b : OutBlock)
  | flush (k : κ) (ts : List Write)
  | close (k : κ) (ts : List Write)

/-- `written` is what has been written to each client, `ended` where `-1` was
returned or the connection is closed. -/
structure Running (κ : Type) where
  server : State κ
  written : κ → List Byte
  ended : κ → Bool

def Running.start (κ : Type) : Running κ := ⟨State.start κ, fun _ => [], fun _ => false⟩

/-- One call and its result; a client that is gone is neither flushed nor closed. -/
def step (isLocal : κ → Bool) (m : Running κ) : Action κ → Option (Running κ × Int)
  | .write k env b => (dixWriteToClient (isLocal k) env m.server k b).map fun (r, s) =>
    ({ server := s,
       written := update m.written k
         (if 0 < r then m.written k ++ b.padded else m.written k),
       ended := update m.ended k (m.ended k || r = -1) }, r)
  | .flush k ts =>
    if m.server.clientGone k then some (m, 0)
    else (flushClient m.server k ts).map fun (ok, s) =>
      ({ m with server := s, ended := update m.ended k (m.ended k || !ok) },
        if ok then 0 else -1)
  | .close k ts =>
    if m.server.clientGone k then some (m, 0)
    else (closeDownConnection m.server k ts).map fun s =>
      ({ m with server := s, ended := update m.ended k true }, 0)

def InRange (isLocal : κ → Bool) (m : Running κ) : Action κ → Prop
  | .write k env b => Fits (isLocal k) env.alloc m.server k b
  | _ => True

/-- Counts stay within their buffers, those of recycled ones are 0, and up to its
end every stream is whole. -/
structure Intact (m : Running κ) : Prop where
  wf : m.server.WF
  whole : ∀ k, m.ended k = false → m.server.accepted k ++ m.server.pending k = m.written k

omit [DecidableEq κ] in
theorem Intact.start : Intact (Running.start κ) := ⟨State.start_wf κ, fun _ _ => rfl⟩

section
variable {isLocal : κ → Bool} {m : Running κ} {s' : State κ} {k : κ}

theorem Intact.of_others {w : κ → List Byte} {e : κ → Bool} (h : Intact m) (hwf : s'.WF)
    (hother : ∀ k', k' ≠ k → Same m.server s' k')
    (hw : ∀ k', k' ≠ k → w k' = m.written k') (he : ∀ k', k' ≠ k → e k' = m.ended k')
    (hself : e k = false → s'.stream k = w k) : Intact ⟨s', w, e⟩ := by
  refine ⟨hwf, fun k' hk' => ?_⟩
  by_cases hk : k' = k
  · subst hk
    exact hself hk'
  · dsimp only at hk' ⊢
    rw [he k' hk] at hk'
    rw [hw k' hk, ← h.whole k' hk']
    exact (hother k' hk).stream

variable {env : Env} {b : OutBlock}

theorem step_write {r : Int} (h : dixWriteToClient (isLocal k) env m.server k b = some (r, s')) :
    step isLocal m (.write k env b) = some ({
        server := s'
        written := update m.written k (if 0 < r then m.written k ++ b.padded else m.written k)
        ended := update m.ended k (m.ended k || r = -1) }, r) := by
  rw [step, h, map_some]

theorem write_intact (h : Intact m) (hfits : Fits (isLocal k) env.alloc m.server k b) :
    ∃ m' r, step isLocal m (.write k env b) = some (m', r) ∧ Intact m' := by
  obtain ⟨r, s', hdix, hwr⟩ := dixWriteToClient_spec h.wf hfits
  refine ⟨_, r, step_write hdix, ?_⟩
  refine h.of_others hwr.wf hwr.others (fun _ hne => update_of_ne hne ..)
    (fun _ hne => update_of_ne hne ..) fun he => ?_
  rw [update_self] at he ⊢
  obtain ⟨he, hr⟩ := or_eq_false_iff.mp he
  have hm : m.server.stream k = m.written k := h.whole k he
  rcases hwr.result with rfl | ⟨rfl, _, hs⟩ | ⟨rfl, hne, _, hs⟩
  · cases hr
  · rw [if_neg (lt_irrefl 0), hs, hm]
  · have hpos : 0 < b.val.length := length_pos_iff.mpr hne
    rw [if_pos (by omega), hs, hm]

variable {ts : List Write}

theorem flush_intact (h : Intact m) :
    ∃ m' r, step isLocal m (.flush k ts) = some (m', r) ∧ Intact m' := by
  rw [step]
  by_cases hg : m.server.clientGone k
  · exact ⟨m, 0, if_pos hg, h⟩
  · obtain ⟨ok, s', hflush, hkeep⟩ := flushClient_spec (k := k) h.wf ts
    refine ⟨_, _, by rw [if_neg hg, hflush, map_some], ?_⟩
    refine h.of_others hkeep.wf hkeep.others (fun _ _ => rfl)
      (fun _ hne => update_of_ne hne ..) fun he => ?_
    rw [update_self] at he
    obtain ⟨he, hok⟩ := or_eq_false_iff.mp he
    rw [hkeep.stream (by simpa using hok)]
    exact h.whole k he

theorem close_intact (h : Intact m) :
    ∃ m' r, step isLocal m (.close k ts) = some (m', r) ∧ Intact m' := by
  rw [step]
  by_cases hg : m.server.clientGone k
  · exact ⟨m, 0, if_pos hg, h⟩
  · obtain ⟨s', hclose, hwf, hother⟩ := closeDownConnection_spec (k := k) h.wf ts
    refine ⟨_, _, by rw [if_neg hg, hclose, map_some], ?_⟩
    refine h.of_others hwf hother (fun _ _ => rfl) (fun _ hne => update_of_ne hne ..)
      fun he => ?_
    rw [update_self] at he
    cases he

variable {a : Action κ}

theorem step_intact (h : Intact m) (hg : InRange isLocal m a) :
    ∃ m' r, step isLocal m a = some (m', r) ∧ Intact m' := by
  cases a with
  | write k env b => exact write_intact h hg
  | flush k ts => exact flush_intact h
  | close k ts => exact close_intact h

theorem step_stuck (h : Intact m) (hg : ¬ InRange isLocal m a) : step isLocal m a = none := by
  cases a with
  | write k env b => rw [step, dixWriteToClient_stuck h.wf hg, map_none]
  | flush k ts | close k ts => exact absurd trivial hg

end

def stalled : Env := ⟨true, true, fun _ => 0, [], []⟩

theorem outputEnsureBuffer_isSome (s : State κ) (k : κ) : (outputEnsureBuffer true s k).isSome := by
  unfold outputEnsureBuffer
  split
  · rfl
  · split <;> rfl

variable {s s' : State κ} {k : κ} {ok : Bool}

theorem flushClient_stalled (h : s.WF)
    (ht : s.transConn k = true) (hf : flushClient s k [] = some (ok, s')) :
    ok = true ∧ s'.accepted k = s.accepted k := by
  unfold flushClient at hf
  cases ho : s.outputs.owner k with
  | none =>
    rw [ho] at hf
    cases hf
    exact ⟨rfl, rfl⟩
  | some a =>
    obtain ⟨oco, hc⟩ := h.pool.owned ho
    rw [ho] at hf
    dsimp only at hf
    rw [hc, bind_some, if_neg (by simp [ht])] at hf
    by_cases hz : oco.count = 0
    · rw [if_pos hz] at hf
      cases hf
      exact ⟨rfl, rfl⟩
    · rw [if_neg hz, flushLoop, if_neg hz, bind_some] at hf
      simp only [lt_irrefl, if_false, map_some] at hf
      cases hf
      exact ⟨rfl, (update_self ..).trans (append_nil _)⟩

variable {b : OutBlock}

theorem memcpyAndFlush_stalled {a : Nat} {oco : ConnectionOutput}
    (h : s.WF) (ho : s.outputs.owner k = some a)
    (hc : s.outputs.cell a = some oco) (hroom : oco.count + b.padded.length ≤ oco.size)
    (ht : s.transConn k = true) (hm : memcpyAndFlush s k a b [] = some (ok, s')) :
    ok = true ∧ s'.accepted k = s.accepted k := by
  obtain ⟨o, happ, hw, hd⟩ := append_spec (WF.of_owner h ho hc) hroom
  rw [memcpyAndFlush, hc, bind_some, happ, bind_some] at hm
  exact flushClient_stalled (s := { s with outputs := s.outputs.put a o })
    (put_stream h ho hc hw hd).wf ht hm

theorem stalled_write (hlo : bufSize < b.padded.length) (hhi : b.padded.length + bufSize ≤ intMax) :
    ∃ s', dixWriteToClient false stalled (start Unit) () b = some ((b.val.length : Int), s') ∧
      s'.WF ∧ s'.clientGone () = false ∧ (s'.pending ()).length = b.padded.length := by
  have hplen := b.padded_length
  have hcount : allocateOutputBuffer.count = 0 := rfl
  have hsize : allocateOutputBuffer.size = bufSize := rfl
  have hne : b.val ≠ [] := by
    rintro he
    have hpad := paddingForInt32_le b.val.length
    rw [he, length_nil] at hplen hpad
    unfold bufSize at hlo
    omega
  -- the new buffer is empty and too small
  set s₁ : State Unit := { start Unit with
    outputs := (start Unit).outputs.alloc () allocateOutputBuffer }
  have hens : outputEnsureBuffer stalled.alloc (start Unit) () = some (s₁, 0) := rfl
  have hagain : outputEnsureBuffer stalled.alloc s₁ () = some (s₁, 0) := rfl
  have ho : s₁.outputs.owner () = some 0 := rfl
  have hcell : s₁.outputs.cell 0 = some allocateOutputBuffer := rfl
  have hflush : flushClient s₁ () [] = some (true, s₁) := rfl
  have hwf : s₁.WF := by
    rcases outputEnsureBuffer_spec (k := ()) stalled.alloc (start_wf Unit) with hn | ⟨_, _, _, hs, he⟩
    · rw [hens] at hn
      cases hn
    · rw [hens] at hs
      cases hs
      exact he.wf
  have hroom : ¬ allocateOutputBuffer.count + b.padded.length ≤ allocateOutputBuffer.size := by
    omega
  have htest : (allocateOutputBuffer.size : Int) <
      int (allocateOutputBuffer.count + b.val.length + paddingForInt32 b.val.length) := by
    rw [int_of_le (by omega)]
    omega
  have hmake : outputBufferMakeRoomAndFlush stalled s₁ () b = growAndFlush stalled s₁ () 0 b := by
    rw [outputBufferMakeRoomAndFlush, ho]
    dsimp only
    rw [hcell, bind_some, ← hplen, if_neg hroom]
    change (flushClient s₁ () []).bind _ = _
    rw [hflush, bind_some]
    rw [if_pos rfl, hagain]
  -- the buffer grows and nothing leaves it
  obtain ⟨ok, s', hgrow, hkeep⟩ := growAndFlush_spec stalled (b := b) hwf ho hcell (by omega)
  have hstall : ok = true ∧ s'.accepted () = [] := by
    have hg := hgrow
    rw [growAndFlush, hcell, bind_some] at hg
    simp only [← hplen] at hg
    rw [if_neg hroom] at hg
    generalize hnew : int (allocateOutputBuffer.count +
      (b.padded.length / bufSize + 1) * bufSize) = newsize at hg
    obtain ⟨hpos, hfit, hmax⟩ : 0 < newsize ∧
        allocateOutputBuffer.count + b.padded.length ≤ newsize.toNat ∧
        newsize.toNat ≤ intMax := by
      have hle : allocateOutputBuffer.count + (b.padded.length / bufSize + 1) * bufSize ≤
          intMax := by
        unfold bufSize at *
        omega
      rw [int_of_le hle] at hnew
      unfold bufSize at *
      omega
    rw [if_pos ⟨rfl, hpos⟩] at hg
    obtain ⟨hwf', _, _⟩ := grown_spec hwf ho hcell
      (show allocateOutputBuffer.size ≤ newsize.toNat by omega) hmax stalled.junk
    have hroom' : (allocateOutputBuffer.grown newsize.toNat stalled.junk).count +
        b.padded.length ≤ (allocateOutputBuffer.grown newsize.toNat stalled.junk).size := by
      rw [grown_count, grown_size]
      exact hfit
    exact memcpyAndFlush_stalled hwf' ho Pool.put_cell_self hroom' rfl hg
  obtain ⟨rfl, hacc⟩ := hstall
  refine ⟨s', ?_, hkeep.wf, congrFun hkeep.gone (), ?_⟩
  · rw [dixWriteToClient, if_neg (by simp [hne, start])]
    rw [hens]
    dsimp only
    rw [hcell, bind_some, if_pos (Or.inr htest), hmake, hgrow, map_some]
    rfl
  · have hs := congrArg length (hkeep.stream rfl)
    have hnil : s₁.stream () = [] := rfl
    rw [stream, hacc, hnil, nil_append, nil_append] at hs
    exact hs

def zeros (n : Nat) (h : n ≤ intMax) : OutBlock :=
  ⟨replicate n 0, (length_replicate ..).trans_le h⟩

theorem zeros_padded_length (n : Nat) (h : n ≤ intMax) :
    (zeros n h).padded.length = n + paddingForInt32 n := by
  rw [OutBlock.padded_length, zeros, length_replicate]

end Xfront.Output
