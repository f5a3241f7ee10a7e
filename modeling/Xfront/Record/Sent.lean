import Xfront.Input.Reexecute
import Xfront.Record.Selected

/-!
# Requests as they are sent and as they are recorded

`RecordARequest` takes a request for a big one when its `req_len` is 0. `ReadRequestFromClient`
takes the length word out of a big request and leaves a `req_len` of one unit less.
-/

namespace Xfront.Record
open Xfront.Bytes Input List

/-- A request as it is dispatched: `reqType` is its first byte. -/
def delivered (minorOp : UInt16) (reqLen : Nat) (bytes : List Byte) : Request :=
  ⟨UInt8.ofNat (bytes.getD 0 0).val, minorOp, reqLen, bytes⟩

structure Selecting (c : EnabledContext) (who : Recordee) (req : Request) : Prop where
  found : ∃ pRCAP, findClientOnContext c who.client.clientAsMask = some pRCAP ∧
    isMemberOfSet pRCAP.pRequestMajorOpSet req.majorOp.toNat = true ∧
    selected pRCAP.pRequestMinOpInfo req.majorOp.toNat req.minorOp.toNat = some true

/-- The pieces are the bytes that were sent, and the first one announces them all. -/
def AsSent (sent : List Byte) (pieces : Option (List ProtocolElement)) : Prop :=
  ∃ first rest, pieces = some (first :: rest) ∧
    (first :: rest).flatMap ProtocolElement.padded = sent ∧
    first.datalen + first.futurelen = sent.length

variable {sv : Server} {c : EnabledContext} {who : Recordee} {req : Request}

theorem recordARequest_selecting (h : Selecting c who req) :
    recordARequest sv c who req = recordRequest sv who req := by
  obtain ⟨pRCAP, hfind, hmajor, hminor⟩ := h.found
  rw [recordARequest, hfind]
  dsimp only
  rw [if_pos hmajor, hminor, Option.bind_some, if_pos rfl]

theorem recordRequest_zero (h : req.reqLen = 0) : recordRequest sv who req = none := by
  rw [recordRequest, if_pos h, recordABigRequest, h]
  rfl

theorem asSent_single {sent : List Byte} (h : req.reqLen ≠ 0) :
    AsSent sent (recordRequest sv who req) ↔ req.stuff.take (req.reqLen * 4) = sent := by
  rw [recordRequest, if_neg h]
  constructor
  · rintro ⟨first, rest, hpieces, hbytes, -⟩
    cases hpieces
    simpa [element, ProtocolElement.padded] using hbytes
  · intro hsent
    refine ⟨_, _, rfl, ?_, ?_⟩
    · simpa [element, ProtocolElement.padded] using hsent
    · rw [← hsent, ProtocolElement.datalen]
      simp [element]

variable {cap count reqLen n : Nat} {d : Dialect} {bs bytes rest : List Byte}

theorem frame_whole (h : frame cap d bs = .request (.whole count reqLen bytes) rest) :
    count ≤ bs.length ∧
      (header d bs = .ordinary reqLen ∧ count = max 4 (reqLen * 4) ∧ bytes = bs.take count ∨
        header d bs = .big (reqLen + 1) ∧ reqLen ≠ 0 ∧ count = (reqLen + 1) * 4) := by
  unfold frame at h
  split at h
  · cases h
  · rename_i n hn
    dsimp only at h
    split_ifs at h with hz <;> cases h
    · exact ⟨by omega, .inl ⟨hn, by omega, rfl⟩⟩
    · exact ⟨by omega, .inl ⟨hn, by omega, rfl⟩⟩
  · rename_i n hn
    split_ifs at h
    · cases h
    · simp only [Frame.request.injEq, Report.whole.injEq] at h
      obtain ⟨⟨rfl, rfl, -⟩, -⟩ := h
      exact ⟨by omega, .inr ⟨by rw [hn, Nat.sub_add_cancel (by omega)], by omega, by omega⟩⟩

/-- A request is recorded as it was sent when its 16-bit length is not zero. -/
theorem recordARequest_asSent_iff {κ : Type} [DecidableEq κ] {srv : Input.Server} {env : Env}
    {s s' : Input.State κ} {k : κ} {minorOp : UInt16} (h : Serviced srv s k d bs)
    (hserve : serve srv env s k = some (.reported (.whole count reqLen bytes), s'))
    (hselect : Selecting c who (delivered minorOp reqLen bytes)) :
    AsSent (bs.take count) (recordARequest sv c who (delivered minorOp reqLen bytes)) ↔
      wordAt16 d.bigEndian bs 2 ≠ 0 := by
  obtain ⟨_, _, hserve', hround, -⟩ := serve_round env h
  rw [hserve] at hserve'
  cases hserve'
  rw [recordARequest_selecting hselect]
  have hnone : reqLen = 0 →
      ¬AsSent (bs.take count) (recordRequest sv who (delivered minorOp reqLen bytes)) := by
    rintro hzero ⟨_, _, hpieces, -⟩
    rw [recordRequest_zero hzero] at hpieces
    cases hpieces
  cases hround with
  | request _ hframe =>
    obtain ⟨hcount, ⟨hheader, hlen, rfl⟩ | ⟨hheader, hn, hlen⟩⟩ := frame_whole hframe
    · obtain ⟨-, hword, -⟩ := header_ordinary_iff hheader
      rw [← hword]
      by_cases hzero : reqLen = 0
      · exact iff_of_false (hnone hzero) (not_not.mpr hzero)
      · refine iff_of_true ((asSent_single hzero).mpr ?_) hzero
        rw [delivered, hlen]
        dsimp only
        rw [take_take]
        congr 1
        omega
    · obtain ⟨-, hword, -⟩ := header_big_iff hheader
      refine iff_of_false (fun hsent => ?_) (not_not.mpr hword)
      -- the length word is missing
      have hbytes := congrArg length ((asSent_single hn).mp hsent)
      rw [length_take_of_le hcount, delivered, length_take] at hbytes
      dsimp only at hbytes
      omega
  | short _ _ hframe =>
    obtain ⟨-, hword, -⟩ := header_big_iff (frame_short_header hframe)
    exact iff_of_false (hnone rfl) (not_not.mpr hword)

def allRequests : EnabledContext :=
  enabledContext [⟨[0x200000], [{ noRange with coreRequests := ⟨1, 127⟩ }]⟩]

theorem recordARequest_asSent_ordinary : ∃ s',
    serve Server.standard atOnce (sending [1, 0, 2, 0, 9, 9, 9, 9]) () =
      some (.reported (.whole 8 2 [1, 0, 2, 0, 9, 9, 9, 9]), s') ∧
    AsSent [1, 0, 2, 0, 9, 9, 9, 9] (recordARequest plainServer allRequests client
      (delivered 0 2 [1, 0, 2, 0, 9, 9, 9, 9])) := by
  have hrun : (serve Server.standard atOnce (sending [1, 0, 2, 0, 9, 9, 9, 9]) ()).map Prod.fst =
      some (.reported (.whole 8 2 [1, 0, 2, 0, 9, 9, 9, 9])) := by decide
  obtain ⟨⟨_, s'⟩, hserve, hsv⟩ := Option.map_eq_some_iff.mp hrun
  cases hsv
  exact ⟨s', hserve, (recordARequest_asSent_iff
    (Serviced.fresh (State.start_wf Server.standard _ _) rfl rfl rfl).1 hserve
    ⟨_, rfl, by decide +kernel, rfl⟩).mpr (by decide)⟩

/-- A big request is recorded without its length word. -/
theorem big_not_asSent : ∃ s',
    serve Server.standard atOnce (sending [1, 0, 0, 0, 3, 0, 0, 0, 1, 2, 3, 4]) () =
      some (.reported (.whole 12 2 [1, 0, 0, 0, 1, 2, 3, 4]), s') ∧
    Selecting allRequests client (delivered 0 2 [1, 0, 0, 0, 1, 2, 3, 4]) ∧
    ¬AsSent [1, 0, 0, 0, 3, 0, 0, 0, 1, 2, 3, 4] (recordARequest plainServer allRequests client
      (delivered 0 2 [1, 0, 0, 0, 1, 2, 3, 4])) := by
  have hrun : (serve Server.standard atOnce
      (sending [1, 0, 0, 0, 3, 0, 0, 0, 1, 2, 3, 4]) ()).map Prod.fst =
      some (.reported (.whole 12 2 [1, 0, 0, 0, 1, 2, 3, 4])) := by decide
  obtain ⟨⟨_, s'⟩, hserve, hsv⟩ := Option.map_eq_some_iff.mp hrun
  cases hsv
  have hselect : Selecting allRequests client (delivered 0 2 [1, 0, 0, 0, 1, 2, 3, 4]) :=
    ⟨_, rfl, by decide +kernel, rfl⟩
  refine ⟨s', hserve, hselect, fun hsent => ?_⟩
  rw [recordARequest_selecting hselect, asSent_single (by decide)] at hsent
  cases hsent

end Xfront.Record
