import Xfront.Lib.Run
import Xfront.Record.Buffer

/-!
# The data stream is framed

What the stream is for: replies, each a header with the number of words behind it, and in the
replies the elements, whole and in order. The stream is this as long as no element is started
behind continued data that stands at the front of the buffer, where its header would be: that
data is written on its own when the buffer was flushed within an element.
-/

namespace Xfront.Record
open Xfront.Bytes Xfront.Output Xfront.Run List Option

structure Recorded where
  pClient : Option Client
  category : Category
  bytes : List Byte

structure Reply where
  pClient : Option Client
  category : Category
  header : List Byte
  elements : List Recorded

def Reply.body (reply : Reply) : List Byte := reply.elements.flatMap (·.bytes)

def Reply.bytes (reply : Reply) : List Byte := reply.header ++ reply.body

def idBase : Option Client → Nat
  | some pClient => pClient.clientAsMask.toNat
  | none => 0

structure Header (order : Bool) (pClient : Option Client) (category : Category) (length : Nat)
    (header : List Byte) : Prop where
  size : header.length = sizeofReply
  type : header.getD 0 0 = 1
  category : header.getD 1 0 = category.code
  length : wordAt32 order header 4 = length
  idBase : wordAt32 order header 12 = idBase pClient

structure Reply.Fits (order : Bool) (reply : Reply) (missing : Nat) : Prop where
  header : Header order reply.pClient reply.category (reply.body.length / 4 + missing) reply.header
  aligned : 4 ∣ reply.body.length
  own : ∀ e ∈ reply.elements, e.pClient = reply.pClient ∧ e.category = reply.category

/-- Complete replies, of which the last one may lack bytes that are still to come. -/
structure WellFramed (order : Bool) (replies : List Reply) (pending : Nat) : Prop where
  complete : ∀ reply ∈ replies.dropLast, reply.Fits order 0
  last : ∀ reply ∈ replies.getLast?, reply.Fits order (bytesToInt32 pending)
  none : replies = [] → pending = 0

def extendLast : List Recorded → List Byte → List Recorded
  | [], _ => []
  | [x], data => [{ x with bytes := x.bytes ++ data }]
  | x :: y :: rest, data => x :: extendLast (y :: rest) data

def recordedAfter (r : Recording) (recorded : List Recorded) : Act → List Recorded
  | .element e time =>
    if 0 ≤ e.futurelen then
      recorded ++ [⟨e.pClient, e.category, elemHeaderData r e time ++ e.padded⟩]
    else extendLast recorded e.padded
  | .flushAllContexts => recorded

def pendingAfter (pending : Nat) : Act → Nat
  | .element e _ => if 0 ≤ e.futurelen then e.futurelen.toNat else pending - e.datalen
  | .flushAllContexts => pending

def Changes (c : RecordContext) (e : ProtocolElement) : Prop :=
  c.pBufClient ≠ e.pClient ∨ c.bufCategory ≠ e.category

instance (c : RecordContext) (e : ProtocolElement) : Decidable (Changes c e) :=
  inferInstanceAs (Decidable (_ ∨ _))

/-- Whether continued data came into the empty buffer; an element that finds the buffer empty,
or has it flushed, puts a header there. -/
def bareAfter (c : RecordContext) (bare : Bool) : Act → Bool
  | .element e _ =>
    if 0 ≤ e.futurelen then bare && decide (c.numBufBytes ≠ 0 ∧ ¬ Changes c e)
    else bare || decide (c.numBufBytes = 0)
  | .flushAllContexts => false

/-- The context with the bytes to come, and whether its buffer begins with continued data. -/
structure Watched where
  context : RecordContext
  pending : Nat
  bare : Bool

def watch (r : Recording) (w : Watched) (a : Act) : Option (Watched × List Byte) :=
  (step r w.context a).map fun (c, out) =>
    (⟨c, pendingAfter w.pending a, bareAfter w.context w.bare a⟩, out)

/-- The calls that are made: an element is started when the one before is complete, and
continued by padded data of no more than what is missing. -/
def Fed (w : Watched) : Act → Prop
  | .element e _ =>
    e.datalen < 2 ^ 31 ∧ e.futurelen < 2 ^ 31 ∧ e.padlen = paddingForInt32 e.data.length ∧
    if 0 ≤ e.futurelen then w.pending = 0 ∧ 4 ∣ e.data.length else e.datalen ≤ w.pending
  | .flushAllContexts => True

/-- An element starts in an empty buffer, in one that is flushed, or behind a header. -/
def Headed (w : Watched) : Act → Prop
  | .element e _ =>
    0 ≤ e.futurelen → w.context.numBufBytes = 0 ∨ Changes w.context e ∨ w.bare = false
  | .flushAllContexts => True

instance (w : Watched) (a : Act) : Decidable (Fed w a) := by
  cases a <;> unfold Fed <;> infer_instance

instance (w : Watched) (a : Act) : Decidable (Headed w a) := by
  cases a <;> unfold Headed <;> infer_instance

def Watched.start (c : RecordContext) : Watched := ⟨c, 0, false⟩

/-- What is written, with what is in the buffer, is a sequence of replies with the elements. -/
def StreamFramed (r : Recording) (c : RecordContext) (acts : List Act) : Prop :=
  ∃ c' outs replies, exec (step r) c acts = some (c', outs) ∧
    outs.flatten ++ c'.buffered = replies.flatMap Reply.bytes ∧
    replies.flatMap (·.elements) = acts.foldl (recordedAfter r) [] ∧
    WellFramed r.order replies (acts.foldl pendingAfter 0)

theorem extendLast_nil (recorded : List Recorded) : extendLast recorded [] = recorded := by
  induction recorded with
  | nil => rfl
  | cons x rest ih =>
    cases rest with
    | nil =>
      rw [extendLast, append_nil]
    | cons y rest => rw [extendLast, ih]

variable {elements : List Recorded}

theorem extendLast_append (before : List Recorded) (h : elements ≠ []) (data : List Byte) :
    extendLast (before ++ elements) data = before ++ extendLast elements data := by
  induction before with
  | nil => rfl
  | cons x before ih =>
    obtain ⟨y, rest, hyr⟩ := exists_cons_of_ne_nil (append_ne_nil_of_right_ne_nil before h)
    rw [cons_append, hyr, extendLast, ← hyr, ih, cons_append]

theorem extendLast_bytes (h : elements ≠ []) (data : List Byte) :
    (extendLast elements data).flatMap (·.bytes) = elements.flatMap (·.bytes) ++ data := by
  induction elements with
  | nil => exact absurd rfl h
  | cons x rest ih =>
    cases rest with
    | nil => simp [extendLast]
    | cons y rest =>
      rw [extendLast, flatMap_cons, ih (cons_ne_nil y rest), ← append_assoc, ← flatMap_cons]

theorem extendLast_ne_nil (h : elements ≠ []) (data : List Byte) :
    extendLast elements data ≠ [] := by
  cases elements with
  | nil => exact absurd rfl h
  | cons x rest =>
    cases rest with
    | nil | cons y rest => simp [extendLast]

theorem extendLast_own {data : List Byte} {P : Recorded → Prop}
    (hP : ∀ x d, P x → P { x with bytes := d }) (h : ∀ x ∈ elements, P x) :
    ∀ x ∈ extendLast elements data, P x := by
  induction elements with
  | nil => simp [extendLast]
  | cons x rest ih =>
    have hx : P x := h x mem_cons_self
    have hrest : ∀ y ∈ rest, P y := fun y hy => h y (mem_cons_of_mem _ hy)
    cases rest with
    | nil =>
      intro y hy
      rw [extendLast, mem_singleton] at hy
      subst hy
      exact hP x _ hx
    | cons z rest =>
      intro y hy
      rw [extendLast, mem_cons] at hy
      rcases hy with rfl | hy
      · exact hx
      · exact ih hrest y hy

variable {b : Block} {n : Nat} {off : Nat}

open Block

theorem wordAt32_slice {be : Bool} (h : off + 4 ≤ n) :
    wordAt32 be (b.slice 0 n) off = wordAt32 be (b.slice off 4) 0 := by
  simp only [wordAt32]
  rw [slice_getD (by omega), slice_getD (by omega), slice_getD (by omega),
    slice_getD (by omega), slice_getD (by omega), slice_getD (by omega),
    slice_getD (by omega), slice_getD (by omega)]
  simp only [zero_add, add_zero]

variable {order : Bool}

theorem wordAt32_of_slice {m : Nat} (h : off + 4 ≤ m)
    (hn : n < 2 ^ 32) (hb : b.slice off 4 = bytes32 order n) :
    wordAt32 order (b.slice 0 m) off = n := by
  rw [wordAt32_slice h, hb, ← append_nil (bytes32 order n), wordAt32_bytes32 order n [] hn]

theorem slice_one {i : Nat} {x : Byte} (h : i < n) (hb : b.slice i 1 = [x]) :
    (b.slice 0 n).getD i 0 = x := by
  rw [slice_getD h, zero_add]
  have hx : (b.slice i 1).getD 0 0 = x := by rw [hb, getD_cons_zero]
  rwa [slice_getD Nat.zero_lt_one, add_zero] at hx

variable {r : Recording} {e : ProtocolElement} {time : UInt32}

theorem header_stored {b' : Block} (h : writeFields b (headerFields r e time) = some b') :
    Header r.order e.pClient e.category 0 (b'.slice 0 sizeofReply) := by
  have htype : b'.slice 0 1 = [1] := writeFields_field [] (by simp) h
  have hcategory : b'.slice 1 1 = [e.category.code] := writeFields_field [_] (by simp) h
  have hlength : b'.slice 4 (r.card32 0).length = r.card32 0 :=
    writeFields_field [_, _, _] (by simp) h
  have hbase : b'.slice 12 (r.card32 (idBase e.pClient)).length = r.card32 (idBase e.pClient) :=
    writeFields_field [_, _, _, _, _, _] (by simp) h
  rw [r.card32_length, r.card32_eq] at hlength hbase
  have hlt : idBase e.pClient < 2 ^ 32 := by
    unfold idBase
    split
    · exact UInt32.toNat_lt _
    · norm_num
  exact ⟨slice_length .., slice_one (by decide) htype, slice_one (by decide) hcategory,
    wordAt32_of_slice (by decide) (by norm_num) hlength, wordAt32_of_slice (by decide) hlt hbase⟩

variable {length : Nat} {pClient : Option Client} {category : Category}

theorem Header.stored
    (h : Header order pClient category length (b.slice 0 sizeofReply)) (hn : n < 2 ^ 32) :
    Header order pClient category n ((b.store 4 (bytes32 order n)).slice 0 sizeofReply) := by
  have hself : (b.store 4 (bytes32 order n)).slice 4 4 = bytes32 order n := by
    have hslice := b.slice_store_self 4 (bytes32 order n)
    rwa [bytes32_length] at hslice
  have hbase : (b.store 4 (bytes32 order n)).slice 12 4 = b.slice 12 4 := by
    refine slice_store_after ?_
    rw [bytes32_length]
    omega
  have hfirst : ∀ i < 4, ((b.store 4 (bytes32 order n)).slice 0 sizeofReply).getD i 0 =
      (b.slice 0 sizeofReply).getD i 0 := by
    intro i hi
    have hlt : i < sizeofReply := lt_trans hi (by decide)
    rw [slice_getD hlt, slice_getD hlt, zero_add]
    exact if_pos hi
  refine ⟨slice_length .., ?_, ?_, wordAt32_of_slice (by decide) hn hself, ?_⟩
  · rw [hfirst 0 (by decide)]
    exact h.type
  · rw [hfirst 1 (by decide)]
    exact h.category
  · rw [wordAt32_slice (by decide), hbase, ← wordAt32_slice (n := sizeofReply) (by decide)]
    exact h.idBase

def words (r : Recording) (e : ProtocolElement) (time : UInt32) : Nat :=
  (elemHeaderData r e time).length / 4 + bytesToInt32 e.datalen + bytesToInt32 e.futurelen.toNat

variable {c : RecordContext}

open RecordContext

theorem adjustLength_spec (hc : c.Sound) (hsize : sizeofReply ≤ c.numBufBytes)
    (hheader : Header r.order pClient category length (c.replyBuffer.slice 0 sizeofReply))
    (hlt : length + words r e time < 2 ^ 32) :
    ∃ b, adjustLength r e ((elemHeaderData r e time).length / 4) c.replyBuffer = some b ∧
      b.size = c.replyBuffer.size ∧
      Header r.order pClient category (length + words r e time) (b.slice 0 sizeofReply) ∧
      b.slice 0 c.numBufBytes = b.slice 0 sizeofReply ++ c.buffered.drop sizeofReply := by
  have hread : c.replyBuffer.load32 r.host 4 =
      some (wordAt32 r.host (c.replyBuffer.slice 0 sizeofReply) 4) := by
    have hload : c.replyBuffer.load32 r.host (0 + 4) =
        some (wordAt32 r.host (c.replyBuffer.slice 0 sizeofReply) 4) :=
      load32_eq (by rw [hc.size]; decide) (by decide)
    rwa [zero_add] at hload
  have hfits : 4 + (r.card32 (length + words r e time)).length ≤ c.replyBuffer.size := by
    rw [r.card32_length, hc.size]
    decide
  refine ⟨c.replyBuffer.store 4 (r.card32 (length + words r e time)), ?_, rfl, ?_, ?_⟩
  · rw [adjustLength, hread, bind_some, r.swapl_load, hheader.length]
    exact write_eq hfits
  · rw [r.card32_eq]
    exact hheader.stored hlt
  · rw [buffered, slice_drop hsize, slice_split _ hsize]
    congr 1
    refine slice_store_after ?_
    rw [r.card32_length]
    decide

theorem not_changes (h : ¬ Changes c e) :
    c.pBufClient = e.pClient ∧ c.bufCategory = e.category := by
  unfold Changes at h
  push Not at h
  exact h

/-- The buffer is there, and it is that of the client and the category of the element. -/
structure Started (c : RecordContext) (e : ProtocolElement) : Prop where
  sound : c.Sound
  pClient : c.pBufClient = e.pClient
  category : c.bufCategory = e.category

theorem changeClient_empties (hc : c.Sound) (h : c.numBufBytes = 0 ∨ Changes c e) :
    ∃ c', changeClient c e = some (c', c.buffered) ∧ Started c' e ∧ c'.numBufBytes = 0 := by
  by_cases hchange : Changes c e
  · refine ⟨{ c with pBufClient := e.pClient, bufCategory := e.category, numBufBytes := 0 }, ?_,
      ⟨⟨hc.size, Nat.zero_le _, Nat.dvd_zero 4⟩, rfl, rfl⟩, rfl⟩
    refine (if_pos hchange).trans ?_
    rw [recordFlushReplyBuffer_eq hc, Option.map_some, dixWriteToClient_nil, append_nil, append_nil]
  · have hempty := h.resolve_right hchange
    obtain ⟨hclient, hcategory⟩ := not_changes hchange
    refine ⟨c, ?_, ⟨hc, hclient, hcategory⟩, hempty⟩
    rw [changeClient, c.buffered_empty hempty]
    exact if_neg hchange

theorem startReply_empty (r : Recording) (time : UInt32)
    (hc : Started c e) (hempty : c.numBufBytes = 0) :
    ∃ c', startReply r c e time = some c' ∧ Started c' e ∧ c'.numBufBytes = sizeofReply ∧
      Header r.order e.pClient e.category 0 (c'.replyBuffer.slice 0 sizeofReply) := by
  have hfit : ∀ f ∈ headerFields r e time, f.1 + f.2.length ≤ c.replyBuffer.size := by
    rw [hc.sound.size]
    simp [headerFields, replyBufSize]
  obtain ⟨b, hb, hsize⟩ := writeFields_some hfit
  refine ⟨{ c with replyBuffer := b, numBufBytes := sizeofReply }, ?_,
    ⟨⟨hsize.trans hc.sound.size, (by decide : sizeofReply ≤ replyBufSize),
      (by decide : 4 ∣ sizeofReply)⟩, hc.pClient, hc.category⟩, rfl,
    header_stored hb⟩
  rw [startReply, if_pos hempty, hb, map_some]

theorem startElement_opens (hc : c.Sound) (h : c.numBufBytes = 0 ∨ Changes c e)
    (hlt : words r e time < 2 ^ 32) :
    ∃ c', startElement r c e time = some (c', c.buffered) ∧ Started c' e ∧
      Header r.order e.pClient e.category (words r e time) c'.buffered := by
  obtain ⟨c1, hchange, hstarted1, hempty⟩ := changeClient_empties hc h
  obtain ⟨c2, hreply, hstarted2, hcount, hheader⟩ := startReply_empty r time hstarted1 hempty
  have hlt' : 0 + words r e time < 2 ^ 32 := by rwa [zero_add]
  obtain ⟨b, hb, hsize, hheader', hslice⟩ := adjustLength_spec hstarted2.sound
    (le_of_eq hcount.symm) hheader hlt'
  rw [zero_add] at hheader'
  refine ⟨{ c2 with replyBuffer := b }, ?_, ⟨⟨hsize.trans hstarted2.sound.size,
    hstarted2.sound.count, hstarted2.sound.aligned⟩, hstarted2.pClient, hstarted2.category⟩, ?_⟩
  · rw [startElement, hchange, bind_some]
    dsimp only
    rw [hreply, bind_some, hb, map_some]
  · have hbuffered : buffered { c2 with replyBuffer := b } = b.slice 0 sizeofReply := by
      rw [buffered, hcount]
    rw [hbuffered]
    exact hheader'

theorem startElement_joins (hc : c.Sound) (hsize : sizeofReply ≤ c.numBufBytes)
    (hchange : ¬ Changes c e)
    (hheader : Header r.order e.pClient e.category length (c.buffered.take sizeofReply))
    (hlt : length + words r e time < 2 ^ 32) :
    ∃ c' header, startElement r c e time = some (c', []) ∧ Started c' e ∧
      Header r.order e.pClient e.category (length + words r e time) header ∧
      c'.buffered = header ++ c.buffered.drop sizeofReply := by
  have hne : c.numBufBytes ≠ 0 := ne_of_gt (lt_of_lt_of_le (by decide) hsize)
  rw [buffered, slice_take hsize] at hheader
  obtain ⟨b, hb, hbsize, hheader', hslice⟩ := adjustLength_spec hc hsize hheader hlt
  obtain ⟨hclient, hcategory⟩ := not_changes hchange
  refine ⟨{ c with replyBuffer := b }, b.slice 0 sizeofReply, ?_,
    ⟨⟨hbsize.trans hc.size, hc.count, hc.aligned⟩, hclient, hcategory⟩, hheader', hslice⟩
  have hsame : changeClient c e = some (c, []) := if_neg hchange
  have hreply : startReply r c e time = some c := if_neg hne
  rw [startElement, hsame, bind_some]
  dsimp only
  rw [hreply, bind_some, hb, map_some]

/-- What has been written, and what is in the buffer, when `done` are the replies that are
complete and `current` is the one that was begun last. -/
structure Framed (order : Bool) (w : Watched) (written : List Byte) (recorded : List Recorded)
    (done : List Reply) (current : Option Reply) : Prop where
  sound : w.context.Sound
  bytes : written ++ w.context.buffered = (done ++ current.toList).flatMap Reply.bytes
  recorded : (done ++ current.toList).flatMap (·.elements) = recorded
  finished : ∀ reply ∈ done, reply.Fits order 0
  begun : ∀ reply ∈ current, reply.Fits order (bytesToInt32 w.pending) ∧ reply.elements ≠ []
  idle : current = none → w.pending = 0
  front : w.context.numBufBytes ≠ 0 → w.bare = false → ∃ reply ∈ current,
    w.context.buffered = reply.bytes ∧ reply.pClient = w.context.pBufClient ∧
    reply.category = w.context.bufCategory

section

variable {r : Recording} {w : Watched} {written : List Byte} {recorded : List Recorded}
  {done : List Reply} {current : Option Reply}

theorem Framed.all_done (h : Framed r.order w written recorded done current)
    (hpending : w.pending = 0) : ∀ reply ∈ done ++ current.toList, reply.Fits r.order 0 := by
  intro reply hreply
  rcases mem_append.mp hreply with hd | hcur
  · exact h.finished reply hd
  · have hfits := (h.begun reply (mem_toList.mp hcur)).1
    rwa [hpending] at hfits

variable {c' : RecordContext} {out data : List Byte}

theorem Puts.stream (h : Puts c c' out data) : out ++ c'.buffered = c.buffered ++ data := by
  rcases h.put with ⟨rfl, hb, -⟩ | ⟨rfl, hzero⟩
  · rw [hb, nil_append]
  · rw [buffered_empty hzero, append_nil]

theorem Puts.left (h : Puts c c' out data)
    (hne : c'.numBufBytes ≠ 0) : c'.buffered = c.buffered ++ data := by
  rcases h.put with ⟨-, hb, -⟩ | ⟨-, hzero⟩
  · exact hb
  · exact absurd hzero hne

theorem Framed.flush (h : Framed r.order w written recorded done current) :
    ∃ w' out, watch r w .flushAllContexts = some (w', out) ∧
      Framed r.order w' (written ++ out) recorded done current := by
  by_cases hempty : w.context.numBufBytes = 0
  · refine ⟨⟨w.context, w.pending, false⟩, [], ?_, h.sound, ?_, h.recorded, h.finished, h.begun,
      h.idle, fun hne => absurd hempty hne⟩
    · have hstep : step r w.context .flushAllContexts = some (w.context, []) := if_pos hempty
      rw [watch, hstep, map_some]
      rfl
    · rw [append_nil]
      exact h.bytes
  · refine ⟨⟨{ w.context with numBufBytes := 0 }, w.pending, false⟩, w.context.buffered, ?_,
      h.sound.flushed, ?_, h.recorded, h.finished, h.begun, h.idle, fun hne => absurd rfl hne⟩
    · have hstep : step r w.context .flushAllContexts =
          some ({ w.context with numBufBytes := 0 }, w.context.buffered) := by
        refine (if_neg hempty).trans ?_
        rw [recordFlushReplyBuffer_eq h.sound, dixWriteToClient_nil, append_nil, append_nil]
      rw [watch, hstep, map_some]
      rfl
    · have hnone : buffered { w.context with numBufBytes := 0 } = [] := rfl
      rw [hnone, append_nil]
      exact h.bytes

def started (r : Recording) (e : ProtocolElement) (time : UInt32) : Recorded :=
  ⟨e.pClient, e.category, elemHeaderData r e time ++ e.padded⟩

variable {e : ProtocolElement}

theorem started_length (time : UInt32) (hpad : e.padlen = paddingForInt32 e.data.length) :
    4 ∣ (started r e time).bytes.length ∧
      (started r e time).bytes.length / 4 + bytesToInt32 e.futurelen.toNat = words r e time := by
  have hlength : (started r e time).bytes.length = (elemHeaderData r e time).length + e.datalen := by
    rw [started, length_append, padded_length]
  have hheaders := (elemHeaderData_length r e time).1
  have hdata := datalen_aligned hpad
  rw [hlength, words]
  unfold bytesToInt32
  omega

theorem words_lt (time : UInt32) (hdata : e.datalen < 2 ^ 31)
    (hfuture : e.futurelen < 2 ^ 31) : words r e time < 2 ^ 31 := by
  have hheaders := (elemHeaderData_length r e time).2
  unfold words bytesToInt32
  omega

variable {time : UInt32}

section
variable (h : Framed r.order w written recorded done current)
include h

theorem Framed.opens
    (hstart : 0 ≤ e.futurelen) (hfed : Fed w (.element e time))
    (hopen : w.context.numBufBytes = 0 ∨ Changes w.context e) :
    ∃ w' out done' current', watch r w (.element e time) = some (w', out) ∧
      Framed r.order w' (written ++ out) (recordedAfter r recorded (.element e time))
        done' current' := by
  obtain ⟨hdata, hfuture, hpad, hbegin⟩ := hfed
  rw [if_pos hstart] at hbegin
  have hlt : words r e time < 2 ^ 32 := lt_of_lt_of_le (words_lt time hdata hfuture) (by decide)
  obtain ⟨halign, hwords⟩ := started_length (r := r) time hpad
  obtain ⟨c1, hc1, hstarted, hheader⟩ := startElement_opens h.sound hopen hlt
  obtain ⟨c2, out, hc2, hputs⟩ := recordData_puts hstarted.sound _
    (elemHeaderData_length r e time).1 hpad
  have hbody : Reply.body ⟨e.pClient, e.category, c1.buffered, [started r e time]⟩ =
      elemHeaderData r e time ++ e.padded := append_nil _
  refine ⟨⟨c2, e.futurelen.toNat, bareAfter w.context w.bare (.element e time)⟩,
    w.context.buffered ++ out, done ++ current.toList,
    some ⟨e.pClient, e.category, c1.buffered, [started r e time]⟩, ?_, hputs.sound, ?_, ?_,
    h.all_done hbegin.1, ?_, ?_, ?_⟩
  · have hstep : step r w.context (.element e time) = some (c2, w.context.buffered ++ out) := by
      refine (if_pos hstart).trans ?_
      rw [hc1, bind_some]
      dsimp only
      rw [hc2, map_some]
    rw [watch, hstep, map_some, pendingAfter, if_pos hstart]
  · rw [flatMap_append, ← h.bytes, toList_some, flatMap_singleton, Reply.bytes,
      hbody, ← append_assoc, append_assoc (written ++ _), hputs.stream]
  · rw [flatMap_append, h.recorded, recordedAfter, if_pos hstart]
    rfl
  · intro reply hreply
    rw [mem_some] at hreply
    subst hreply
    refine ⟨⟨?_, ?_, ?_⟩, cons_ne_nil _ _⟩
    · have hlength : (Reply.body ⟨e.pClient, e.category, c1.buffered,
          [started r e time]⟩).length / 4 + bytesToInt32 e.futurelen.toNat = words r e time := by
        rw [hbody]
        exact hwords
      rw [hlength]
      exact hheader
    · rw [hbody]
      exact halign
    · intro x hx
      rw [mem_singleton] at hx
      subst hx
      exact ⟨rfl, rfl⟩
  · intro hnone
    cases hnone
  · intro hne _
    refine ⟨_, rfl, ?_, ?_, ?_⟩
    · rw [Reply.bytes, hbody]
      exact hputs.left hne
    · exact (hputs.kept.1.trans hstarted.pClient).symm
    · exact (hputs.kept.2.trans hstarted.category).symm

theorem Framed.joins
    (hstart : 0 ≤ e.futurelen) (hfed : Fed w (.element e time))
    (hne : w.context.numBufBytes ≠ 0) (hchange : ¬ Changes w.context e) (hbare : w.bare = false) :
    ∃ w' out done' current', watch r w (.element e time) = some (w', out) ∧
      Framed r.order w' (written ++ out) (recordedAfter r recorded (.element e time))
        done' current' := by
  obtain ⟨hdata, hfuture, hpad, hbegin⟩ := hfed
  rw [if_pos hstart] at hbegin
  obtain ⟨reply, hcur, hfront, hclient, hcategory⟩ := h.front hne hbare
  rw [mem_def] at hcur
  subst hcur
  obtain ⟨⟨hheader, halign, hown⟩, helements⟩ := h.begun reply rfl
  have hzero : bytesToInt32 w.pending = 0 := by rw [hbegin.1]; rfl
  rw [hzero, add_zero, hclient, hcategory, (not_changes hchange).1,
    (not_changes hchange).2] at hheader
  have hsize := hheader.size
  have htake : w.context.buffered.take sizeofReply = reply.header := by
    rw [hfront, Reply.bytes, ← hsize, take_left]
  have hdrop : w.context.buffered.drop sizeofReply = reply.body := by
    rw [hfront, Reply.bytes, ← hsize, drop_left]
  have hcount : w.context.numBufBytes = sizeofReply + reply.body.length := by
    rw [← w.context.buffered_length, hfront, Reply.bytes, length_append, hsize]
  have hlt : reply.body.length / 4 + words r e time < 2 ^ 32 := by
    have hwords := words_lt (r := r) time hdata hfuture
    have hmost := h.sound.count
    unfold replyBufSize at hmost
    omega
  rw [← htake] at hheader
  obtain ⟨c1, header, hc1, hstarted, hheader', hbuffered⟩ := startElement_joins h.sound (by omega)
    hchange hheader hlt
  rw [hdrop] at hbuffered
  obtain ⟨halign', hwords⟩ := started_length (r := r) time hpad
  obtain ⟨c2, out, hc2, hputs⟩ := recordData_puts hstarted.sound _
    (elemHeaderData_length r e time).1 hpad
  have hbody : Reply.body ⟨e.pClient, e.category, header, reply.elements ++ [started r e time]⟩ =
      reply.body ++ (started r e time).bytes := by
    rw [Reply.body, flatMap_append, flatMap_singleton]
    rfl
  have hdone : written = done.flatMap Reply.bytes := by
    have hbytes := h.bytes
    rw [hfront, toList_some, flatMap_append, flatMap_singleton] at hbytes
    exact append_cancel_right hbytes
  refine ⟨⟨c2, e.futurelen.toNat, bareAfter w.context w.bare (.element e time)⟩, out, done,
    some ⟨e.pClient, e.category, header, reply.elements ++ [started r e time]⟩, ?_, hputs.sound,
    ?_, ?_, h.finished, ?_, ?_, ?_⟩
  · have hstep : step r w.context (.element e time) = some (c2, out) := by
      refine (if_pos hstart).trans ?_
      rw [hc1, bind_some]
      dsimp only
      rw [hc2, map_some, nil_append]
    rw [watch, hstep, map_some, pendingAfter, if_pos hstart]
  · rw [append_assoc, hputs.stream, hbuffered, flatMap_append, ← hdone,
      toList_some, flatMap_singleton, Reply.bytes, hbody, append_assoc header]
    rfl
  · rw [recordedAfter, if_pos hstart, ← h.recorded, toList_some, toList_some,
      flatMap_append, flatMap_append, flatMap_singleton, flatMap_singleton,
      append_assoc]
    rfl
  · intro reply' hreply
    rw [mem_some] at hreply
    subst hreply
    refine ⟨⟨?_, ?_, ?_⟩, append_ne_nil_of_right_ne_nil _ (cons_ne_nil _ _)⟩
    · have hlength : (Reply.body ⟨e.pClient, e.category, header,
          reply.elements ++ [started r e time]⟩).length / 4 + bytesToInt32 e.futurelen.toNat =
          reply.body.length / 4 + words r e time := by
        rw [hbody, length_append]
        omega
      rw [hlength]
      exact hheader'
    · rw [hbody, length_append]
      exact Nat.dvd_add halign halign'
    · intro x hx
      rcases mem_append.mp hx with hx | hx
      · obtain ⟨hxc, hxk⟩ := hown x hx
        exact ⟨hxc.trans (hclient.trans (not_changes hchange).1),
          hxk.trans (hcategory.trans (not_changes hchange).2)⟩
      · rw [mem_singleton] at hx
        subst hx
        exact ⟨rfl, rfl⟩
  · intro hnone
    cases hnone
  · intro hleft _
    refine ⟨_, rfl, ?_, ?_, ?_⟩
    · rw [Reply.bytes, hbody, hputs.left hleft, hbuffered, append_assoc]
      rfl
    · exact (hputs.kept.1.trans hstarted.pClient).symm
    · exact (hputs.kept.2.trans hstarted.category).symm

theorem Framed.continues
    (hmore : ¬ 0 ≤ e.futurelen) (hfed : Fed w (.element e time)) :
    ∃ w' out current', watch r w (.element e time) = some (w', out) ∧
      Framed r.order w' (written ++ out) (recordedAfter r recorded (.element e time))
        done current' := by
  obtain ⟨-, -, hpad, hleft⟩ := hfed
  rw [if_neg hmore] at hleft
  obtain ⟨c, out, hc, hputs⟩ := recordData_puts h.sound [] (Nat.dvd_zero 4) hpad
  rw [nil_append] at hputs
  have hwatch : watch r w (.element e time) = some (⟨c, w.pending - e.datalen,
      bareAfter w.context w.bare (.element e time)⟩, out) := by
    have hstep : step r w.context (.element e time) = some (c, out) := (if_neg hmore).trans hc
    rw [watch, hstep, map_some, pendingAfter, if_neg hmore]
  have hbare : bareAfter w.context w.bare (.element e time) = false →
      w.context.numBufBytes ≠ 0 ∧ w.bare = false := by
    intro hb
    rw [bareAfter, if_neg hmore, Bool.or_eq_false_iff, decide_eq_false_iff_not] at hb
    exact ⟨hb.2, hb.1⟩
  cases current with
  | none =>
    have hidle := h.idle rfl
    have hnone : e.padded = [] := by
      refine eq_nil_of_length_eq_zero ?_
      rw [padded_length]
      omega
    rw [hnone] at hputs
    refine ⟨_, out, none, hwatch, hputs.sound, ?_, ?_, h.finished, ?_, ?_, ?_⟩
    · rw [append_assoc, hputs.stream, append_nil]
      exact h.bytes
    · rw [recordedAfter, if_neg hmore, hnone, extendLast_nil]
      exact h.recorded
    · intro reply hreply
      cases hreply
    · intro _
      show w.pending - e.datalen = 0
      omega
    · intro _ hb
      obtain ⟨reply, hreply, -⟩ := h.front (hbare hb).1 (hbare hb).2
      cases hreply
  | some reply =>
    obtain ⟨⟨hheader, halign, hown⟩, helements⟩ := h.begun reply rfl
    have hbody : Reply.body { reply with elements := extendLast reply.elements e.padded } =
        reply.body ++ e.padded := extendLast_bytes helements e.padded
    have hdata := datalen_aligned hpad
    refine ⟨_, out, some { reply with elements := extendLast reply.elements e.padded }, hwatch,
      hputs.sound, ?_, ?_, h.finished, ?_, ?_, ?_⟩
    · have hbytes := h.bytes
      rw [toList_some, flatMap_append, flatMap_singleton] at hbytes
      rw [append_assoc, hputs.stream, ← append_assoc, hbytes, toList_some,
        flatMap_append, flatMap_singleton, Reply.bytes, Reply.bytes, hbody]
      simp only [append_assoc]
    · rw [recordedAfter, if_neg hmore, ← h.recorded, toList_some, toList_some,
        flatMap_append, flatMap_append, flatMap_singleton, flatMap_singleton,
        extendLast_append _ helements]
    · intro reply' hreply
      rw [mem_some] at hreply
      subst hreply
      refine ⟨⟨?_, ?_, ?_⟩, extendLast_ne_nil helements _⟩
      · have hlength : (Reply.body { reply with
            elements := extendLast reply.elements e.padded }).length / 4 +
            bytesToInt32 (w.pending - e.datalen) =
            reply.body.length / 4 + bytesToInt32 w.pending := by
          rw [hbody, length_append, padded_length]
          unfold bytesToInt32
          omega
        rw [hlength]
        exact hheader
      · rw [hbody, length_append, padded_length]
        exact Nat.dvd_add halign hdata
      · exact extendLast_own (fun _ _ hx => hx) hown
    · intro hnone
      cases hnone
    · intro hne hb
      obtain ⟨reply', hreply, hfront, hclient, hcategory⟩ := h.front (hbare hb).1 (hbare hb).2
      rw [mem_some] at hreply
      subst hreply
      refine ⟨_, rfl, ?_, ?_, ?_⟩
      · rw [Reply.bytes, hbody, hputs.left hne, hfront, Reply.bytes, append_assoc]
      · exact hclient.trans hputs.kept.1.symm
      · exact hcategory.trans hputs.kept.2.symm

theorem Framed.step {a : Act}
    (hfed : Fed w a) (hheaded : Headed w a) :
    ∃ w' out done' current', watch r w a = some (w', out) ∧
      Framed r.order w' (written ++ out) (recordedAfter r recorded a) done' current' := by
  cases a with
  | flushAllContexts =>
    obtain ⟨w', out, hw, h'⟩ := h.flush
    exact ⟨w', out, done, current, hw, h'⟩
  | element e time =>
    by_cases hstart : 0 ≤ e.futurelen
    · by_cases hopen : w.context.numBufBytes = 0 ∨ Changes w.context e
      · exact h.opens hstart hfed hopen
      · obtain ⟨hne, hchange⟩ := not_or.mp hopen
        have hbare := ((hheaded hstart).resolve_left hne).resolve_left hchange
        exact h.joins hstart hfed hne hchange hbare
    · obtain ⟨w', out, current', hw, h'⟩ := h.continues hstart hfed
      exact ⟨w', out, done, current', hw, h'⟩

end

variable {acts : List Act}

theorem Framed.run (h : Framed r.order w written recorded done current)
    (hfed : Guarded (watch r) Fed w acts) (hheaded : Guarded (watch r) Headed w acts) :
    ∃ w' outs done' current', exec (watch r) w acts = some (w', outs) ∧
      Framed r.order w' (written ++ outs.flatten) (acts.foldl (recordedAfter r) recorded)
        done' current' := by
  induction acts generalizing w written recorded done current with
  | nil =>
    refine ⟨w, [], done, current, rfl, ?_⟩
    rw [flatten_nil, append_nil]
    exact h
  | cons a acts ih =>
    obtain ⟨w1, out, done1, current1, hw, h1⟩ := h.step hfed.1 hheaded.1
    obtain ⟨w', outs, done', current', hexec, h'⟩ := ih h1 (hfed.2 w1 out hw)
      (hheaded.2 w1 out hw)
    refine ⟨w', out :: outs, done', current', ?_, ?_⟩
    · rw [exec_cons acts hw, hexec, map_some]
    · rw [flatten_cons, ← append_assoc]
      exact h'

theorem exec_watch {w' : Watched} {outs : List (List Byte)}
    (h : exec (watch r) w acts = some (w', outs)) :
    exec (step r) w.context acts = some (w'.context, outs) ∧
      w'.pending = acts.foldl pendingAfter w.pending := by
  induction acts generalizing w outs with
  | nil =>
    cases h
    exact ⟨rfl, rfl⟩
  | cons a acts ih =>
    obtain ⟨⟨w1, out⟩, hw, hrest⟩ := bind_eq_some_iff.mp h
    obtain ⟨⟨w2, outs'⟩, hexec, he⟩ := map_eq_some_iff.mp hrest
    cases he
    obtain ⟨⟨c1, out1⟩, hstep, hwatched⟩ := map_eq_some_iff.mp hw
    cases hwatched
    obtain ⟨hctx, hpending⟩ := ih hexec
    refine ⟨?_, hpending⟩
    rw [exec_cons acts hstep, hctx, map_some]

theorem Framed.wellFramed (h : Framed r.order w written recorded done current) :
    WellFramed r.order (done ++ current.toList) w.pending := by
  cases current with
  | none =>
    have hidle := h.idle rfl
    rw [toList_none, append_nil]
    refine ⟨fun reply hreply => h.finished reply (dropLast_subset done hreply), ?_, fun _ => hidle⟩
    intro reply hreply
    rw [hidle]
    exact h.finished reply (mem_of_getLast? hreply)
  | some reply =>
    rw [toList_some]
    refine ⟨?_, ?_, fun hnil => absurd hnil (append_ne_nil_of_right_ne_nil _ (cons_ne_nil _ _))⟩
    · rw [dropLast_concat]
      exact h.finished
    · intro reply' hreply
      rw [getLast?_concat, mem_some] at hreply
      subst hreply
      exact (h.begun reply rfl).1

end

theorem data_stream_framed (r : Recording) (c : RecordContext)
    (hsize : c.replyBuffer.size = replyBufSize) (hempty : c.numBufBytes = 0) (acts : List Act)
    (hfed : Guarded (watch r) Fed (Watched.start c) acts)
    (hheaded : Guarded (watch r) Headed (Watched.start c) acts) : StreamFramed r c acts := by
  have hsound : c.Sound := ⟨hsize, by rw [hempty]; exact Nat.zero_le _, by rw [hempty]; exact Nat.dvd_zero 4⟩
  have hstart : Framed r.order (Watched.start c) [] [] [] none := by
    refine ⟨hsound, ?_, rfl, ?_, ?_, fun _ => rfl, fun hne => absurd hempty hne⟩
    · exact buffered_empty hempty
    · intro reply hreply
      cases hreply
    · intro reply hreply
      cases hreply
  obtain ⟨w', outs, done, current, hexec, h⟩ := hstart.run hfed hheaded
  obtain ⟨hctx, hpending⟩ := exec_watch hexec
  have hframed := h.wellFramed
  rw [hpending] at hframed
  exact ⟨w'.context, outs, done ++ current.toList, hctx, h.bytes, h.recorded, hframed⟩

theorem WellFramed.fits {replies : List Reply} (h : WellFramed order replies 0) :
    ∀ reply ∈ replies, reply.Fits order 0 := by
  intro reply hreply
  rcases eq_nil_or_concat replies with rfl | ⟨before, last, rfl⟩
  · cases hreply
  · rw [concat_eq_append] at h hreply
    rcases mem_append.mp hreply with hbefore | hlast
    · exact h.complete reply (by rwa [dropLast_concat])
    · rw [mem_singleton] at hlast
      subst hlast
      exact h.last reply (by rw [getLast?_concat]; exact mem_some_self reply)

section

def littleEndian : Recording := ⟨false, false, 1, 0⟩

def enabled : RecordContext := ⟨none, .startOfData, 0, zeroed replyBufSize⟩

def call (data : List Byte) (padlen : Nat) (futurelen : Int) : Act :=
  .element ⟨some ⟨0x200000, false⟩, 5, .fromServer, data, padlen, futurelen⟩ 7

/-- A reply in two pieces and another one. -/
theorem data_stream_framed_two : StreamFramed littleEndian enabled
    [call [1, 2, 3, 4] 0 4, call [5, 6, 7] 1 (-1), call [8, 9, 10, 11] 0 0, .flushAllContexts] :=
  data_stream_framed littleEndian enabled rfl rfl _ (by decide +kernel) (by decide +kernel)

def splitByFlush : List Act :=
  [call [0, 0, 0, 0] 0 4, .flushAllContexts, call [0, 0, 0, 0] 0 (-1), call [0, 0, 0, 0] 0 0,
    .flushAllContexts]

def splitStream : List Byte :=
  [1, 0, 1, 0, 2, 0, 0, 0, 0, 0, 0, 0, 0, 0, 32, 0, 7, 0, 0, 0, 5, 0, 0, 0, 0, 0, 0, 0, 0, 0, 0,
    0] ++ [0, 0, 0, 0, 0, 0, 0, 0, 0, 0, 0, 0]

/-- The second reply has no header, and the length of the first does not count it. -/
theorem data_stream_not_framed :
    Guarded (watch littleEndian) Fed (Watched.start enabled) splitByFlush ∧
      ¬ StreamFramed littleEndian enabled splitByFlush := by
  refine ⟨by decide +kernel, ?_⟩
  rintro ⟨c, outs, replies, hexec, hbytes, -, hframed⟩
  have hrun : (exec (step littleEndian) enabled splitByFlush).map
      (fun run => run.2.flatten ++ run.1.buffered) = some splitStream := by decide +kernel
  rw [hexec, map_some, some.injEq, hbytes] at hrun
  have hfits := WellFramed.fits hframed
  have htotal := congrArg length hrun
  cases replies with
  | nil => exact absurd htotal (by decide)
  | cons first rest =>
    have hfirst := hfits first mem_cons_self
    have hsize := hfirst.header.size
    have hlength := hfirst.header.length
    have hheader : first.header = splitStream.take sizeofReply := by
      rw [← hrun, flatMap_cons, Reply.bytes, append_assoc, ← hsize, take_left]
    have htwo : wordAt32 littleEndian.order (splitStream.take sizeofReply) 4 = 2 := by decide
    rw [hheader, htwo] at hlength
    have hbody := hfirst.aligned
    have hstream : splitStream.length = 44 := by decide
    rw [hstream, flatMap_cons, length_append, Reply.bytes, length_append, hsize,
      sizeofReply] at htotal
    cases rest with
    | nil =>
      rw [flatMap_nil, length_nil] at htotal
      omega
    | cons second rest =>
      have hsecond := (hfits second (mem_cons_of_mem _ mem_cons_self)).header.size
      rw [flatMap_cons, length_append, Reply.bytes, length_append, hsecond, sizeofReply] at htotal
      omega

end

end Xfront.Record
