import Xfront.Record.Elements

/-!
# The reply buffer of a context

What the parts of `RecordAProtocolElement` do to the bytes in the buffer: a flush writes them,
data is put behind them, and the header at their front has the fields that were stored.
-/

namespace Xfront.Record
open Xfront.Bytes Xfront.Output List Option Nat Block ProtocolElement

def Recording.order (r : Recording) : Bool := r.host != r.swapped

theorem bytes32_bswap32 (be : Bool) (n : Nat) : bytes32 be (bswap32 n) = bytes32 (!be) n := by
  have h0 : n % 256 < 256 := mod_lt _ (by norm_num)
  have h1 : n / 256 % 256 < 256 := mod_lt _ (by norm_num)
  have h2 : n / 65536 % 256 < 256 := mod_lt _ (by norm_num)
  have h3 : n / 16777216 % 256 < 256 := mod_lt _ (by norm_num)
  have hswap : bswap32 n = ((n % 256 * 256 + n / 256 % 256) * 256 + n / 65536 % 256) * 256 +
      n / 16777216 % 256 := by
    rw [bswap32_eq]
    ring
  obtain ⟨d3, d2, d1, d0⟩ := digits32 h0 h1 h2 h3
  cases be <;> simp [bytes32, digit, hswap, d3, d2, d1, d0]

theorem Recording.card32_eq (r : Recording) (n : Nat) : r.card32 n = bytes32 r.order n := by
  unfold card32 swapl order
  cases hs : r.swapped with
  | true => simp [bytes32_bswap32]
  | false => simp

theorem Recording.swapl_load (r : Recording) (b : List Byte) (off : Nat) :
    r.swapl (wordAt32 r.host b off) = wordAt32 r.order b off := by
  unfold swapl order wordAt32
  cases hs : r.swapped with
  | true => simp [bswap32_word32]
  | false => simp

@[simp] theorem Recording.card32_length (r : Recording) (n : Nat) : (r.card32 n).length = 4 := by
  rw [r.card32_eq, bytes32_length]

@[simp] theorem Recording.card16_length (r : Recording) (n : Nat) : (r.card16 n).length = 2 :=
  bytes16_length ..

theorem elemHeaderData_length (r : Recording) (e : ProtocolElement) (time : UInt32) :
    4 ∣ (elemHeaderData r e time).length ∧ (elemHeaderData r e time).length ≤ 8 := by
  unfold elemHeaderData
  split <;> split <;> simp

theorem paddingForInt32_eq_zero {n : Nat} (h : 4 ∣ n) : paddingForInt32 n = 0 := by
  unfold paddingForInt32
  omega

theorem dixWriteToClient_aligned {buf : List Byte} (h : 4 ∣ buf.length) :
    dixWriteToClient buf = buf := by
  rw [dixWriteToClient, paddingForInt32_eq_zero h, replicate_zero, append_nil]

theorem dixWriteToClient_nil : dixWriteToClient [] = [] := rfl

theorem padded_length (e : ProtocolElement) : e.padded.length = e.datalen := by
  simp [padded, datalen]

theorem datalen_aligned {e : ProtocolElement} (h : e.padlen = paddingForInt32 e.data.length) :
    4 ∣ e.datalen := by
  rw [datalen, h]
  unfold paddingForInt32
  omega

def RecordContext.buffered (c : RecordContext) : List Byte := c.replyBuffer.slice 0 c.numBufBytes

structure RecordContext.Sound (c : RecordContext) : Prop where
  size : c.replyBuffer.size = replyBufSize
  count : c.numBufBytes ≤ replyBufSize
  aligned : 4 ∣ c.numBufBytes

theorem RecordContext.buffered_length (c : RecordContext) : c.buffered.length = c.numBufBytes :=
  slice_length ..

variable {c : RecordContext}

theorem RecordContext.buffered_empty (h : c.numBufBytes = 0) : c.buffered = [] := by
  rw [buffered, h, slice_zero]

theorem recordFlushReplyBuffer_eq (hc : c.Sound) (data1 data2 : List Byte) :
    recordFlushReplyBuffer c data1 data2 = some ({ c with numBufBytes := 0 },
      c.buffered ++ dixWriteToClient data1 ++ dixWriteToClient data2) := by
  have hread : c.replyBuffer.read 0 c.numBufBytes = some c.buffered := by
    refine read_eq ?_
    rw [hc.size, zero_add]
    exact hc.count
  have halign : 4 ∣ c.buffered.length := by
    rw [c.buffered_length]
    exact hc.aligned
  rw [recordFlushReplyBuffer, hread, map_some, dixWriteToClient_aligned halign]

theorem RecordContext.Sound.flushed (hc : c.Sound) :
    RecordContext.Sound { c with numBufBytes := 0 } :=
  ⟨hc.size, zero_le _, Nat.dvd_zero 4⟩

theorem append_eq (c : RecordContext) (data : List Byte)
    (h : c.numBufBytes + data.length ≤ c.replyBuffer.size) : ∃ c', c.append data = some c' ∧
      c'.buffered = c.buffered ++ data ∧ c'.replyBuffer.size = c.replyBuffer.size ∧
      c'.numBufBytes = c.numBufBytes + data.length ∧ c'.pBufClient = c.pBufClient ∧
      c'.bufCategory = c.bufCategory := by
  refine ⟨{ c with replyBuffer := c.replyBuffer.store c.numBufBytes data,
                   numBufBytes := c.numBufBytes + data.length }, ?_, ?_, rfl, rfl, rfl, rfl⟩
  · rw [RecordContext.append, write_eq h, map_some]
  · have hself : (c.replyBuffer.store c.numBufBytes data).slice (0 + c.numBufBytes) data.length =
        data := by
      rw [zero_add]
      exact slice_store_self ..
    rw [RecordContext.buffered, slice_append, hself, slice_store_before (le_of_eq (zero_add _))]
    rfl

/-- How data is recorded: it stays in the buffer, or the buffer and the data are written. -/
structure Puts (c c' : RecordContext) (out data : List Byte) : Prop where
  sound : c'.Sound
  kept : c'.pBufClient = c.pBufClient ∧ c'.bufCategory = c.bufCategory
  put : out = [] ∧ c'.buffered = c.buffered ++ data ∧ c'.numBufBytes = c.numBufBytes + data.length ∨
    out = c.buffered ++ data ∧ c'.numBufBytes = 0

theorem recordData_puts (hc : c.Sound) (headers : List Byte)
    {e : ProtocolElement} (hheaders : 4 ∣ headers.length)
    (hpad : e.padlen = paddingForInt32 e.data.length) :
    ∃ c' out, recordData c headers e = some (c', out) ∧ Puts c c' out (headers ++ e.padded) := by
  have hlength : (headers ++ e.padded).length = headers.length + e.datalen := by
    rw [length_append, padded_length]
  have hdatalen : e.datalen = e.data.length + e.padlen := rfl
  have halign := datalen_aligned hpad
  have hsize := hc.size
  have hcount := hc.aligned
  unfold recordData
  split
  · rename_i hroom
    obtain ⟨c1, h1, hb1, hs1, hn1, hp1, hk1⟩ := append_eq c headers (by omega)
    obtain ⟨c2, h2, hb2, hs2, hn2, hp2, hk2⟩ := append_eq c1 e.data (by omega)
    obtain ⟨c3, h3, hb3, hs3, hn3, hp3, hk3⟩ := append_eq c2 (replicate e.padlen 0) (by
        rw [length_replicate]
        omega)
    rw [length_replicate] at hn3
    refine ⟨c3, [], ?_, ⟨by omega, by omega, by omega⟩, ⟨?_, ?_⟩, .inl ⟨rfl, ?_, ?_⟩⟩
    · rw [h1, bind_some, h2, bind_some, h3, map_some]
    · rw [hp3, hp2, hp1]
    · rw [hk3, hk2, hk1]
    · rw [hb3, hb2, hb1, padded]
      simp only [append_assoc]
    · omega
  · refine ⟨_, _, recordFlushReplyBuffer_eq hc headers e.data, hc.flushed, ⟨rfl, rfl⟩,
      .inr ⟨?_, rfl⟩⟩
    rw [dixWriteToClient_aligned hheaders, append_assoc]
    congr 2
    rw [dixWriteToClient, padded, hpad]

variable {b : Block}

theorem writeFields_some {fields : List (Nat × List Byte)}
    (h : ∀ f ∈ fields, f.1 + f.2.length ≤ b.size) :
    ∃ b', writeFields b fields = some b' ∧ b'.size = b.size := by
  induction fields generalizing b with
  | nil => exact ⟨b, rfl, rfl⟩
  | cons f fields ih =>
    obtain ⟨b', hb, hs⟩ := ih (b := b.store f.1 f.2) fun g hg => h g (mem_cons_of_mem _ hg)
    refine ⟨b', ?_, hs⟩
    rw [writeFields, foldlM_cons, write_eq (h f mem_cons_self)]
    exact hb

theorem writeFields_before {b' : Block} {fields : List (Nat × List Byte)} {p n : Nat}
    (h : ∀ f ∈ fields, p + n ≤ f.1) (hw : writeFields b fields = some b') :
    b'.slice p n = b.slice p n := by
  induction fields generalizing b with
  | nil =>
    cases hw
    rfl
  | cons f fields ih =>
    rw [writeFields, foldlM_cons] at hw
    obtain ⟨b1, h1, hw⟩ := bind_eq_some_iff.mp hw
    have hstore : b1 = b.store f.1 f.2 := by
      unfold write at h1
      split at h1
      · exact (some.inj h1).symm
      · cases h1
    rw [ih (fun g hg => h g (mem_cons_of_mem _ hg)) hw, hstore,
      slice_store_before (h f mem_cons_self)]

theorem writeFields_field {b' : Block} (before : List (Nat × List Byte))
    {after : List (Nat × List Byte)} {off : Nat} {data : List Byte} (h : ∀ f ∈ after, off + data.length ≤ f.1)
    (hw : writeFields b (before ++ (off, data) :: after) = some b') :
    b'.slice off data.length = data := by
  rw [writeFields, foldlM_append] at hw
  obtain ⟨b1, -, hw⟩ := bind_eq_some_iff.mp hw
  rw [foldlM_cons] at hw
  obtain ⟨b2, h2, hw⟩ := bind_eq_some_iff.mp hw
  have hstore : b2 = b1.store off data := by
    unfold write at h2
    split at h2
    · exact (some.inj h2).symm
    · cases h2
  rw [writeFields_before h hw, hstore, slice_store_self]

end Xfront.Record
