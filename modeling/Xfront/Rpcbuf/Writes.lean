import Xfront.Lib.Bytes

/-!
# Reply buffers

Typed writes go behind each other into an `x_rpcbuf_t`, whose block grows in chunks. A failed
allocation is latched in `error`, and from then on nothing moves any more.
-/

namespace Xfront
open Xfront.Bytes List

/-- An `x_rpcbuf_t`. `failed` is not a field of the source: it tells whether an allocation has
failed, for this buffer or for one that was written into it. -/
structure Rpcbuf where
  size : Nat
  wpos : Nat
  buffer : Option Block
  swapped : Bool
  error : Bool
  errClear : Bool
  failed : Bool

namespace Rpcbuf

/-- The byte order, and what `realloc` does for a new size: it fails, or there are other bytes
behind the old ones. A buffer asks for no size twice. -/
structure Host where
  bigEndian : Bool
  realloc : Nat → Option (Nat → Byte)

def zero (swapped errClear : Bool) : Rpcbuf := ⟨0, 0, none, swapped, false, errClear, false⟩

def chunkSize : Nat := 4096

def block (b : Rpcbuf) : Block := b.buffer.getD (Block.zeroed 0)

/-- The first `wpos` bytes. -/
def contents (b : Rpcbuf) : List Byte := b.block.slice 0 b.wpos

def fail (b : Rpcbuf) : Rpcbuf :=
  { b with error := true, failed := true, buffer := if b.errClear then none else b.buffer }

variable (m : Host)

def makeroom (b : Rpcbuf) (needed : Nat) : Bool × Rpcbuf :=
  if b.error then (false, b)
  else if b.size > b.wpos + needed then (true, b)
  else
    let newsize := ((b.wpos + needed) / chunkSize + 1) * chunkSize
    match m.realloc newsize with
    | none => (false, b.fail)
    | some junk =>
      (true, { b with buffer := some (b.block.resize newsize junk), size := newsize })

def reserve (b : Rpcbuf) (needed : Nat) : Option Nat × Rpcbuf :=
  match makeroom m b needed with
  | (false, b) => (none, b)
  | (true, b) => (some b.wpos, { b with wpos := b.wpos + needed })

/-- Reserves the bytes and stores them; a store outside the block has no result. -/
def put (b : Rpcbuf) (data : List Byte) : Option (Bool × Rpcbuf) :=
  match reserve m b data.length with
  | (none, b) => some (false, b)
  | (some pos, b) =>
    (b.block.write pos data).map fun block => (true, { b with buffer := some block })

def cardBytes (be : Bool) (w v : Nat) : List Byte :=
  let bytes := (List.range w).map (digit v)
  if be then bytes.reverse else bytes

/-- A value as it is stored, swapped when the buffer is. -/
def stored (b : Rpcbuf) (w v : Nat) : List Byte :=
  if b.swapped then (cardBytes m.bigEndian w v).reverse else cardBytes m.bigEndian w v

def writeCARD (w : Nat) (b : Rpcbuf) (value : BitVec (8 * w)) : Option (Bool × Rpcbuf) :=
  put m b (stored m b w value.toNat)

def writeCARD8 := writeCARD m 1
def writeCARD16 := writeCARD m 2
def writeCARD32 := writeCARD m 4
def writeCARD64 := writeCARD m 8

/-- An array is NULL or has `count` elements. -/
def writeCARDs (w : Nat) (b : Rpcbuf) (values : Option (List (BitVec (8 * w)))) :
    Option (Bool × Rpcbuf) :=
  match values with
  | none | some [] => some (true, b)
  | some values => put m b (values.flatMap fun v => stored m b w v.toNat)

def writeCARD8s := writeCARDs m 1
def writeCARD16s := writeCARDs m 2
def writeCARD32s := writeCARDs m 4
def writeCARD64s := writeCARDs m 8

/-- `pad_to_int32` works on an `int`; what does not fit has no result. -/
def padToInt32 (bytes : Nat) : Option Nat :=
  if bytes + 3 < 2 ^ 31 then some ((bytes + 3) / 4 * 4) else none

def writeBinPad (b : Rpcbuf) (data : List Byte) : Option (Bool × Rpcbuf) := do
  let blen ← padToInt32 data.length
  put m b (data ++ replicate (blen - data.length) 0)

def writeBinaryPad (b : Rpcbuf) (data : Option (List Byte)) : Option (Bool × Rpcbuf) :=
  match data with
  | none | some [] => some (true, b)
  | some data => writeBinPad m b data

/-- A C string is NULL or the bytes in front of its 0. -/
def writeStringPad (b : Rpcbuf) (str : Option (List Byte)) : Option (Bool × Rpcbuf) :=
  match str with
  | none => some (true, b)
  | some str => writeBinPad m b str

def writeString0tPad (b : Rpcbuf) (str : Option (List Byte)) : Option (Bool × Rpcbuf) :=
  match str with
  | none => writeCARD32 m b 0
  | some str => writeBinPad m b (str ++ [0])

def padding (wpos : Nat) : List Byte := replicate ((wpos + 3) / 4 * 4 - wpos) 0

def pad (b : Rpcbuf) : Option (Bool × Rpcbuf) := put m b (padding b.wpos)

def writeCountedStringPad (b : Rpcbuf) (str : Option (List Byte)) : Option (Bool × Rpcbuf) := do
  let str := str.getD []
  let len := BitVec.ofNat 16 str.length
  let (_, b) ← writeCARD16 m b len
  let (_, b) ← if len = 0 then some (true, b) else put m b (str.take len.toNat)
  pad m b

/-- The source buffer, which is cleared afterwards, has a NULL block only when it is empty. -/
def writeRpcbufPad (b : Rpcbuf) (source : Option Rpcbuf) : Option (Bool × Rpcbuf) :=
  match source with
  | none => some (true, b)
  | some source =>
    if source.error then some (false, b.fail) else writeBinaryPad m b (some source.contents)

def writeRect (b : Rpcbuf) (x y width height : BitVec 16) : Option (Bool × Rpcbuf) := do
  let (_, b) ← writeCARD16 m b x
  let (_, b) ← writeCARD16 m b y
  let (_, b) ← writeCARD16 m b width
  writeCARD16 m b height

structure Wf (b : Rpcbuf) : Prop where
  wpos_le : b.wpos ≤ b.size
  block_size : b.error = false → b.block.size = b.size
  error_eq : b.error = b.failed

/-- An error stays, and where there is none the bytes are there. -/
structure Wrote (b : Rpcbuf) (bs : List Byte) (done : Bool) (b' : Rpcbuf) : Prop where
  wf : b'.Wf
  swapped_eq : b'.swapped = b.swapped
  latched : b.error = true → b'.error = true ∧ b'.wpos = b.wpos ∧ (bs ≠ [] → done = false)
  appended : b'.error = false → b.error = false ∧ b'.contents = b.contents ++ bs

def Writes (b : Rpcbuf) (bs : List Byte) (result : Option (Bool × Rpcbuf)) : Prop :=
  ∃ done b', result = some (done, b') ∧ Wrote b bs done b'

variable {b b' : Rpcbuf} {bs cs data : List Byte} {done : Bool}

theorem contents_length (b : Rpcbuf) : b.contents.length = b.wpos := Block.slice_length ..

theorem writes_nothing (h : b.Wf) : Writes b [] (some (true, b)) :=
  ⟨true, b, rfl, h, rfl, fun he => ⟨he, rfl, absurd rfl⟩, fun ho => ⟨ho, (append_nil _).symm⟩⟩

theorem writes_fail (h : b.Wf) (bs : List Byte) : Writes b bs (some (false, b.fail)) :=
  ⟨false, b.fail, rfl, ⟨h.wpos_le, by simp [fail], rfl⟩, rfl,
    fun _ => ⟨rfl, rfl, fun _ => rfl⟩, by simp [fail]⟩

theorem makeroom_spec (h : b.Wf) (hopen : b.error = false) (needed : Nat) :
    makeroom m b needed = (false, b.fail) ∨
      ∃ b', makeroom m b needed = (true, b') ∧ b'.Wf ∧ b'.error = false ∧
        b'.swapped = b.swapped ∧ b'.wpos = b.wpos ∧ b.wpos + needed ≤ b'.size ∧
        b'.contents = b.contents := by
  have hsize := h.block_size hopen
  have hwpos := h.wpos_le
  unfold makeroom
  rw [if_neg (by simp [hopen])]
  by_cases hroom : b.size > b.wpos + needed
  · rw [if_pos hroom]
    exact .inr ⟨b, rfl, h, hopen, rfl, rfl, by omega, rfl⟩
  · rw [if_neg hroom]
    dsimp only
    split
    · exact .inl rfl
    · have hchunk : b.wpos + needed ≤ ((b.wpos + needed) / chunkSize + 1) * chunkSize := by
        rw [chunkSize]
        omega
      exact .inr ⟨_, rfl, ⟨le_trans (Nat.le_add_right ..) hchunk, fun _ => rfl, h.error_eq⟩, hopen,
        rfl, rfl, hchunk, Block.slice_resize (by dsimp only; omega)⟩

theorem put_error (hopen : b.error = true) : put m b data = some (false, b) := by
  rw [put, reserve, makeroom, if_pos hopen]

theorem put_spec (h : b.Wf) (data : List Byte) : Writes b data (put m b data) := by
  cases hopen : b.error with
  | true =>
    rw [put_error m hopen]
    exact ⟨false, b, rfl, h, rfl, fun he => ⟨he, rfl, fun _ => rfl⟩, by simp [hopen]⟩
  | false =>
    unfold put reserve
    obtain hroom | ⟨b', hroom, h', hopen', hswap, hwpos, hle, hbytes⟩ :=
      makeroom_spec m h hopen data.length
    · rw [hroom]
      exact writes_fail h data
    · have hsize := h'.block_size hopen'
      rw [hroom]
      dsimp only
      rw [show (Rpcbuf.block { b' with wpos := b'.wpos + data.length }) = b'.block from rfl,
        Block.write_eq (by omega)]
      refine ⟨true, _, rfl, ⟨by dsimp only; omega, fun _ => hsize, h'.error_eq⟩, hswap,
        by simp [hopen], fun _ => ⟨hopen, ?_⟩⟩
      rw [contents, block, Option.getD_some, Block.slice_append, ← hbytes, zero_add,
        Block.slice_store_self, Block.slice_store_before (by omega)]
      rfl

/-- A write that goes on where another one ended. -/
theorem Wrote.put (h : Wrote b bs done b') (hdata : b'.error = false → data = cs) :
    Writes b (bs ++ cs) (put m b' data) := by
  cases hopen : b'.error with
  | true =>
    rw [put_error m hopen]
    exact ⟨false, b', rfl, h.wf, h.swapped_eq,
      fun he => ⟨hopen, (h.latched he).2.1, fun _ => rfl⟩, by simp [hopen]⟩
  | false =>
    obtain ⟨hb, hbytes⟩ := h.appended hopen
    obtain ⟨done', b'', hput, h'⟩ := put_spec m h.wf data
    exact ⟨done', b'', hput, h'.wf, h'.swapped_eq.trans h.swapped_eq, by simp [hb], fun ho =>
      ⟨hb, by rw [(h'.appended ho).2, hbytes, append_assoc, hdata hopen]⟩⟩

theorem stored_eq (w v : Nat) : stored m b w v = cardBytes (m.bigEndian != b.swapped) w v := by
  cases hswap : b.swapped <;> cases hbig : m.bigEndian <;> simp [stored, cardBytes, hswap, hbig]

theorem writeCARD_spec (h : b.Wf) (w : Nat) (v : BitVec (8 * w)) :
    Writes b (cardBytes (m.bigEndian != b.swapped) w v.toNat) (writeCARD m w b v) := by
  rw [writeCARD, stored_eq]
  exact put_spec m h _

theorem Wrote.card (h : Wrote b bs done b') (w : Nat) (v : BitVec (8 * w)) :
    Writes b (bs ++ cardBytes (m.bigEndian != b.swapped) w v.toNat) (writeCARD m w b' v) := by
  rw [writeCARD, stored_eq, h.swapped_eq]
  exact h.put m fun _ => rfl

theorem Wrote.pad (h : Wrote b bs done b') :
    Writes b (bs ++ padding (b.wpos + bs.length)) (pad m b') :=
  h.put m fun hopen => by
    rw [← contents_length b', (h.appended hopen).2, length_append, contents_length]

def padded (data : List Byte) : List Byte := data ++ padding data.length

theorem writeBinPad_spec (h : b.Wf) (hfits : data.length + 3 < 2 ^ 31) :
    Writes b (padded data) (writeBinPad m b data) := by
  rw [writeBinPad, padToInt32, if_pos hfits]
  exact put_spec m h _

theorem writeBinPad_none (h : 2 ^ 31 ≤ data.length + 3) : writeBinPad m b data = none := by
  rw [writeBinPad, padToInt32, if_neg (by omega)]
  rfl

theorem writeBinaryPad_spec (h : b.Wf) {data : Option (List Byte)}
    (hfits : (data.getD []).length + 3 < 2 ^ 31) :
    Writes b (padded (data.getD [])) (writeBinaryPad m b data) := by
  unfold writeBinaryPad
  split
  · exact writes_nothing h
  · exact writes_nothing h
  · exact writeBinPad_spec m h hfits

/-- The number in front of a counted string has 16 bits. -/
def countedString (be : Bool) (pos : Nat) (str : List Byte) : List Byte :=
  let text := cardBytes be 2 (str.length % 2 ^ 16) ++ str.take (str.length % 2 ^ 16)
  text ++ padding (pos + text.length)

@[simp] theorem cardBytes_length (be : Bool) (w v : Nat) : (cardBytes be w v).length = w := by
  cases be <;> simp [cardBytes]

theorem writeCountedStringPad_spec (h : b.Wf) (str : Option (List Byte)) :
    Writes b (countedString (m.bigEndian != b.swapped) b.wpos (str.getD []))
      (writeCountedStringPad m b str) := by
  obtain ⟨_, b₁, hrun₁, h₁⟩ := writeCARD_spec m h 2 (BitVec.ofNat 16 (str.getD []).length)
  simp only [writeCountedStringPad, writeCARD16, hrun₁, Option.bind_eq_bind, Option.bind_some,
    countedString]
  rw [BitVec.toNat_ofNat] at *
  split_ifs with hlen
  · have hzero : (str.getD []).length % 2 ^ 16 = 0 := by simpa using congrArg BitVec.toNat hlen
    rw [hzero, take_zero, append_nil, ← hzero]
    exact h₁.pad m
  · obtain ⟨_, _, hrun₂, h₂⟩ : Writes b _
        (Rpcbuf.put m b₁ ((str.getD []).take ((str.getD []).length % 2 ^ 16))) :=
      h₁.put m fun _ => rfl
    rw [hrun₂]
    exact h₂.pad m

theorem writeRect_spec (h : b.Wf) (x y width height : BitVec 16) :
    Writes b ([x, y, width, height].flatMap fun v =>
      cardBytes (m.bigEndian != b.swapped) 2 v.toNat) (writeRect m b x y width height) := by
  obtain ⟨_, _, hrun₁, h₁⟩ := writeCARD_spec m h 2 x
  obtain ⟨_, _, hrun₂, h₂⟩ := h₁.card m 2 y
  obtain ⟨_, _, hrun₃, h₃⟩ := h₂.card m 2 width
  simp only [writeRect, writeCARD16, hrun₁, hrun₂, hrun₃, Option.bind_eq_bind, Option.bind_some]
  simpa using h₃.card m 2 height

inductive Write
  | card (w : Nat) (value : BitVec (8 * w))
  | cards (w : Nat) (values : Option (List (BitVec (8 * w))))
  | binary (data : Option (List Byte))
  | string (str : Option (List Byte))
  | string0t (str : Option (List Byte))
  | countedString (str : Option (List Byte))
  | rpcbuf (source : Option Rpcbuf)
  | rect (x y width height : BitVec 16)
  | pad

namespace Write

/-- The call; the `Bool` is what it returns, if it returns something. -/
def run (b : Rpcbuf) : Write → Option (Bool × Rpcbuf)
  | card w value => writeCARD m w b value
  | cards w values => writeCARDs m w b values
  | binary data => writeBinaryPad m b data
  | string str => writeStringPad m b str
  | string0t str => writeString0tPad m b str
  | countedString str => writeCountedStringPad m b str
  | rpcbuf source => writeRpcbufPad m b source
  | rect x y width height => writeRect m b x y width height
  | pad => b.pad m

/-- What the write appends at `pos`. -/
def bytes (be : Bool) (pos : Nat) : Write → List Byte
  | card w value => cardBytes be w value.toNat
  | cards w values => (values.getD []).flatMap fun v => cardBytes be w v.toNat
  | binary data | string data => padded (data.getD [])
  | string0t str => padded (str.getD [] ++ [0])
  | countedString str => Rpcbuf.countedString be pos (str.getD [])
  | rpcbuf source => padded (source.elim [] contents)
  | rect x y width height => [x, y, width, height].flatMap fun v => cardBytes be 2 v.toNat
  | pad => padding pos

/-- What is padded fits an `int`, and a nested buffer is well formed. -/
def Fits : Write → Prop
  | binary data | string data => (data.getD []).length + 3 < 2 ^ 31
  | string0t str => (str.getD []).length + 4 < 2 ^ 31
  | rpcbuf source => ∀ src, source = some src → src.Wf ∧ src.wpos + 3 < 2 ^ 31
  | _ => True

theorem run_spec (h : b.Wf) {w : Write} (hfits : w.Fits) :
    Writes b (w.bytes (m.bigEndian != b.swapped) b.wpos) (w.run m b) := by
  cases w with
  | card w value => exact writeCARD_spec m h w value
  | cards w values =>
    simp only [run, writeCARDs, bytes]
    split
    · exact writes_nothing h
    · exact writes_nothing h
    · simp only [stored_eq]
      exact put_spec m h _
  | binary data => exact writeBinaryPad_spec m h hfits
  | string str =>
    cases str with
    | none => exact writes_nothing h
    | some str => exact writeBinPad_spec m h hfits
  | string0t str =>
    cases str with
    | none =>
      have hzero : padded [0] = cardBytes (m.bigEndian != b.swapped) 4 (0 : BitVec 32).toNat := by
        cases m.bigEndian != b.swapped <;> decide
      rw [run, bytes, Option.getD_none, nil_append, hzero]
      exact writeCARD_spec m h 4 _
    | some str => exact writeBinPad_spec m h (by simpa [Fits] using hfits)
  | countedString str => exact writeCountedStringPad_spec m h str
  | rpcbuf source =>
    cases source with
    | none => exact writes_nothing h
    | some src =>
      rw [run, writeRpcbufPad]
      split_ifs
      · exact writes_fail h _
      · exact writeBinaryPad_spec m h (by simpa [contents_length] using (hfits src rfl).2)
  | rect x y width height => exact writeRect_spec m h x y width height
  | pad => exact put_spec m h _

end Write

def writeAll : List Write → Rpcbuf → Option Rpcbuf
  | [], b => some b
  | w :: ws, b => (w.run m b).bind fun r => writeAll ws r.2

def allBytes (be : Bool) : Nat → List Write → List Byte
  | _, [] => []
  | pos, w :: ws => w.bytes be pos ++ allBytes be (pos + (w.bytes be pos).length) ws

theorem writeAll_spec {ws : List Write} (h : b.Wf) (hfits : ∀ w ∈ ws, w.Fits) :
    ∃ b', writeAll m ws b = some b' ∧
      Wrote b (allBytes (m.bigEndian != b.swapped) b.wpos ws) false b' := by
  induction ws generalizing b with
  | nil =>
    exact ⟨b, rfl, h, rfl, fun he => ⟨he, rfl, fun _ => rfl⟩, fun ho => ⟨ho, (append_nil _).symm⟩⟩
  | cons w ws ih =>
    obtain ⟨_, b₁, hrun, h₁⟩ := w.run_spec m h (hfits w mem_cons_self)
    obtain ⟨b', hruns, h'⟩ := ih h₁.wf fun w hw => hfits w (mem_cons_of_mem _ hw)
    refine ⟨b', by rw [writeAll, hrun]; exact hruns, h'.wf, h'.swapped_eq.trans h₁.swapped_eq,
      fun he => ?_, fun ho => ?_⟩
    · obtain ⟨he₁, hwpos₁, -⟩ := h₁.latched he
      obtain ⟨he', hwpos', -⟩ := h'.latched he₁
      exact ⟨he', hwpos'.trans hwpos₁, fun _ => rfl⟩
    · obtain ⟨ho₁, hbytes'⟩ := h'.appended ho
      obtain ⟨hopen, hbytes₁⟩ := h₁.appended ho₁
      have hpos := congrArg length hbytes₁
      rw [length_append, contents_length, contents_length] at hpos
      exact ⟨hopen, by rw [hbytes', hbytes₁, append_assoc, allBytes, h₁.swapped_eq, hpos]⟩

/-- The `_GetCountedString` of the XKB geometry requests. -/
def getCountedString (be : Bool) (wire : List Byte) : Option (List Byte × List Byte) :=
  if wire.length < 4 then none else
  let len := wordAt16 be wire 0
  let next := (len + 2 + 3) / 4 * 4
  if wire.length < next then none else some ((wire.drop 2).take len, wire.drop next)

def getCountedStrings (be : Bool) : Nat → List Byte → Option (List (List Byte))
  | 0, _ => some []
  | n + 1, wire => do
    let (str, wire) ← getCountedString be wire
    return str :: (← getCountedStrings be n wire)

theorem getCountedString_append (be : Bool) {pos : Nat} {str : List Byte} (rest : List Byte)
    (hpos : pos % 4 = 0) (h : str.length < 2 ^ 16) :
    (countedString be pos str).length % 4 = 0 ∧
      getCountedString be (countedString be pos str ++ rest) = some (str, rest) := by
  have hlen : (countedString be pos str).length = (str.length + 5) / 4 * 4 := by
    simp only [countedString, Nat.mod_eq_of_lt h, take_length, length_append, cardBytes_length,
      padding, length_replicate]
    omega
  have htwo : cardBytes be 2 str.length = bytes16 be str.length := by cases be <;> rfl
  have hword : wordAt16 be (countedString be pos str ++ rest) 0 = str.length := by
    simp only [countedString, Nat.mod_eq_of_lt h, append_assoc, htwo]
    exact wordAt16_bytes16 be _ _ h
  refine ⟨by omega, ?_⟩
  rw [getCountedString, if_neg (by rw [length_append]; omega)]
  rw [hword, if_neg (by rw [length_append]; omega), drop_left' hlen]
  simp only [countedString, Nat.mod_eq_of_lt h, take_length, append_assoc]
  rw [drop_left' (cardBytes_length ..), take_left' rfl]

theorem getCountedStrings_allBytes (be : Bool) {strs : List (Option (List Byte))} (pos : Nat)
    (hpos : pos % 4 = 0) (h : ∀ s ∈ strs, (s.getD []).length < 2 ^ 16) :
    getCountedStrings be strs.length (allBytes be pos (strs.map Write.countedString)) =
      some (strs.map (·.getD [])) := by
  induction strs generalizing pos with
  | nil => rfl
  | cons s strs ih =>
    let next := pos + (countedString be pos (s.getD [])).length
    obtain ⟨hlen, hread⟩ := getCountedString_append be
      (allBytes be next (strs.map Write.countedString)) hpos (h s mem_cons_self)
    rw [length_cons, getCountedStrings, map_cons, allBytes, Write.bytes, hread]
    simp [ih next (by omega) fun s hs => h s (mem_cons_of_mem _ hs)]

end Rpcbuf
end Xfront
