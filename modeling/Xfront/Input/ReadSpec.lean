import Xfront.Input.Frame

/-!
# What one call of ReadRequestFromClient does

`readRequest_outcome`: on a well-formed input buffer a call never leaves the
buffer, and its result is the frame at the front of the pending stream (what is
buffered and unread, then what the transport still holds).
-/

namespace Xfront.Input
open Xfront.Bytes List Option

def ConnectionInput.data (oci : ConnectionInput) : List Byte :=
  oci.buffer.slice oci.bufptr (oci.bufcnt - oci.bufptr)

def ConnectionInput.unread (oci : ConnectionInput) : List Byte := oci.advance.data

def Conn.pending (c : Conn) : List Byte := c.input.unread ++ c.sock

def Conn.current (c : Conn) : List Byte := c.input.data ++ c.sock

structure ConnectionInput.Ready (srv : Server) (oci : ConnectionInput) : Prop where
  block : oci.buffer.size = oci.size
  ptr : oci.bufptr ≤ oci.bufcnt
  cnt : oci.bufcnt ≤ oci.size
  lo : bufSize ≤ oci.size
  hi : oci.size ≤ srv.cap

structure ConnectionInput.WF (srv : Server) (oci : ConnectionInput) : Prop extends
    oci.Ready srv where
  last : oci.bufptr + oci.lenLastReq ≤ oci.bufcnt

def ConnectionInput.Idle (oci : ConnectionInput) : Prop :=
  oci.bufptr + oci.lenLastReq = oci.bufcnt ∧ oci.ignoreBytes = 0

theorem unsigned_of_nat {x : Int} {n : Nat} (h : x = n) (hn : n < 2 ^ 32) : unsigned x = n := by
  unfold unsigned
  omega

namespace ConnectionInput
variable {srv : Server} {oci : ConnectionInput}

@[simp] theorem data_length : oci.data.length = oci.bufcnt - oci.bufptr := Block.slice_length ..

theorem WF.advance (h : oci.WF srv) : oci.advance.Ready srv := ⟨h.block, h.last, h.cnt, h.lo, h.hi⟩

theorem Ready.bufcnt_lt (h : oci.Ready srv) : oci.bufcnt < 2 ^ 31 := by
  have h1 := h.cnt
  have h2 := h.hi
  have h3 := srv.cap_bounds
  omega

theorem Ready.gotnow (h : oci.Ready srv) : oci.gotnow = oci.data.length := by
  have hp := h.ptr
  have hb := h.bufcnt_lt
  rw [data_length]
  exact unsigned_of_nat (by omega) (by omega)

theorem Idle.unread (hi : oci.Idle) : oci.unread = [] := by
  have h := hi.1
  apply eq_nil_of_length_eq_zero
  simp only [ConnectionInput.unread, data_length, ConnectionInput.advance]
  omega

end ConnectionInput

def Conn.setLen (c : Conn) (n : Nat) : Conn := { c with client := { c.client with reqLen := n } }

section Parse
variable {srv : Server} {c : Conn}

theorem getReqLen_eq (h : c.input.Ready srv) (h4 : 4 ≤ c.input.data.length) :
    getReqLen srv c = some (wordAt16 (srv.order c.client) c.input.data 2) := by
  have hb := h.block
  have hc := h.cnt
  have hp := h.ptr
  rw [ConnectionInput.data_length] at h4
  exact Block.load16_eq (by omega) (by omega)

theorem getBigReqLen_eq (h : c.input.Ready srv) (h8 : 8 ≤ c.input.data.length) :
    getBigReqLen srv c = some (wordAt32 (srv.order c.client) c.input.data 4) := by
  have hb := h.block
  have hc := h.cnt
  have hp := h.ptr
  rw [ConnectionInput.data_length] at h8
  exact Block.load32_eq (by omega) (by omega)

/-- `parseHeader` in terms of the header at the front of the data. -/
def parsed (c : Conn) : Header → Phase
  | .incomplete => .next (c.setLen 2) ⟨c.input.data.length, 8, true, true⟩
  | .ordinary n => .next (c.setLen n) ⟨c.input.data.length, n * 4, false, false⟩
  | .big n =>
    if maxUnits < n then .done ⟨.badLength, c.setLen n, false⟩
    else .next (c.setLen n) ⟨c.input.data.length, n * 4, false, true⟩

theorem parseHeader_eq (h : c.input.Ready srv) (h4 : 4 ≤ c.input.data.length) :
    parseHeader srv c c.input.data.length =
      some (parsed c (header (srv.dialect c.client) c.input.data)) := by
  have hlt := wordAt16_lt (srv.order c.client) c.input.data 2
  unfold parseHeader headerUnits header
  rw [getReqLen_eq h h4, bind_some, if_neg (show ¬ c.input.data.length < 4 by omega)]
  by_cases hz : wordAt16 (srv.order c.client) c.input.data 2 = 0 ∧ c.client.bigRequests = true
  · have hd : wordAt16 (srv.dialect c.client).bigEndian c.input.data 2 = 0 ∧
        (srv.dialect c.client).bigRequests = true := hz
    rw [if_pos hz, if_pos hd]
    by_cases h8 : c.input.data.length < 8
    · rw [if_pos (show c.input.data.length < sizeofBigReq from h8), if_pos h8]
      rfl
    · rw [if_neg (show ¬ c.input.data.length < sizeofBigReq from h8), if_neg h8,
        getBigReqLen_eq h (by omega)]
      simp only [map_some, parsed]
      rfl
  · have hd : ¬ (wordAt16 (srv.dialect c.client).bigEndian c.input.data 2 = 0 ∧
        (srv.dialect c.client).bigRequests = true) := hz
    have hm : ¬ maxUnits < wordAt16 (srv.order c.client) c.input.data 2 := by
      have hv : maxUnits = 536870911 := by decide
      omega
    rw [if_neg hz, if_neg hd]
    simp only [map_some, if_neg hm, parsed]
    rfl

end Parse

section Report
variable {srv : Server} {c : Conn}

/-- A request is exposed in place: `requestBuffer` is `bufptr`, and the request
ends `len` bytes behind it. -/
def Conn.expose (c : Conn) (len : Nat) : Conn :=
  { c with input := { c.input with lenLastReq := len },
           client := { c.client with requestBuffer := c.input.bufptr } }

/-- The request at `bufptr` with its header moved over the length word. -/
def Conn.moved (c : Conn) (units : Nat) : Conn :=
  { c with
    input := { c.input with
      buffer := c.input.buffer.store (c.input.bufptr + 4) (c.input.buffer.slice c.input.bufptr 4),
      bufptr := c.input.bufptr + 4, lenLastReq := units * 4 - 4 },
    client := { c.client with reqLen := units - 1, requestBuffer := c.input.bufptr + 4 } }

variable {n : Nat}

theorem available_eq {g : Nat} (hg : g < 2 ^ 31) (hn : n ≤ g) :
    decide (unsigned ((g : Int) - n) = 0) = decide (g = n) := by
  unfold unsigned
  apply decide_eq_decide.mpr
  omega

theorem report_ordinary (h : c.input.Ready srv) (h0 : c.input.ignoreBytes = 0)
    (hb : n ≠ 0 ∨ c.client.bigRequests = false) (h4 : 4 ≤ c.input.data.length)
    (hn : n * 4 ≤ c.input.data.length) (nh : Bool) :
    let count := if n = 0 then 4 else n * 4
    report c ⟨c.input.data.length, n * 4, nh, false⟩ =
      some ⟨.request count, c.expose count, decide (c.input.data.length = count)⟩ := by
  intro count
  have hlt := h.bufcnt_lt
  have hlen := c.input.data_length
  have hneed : (if n * 4 = 0 then if c.client.bigRequests then sizeofBigReq else sizeofReq
      else n * 4) = count := by
    by_cases hz : n = 0
    · have hf : c.client.bigRequests = false := hb.resolve_left (fun hne => hne hz)
      simp [count, hz, hf, sizeofReq]
    · simp [count, hz]
  have hcount : count ≠ 0 ∧ count ≤ c.input.data.length := by
    by_cases hz : n = 0
    · simp only [count, hz, if_true]
      omega
    · simp only [count, hz, if_false]
      omega
  unfold report ignoreInput
  simp only [hneed, h0, lt_irrefl, if_false, bind_some, hcount.1, Bool.false_eq_true, and_true]
  rw [available_eq (by omega) hcount.2]
  simp only [Conn.expose, h0]

theorem report_big (h : c.input.Ready srv) (h0 : c.input.ignoreBytes = 0)
    (h8 : 8 ≤ c.input.data.length) (hn0 : n ≠ 0) (hn : n * 4 ≤ c.input.data.length)
    (hl : c.client.reqLen = n) (nh : Bool) : report c ⟨c.input.data.length, n * 4, nh, true⟩ =
      some ⟨.request (n * 4), c.moved n, decide (c.input.data.length = n * 4)⟩ := by
  have hlt := h.bufcnt_lt
  have hlen := c.input.data_length
  have hblock := h.block
  have hcnt := h.cnt
  have hptr := h.ptr
  have hr : c.input.buffer.read c.input.bufptr 4 = some (c.input.buffer.slice c.input.bufptr 4) :=
    Block.read_eq (by omega)
  have hw : c.input.buffer.write (c.input.bufptr + 4) (c.input.buffer.slice c.input.bufptr 4) =
      some (c.input.buffer.store (c.input.bufptr + 4) (c.input.buffer.slice c.input.bufptr 4)) :=
    Block.write_eq (by simp; omega)
  unfold report ignoreInput moveHeader
  simp only [h0, lt_irrefl, if_false, bind_some, if_true, hl, sizeofBigReq,
    sizeofReq, and_true, show ¬ n < (8 - 4 + 3) / 4 by omega, show ¬ n * 4 = 0 by omega, hr,
    show 8 - 4 = 4 from rfl, hw, map_some]
  rw [available_eq (by omega) hn]
  simp only [Conn.moved, h0]

theorem report_rejected (h : c.input.Ready srv) (h0 : c.input.ignoreBytes = 0)
    (hb : c.client.bigRequests = true) (h8 : 8 ≤ c.input.data.length)
    (hl : c.client.reqLen = 0) (nh : Bool) :
    report c ⟨c.input.data.length, 0, nh, true⟩ =
      some ⟨.death, { c with input := { c.input with lenLastReq := 8 } },
        decide (c.input.data.length = 8)⟩ := by
  have hlt := h.bufcnt_lt
  have hlen := c.input.data_length
  unfold report ignoreInput moveHeader
  simp only [h0, lt_irrefl, if_false, bind_some, if_true, hl, sizeofBigReq, sizeofReq, and_true, hb]
  rw [available_eq (by omega) h8]
  rfl

def Conn.skip (c : Conn) (n : Nat) : Conn :=
  { c with input := { c.input with ignoreBytes := c.input.ignoreBytes - n,
                                   bufptr := c.input.bufptr + n, lenLastReq := 0 },
           client := { c.client with requestBuffer := c.input.bufptr + n } }

theorem report_ignore (h : c.input.Ready srv) (h0 : 0 < c.input.ignoreBytes)
    (hn : n = c.input.ignoreBytes ∨ n = c.input.size) (hg : n ≤ c.input.data.length) (nh : Bool) :
    report c ⟨c.input.data.length, n, nh, false⟩ = some ⟨.none, c.skip n,
        decide (c.input.data.length = n ∧ c.input.ignoreBytes - n = 0)⟩ := by
  have hlt := h.bufcnt_lt
  have hlen := c.input.data_length
  have hlo := h.lo
  have hsize : bufSize = 16384 := rfl
  have hn0 : n ≠ 0 := by rcases hn with hn | hn <;> omega
  have hav : decide (unsigned (((c.input.data.length - n : Nat) : Int) - (0 : Nat)) = 0) =
      decide (c.input.data.length = n) := by
    rw [available_eq (by omega) (Nat.zero_le _)]
    apply decide_eq_decide.mpr
    omega
  unfold report ignoreInput
  simp only [h0, hn, hn0, if_true, if_false, Nat.min_eq_right hg, bind_some, Bool.false_eq_true]
  rw [Bool.decide_and, hav, ← Bool.decide_and]
  rfl

theorem expose_unread (hn : n ≤ c.input.data.length) :
    (c.expose n).input.unread = c.input.data.drop n := by
  rw [ConnectionInput.data_length] at hn
  unfold ConnectionInput.data ConnectionInput.unread ConnectionInput.data
  rw [Block.slice_drop hn]
  simp only [ConnectionInput.advance, Conn.expose]
  congr 1
  omega

theorem expose_wf (h : c.input.Ready srv) (hn : n ≤ c.input.data.length) :
    (c.expose n).input.WF srv := by
  rw [ConnectionInput.data_length] at hn
  have hp := h.ptr
  exact ⟨⟨h.block, h.ptr, h.cnt, h.lo, h.hi⟩, by simp only [Conn.expose]; omega⟩

theorem moved_data (h8 : 8 ≤ c.input.data.length) :
    (c.moved n).input.data = c.input.data.take 4 ++ c.input.data.drop 8 := by
  rw [ConnectionInput.data_length] at h8
  unfold ConnectionInput.data
  rw [Block.slice_take (show 4 ≤ c.input.bufcnt - c.input.bufptr by omega), Block.slice_drop h8]
  simp only [Conn.moved]
  have hlen : (c.input.buffer.slice c.input.bufptr 4).length = 4 := Block.slice_length ..
  have hself := Block.slice_store_self c.input.buffer (c.input.bufptr + 4)
    (c.input.buffer.slice c.input.bufptr 4)
  rw [hlen] at hself
  rw [Block.slice_split _ (show 4 ≤ c.input.bufcnt - (c.input.bufptr + 4) by omega), hself,
    Block.slice_store_after (by omega)]
  congr 2

theorem moved_unread (hn : 2 ≤ n) (hl : n * 4 ≤ c.input.data.length) :
    (c.moved n).input.unread = c.input.data.drop (n * 4) := by
  rw [ConnectionInput.data_length] at hl
  unfold ConnectionInput.unread ConnectionInput.data
  rw [Block.slice_drop hl]
  simp only [ConnectionInput.advance, Conn.moved]
  rw [Block.slice_store_after (by rw [Block.slice_length]; omega)]
  congr 1 <;> omega

theorem moved_one_unread (h8 : 8 ≤ c.input.data.length) :
    (c.moved 1).input.unread = c.input.data.take 4 ++ c.input.data.drop 8 := by
  rw [← moved_data (n := 1) h8]
  rfl

theorem moved_wf (h : c.input.Ready srv) (h8 : 8 ≤ c.input.data.length) (hn : n ≠ 0)
    (hl : n * 4 ≤ c.input.data.length) : (c.moved n).input.WF srv := by
  rw [ConnectionInput.data_length] at h8 hl
  have hp := h.ptr
  refine ⟨⟨h.block, ?_, h.cnt, h.lo, h.hi⟩, ?_⟩ <;> simp only [Conn.moved] <;> omega

theorem skip_unread (hn : n ≤ c.input.data.length) :
    (c.skip n).input.unread = c.input.data.drop n := by
  rw [ConnectionInput.data_length] at hn
  unfold ConnectionInput.unread ConnectionInput.data
  rw [Block.slice_drop hn]
  simp only [ConnectionInput.advance, Conn.skip]
  congr 1
  omega

theorem skip_wf (h : c.input.Ready srv) (hn : n ≤ c.input.data.length) :
    (c.skip n).input.WF srv := by
  rw [ConnectionInput.data_length] at hn
  have hp := h.ptr
  exact ⟨⟨h.block, by simp only [Conn.skip]; omega, h.cnt, h.lo, h.hi⟩,
    by simp only [Conn.skip]; omega⟩

end Report

/-- A connection seen as a stream: what is still to come, how much of it belongs
to an oversized request already reported, and how much of it is buffered. -/
structure View where
  dialect : Dialect
  stream : List Byte
  ignore : Nat
  buffered : Nat

def Conn.view (srv : Server) (c : Conn) : View :=
  ⟨srv.dialect c.client, c.pending, c.input.ignoreBytes, c.input.unread.length⟩

/-- The same, before the request at `bufptr` has been passed. -/
def Conn.front (srv : Server) (c : Conn) : View :=
  ⟨srv.dialect c.client, c.current, c.input.ignoreBytes, c.input.data.length⟩

def View.measure (v : View) : Nat := 2 * v.stream.length - v.buffered

structure Live (srv : Server) (c : Conn) (reqLen : Nat) (bytes rest : List Byte) : Prop where
  current : c.current = bytes ++ rest
  len : c.client.reqLen = reqLen
  exposed : c.input.buffer.slice c.client.requestBuffer bytes.length = bytes
  place : c.client.requestBuffer = c.input.bufptr
  buffered : bytes.length ≤ c.input.data.length
  room : wordAt16 (srv.order c.client) bytes 2 = 0 → c.client.bigRequests = true →
    4 ≤ c.input.bufptr
  size : bytes.length = max 4 (reqLen * 4)

def View.Starved (cap : Nat) (v : View) : Prop :=
  v.ignore = 0 → frame cap v.dialect (v.stream.take v.buffered) = .incomplete

inductive Outcome (srv : Server) (env : Env) (connected : Bool) (v : View) (d : Done) : Prop
  | blocked (result : d.result = .none) (view : d.conn.view srv = v)
      (idle : d.available = false)
      (why : ∀ k, env.trans = .grant k → k = 0 ∨ v.stream.length = v.buffered)
      (starved : v.Starved srv.cap) (skipping : 0 < v.ignore → v.buffered < v.ignore)
  | progress (k : Nat) (result : d.result = .none) (skipped : k ≤ v.ignore)
      (dialect : (d.conn.view srv).dialect = v.dialect)
      (stream : (d.conn.view srv).stream = v.stream.drop k)
      (ignore : (d.conn.view srv).ignore = v.ignore - k)
      (less : (d.conn.view srv).measure < v.measure)
      (starved : v.Starved srv.cap) (idle : d.available = true → d.conn.input.Idle)
  | request (r : Report) (rest : List Byte) (ignore : v.ignore = 0)
      (frame : frame srv.cap v.dialect v.stream = .request r rest)
      (result : d.result = .request r.count)
      (dialect : (d.conn.view srv).dialect = v.dialect)
      (stream : (d.conn.view srv).stream.drop (d.conn.view srv).ignore = rest)
      (less : (d.conn.view srv).measure < v.measure)
      (whole : ∀ count reqLen bytes, r = .whole count reqLen bytes →
        d.conn.input.ignoreBytes = 0 ∧ Live srv d.conn reqLen bytes rest)
      (skip : ∀ count, r = .oversized count → 0 < d.conn.input.ignoreBytes)
      (idle : d.available = true → d.conn.input.Idle)
  | short (header rest : List Byte) (ignore : v.ignore = 0)
      (frame : frame srv.cap v.dialect v.stream = .short header rest)
      (result : d.result = .request 4)
      (dialect : (d.conn.view srv).dialect = v.dialect)
      (stream : (d.conn.view srv).stream = header ++ rest)
      (none : d.conn.input.ignoreBytes = 0)
      (live : Live srv d.conn 0 header rest)
      (idle : d.available = false)
  | rejected (ignore : v.ignore = 0) (frame : frame srv.cap v.dialect v.stream = .rejected)
      (result : d.result = .death) (idle : d.available = true → d.conn.input.Idle)
  | malformed (ignore : v.ignore = 0) (frame : frame srv.cap v.dialect v.stream = .malformed)
      (result : d.result = .badLength) (idle : d.available = false)
  | failed (result : d.result = .death) (idle : d.available = false)
      (why : env.grow = false ∨ connected = false ∨ env.trans = .fail)
      (starved : v.Starved srv.cap)

/-- The locals after the header at `bufptr` has been looked at. -/
inductive Want (srv : Server) (c : Conn) (l : Locals) : Prop
  | skip (h0 : 0 < c.input.ignoreBytes)
      (needed : l.needed = min c.input.ignoreBytes c.input.size) (nh : l.needHeader = false)
      (mh : l.moveHeader = false)
  | header (h0 : c.input.ignoreBytes = 0)
      (hd : header (srv.dialect c.client) c.input.data = .incomplete)
      (more : c.input.data.length < l.needed) (small : l.needed ≤ 8) (atLeast : 4 ≤ l.needed)
      (nh : l.needHeader = true)
      (mh : l.moveHeader = true → 4 ≤ c.input.data.length ∧
        wordAt16 (srv.dialect c.client).bigEndian c.input.data 2 = 0 ∧
        c.client.bigRequests = true)
  | ordinary (n : Nat) (h0 : c.input.ignoreBytes = 0)
      (hd : header (srv.dialect c.client) c.input.data = .ordinary n) (needed : l.needed = n * 4)
      (nh : l.needHeader = false) (mh : l.moveHeader = false) (len : c.client.reqLen = n)
  | big (n : Nat) (h0 : c.input.ignoreBytes = 0)
      (hd : header (srv.dialect c.client) c.input.data = .big n) (hn : n ≤ maxUnits)
      (needed : l.needed = n * 4) (nh : l.needHeader = false) (mh : l.moveHeader = true)
      (len : c.client.reqLen = n)

section Report
variable {srv : Server} {env : Env} {connected : Bool} {c : Conn} {l : Locals}

theorem ready_data_le (h : c.input.Ready srv) : c.input.data.length ≤ srv.cap := by
  have h1 := h.cnt
  have h2 := h.hi
  rw [ConnectionInput.data_length]
  omega

variable {n : Nat}

theorem take_current (h : n ≤ c.input.data.length) : c.current.take n = c.input.data.take n :=
  take_append_of_le_length h

theorem drop_current (h : n ≤ c.input.data.length) :
    c.current.drop n = c.input.data.drop n ++ c.sock :=
  drop_append_of_le_length h

theorem slice_of_data {bytes : List Byte} (h : c.input.data.take bytes.length = bytes)
    (hl : bytes.length ≤ c.input.data.length) :
    c.input.buffer.slice c.input.bufptr bytes.length = bytes := by
  rw [ConnectionInput.data_length] at hl
  conv => rhs; rw [← h]
  exact (Block.slice_take hl).symm

theorem frame_current_ordinary (hd : header (srv.dialect c.client) c.input.data = .ordinary n)
    (hn : n * 4 ≤ c.input.data.length) :
    let count := if n = 0 then 4 else n * 4
    frame srv.cap (srv.dialect c.client) c.current =
      .request (.whole count n (c.input.data.take count)) (c.input.data.drop count ++ c.sock) := by
  intro count
  obtain ⟨h4, _, _⟩ := header_ordinary_iff hd
  have hlt := header_ordinary_lt hd
  have hcap := srv.cap_bounds
  have hcount : count ≤ c.input.data.length ∧ count < 2 ^ 18 := by
    by_cases hz : n = 0
    · simp only [count, hz, if_true]
      omega
    · simp only [count, hz, if_false]
      omega
  have hc : header (srv.dialect c.client) c.current = .ordinary n := by
    rw [Conn.current, header_append _ (by rw [hd]; exact Header.noConfusion), hd]
  have hlen : count ≤ c.current.length := by
    rw [Conn.current, length_append]
    omega
  simp only [frame, hc]
  rw [if_neg (show ¬ srv.cap < count by omega), if_neg (show ¬ c.current.length < count by omega),
    take_current hcount.1, drop_current hcount.1]

theorem header_current_big (hd : header (srv.dialect c.client) c.input.data = .big n) :
    header (srv.dialect c.client) c.current = .big n := by
  rw [Conn.current, header_append _ (by rw [hd]; exact Header.noConfusion), hd]

theorem shown_current (h8 : 8 ≤ c.input.data.length) (hn : n ≤ c.input.data.length)
    (hn8 : 8 ≤ n) : c.input.data.take 4 ++ c.input.data.drop 8 =
      shown n c.current ++ c.input.data.drop n := by
  unfold shown
  rw [take_current (show 4 ≤ c.input.data.length by omega), take_current hn, append_assoc]
  congr 1
  have hs := take_append_drop (n - 8) (c.input.data.drop 8)
  rw [drop_drop, show 8 + (n - 8) = n by omega] at hs
  rw [drop_take, hs]

theorem frame_current_big (h : c.input.Ready srv)
    (hd : header (srv.dialect c.client) c.input.data = .big n) (hm : n ≤ maxUnits) (h2 : 2 ≤ n)
    (hn : n * 4 ≤ c.input.data.length) : frame srv.cap (srv.dialect c.client) c.current =
      .request (.whole (n * 4) (n - 1) (shown (n * 4) c.current))
        (c.input.data.drop (n * 4) ++ c.sock) := by
  have hcap := ready_data_le h
  have hlen : n * 4 ≤ c.current.length := by
    rw [Conn.current, length_append]
    omega
  simp only [frame, header_current_big hd]
  rw [if_neg (show ¬ maxUnits < n by omega), if_neg (show ¬ n = 0 by omega),
    if_neg (show ¬ n = 1 by omega), if_neg (show ¬ srv.cap < n * 4 by omega),
    if_neg (show ¬ c.current.length < n * 4 by omega), drop_current hn]

theorem view_measure_lt {v : View} {k : Nat}
    (hs : v.stream.length = v.buffered + c.sock.length) (hu : c.input.unread.length + k = v.buffered)
    (hk : 0 < k) : (c.view srv).measure < v.measure := by
  simp only [View.measure, Conn.view, Conn.pending, length_append]
  omega

section
variable (h : c.input.Ready srv)
include h

section
variable (h0 : c.input.ignoreBytes = 0)
include h0

theorem report_ordinary_outcome
    (hd : header (srv.dialect c.client) c.input.data = .ordinary n)
    (hn : n * 4 ≤ c.input.data.length) (hl : c.client.reqLen = n) (nh : Bool) :
    ∃ d, report c ⟨c.input.data.length, n * 4, nh, false⟩ = some d ∧ d.conn.input.WF srv ∧
      Outcome srv env connected (c.front srv) d := by
  obtain ⟨h4, hword, hb⟩ := header_ordinary_iff hd
  have hf := frame_current_ordinary hd hn
  have hr := report_ordinary h h0 hb h4 hn nh
  generalize hcount : (if n = 0 then 4 else n * 4) = count at hf hr
  have hc : 4 ≤ count ∧ count ≤ c.input.data.length := by
    by_cases hz : n = 0
    · rw [if_pos hz] at hcount
      omega
    · rw [if_neg hz] at hcount
      omega
  have hu := expose_unread hc.2
  have hw := expose_wf h hc.2
  have hlen : (c.input.data.take count).length = count := length_take_of_le hc.2
  refine ⟨_, hr, hw, .request _ _ h0 hf rfl rfl ?_ ?_ ?_ (fun _ hr => by cases hr) ?_⟩
  · simp only [Conn.view, Conn.pending, hu]
    show drop c.input.ignoreBytes _ = _
    rw [h0]
    rfl
  · refine view_measure_lt (k := count) ?_ ?_ (by omega)
    · simp only [Conn.front, Conn.current, length_append]
      rfl
    · rw [hu, length_drop]
      simp only [Conn.front]
      omega
  · rintro _ _ _ ⟨rfl, rfl, rfl⟩
    refine ⟨h0, ?_, hl, ?_, rfl, ?_, ?_, ?_⟩
    · rw [← append_assoc, take_append_drop]
      rfl
    · exact slice_of_data (c := c) (by rw [hlen]) (by rw [hlen]; exact hc.2)
    · rw [hlen]
      exact hc.2
    · intro hz hbig
      have hw0 : wordAt16 (srv.order c.client) c.input.data 2 = 0 :=
        (wordAt16_take (show 2 + 2 ≤ count by omega)).symm.trans hz
      have hn0 : n = 0 := hword.trans hw0
      rcases hb with hb | hb
      · exact absurd hn0 hb
      · exact absurd (hb.symm.trans hbig) Bool.false_ne_true
    · rw [hlen, ← hcount]
      split_ifs <;> omega
  · intro hav
    have he : c.input.data.length = count := of_decide_eq_true hav
    rw [ConnectionInput.data_length] at he
    have hp := h.ptr
    refine ⟨?_, h0⟩
    simp only [Conn.expose]
    omega

theorem report_big_outcome
    (hd : header (srv.dialect c.client) c.input.data = .big n) (hm : n ≤ maxUnits) (h2 : 2 ≤ n)
    (hn : n * 4 ≤ c.input.data.length) (hl : c.client.reqLen = n) (nh : Bool) :
    ∃ d, report c ⟨c.input.data.length, n * 4, nh, true⟩ = some d ∧ d.conn.input.WF srv ∧
      Outcome srv env connected (c.front srv) d := by
  obtain ⟨h8, _, _, _⟩ := header_big_iff hd
  have hr := report_big h h0 h8 (by omega) hn hl nh
  have hu := moved_unread h2 hn
  have hw := moved_wf h h8 (by omega) hn
  have hdata := moved_data (n := n) h8
  have hs := shown_current h8 hn (by omega)
  have hcur : (c.moved n).current =
      shown (n * 4) c.current ++ (c.input.data.drop (n * 4) ++ c.sock) := by
    rw [← append_assoc, ← hs, ← hdata]
    rfl
  have hle : n * 4 - 4 ≤ (c.moved n).input.data.length := by
    rw [hdata, length_append, length_take, length_drop]
    omega
  have hlen : (shown (n * 4) c.current).length = n * 4 - 4 := by
    have hle : n * 4 ≤ c.current.length := by
      rw [Conn.current, length_append]
      omega
    simp only [shown, length_append, length_take, length_drop]
    omega
  refine ⟨_, hr, hw, .request _ _ h0 (frame_current_big h hd hm h2 hn) rfl rfl ?_ ?_ ?_
    (fun _ hr => by cases hr) ?_⟩
  · simp only [Conn.view, Conn.pending, hu]
    show drop c.input.ignoreBytes _ = _
    rw [h0]
    rfl
  · refine view_measure_lt (k := n * 4) ?_ ?_ (by omega)
    · simp only [Conn.front, Conn.current, length_append]
      rfl
    · rw [hu, length_drop]
      simp only [Conn.front]
      omega
  · rintro _ _ _ ⟨rfl, rfl, rfl⟩
    refine ⟨h0, hcur, rfl, ?_, rfl, ?_, fun _ _ => Nat.le_add_left .., ?_⟩
    · exact slice_of_data (by rw [hdata, hs, take_left' rfl]) (by rw [hlen]; exact hle)
    · rw [hlen]
      exact hle
    · rw [hlen]
      omega
  · intro hav
    have he : c.input.data.length = n * 4 := of_decide_eq_true hav
    rw [ConnectionInput.data_length] at he
    have hp := h.ptr
    refine ⟨?_, h0⟩
    simp only [Conn.moved]
    omega

theorem report_short_outcome
    (hd : header (srv.dialect c.client) c.input.data = .big 1) (hl : c.client.reqLen = 1)
    (nh : Bool) :
    ∃ d, report c ⟨c.input.data.length, 1 * 4, nh, true⟩ = some d ∧ d.conn.input.WF srv ∧
      Outcome srv env connected (c.front srv) d := by
  obtain ⟨h8, _, _, _⟩ := header_big_iff hd
  have hr := report_big h h0 h8 (by omega) (by omega) hl nh
  have hu := moved_one_unread h8
  have hw := moved_wf h h8 (by omega) (show 1 * 4 ≤ _ by omega)
  have hdata := moved_data (n := 1) h8
  have hf : frame srv.cap (srv.dialect c.client) c.current =
      .short (c.input.data.take 4) (c.input.data.drop 8 ++ c.sock) := by
    have hv : maxUnits = 536870911 := by decide
    simp only [frame, header_current_big hd]
    rw [if_neg (by omega), if_neg (by omega), if_pos trivial,
      take_current (show 4 ≤ c.input.data.length by omega), drop_current h8]
  have hstream : (c.moved 1).current = c.input.data.take 4 ++ (c.input.data.drop 8 ++ c.sock) := by
    rw [← append_assoc, ← hdata]
    rfl
  have hlen : (c.input.data.take 4).length = 4 := length_take_of_le (by omega)
  have hle : 4 ≤ (c.moved 1).input.data.length := by
    rw [hdata, length_append]
    omega
  refine ⟨_, hr, hw, .short _ _ h0 hf rfl rfl ?_ h0 ?_ (decide_eq_false (by omega))⟩
  · simp only [Conn.view, Conn.pending, hu, append_assoc]
    rfl
  · refine ⟨hstream, rfl, ?_, rfl, ?_, fun _ _ => Nat.le_add_left .., by omega⟩
    · exact slice_of_data (by rw [hdata, take_left' rfl]) (by rw [hlen]; exact hle)
    · rw [hlen]
      exact hle

theorem report_rejected_outcome
    (hd : header (srv.dialect c.client) c.input.data = .big 0) (hl : c.client.reqLen = 0)
    (nh : Bool) :
    ∃ d, report c ⟨c.input.data.length, 0 * 4, nh, true⟩ = some d ∧ d.conn.input.WF srv ∧
      Outcome srv env connected (c.front srv) d := by
  obtain ⟨h8, _, hb, _⟩ := header_big_iff hd
  have hr := report_rejected h h0 hb h8 hl nh
  have hw := (expose_wf (n := 8) h h8)
  have hf : frame srv.cap (srv.dialect c.client) c.current = .rejected := by
    simp only [frame, header_current_big hd]
    rfl
  refine ⟨_, hr, ⟨hw.toReady, hw.last⟩, .rejected h0 hf rfl ?_⟩
  intro hav
  have he : c.input.data.length = 8 := of_decide_eq_true hav
  rw [ConnectionInput.data_length] at he
  have hp := h.ptr
  refine ⟨?_, h0⟩
  dsimp only
  omega

end

theorem report_skip_outcome (h0 : 0 < c.input.ignoreBytes)
    (hn : n = min c.input.ignoreBytes c.input.size) (hg : n ≤ c.input.data.length) (nh : Bool) :
    ∃ d, report c ⟨c.input.data.length, n, nh, false⟩ = some d ∧ d.conn.input.WF srv ∧
      Outcome srv env connected (c.front srv) d := by
  have hr := report_ignore h h0 (by omega) hg nh
  have hlo := h.lo
  have hsize : bufSize = 16384 := rfl
  have hu := skip_unread hg
  refine ⟨_, hr, skip_wf h hg, .progress n rfl ?_ rfl ?_ rfl ?_
    (fun hz => absurd hz (ne_of_gt h0)) ?_⟩
  · simp only [Conn.front]
    omega
  · simp only [Conn.view, Conn.pending, hu, Conn.front, drop_current hg]
    rfl
  · refine view_measure_lt (k := n) ?_ ?_ (by omega)
    · simp only [Conn.front, Conn.current, length_append]
      rfl
    · rw [hu, length_drop]
      simp only [Conn.front]
      omega
  · intro hav
    have he := of_decide_eq_true hav
    rw [ConnectionInput.data_length] at he
    have hp := h.ptr
    refine ⟨?_, he.2⟩
    simp only [Conn.skip]
    omega

end

variable (env connected) in
theorem report_outcome (h : c.input.Ready srv) (hw : Want srv c l)
    (hg : l.gotnow = c.input.data.length) (hn : l.needed ≤ l.gotnow) :
    ∃ d, report c l = some d ∧ d.conn.input.WF srv ∧ Outcome srv env connected (c.front srv) d := by
  obtain ⟨gotnow, needed, needHeader, mh⟩ := l
  subst hg
  cases hw with
  | skip h0 hneed _ hmh =>
    subst hmh
    exact report_skip_outcome h h0 hneed hn needHeader
  | header _ _ hmore _ _ _ _ => exact absurd hn (not_le.mpr hmore)
  | ordinary n h0 hd hneed _ hmh hl =>
    subst hmh hneed
    exact report_ordinary_outcome h h0 hd hn hl needHeader
  | big n h0 hd hm hneed _ hmh hl =>
    subst hmh hneed
    match n with
    | 0 => exact report_rejected_outcome h h0 hd hl needHeader
    | 1 => exact report_short_outcome h h0 hd hl needHeader
    | k + 2 => exact report_big_outcome h h0 hd hm (by omega) hn hl needHeader

end Report

section More
variable {srv : Server} {env : Env} {connected : Bool} {c : Conn} {l : Locals}
  {oci : ConnectionInput}

/-- What making room must leave: the same data with `needed` bytes of space from
`bufptr` on. -/
structure Roomy (srv : Server) (oci oci' : ConnectionInput) (needed : Nat) : Prop where
  ready : oci'.Ready srv
  data : oci'.data = oci.data
  room : oci'.bufptr + needed ≤ oci'.size
  size : oci'.size = max oci.size needed
  last : oci'.lenLastReq = oci.lenLastReq
  ignore : oci'.ignoreBytes = oci.ignoreBytes

theorem moved_block (h : oci.Ready srv) {g : Nat} (hg : g = oci.data.length) :
    ∃ b : Block, (if 0 < g ∧ oci.bufptr ≠ 0 then
        (oci.buffer.read oci.bufptr g).bind (oci.buffer.write 0) else some oci.buffer) = some b ∧
      b.size = oci.size ∧ b.slice 0 g = oci.data := by
  have hb := h.block
  have hp := h.ptr
  have hc := h.cnt
  have hl := oci.data_length
  by_cases hm : 0 < g ∧ oci.bufptr ≠ 0
  · rw [if_pos hm, Block.read_eq (by omega), bind_some,
      Block.write_eq (by rw [Block.slice_length]; omega)]
    refine ⟨_, rfl, hb, ?_⟩
    have hs := Block.slice_store_self oci.buffer 0 (oci.buffer.slice oci.bufptr g)
    rw [Block.slice_length] at hs
    rw [hs, hg, hl]
    rfl
  · rw [if_neg hm]
    refine ⟨_, rfl, hb, ?_⟩
    by_cases hz : g = 0
    · have he : oci.data = [] := eq_nil_of_length_eq_zero (by omega)
      rw [hz, he]
      rfl
    · have hptr : oci.bufptr = 0 := by omega
      rw [hg, hl, ConnectionInput.data, hptr]

variable (env) in
theorem makeRoom_spec (h : oci.Ready srv) (hg : l.gotnow = oci.data.length)
    (hcap : l.needed ≤ srv.cap) (hmore : l.gotnow < l.needed) :
    ∃ oci' ok, makeRoom env oci l = some (oci', ok) ∧ oci'.Ready srv ∧
      oci'.lenLastReq = oci.lenLastReq ∧ (ok = false → env.grow = false) ∧
      (ok = true → Roomy srv oci oci' l.needed) := by
  have hb := h.block
  have hp := h.ptr
  have hc := h.cnt
  have hl := oci.data_length
  have hlo := h.lo
  obtain ⟨b, hmove, hsize, hslice⟩ := moved_block h hg
  unfold makeRoom
  by_cases hroom : l.gotnow = 0 ∨ oci.size < oci.bufptr + l.needed
  · rw [if_pos hroom]
    rw [hmove, map_some]
    by_cases hgrow : oci.size < l.needed
    · rw [if_pos hgrow]
      cases hok : env.grow with
      | false =>
        exact ⟨_, _, rfl, ⟨hsize, h.ptr, h.cnt, h.lo, h.hi⟩, rfl, fun _ => rfl,
          fun ht => Bool.noConfusion ht⟩
      | true =>
        have hr : ConnectionInput.Ready srv ⟨b.resize l.needed env.junk, 0, l.gotnow,
            oci.lenLastReq, l.needed, oci.ignoreBytes⟩ :=
          ⟨rfl, Nat.zero_le _, hmore.le, by dsimp only; omega, hcap⟩
        refine ⟨_, _, rfl, hr, rfl, fun hf => Bool.noConfusion hf,
          fun _ => ⟨hr, ?_, by dsimp only; omega, by dsimp only; omega, rfl, rfl⟩⟩
        simp only [ConnectionInput.data, Nat.sub_zero]
        rw [Block.slice_resize (by omega), hslice]
        rfl
    · rw [if_neg hgrow]
      have hr : ConnectionInput.Ready srv ⟨b, 0, l.gotnow, oci.lenLastReq, oci.size,
          oci.ignoreBytes⟩ := ⟨hsize, Nat.zero_le _, by dsimp only; omega, h.lo, h.hi⟩
      refine ⟨_, _, rfl, hr, rfl, fun hf => Bool.noConfusion hf,
        fun _ => ⟨hr, ?_, by dsimp only; omega, by dsimp only; omega, rfl, rfl⟩⟩
      simp only [ConnectionInput.data, Nat.sub_zero]
      rw [hslice]
      rfl
  · rw [if_neg hroom]
    exact ⟨_, _, rfl, h, rfl, fun hf => Bool.noConfusion hf,
      fun _ => ⟨h, rfl, by omega, by omega, rfl, rfl⟩⟩

variable (env) in
theorem transRead_spec {asked : Nat} (sock : List Byte) (ha : asked ≠ 0) :
    (transRead env asked sock = none ∧ env.trans = .fail) ∨
    (transRead env asked sock = some none ∧ ∀ k, env.trans = .grant k → k = 0 ∨ sock = []) ∨
    (∃ n, 0 < n ∧ n ≤ asked ∧ n ≤ sock.length ∧
      transRead env asked sock = some (some (sock.take n))) := by
  unfold transRead
  rw [if_neg ha]
  cases ht : env.trans with
  | fail => exact Or.inl ⟨rfl, rfl⟩
  | grant k =>
    right
    by_cases hz : min k sock.length = 0
    · left
      refine ⟨by simp only [if_pos hz], ?_⟩
      intro k' hk
      injection hk with hk
      subst hk
      by_cases hk0 : k = 0
      · exact Or.inl hk0
      · exact .inr (eq_nil_of_length_eq_zero (by omega))
    · right
      refine ⟨min (min k asked) sock.length, by omega, by omega, by omega, ?_⟩
      simp only [if_neg hz]
      congr 2
      rw [take_eq_take_iff]
      omega

theorem receive_spec (data : List Byte) (h : c.input.Ready srv)
    (hd : c.input.bufcnt + data.length ≤ c.input.size) :
    ∃ c', receive c l data = some (c', { l with gotnow := l.gotnow + data.length }) ∧
      c'.input.Ready srv ∧ c'.input.data = c.input.data ++ data ∧
      c'.sock = c.sock.drop data.length ∧ c'.client = c.client ∧
      c'.input.ignoreBytes = c.input.ignoreBytes ∧ c'.input.size = c.input.size ∧
      c'.input.lenLastReq = c.input.lenLastReq := by
  have hb := h.block
  have hp := h.ptr
  unfold receive
  rw [Block.write_eq (by omega), map_some]
  refine ⟨_, rfl, ⟨hb, by dsimp only; omega, hd, h.lo, h.hi⟩, ?_, rfl, rfl, rfl, rfl, rfl⟩
  simp only [ConnectionInput.data]
  rw [Block.slice_split _ (show c.input.bufcnt - c.input.bufptr ≤
    c.input.bufcnt + data.length - c.input.bufptr by omega), Block.slice_store_before (by omega)]
  congr 1
  have hs := Block.slice_store_self c.input.buffer c.input.bufcnt data
  rwa [show c.input.bufcnt + data.length - c.input.bufptr - (c.input.bufcnt - c.input.bufptr) =
    data.length by omega,
    show c.input.bufptr + (c.input.bufcnt - c.input.bufptr) = c.input.bufcnt by omega]

variable (env) in
theorem shrinkBuffer_spec {g n : Nat} (h : oci.Ready srv) (hg : g = oci.data.length) :
    (shrinkBuffer env oci g n).Ready srv ∧ (shrinkBuffer env oci g n).data = oci.data ∧
      (shrinkBuffer env oci g n).ignoreBytes = oci.ignoreBytes ∧
      (shrinkBuffer env oci g n).lenLastReq = oci.lenLastReq ∧
      ((shrinkBuffer env oci g n).size = oci.size ∨
        (n < bufSize ∧ (shrinkBuffer env oci g n).size = bufSize)) := by
  have hb := h.block
  have hp := h.ptr
  have hc := h.cnt
  have hcap := srv.cap_bounds
  have hl := oci.data_length
  have hv : bufSize = 16384 := rfl
  unfold shrinkBuffer
  by_cases hs : bufWatermark < oci.size ∧ oci.bufcnt < bufSize ∧ n < bufSize ∧ env.shrink = true
  · rw [if_pos hs]
    have hptr : oci.bufcnt - g = oci.bufptr := by omega
    refine ⟨⟨rfl, by dsimp only; omega, by dsimp only; omega, le_rfl, by dsimp only; omega⟩, ?_,
      rfl, rfl, .inr ⟨hs.2.2.1, rfl⟩⟩
    simp only [ConnectionInput.data, hptr]
    exact Block.slice_resize (by omega)
  · rw [if_neg hs]
    exact ⟨h, rfl, rfl, rfl, .inl rfl⟩

/-- What looking at a header leads to: `-(BadLength)`, or locals that say what is wanted. -/
inductive Parsed (srv : Server) (c : Conn) : Phase → Prop
  | malformed (n : Nat) (h0 : c.input.ignoreBytes = 0)
      (frame : frame srv.cap (srv.dialect c.client) c.current = .malformed) :
      Parsed srv c (.done ⟨.badLength, c.setLen n, false⟩)
  | next (n : Nat) (l : Locals) (want : Want srv (c.setLen n) l)
      (got : l.gotnow = c.input.data.length) : Parsed srv c (.next (c.setLen n) l)

variable (srv) in
theorem parsed_spec (h0 : c.input.ignoreBytes = 0) (h4 : 4 ≤ c.input.data.length) :
    Parsed srv c (parsed c (header (srv.dialect c.client) c.input.data)) := by
  cases hd : header (srv.dialect c.client) c.input.data with
  | incomplete =>
    obtain ⟨hlen, hz, hb⟩ := header_incomplete_iff hd h4
    exact .next 2 _ (.header h0 hd hlen le_rfl (show 4 ≤ 8 by decide) rfl fun _ => ⟨h4, hz, hb⟩) rfl
  | ordinary n => exact .next n _ (.ordinary n h0 hd rfl rfl rfl rfl) rfl
  | big n =>
    simp only [parsed]
    by_cases hm : maxUnits < n
    · rw [if_pos hm]
      refine .malformed n h0 ?_
      simp only [frame, header_current_big hd]
      rw [if_pos hm]
    · rw [if_neg hm]
      exact .next n _ (.big n h0 hd (by omega) rfl rfl rfl rfl) rfl

variable (srv) in
theorem lookAhead_spec (h : c.input.Ready srv) :
    ∃ ph, lookAhead srv c = some ph ∧ Parsed srv c ph := by
  have hg := h.gotnow
  unfold lookAhead
  by_cases hi : 0 < c.input.ignoreBytes
  · exact ⟨_, if_pos hi, .next c.client.reqLen _ (.skip hi rfl rfl rfl) hg⟩
  · have h0 : c.input.ignoreBytes = 0 := by omega
    by_cases h4 : c.input.data.length < 4
    · refine ⟨_, by rw [if_neg hi, hg]; exact if_pos h4, .next c.client.reqLen _ ?_ rfl⟩
      exact .header h0 (header_of_length_lt h4) h4 (by dsimp only [sizeofReq]; omega) le_rfl rfl
        fun hf => Bool.noConfusion hf
    · refine ⟨_, ?_, parsed_spec srv h0 (by omega)⟩
      rw [if_neg hi, hg, if_neg (show ¬ c.input.data.length < sizeofReq from h4)]
      exact parseHeader_eq h (by omega)

structure Extends (c c' : Conn) : Prop where
  data : ∃ ext, c'.input.data = c.input.data ++ ext
  client : c'.client = c.client
  ignore : c'.input.ignoreBytes = c.input.ignoreBytes

theorem parseAgain_spec {c' : Conn} (h : c'.input.Ready srv) (hx : Extends c c')
    (hw : Want srv c l)
    (hs : l.needed = min c.input.ignoreBytes c.input.size →
      l.needed = min c'.input.ignoreBytes c'.input.size) :
    ∃ ph, parseAgain srv c' { l with gotnow := c'.input.data.length } = some ph ∧
      ((∃ n, ph = .done ⟨.none, c'.setLen n, false⟩) ∨ Parsed srv c' ph ∧
        ∀ c2 l2, ph = .next c2 l2 → l2.needed ≤ l2.gotnow) := by
  obtain ⟨⟨ext, hdata⟩, hclient, hignore⟩ := hx
  have hsame : header (srv.dialect c.client) c.input.data ≠ .incomplete →
      header (srv.dialect c'.client) c'.input.data =
        header (srv.dialect c.client) c.input.data := by
    intro hne
    rw [hclient, hdata]
    exact header_append ext hne
  -- nothing is parsed again: only the amount of data has changed
  have hkeep : ∀ l' : Locals, l'.needHeader = false → l'.gotnow = c'.input.data.length →
      Want srv c' l' → ∃ ph, parseAgain srv c' l' = some ph ∧
      ((∃ n, ph = .done ⟨.none, c'.setLen n, false⟩) ∨ Parsed srv c' ph ∧
        ∀ c2 l2, ph = .next c2 l2 → l2.needed ≤ l2.gotnow) := by
    intro l' hnh hgot hwant
    unfold parseAgain
    rw [if_neg (by simp [hnh])]
    simp only [map_some]
    by_cases hlt : l'.gotnow < l'.needed
    · rw [if_pos hlt]
      exact ⟨_, rfl, .inl ⟨c'.client.reqLen, rfl⟩⟩
    · rw [if_neg hlt]
      refine ⟨_, rfl, .inr ⟨.next c'.client.reqLen l' hwant hgot, ?_⟩⟩
      rintro _ _ ⟨rfl, rfl⟩
      omega
  cases hw with
  | skip h0 hneed hnh hmh =>
    exact hkeep _ hnh rfl (.skip (by omega) (hs hneed) hnh hmh)
  | ordinary n h0 hd hneed hnh hmh hl =>
    refine hkeep _ hnh rfl (.ordinary n (by omega) ?_ hneed hnh hmh (hclient ▸ hl))
    rw [hsame (by rw [hd]; exact Header.noConfusion), hd]
  | big n h0 hd hn hneed hnh hmh hl =>
    refine hkeep _ hnh rfl (.big n (by omega) ?_ hn hneed hnh hmh (hclient ▸ hl))
    rw [hsame (by rw [hd]; exact Header.noConfusion), hd]
  | header h0 hd hmore hsmall hleast hnh hmh =>
    unfold parseAgain
    by_cases hgot : l.needed ≤ c'.input.data.length
    · have h4 : 4 ≤ c'.input.data.length := by omega
      rw [if_pos ⟨hnh, hgot⟩]
      rw [parseHeader_eq h h4]
      have hp := parsed_spec srv (c := c') (by omega) h4
      have hmhz : l.moveHeader = true →
          wordAt16 (srv.dialect c'.client).bigEndian c'.input.data 2 = 0 ∧
            c'.client.bigRequests = true := by
        intro hm
        obtain ⟨hl4, hz, hb⟩ := hmh hm
        rw [hclient, hdata, wordAt16_extend (by omega)]
        exact ⟨hz, hb⟩
      generalize hpar : parsed c' (header (srv.dialect c'.client) c'.input.data) = ph at hp
      cases hp with
      | malformed n h0' hf => exact ⟨_, rfl, .inr ⟨.malformed n h0' hf, fun _ _ he => by cases he⟩⟩
      | next n l' hwant hgot' =>
        simp only [map_some]
        have hmove : (l.moveHeader || l'.moveHeader) = l'.moveHeader ∨ l'.gotnow < l'.needed := by
          cases hm : l.moveHeader with
          | false => exact .inl (Bool.false_or _)
          | true =>
            obtain ⟨hz, hb⟩ := hmhz hm
            cases hwant with
            | skip hpos _ _ _ =>
              simp only [Conn.setLen] at hpos
              omega
            | header _ _ hmore' _ _ _ _ => exact .inr (hgot' ▸ hmore')
            | ordinary k _ hd' _ _ _ _ =>
              obtain ⟨_, hk, hk0⟩ := header_ordinary_iff hd'
              rcases hk0 with hk0 | hk0
              · exact absurd (hk.trans hz) hk0
              · exact absurd (hk0.symm.trans hb) Bool.false_ne_true
            | big k _ _ _ _ _ hmh' _ =>
              left
              rw [hmh']
              rfl
        by_cases hlt : l'.gotnow < l'.needed
        · rw [if_pos hlt]
          exact ⟨_, rfl, .inl ⟨n, rfl⟩⟩
        · rw [if_neg hlt, hmove.resolve_right hlt]
          refine ⟨_, rfl, Or.inr ⟨.next n l' hwant hgot', ?_⟩⟩
          rintro _ _ ⟨rfl, rfl⟩
          exact not_lt.mp hlt
    · rw [if_neg (fun hc => hgot hc.2)]
      simp only [map_some]
      rw [if_pos (show c'.input.data.length < l.needed by omega)]
      exact ⟨_, rfl, Or.inl ⟨c'.client.reqLen, rfl⟩⟩

theorem Outcome.mono {v v' : View} {d : Done} (h : Outcome srv env connected v' d)
    (hd : v'.dialect = v.dialect) (hs : v'.stream = v.stream) (hi : v'.ignore = v.ignore)
    (hm : v'.measure < v.measure) (hv : v.Starved srv.cap) : Outcome srv env connected v d := by
  cases h with
  | blocked result view idle _ _ _ =>
    subst view
    exact .progress 0 result (Nat.zero_le _) hd hs hi hm hv
      fun ha => by rw [idle] at ha; cases ha
  | progress k result skipped dialect stream ignore less _ idle =>
    exact .progress k result (hi ▸ skipped) (dialect.trans hd) (hs ▸ stream) (hi ▸ ignore)
      (less.trans hm) hv idle
  | request r rest ignore frame result dialect stream less whole skip idle =>
    exact .request r rest (hi ▸ ignore) (hd ▸ hs ▸ frame) result (dialect.trans hd) stream
      (less.trans hm) whole skip idle
  | short header rest ignore frame result dialect stream none live idle =>
    exact .short header rest (hi ▸ ignore) (hd ▸ hs ▸ frame) result (dialect.trans hd) stream
      none live idle
  | rejected ignore frame result idle =>
    exact .rejected (hi ▸ ignore) (hd ▸ hs ▸ frame) result idle
  | malformed ignore frame result idle =>
    exact .malformed (hi ▸ ignore) (hd ▸ hs ▸ frame) result idle
  | failed result idle why _ => exact .failed result idle why hv

/-- What reading more leads to: the call ends with an outcome, or the request is
complete in the buffer. -/
inductive Read (srv : Server) (env : Env) (connected : Bool) (c : Conn) : Phase → Prop
  | done (d : Done) (outcome : Outcome srv env connected (c.front srv) d)
      (wf : d.result ≠ .badLength → d.conn.input.WF srv) : Read srv env connected c (.done d)
  | next (c' : Conn) (l : Locals) (ready : c'.input.Ready srv) (want : Want srv c' l)
      (got : l.gotnow = c'.input.data.length) (whole : l.needed ≤ l.gotnow)
      (dialect : srv.dialect c'.client = srv.dialect c.client) (current : c'.current = c.current)
      (ignore : c'.input.ignoreBytes = c.input.ignoreBytes)
      (less : (c'.front srv).measure < (c.front srv).measure)
      (starved : (c.front srv).Starved srv.cap) :
      Read srv env connected c (.next c' l)

variable (env connected) in
theorem oversized_outcome (h : c.input.Ready srv) (hw : Want srv c l)
    (hg : l.gotnow = c.input.data.length) (hlt : l.gotnow < l.needed) (hcap : srv.cap < l.needed) :
    let c' := { c with input := { c.input with
      ignoreBytes := l.needed - l.gotnow, lenLastReq := l.gotnow } }
    c'.input.WF srv ∧ Outcome srv env connected (c.front srv) ⟨.request l.needed, c', false⟩ := by
  intro c'
  have hb := srv.cap_bounds
  have hp := h.ptr
  have hlen := c.input.data_length
  have hunread : c'.input.unread = [] := by
    apply eq_nil_of_length_eq_zero
    simp only [c', ConnectionInput.unread, ConnectionInput.data_length, ConnectionInput.advance]
    omega
  refine ⟨⟨⟨h.block, h.ptr, h.cnt, h.lo, h.hi⟩, by simp only [c']; omega⟩, ?_⟩
  cases hw with
  | skip _ hneed _ _ =>
    have hhi := h.hi
    omega
  | header _ _ _ hsmall _ _ _ => omega
  | ordinary n _ hd hneed _ _ _ =>
    have hn := header_ordinary_lt hd
    omega
  | big n h0 hd hm hneed _ _ _ =>
    obtain ⟨h8, _⟩ := header_big_iff hd
    have hf : frame srv.cap (srv.dialect c.client) c.current =
        .request (.oversized l.needed) (c.current.drop l.needed) := by
      simp only [frame, header_current_big hd]
      rw [if_neg (by omega), if_neg (by omega), if_neg (by omega), ← hneed, if_pos hcap]
    refine .request _ _ h0 hf rfl rfl ?_ ?_ ?_ (fun _ _ => Nat.sub_pos_of_lt hlt) ?_
    · simp only [Conn.view, Conn.pending, hunread, nil_append, Conn.current]
      rw [show l.needed = c.input.data.length + (l.needed - l.gotnow) by omega, drop_append]
      simp only [c', hg, Nat.add_sub_cancel_left]
      rw [drop_eq_nil_of_le (Nat.le_add_right _ _), nil_append]
    · refine view_measure_lt (k := c.input.data.length) ?_ ?_ (by omega)
      · simp only [Conn.front, Conn.current, length_append]
        rfl
      · simp only [hunread, length_nil, Conn.front]
        omega
    · rintro _ _ _ hr
      cases hr
    · intro ha
      cases ha

theorem take_buffered : (c.front srv).stream.take (c.front srv).buffered = c.input.data :=
  take_left' rfl

theorem Want.starved (hw : Want srv c l) (hg : l.gotnow = c.input.data.length)
    (hlt : l.gotnow < l.needed) (hcap : l.needed ≤ srv.cap) :
    (c.front srv).Starved srv.cap ∧ (0 < c.input.ignoreBytes →
      c.input.data.length < c.input.ignoreBytes) := by
  unfold View.Starved
  rw [take_buffered]
  simp only [Conn.front]
  cases hw with
  | skip h0 hneed _ _ => exact ⟨fun hz => by omega, fun _ => by omega⟩
  | header h0 hd _ _ _ _ _ => exact ⟨fun _ => by simp only [frame, hd], fun hz => by omega⟩
  | ordinary n h0 hd hneed _ _ _ =>
    refine ⟨fun _ => ?_, fun hz => by omega⟩
    simp only [frame, hd]
    rw [if_neg (show ¬ n = 0 by omega), if_neg (by omega), if_pos (by omega)]
  | big n h0 hd hm hneed _ _ _ =>
    obtain ⟨h8, _⟩ := header_big_iff hd
    refine ⟨fun _ => ?_, fun hz => by omega⟩
    simp only [frame, hd]
    rw [if_neg (by omega), if_neg (by omega), if_neg (by omega), if_neg (by omega),
      if_pos (by omega)]

theorem unread_of_last (h : oci.lenLastReq = 0) : oci.unread = oci.data := by
  simp only [ConnectionInput.unread, ConnectionInput.advance, h, add_zero]
  rfl

theorem Read.ofParsed {c' : Conn} {ph : Phase} (h : c'.input.Ready srv)
    (hl : c'.input.lenLastReq = 0) (hd : srv.dialect c'.client = srv.dialect c.client)
    (hc : c'.current = c.current) (hi : c'.input.ignoreBytes = c.input.ignoreBytes)
    (hm : (c'.front srv).measure < (c.front srv).measure) (hv : (c.front srv).Starved srv.cap)
    (hp : (∃ n, ph = .done ⟨.none, c'.setLen n, false⟩) ∨ Parsed srv c' ph ∧
      ∀ c2 l2, ph = .next c2 l2 → l2.needed ≤ l2.gotnow) : Read srv env connected c ph := by
  have hview : ∀ n, (c'.setLen n).view srv = c'.front srv := by
    intro n
    simp only [Conn.view, Conn.front, Conn.pending, Conn.current, Conn.setLen, unread_of_last hl]
    rfl
  rcases hp with ⟨n, rfl⟩ | ⟨hp, hle⟩
  · refine .done _ (.progress 0 rfl (Nat.zero_le _) ?_ ?_ ?_ ?_ hv fun ha => by cases ha) fun _ =>
      ⟨⟨h.block, h.ptr, h.cnt, h.lo, h.hi⟩, ?_⟩
    · exact hd
    · rw [hview]
      exact hc
    · rw [hview]
      exact hi
    · rw [hview]
      exact hm
    · have hptr := h.ptr
      simp only [Conn.setLen, hl]
      omega
  · cases hp with
    | malformed n h0 hf =>
      refine .done _ (.malformed (hi.symm.trans h0) ?_ rfl rfl) fun hne => absurd rfl hne
      simp only [Conn.front]
      rwa [← hd, ← hc]
    | next n l hw hg => exact .next _ l h hw hg (hle _ _ rfl) hd hc hi hm hv

variable (env connected) in
theorem readMore_spec (h : c.input.Ready srv) (hw : Want srv c l)
    (hg : l.gotnow = c.input.data.length) (hlt : l.gotnow < l.needed) :
    ∃ ph, readMore srv env connected c l = some ph ∧ Read srv env connected c ph := by
  unfold readMore
  by_cases hcap : srv.cap < l.needed
  · rw [if_pos hcap]
    obtain ⟨hwf, hout⟩ := oversized_outcome env connected h hw hg hlt hcap
    exact ⟨_, rfl, .done _ hout fun _ => hwf⟩
  rw [if_neg hcap]
  obtain ⟨hv, hskip⟩ := hw.starved hg hlt (by omega)
  have hr0 : ConnectionInput.Ready srv { c.input with lenLastReq := 0 } :=
    ⟨h.block, h.ptr, h.cnt, h.lo, h.hi⟩
  obtain ⟨oci, ok, hroom, hready, hlast, hno, hyes⟩ := makeRoom_spec env hr0 hg (by omega) hlt
  have hwf : oci.WF srv := ⟨hready, by rw [hlast]; exact hready.ptr⟩
  rw [hroom, bind_some]
  dsimp only
  by_cases hdead : (!ok) = true ∨ (!connected) = true
  · rw [if_pos hdead]
    refine ⟨_, rfl, .done _ (.failed rfl rfl ?_ hv) fun _ => hwf⟩
    rcases hdead with hd | hd
    · exact Or.inl (hno (by simpa using hd))
    · exact .inr (Or.inl (by simpa using hd))
  rw [if_neg hdead]
  have hok : ok = true := by
    cases ok with
    | true => rfl
    | false => exact absurd (.inl rfl) hdead
  obtain ⟨_, hdata, hspace, hsize, _, hignore⟩ := hyes hok
  have hlen := oci.data_length
  have hptr := hready.ptr
  have hdata' : oci.data = c.input.data := hdata
  rcases transRead_spec env c.sock
      (show oci.size - oci.bufcnt ≠ 0 by rw [hdata'] at hlen; omega) with
    ⟨ht, hf⟩ | ⟨ht, hwhy⟩ | ⟨n, hn0, hna, hns, ht⟩
  · rw [ht]
    exact ⟨_, rfl, .done _ (.failed rfl rfl (.inr (.inr hf)) hv) fun _ => hwf⟩
  · rw [ht]
    refine ⟨_, rfl, .done _ (.blocked rfl ?_ rfl ?_ hv hskip) fun _ => hwf⟩
    · simp only [Conn.view, Conn.front, Conn.pending, Conn.current, unread_of_last hlast, hdata',
        hignore]
    · intro k hk
      refine (hwhy k hk).imp_right fun hs => ?_
      simp only [Conn.front, Conn.current, hs, append_nil]
  · rw [ht]
    have htake : (c.sock.take n).length = n := length_take_of_le hns
    obtain ⟨c', hrec, hr', hd', hs', hc', hi', hz', hl'⟩ :=
      receive_spec (c := { c with input := oci }) (l := l) (c.sock.take n) hready
        (by rw [htake]; have hc := hready.cnt; dsimp only; omega)
    have hgot : l.gotnow + (c.sock.take n).length = c'.input.data.length := by
      rw [hd', length_append, hg, hdata']
    obtain ⟨hr2, hd2, hi2, hl2, hz2⟩ := shrinkBuffer_spec env (n := l.needed) hr' hgot
    dsimp only at hrec ⊢
    rw [hrec, bind_some]
    rw [hgot] at hr2 hd2 hi2 hl2 hz2 ⊢
    have hext : Extends c { c' with
        input := shrinkBuffer env c'.input c'.input.data.length l.needed } :=
      ⟨⟨c.sock.take n, by dsimp only; rw [hd2, hd', hdata']⟩, hc', by
        dsimp only; rw [hi2, hi']; exact hignore⟩
    obtain ⟨ph, hph, hparse⟩ := parseAgain_spec hr2 hext hw (by
      have hv : bufSize ≤ c.input.size := h.lo
      have hsz : c'.input.size = max c.input.size l.needed := hz'.trans hsize
      have hig : c'.input.ignoreBytes = c.input.ignoreBytes := hi'.trans hignore
      dsimp only
      omega)
    rw [hd2] at hph
    have hcur : Conn.current { c' with
        input := shrinkBuffer env c'.input c'.input.data.length l.needed } = c.current := by
      simp only [Conn.current]
      rw [hd2, hd', hs', htake, hdata', append_assoc, take_append_drop]
    refine ⟨ph, hph, Read.ofParsed hr2 (hl2.trans (hl'.trans hlast)) ?_ hcur hext.ignore ?_ hv
      hparse⟩
    · simp only [hc']
    · simp only [View.measure, Conn.front, hcur]
      rw [hd2, hd', hdata']
      simp only [Conn.current, length_append, htake]
      omega

variable (env connected) in
theorem readRequest_outcome (h : c.input.WF srv) :
    ∃ d, readRequest srv env connected c = some d ∧ Outcome srv env connected (c.view srv) d ∧
      (d.result ≠ .badLength → d.conn.input.WF srv) := by
  have hr := h.advance
  obtain ⟨ph, hph, hp⟩ := lookAhead_spec srv (c := { c with input := c.input.advance }) hr
  unfold readRequest
  rw [hph, bind_some]
  cases hp with
  | malformed n h0 hf => exact ⟨_, rfl, .malformed h0 hf rfl rfl, fun hne => absurd rfl hne⟩
  | next n l hw hg =>
    dsimp only
    by_cases hlt : l.gotnow < l.needed
    · rw [if_pos hlt]
      obtain ⟨ph2, hph2, hread⟩ := readMore_spec env connected
        (c := Conn.setLen { c with input := c.input.advance } n) hr hw hg hlt
      rw [hph2, bind_some]
      cases hread with
      | done d hout hwf => exact ⟨_, rfl, hout, hwf⟩
      | next c' l' hr' hw' hg' hle hd hc hi hm hv =>
        obtain ⟨d, hrep, hwf, hout⟩ := report_outcome env connected hr' hw' hg' hle
        exact ⟨d, hrep, hout.mono hd hc hi hm hv, fun _ => hwf⟩
    · rw [if_neg hlt]
      obtain ⟨d, hrep, hwf, hout⟩ := report_outcome env connected
        (c := Conn.setLen { c with input := c.input.advance } n) hr hw hg (by omega)
      exact ⟨d, hrep, hout, fun _ => hwf⟩

end More

end Xfront.Input
