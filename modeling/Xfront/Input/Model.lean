import Xfront.Lib.Bytes

/-!
# Client input buffers (os/io.c)

One call of `ReadRequestFromClient` on the connection it serves: the input
buffer, the part of the client record it reads and writes, and the bytes the
peer has sent. The body of the function (`io.c:244-482`) is split at its own
comments: look at the header, make room, read, parse again, ignore, move the
header. Undefined behaviour (an access outside the buffer, a failed assertion)
has no result. The file descriptors passed with a request and the scheduling
flags set by `YieldControl` are not part of the model.
-/

namespace Xfront.Input
open Xfront.Bytes

def bufSize : Nat := 16384

def bufWatermark : Nat := 32768

def sizeofReq : Nat := 4

def sizeofBigReq : Nat := 8

def maxUnits : Nat := (2 ^ 31 - 1) / 4

/-- `maxBigRequestSize` in 4-byte units: the default of `globals.c:88`, or what
`-maxbigreqsize` makes of a number of megabytes (`utils.c:691-702`). -/
structure MaxBigRequestSize where
  units : Nat
  source : units = 4194303 ∨ ∃ mb, 0 < mb ∧ mb < 128 ∧ units = mb * 1048576 - 1

theorem MaxBigRequestSize.bounds (m : MaxBigRequestSize) :
    1048575 ≤ m.units ∧ m.units < 133169152 := by
  rcases m.source with h | ⟨mb, h0, h1, h⟩ <;> omega

structure Server where
  maxBigRequestSize : MaxBigRequestSize
  hostBigEndian : Bool

/-- Largest request, in bytes, that is read whole (`maxBigRequestSize << 2`). -/
def Server.cap (srv : Server) : Nat := srv.maxBigRequestSize.units * 4

theorem Server.cap_bounds (srv : Server) : 4194300 ≤ srv.cap ∧ srv.cap < 532676608 := by
  have h := srv.maxBigRequestSize.bounds
  unfold Server.cap
  omega

/-- The fields of `ClientRec` that the input functions use; `requestBuffer` is
an offset into the client's input buffer. -/
structure Client where
  swapped : Bool
  bigRequests : Bool
  reqLen : Nat
  requestBuffer : Nat

def Server.order (srv : Server) (cli : Client) : Bool := xor srv.hostBigEndian cli.swapped

/-- `ConnectionInput` (`io.c:102-110`); `bufptr` is the offset from `buffer`. -/
structure ConnectionInput where
  buffer : Block
  bufptr : Nat
  bufcnt : Nat
  lenLastReq : Nat
  size : Nat
  ignoreBytes : Nat

/-- What one call works on: the client, its buffer, and the bytes the peer has
sent that have not been read from the transport yet. -/
structure Conn where
  client : Client
  input : ConnectionInput
  sock : List Byte

/-- The transport's answer to one read: it has up to `k` bytes ready (none:
would block), or the connection is at its end or broken. -/
inductive Trans where
  | grant (k : Nat)
  | fail

structure Env where
  alloc : Bool
  grow : Bool
  shrink : Bool
  junk : Nat → Byte
  trans : Trans

/-- Return value of `ReadRequestFromClient`: `-1`, `-(BadLength)`, `0`, or the
length of a request. -/
inductive Result where
  | death
  | badLength
  | none
  | request (count : Nat)
  deriving DecidableEq

/-- What a finished call leaves; `available` says that it set `AvailableInput`. -/
structure Done where
  result : Result
  conn : Conn
  available : Bool

/-- The locals `gotnow`, `needed`, `need_header` and `move_header`. -/
structure Locals where
  gotnow : Nat
  needed : Nat
  needHeader : Bool
  moveHeader : Bool

inductive Phase where
  | done (d : Done)
  | next (c : Conn) (l : Locals)

def unsigned (x : Int) : Nat := (x % 2 ^ 32).toNat

/-- `oci->bufcnt + oci->buffer - oci->bufptr`, as the `unsigned int` it is stored in. -/
def ConnectionInput.gotnow (oci : ConnectionInput) : Nat := unsigned (oci.bufcnt - oci.bufptr)

def getReqLen (srv : Server) (c : Conn) : Option Nat :=
  c.input.buffer.load16 (srv.order c.client) (c.input.bufptr + 2)

def getBigReqLen (srv : Server) (c : Conn) : Option Nat :=
  c.input.buffer.load32 (srv.order c.client) (c.input.bufptr + 4)

def ConnectionInput.advance (oci : ConnectionInput) : ConnectionInput :=
  { oci with bufptr := oci.bufptr + oci.lenLastReq }

/-- The length in 4-byte units of the request at `bufptr` and whether more of
the header is needed to know it (`io.c:300-311`, `io.c:401-408`). -/
def headerUnits (srv : Server) (c : Conn) (gotnow : Nat) : Option Locals :=
  (getReqLen srv c).bind fun needed =>
    if needed = 0 ∧ c.client.bigRequests then
      if gotnow < sizeofBigReq then
        some ⟨gotnow, (sizeofBigReq + 3) / 4, true, true⟩
      else (getBigReqLen srv c).map fun n => ⟨gotnow, n, false, true⟩
    else some ⟨gotnow, needed, false, false⟩

/-- Store `req_len` and turn `needed` into bytes (`io.c:312-317`, `io.c:409-412`). -/
def parseHeader (srv : Server) (c : Conn) (gotnow : Nat) : Option Phase :=
  (headerUnits srv c gotnow).map fun l =>
    let c' := { c with client := { c.client with reqLen := l.needed } }
    if maxUnits < l.needed then .done ⟨.badLength, c', false⟩
    else .next c' { l with needed := l.needed * 4 }

/-- How many bytes this call wants at `bufptr` (`io.c:276-318`). -/
def lookAhead (srv : Server) (c : Conn) : Option Phase :=
  let gotnow := c.input.gotnow
  if 0 < c.input.ignoreBytes then
    some (.next c ⟨gotnow, min c.input.ignoreBytes c.input.size, false, false⟩)
  else if gotnow < sizeofReq then some (.next c ⟨gotnow, sizeofReq, true, false⟩)
  else parseHeader srv c gotnow

/-- Move the data to the front and grow the buffer where needed
(`io.c:338-360`); the flag is off when `realloc` fails. -/
def makeRoom (env : Env) (oci : ConnectionInput) (l : Locals) : Option (ConnectionInput × Bool) :=
  if l.gotnow = 0 ∨ oci.size < oci.bufptr + l.needed then
    let moved :=
      if 0 < l.gotnow ∧ oci.bufptr ≠ 0 then
        (oci.buffer.read oci.bufptr l.gotnow).bind (oci.buffer.write 0)
      else some oci.buffer
    moved.map fun buffer =>
      if oci.size < l.needed then
        if env.grow then
          ({ oci with buffer := buffer.resize l.needed env.junk, size := l.needed,
                      bufptr := 0, bufcnt := l.gotnow }, true)
        else ({ oci with buffer := buffer }, false)
      else ({ oci with buffer := buffer, bufptr := 0, bufcnt := l.gotnow }, true)
  else some (oci, true)

/-- `_XSERVTransRead` of `asked` bytes: the bytes it delivers, `none` when it
would block; a read of no bytes, the end of the stream and errors fail. -/
def transRead (env : Env) (asked : Nat) (sock : List Byte) : Option (Option (List Byte)) :=
  if asked = 0 then none
  else match env.trans with
    | .fail => none
    | .grant k => if min k sock.length = 0 then some none else some (some (sock.take (min k asked)))

/-- Give memory back after a huge request (`io.c:386-397`). -/
def shrinkBuffer (env : Env) (oci : ConnectionInput) (gotnow needed : Nat) : ConnectionInput :=
  if bufWatermark < oci.size ∧ oci.bufcnt < bufSize ∧ needed < bufSize ∧ env.shrink then
    { oci with buffer := oci.buffer.resize bufSize env.junk, size := bufSize,
               bufptr := oci.bufcnt - gotnow }
  else oci

/-- After the read: parse a header that was incomplete before it, and give up
for now if the request is still not complete (`io.c:398-419`). -/
def parseAgain (srv : Server) (c : Conn) (l : Locals) : Option Phase :=
  let parsed :=
    if l.needHeader ∧ l.needed ≤ l.gotnow then
      (parseHeader srv c l.gotnow).map fun
        | .done d => Phase.done d
        | .next c' l' => .next c' { l' with moveHeader := l.moveHeader || l'.moveHeader }
    else some (.next c l)
  parsed.map fun
    | .done d => .done d
    | .next c' l' => if l'.gotnow < l'.needed then .done ⟨.none, c', false⟩ else .next c' l'

/-- Store what the transport delivered behind the data (`io.c:383-385`). -/
def receive (c : Conn) (l : Locals) (data : List Byte) : Option (Conn × Locals) :=
  (c.input.buffer.write c.input.bufcnt data).map fun buffer =>
    ({ c with input := { c.input with buffer := buffer, bufcnt := c.input.bufcnt + data.length },
              sock := c.sock.drop data.length },
     { l with gotnow := l.gotnow + data.length })

/-- The body of `if (gotnow < needed)` (`io.c:319-420`). -/
def readMore (srv : Server) (env : Env) (connected : Bool) (c : Conn) (l : Locals) :
    Option Phase :=
  let oci := { c.input with lenLastReq := 0 }
  if srv.cap < l.needed then
    some (.done ⟨.request l.needed,
      { c with input := { oci with ignoreBytes := l.needed - l.gotnow, lenLastReq := l.gotnow } },
      false⟩)
  else (makeRoom env oci l).bind fun (oci, grown) =>
      if !grown ∨ !connected then some (.done ⟨.death, { c with input := oci }, false⟩)
      else match transRead env (oci.size - oci.bufcnt) c.sock with
        | none => some (.done ⟨.death, { c with input := oci }, false⟩)
        | some none => some (.done ⟨.none, { c with input := oci }, false⟩)
        | some (some data) => (receive { c with input := oci } l data).bind fun (c', l') =>
            parseAgain srv { c' with input := shrinkBuffer env c'.input l'.gotnow l'.needed } l'

/-- Skip bytes of an oversized request (`io.c:430-448`), with its assertion. -/
def ignoreInput (c : Conn) (l : Locals) : Option (Conn × Locals) :=
  if 0 < c.input.ignoreBytes then
    if l.needed = c.input.ignoreBytes ∨ l.needed = c.input.size then
      let n := min l.gotnow l.needed
      some ({ c with input := { c.input with ignoreBytes := c.input.ignoreBytes - n,
                                             bufptr := c.input.bufptr + n } },
            { l with gotnow := l.gotnow - n, needed := 0 })
    else none
  else some (c, l)

/-- Move the header of a big request over its length word (`io.c:461-472`). -/
def moveHeader (c : Conn) : Option (Option Conn) :=
  if c.client.reqLen < (sizeofBigReq - sizeofReq + 3) / 4 then some none
  else (c.input.buffer.read c.input.bufptr sizeofReq).bind fun header =>
    (c.input.buffer.write (c.input.bufptr + (sizeofBigReq - sizeofReq)) header).map fun buffer =>
      some { c with
        input := { c.input with buffer := buffer,
                                bufptr := c.input.bufptr + (sizeofBigReq - sizeofReq),
                                lenLastReq := c.input.lenLastReq - (sizeofBigReq - sizeofReq) },
        client := { c.client with
          reqLen := c.client.reqLen - (sizeofBigReq - sizeofReq + 3) / 4 } }

def report (c : Conn) (l : Locals) : Option Done :=
  let needed :=
    if l.needed = 0 then if c.client.bigRequests then sizeofBigReq else sizeofReq else l.needed
  (ignoreInput c { l with needed := needed }).bind fun (c, l) =>
    let c := { c with input := { c.input with lenLastReq := l.needed } }
    let gotnow := unsigned (l.gotnow - l.needed)
    let available := gotnow = 0 ∧ c.input.ignoreBytes = 0
    let exposed (c : Conn) : Conn :=
      { c with client := { c.client with requestBuffer := c.input.bufptr } }
    let result := if l.needed = 0 then Result.none else .request l.needed
    if l.moveHeader then (moveHeader c).map fun
      | none => ⟨.death, c, available⟩
      | some c' => ⟨result, exposed c', available⟩
    else some ⟨result, exposed c, available⟩

/-- `ReadRequestFromClient` from the point where the connection has an input
buffer (`io.c:274-482`). -/
def readRequest (srv : Server) (env : Env) (connected : Bool) (c : Conn) : Option Done :=
  (lookAhead srv { c with input := c.input.advance }).bind fun
    | .done d => some d
    | .next c l =>
      if l.gotnow < l.needed then (readMore srv env connected c l).bind fun
        | .done d => some d
        | .next c l => report c l
      else report c l

end Xfront.Input
