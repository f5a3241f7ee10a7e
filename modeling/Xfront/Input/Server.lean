import Xfront.Lib.Pool
import Xfront.Input.ReadSpec

/-!
# Clients and their shared input buffers (os/io.c, os/connection.c, dix/dispatch.c)

All clients of a server over the buffers they pass on to each other through
`FreeInputs` and `AvailableInput`. A client's `OsComm` is named by the client;
its `input` pointer is the owner map of the pool. Following a null or a freed
pointer has no result.
-/

namespace Xfront.Input
open Xfront.Bytes Function

/-- `OsCommRec` without its buffers: whether `trans_conn` is set, and what the
peer has sent on it. -/
structure OsComm where
  transConn : Bool
  sock : List Byte

structure State (κ : Type) where
  inputs : Pool κ ConnectionInput
  availableInput : Option κ
  osPrivate : κ → Option OsComm
  client : κ → Client

/-- All clients just connected, none served yet; `sock` is what they are going to send. -/
def State.start {κ : Type} (client : κ → Client) (sock : κ → List Byte) : State κ :=
  ⟨Pool.empty, none, fun k => some ⟨true, sock k⟩, client⟩

/-- A server without `-maxbigreqsize` on a little-endian host. -/
def Server.standard : Server := ⟨⟨4194303, Or.inl rfl⟩, false⟩

/-! ### `AllocateInputBuffer`, `NextAvailableInput` (`io.c:223-242`, `io.c:1038-1056`) -/

def allocateInputBuffer : ConnectionInput := ⟨Block.zeroed bufSize, 0, 0, 0, bufSize, 0⟩

variable {κ : Type} [DecidableEq κ]

def nextAvailableInput (s : State κ) (k : κ) : Option (State κ) :=
  match s.availableInput with
  | none => some s
  | some o =>
    if o = k then some { s with availableInput := none }
    else (s.inputs.owner o).bind fun a => (s.inputs.cell a).map fun aci =>
      { s with availableInput := none,
               inputs := if bufWatermark < aci.size then s.inputs.discard o a
                         else s.inputs.release o a }

/-- "make sure we have an input buffer" (`io.c:256-266`, `io.c:529-536`); no
result when the allocation fails. -/
def ensureInput (alloc : Bool) (s : State κ) (k : κ) : Option (State κ × Nat) :=
  match s.inputs.owner k with
  | some a => some (s, a)
  | none => match s.inputs.free with
    | a :: rest => some ({ s with inputs := s.inputs.acquire k a rest }, a)
    | [] =>
      if alloc then
        some ({ s with inputs := s.inputs.alloc k allocateInputBuffer }, s.inputs.next)
      else none

/-! ### `ReadRequestFromClient` (`io.c:244-482`) -/

def State.store (s : State κ) (k : κ) (a : Nat) (oc : OsComm) (d : Done) : State κ :=
  { inputs := s.inputs.put a d.conn.input
    availableInput := if d.available then some k else s.availableInput
    osPrivate := update s.osPrivate k (some { oc with sock := d.conn.sock })
    client := update s.client k d.conn.client }

def readRequestFromClient (srv : Server) (env : Env) (s : State κ) (k : κ) :
    Option (Result × State κ) :=
  (s.osPrivate k).bind fun oc => (nextAvailableInput s k).bind fun s =>
    match ensureInput env.alloc s k with
    | none => some (.death, s)
    | some (s, a) => (s.inputs.cell a).bind fun oci =>
      (readRequest srv env oc.transConn ⟨s.client k, oci, oc.sock⟩).map fun d =>
        (d.result, s.store k a oc d)

/-! ### `InsertFakeRequest` (`io.c:520-568`) -/

/-- `realloc` to `total` bytes where the buffer is smaller; the data stay where they are. -/
def growInput (env : Env) (oci : ConnectionInput) (total : Int) : ConnectionInput :=
  if (oci.size : Int) < total then
    { oci with buffer := oci.buffer.resize total.toNat env.junk, size := total.toNat }
  else oci

/-- Put `data` in front of the data at `bufptr`; the flag is off when `realloc` fails. -/
def insertAtPtr (env : Env) (oci : ConnectionInput) (data : List Byte) :
    Option (ConnectionInput × Bool) :=
  let count := data.length
  let gotnow : Int := oci.bufcnt - oci.bufptr
  if (oci.size : Int) < gotnow + count ∧ !env.grow then some (oci, false)
  else
    let oci := growInput env oci (gotnow + count)
    let moveup := count - oci.bufptr
    let moved :=
      if 0 < moveup ∧ 0 < gotnow then
        (oci.buffer.read oci.bufptr gotnow.toNat).bind (oci.buffer.write (oci.bufptr + moveup))
      else some oci.buffer
    moved.bind fun buffer => (buffer.write (oci.bufptr + moveup - count) data).map fun buffer =>
      ({ oci with buffer := buffer, bufptr := oci.bufptr + moveup - count,
                  bufcnt := oci.bufcnt + moveup }, true)

def insertInto (env : Env) (oci : ConnectionInput) (data : List Byte) :
    Option (ConnectionInput × Bool) :=
  insertAtPtr env { oci.advance with lenLastReq := 0 } data

def insertFakeRequest (env : Env) (s : State κ) (k : κ) (data : List Byte) :
    Option (Bool × State κ) :=
  (s.osPrivate k).bind fun _ => (nextAvailableInput s k).bind fun s =>
    match ensureInput env.alloc s k with
    | none => some (false, s)
    | some (s, a) => (s.inputs.cell a).bind fun oci =>
      (insertInto env oci data).map fun (oci, ok) => (ok, { s with inputs := s.inputs.put a oci })

/-! ### `ResetCurrentRequest` (`io.c:573-612`) -/

def rewind (srv : Server) (cli : Client) (oci : ConnectionInput) : Option ConnectionInput :=
  let oci := { oci with lenLastReq := 0 }
  let gotnow : Int := oci.bufcnt - oci.bufptr
  -- the comparison with `sizeof` is unsigned
  if gotnow % 2 ^ 64 < sizeofReq then some oci
  else (oci.buffer.load16 (srv.order cli) (oci.bufptr + 2)).bind fun needed =>
    if needed = 0 ∧ cli.bigRequests then
      if oci.bufptr < sizeofBigReq - sizeofReq then none
      else
        let bufptr := oci.bufptr - (sizeofBigReq - sizeofReq)
        (oci.buffer.read oci.bufptr sizeofReq).bind fun request =>
          (oci.buffer.write bufptr request).bind fun buffer =>
            (buffer.write (bufptr + sizeofReq) (bytes32 (srv.order cli) cli.reqLen)).map
              fun buffer => { oci with buffer := buffer, bufptr := bufptr }
    else some oci

def resetCurrentRequest (srv : Server) (s : State κ) (k : κ) : Option (State κ) :=
  match s.osPrivate k with
  | none => some s
  | some _ => (s.inputs.owner k).bind fun a => (s.inputs.cell a).bind fun oci =>
    (rewind srv (s.client k) oci).map fun oci =>
      { s with availableInput := if s.availableInput = some k then none else s.availableInput,
               inputs := s.inputs.put a oci }

/-! ### `FreeOsBuffers`, `CloseDownConnection` (`io.c:1073-1106`, `connection.c:726-745`) -/

def freeOsBuffers (s : State κ) (k : κ) : Option (State κ) :=
  let s := { s with
    availableInput := if s.availableInput = some k then none else s.availableInput }
  match s.inputs.owner k with
  | none => some s
  | some a =>
    if s.inputs.free ≠ [] then some { s with inputs := s.inputs.discard k a }
    else (s.inputs.cell a).map fun oci =>
      { s with inputs := (s.inputs.put a
          { oci with bufptr := 0, bufcnt := 0, lenLastReq := 0, ignoreBytes := 0 }).release k a }

def closeDownConnection (s : State κ) (k : κ) : Option (State κ) :=
  (s.osPrivate k).bind fun _ => (freeOsBuffers s k).map fun s =>
    { s with osPrivate := update s.osPrivate k none }

/-! ### One round of `Dispatch` (`dispatch.c`) -/

/-- What `Dispatch` makes of one `ReadRequestFromClient`: nothing to do yet, the
client is closed, a `BadLength` error, or a request. -/
inductive Served where
  | more
  | closed
  | badLength
  | reported (r : Report)
  deriving DecidableEq

/-- The request the dispatcher sees: the count, `req_len`, and the bytes at
`requestBuffer`, at least a header. -/
def observe (srv : Server) (cli : Client) (oci : ConnectionInput) (count : Nat) : Option Report :=
  if srv.cap < count then some (.oversized count)
  else (oci.buffer.read cli.requestBuffer (max sizeofReq (cli.reqLen * 4))).map
    (.whole count cli.reqLen)

def serve (srv : Server) (env : Env) (s : State κ) (k : κ) : Option (Served × State κ) :=
  (readRequestFromClient srv env s k).bind fun (result, s) =>
    match result with
    | .none => some (.more, s)
    | .death => (closeDownConnection s k).map fun s => (.closed, s)
    | .badLength => some (.badLength, s)
    | .request count => (s.inputs.content k).bind fun oci =>
      (observe srv (s.client k) oci count).map fun r => (.reported r, s)

end Xfront.Input
