import Xfront.Lib.Bytes
import Xfront.Lib.Pool

/-!
# Client output buffers (os/io.c)

`dixWriteToClient`, `FlushClient` and what they call, for all clients over the
output buffers they pass on through `FreeOutputs`. The transport is seen through
the bytes it accepts; every write it is asked for may be taken in part, block,
fail with `EMSGSIZE` or fail for good. Copies are checked against the size of
the buffer. Callbacks and the flags that schedule a later flush are not part of
the model.
-/

namespace Xfront.Output
open Xfront.Bytes Function

def bufSize : Nat := 16384
def bufWatermark : Nat := 32768

def intMax : Nat := 2 ^ 31 - 1

structure ConnectionOutput where
  buf : Block
  size : Nat
  count : Nat

/-- What `_XSERVTransWrite` does with one call: it takes up to `k` of the bytes,
would block, reports `EMSGSIZE`, or fails. -/
inductive Write where
  | accept (k : Nat)
  | wouldBlock
  | emsgsize
  | fatal

/-- All clients; `accepted` is what the transport of each has taken so far. -/
structure State (κ : Type) where
  outputs : Pool κ ConnectionOutput
  transConn : κ → Bool
  clientGone : κ → Bool
  accepted : κ → List Byte

/-- A block to be written; its length is an `int`. -/
def OutBlock : Type := { data : List Byte // data.length ≤ intMax }

def paddingForInt32 (bytes : Nat) : Nat := (4 - bytes % 4) % 4

def OutBlock.padded (b : OutBlock) : List Byte :=
  b.val ++ List.replicate (paddingForInt32 b.val.length) 0

def int (n : Nat) : Int := ((n : Int) + 2 ^ 31) % 2 ^ 32 - 2 ^ 31

/-- What decides how one call of `dixWriteToClient` goes; a call may flush twice. -/
structure Env where
  alloc : Bool
  grow : Bool
  junk : Nat → Byte
  first : List Write
  second : List Write

def State.start (κ : Type) : State κ where
  outputs := Pool.empty
  transConn _ := true
  clientGone _ := false
  accepted _ := []

/-! ### `AllocateOutputBuffer`, `AbortClient`, `OutputEnsureBuffer` (`io.c:668-705`, `io.c:1058-1071`) -/

def allocateOutputBuffer : ConnectionOutput := ⟨Block.zeroed bufSize, bufSize, 0⟩

variable {κ : Type} [DecidableEq κ]

def abortClient (s : State κ) (k : κ) : State κ :=
  { s with transConn := update s.transConn k false }

def outputEnsureBuffer (alloc : Bool) (s : State κ) (k : κ) : Option (State κ × Nat) :=
  match s.outputs.owner k with
  | some a => some (s, a)
  | none => match s.outputs.free with
    | a :: rest => some ({ s with outputs := s.outputs.acquire k a rest }, a)
    | [] =>
      if alloc then
        some ({ s with outputs := s.outputs.alloc k allocateOutputBuffer }, s.outputs.next)
      else none

/-! ### `FlushClient` (`io.c:952-1036`) -/

/-- How the loop of `FlushClient` ends, with the bytes the transport has taken. -/
inductive Flushed where
  | all (out : List Byte)
  | blocked (written notWritten : Nat) (out : List Byte)
  | failed (out : List Byte)

/-- The loop of `FlushClient`; when the script of the transport is used up it blocks. -/
def flushLoop (buf : Block) (written notWritten todo : Nat) (out : List Byte) :
    List Write → Option Flushed
  | [] => some (if notWritten = 0 then .all out else .blocked written notWritten out)
  | t :: ts =>
    if notWritten = 0 then some (.all out)
    else match t with
      | .accept k =>
        let len := min k todo
        (buf.read written len).bind fun data =>
          flushLoop buf (written + len) (notWritten - len) (notWritten - len) (out ++ data) ts
      | .wouldBlock => some (.blocked written notWritten out)
      | .emsgsize => flushLoop buf written notWritten (todo / 2) out ts
      | .fatal => some (.failed out)

def State.deliver (s : State κ) (k : κ) (out : List Byte) : State κ :=
  { s with accepted := update s.accepted k (s.accepted k ++ out) }

def abortFlush (s : State κ) (k : κ) (a : Nat) (oco : ConnectionOutput) : State κ :=
  { abortClient s k with outputs := s.outputs.put a { oco with count := 0 } }

def flushClient (s : State κ) (k : κ) (ts : List Write) : Option (Bool × State κ) :=
  match s.outputs.owner k with
  | none => some (true, s)
  | some a => (s.outputs.cell a).bind fun oco =>
    if !s.transConn k then some (false, abortFlush s k a oco)
    else if oco.count = 0 then some (true, s)
    else (flushLoop oco.buf 0 oco.count oco.count [] ts).bind fun
      | .all out =>
        let s := s.deliver k out
        some (true, { s with
          outputs := if bufWatermark < oco.size then s.outputs.discard k a
                     else (s.outputs.put a { oco with count := 0 }).release k a })
      | .blocked written notWritten out =>
        let moved :=
          if 0 < written then
            (oco.buf.read written (oco.count - written)).bind (oco.buf.write 0)
          else some oco.buf
        moved.map fun buf =>
          let s := s.deliver k out
          (true, { s with outputs := s.outputs.put a { oco with buf := buf, count := notWritten } })
      | .failed out => some (false, abortFlush (s.deliver k out) k a oco)

/-! ### `OutputBufferMakeRoomAndFlush` (`io.c:707-770`) -/

def append (oco : ConnectionOutput) (b : OutBlock) : Option ConnectionOutput :=
  (oco.buf.write oco.count b.val).bind fun buf =>
    (buf.write (oco.count + b.val.length)
      (List.replicate (paddingForInt32 b.val.length) 0)).map fun buf =>
        { oco with buf := buf,
                   count := oco.count + b.val.length + paddingForInt32 b.val.length }

def memcpyAndFlush (s : State κ) (k : κ) (a : Nat) (b : OutBlock) (ts : List Write) :
    Option (Bool × State κ) :=
  (s.outputs.cell a).bind fun oco => (append oco b).bind fun oco =>
    flushClient { s with outputs := s.outputs.put a oco } k ts

def ConnectionOutput.grown (oco : ConnectionOutput) (newsize : Nat) (junk : Nat → Byte) :
    ConnectionOutput :=
  { oco with buf := oco.buf.resize newsize junk, size := newsize }

def growAndFlush (env : Env) (s : State κ) (k : κ) (a : Nat) (b : OutBlock) :
    Option (Bool × State κ) :=
  (s.outputs.cell a).bind fun oco =>
    let needed := b.val.length + paddingForInt32 b.val.length
    if oco.count + needed ≤ oco.size then memcpyAndFlush s k a b env.second
    else
      -- a negative size is a huge one for `realloc`
      let newsize := int (oco.count + (needed / bufSize + 1) * bufSize)
      if env.grow ∧ 0 < newsize then
        memcpyAndFlush { s with outputs := s.outputs.put a (oco.grown newsize.toNat env.junk) }
          k a b env.second
      else some (false, abortFlush s k a oco)

def outputBufferMakeRoomAndFlush (env : Env) (s : State κ) (k : κ) (b : OutBlock) :
    Option (Bool × State κ) :=
  let needed := b.val.length + paddingForInt32 b.val.length
  let rest (s : State κ) : Option (Bool × State κ) :=
    match outputEnsureBuffer env.alloc s k with
    | none => some (false, abortClient s k)
    | some (s, a) => growAndFlush env s k a b
  match s.outputs.owner k with
  | none => rest s
  | some a => (s.outputs.cell a).bind fun oco =>
    if oco.count + needed ≤ oco.size then memcpyAndFlush s k a b env.first
    else (flushClient s k env.first).bind fun (ok, s) =>
      if ok then rest s else some (false, s)

/-! ### `dixWriteToClient` (`io.c:786-909`) -/

/-- The return value is the number of bytes written, or `-1`. -/
def dixWriteToClient (isLocal : Bool) (env : Env) (s : State κ) (k : κ) (b : OutBlock) :
    Option (Int × State κ) :=
  let count := b.val.length
  if count = 0 ∨ s.clientGone k then some (0, s)
  else match outputEnsureBuffer env.alloc s k with
    | none => some (-1, abortClient s k)
    | some (s, a) => (s.outputs.cell a).bind fun oco =>
      if oco.count = 0 ∧ isLocal ∨
          (oco.size : Int) < int (oco.count + count + paddingForInt32 count) then
        (outputBufferMakeRoomAndFlush env s k b).map fun (ok, s) =>
          (if ok then (count : Int) else -1, s)
      else (append oco b).map fun oco =>
        ((count : Int), { s with outputs := s.outputs.put a oco })

/-! ### Closing a connection (`connection.c:728-745`, `io.c:1091-1105`) -/

def freeOsBuffers (s : State κ) (k : κ) : Option (State κ) :=
  match s.outputs.owner k with
  | none => some s
  | some a =>
    if s.outputs.free ≠ [] then some { s with outputs := s.outputs.discard k a }
    else (s.outputs.cell a).map fun oco =>
      { s with outputs := (s.outputs.put a { oco with count := 0 }).release k a }

def closeDownConnection (s : State κ) (k : κ) (ts : List Write) : Option (State κ) :=
  (flushClient s k ts).bind fun (_, s) => (freeOsBuffers (abortClient s k) k).map fun s =>
    { s with clientGone := update s.clientGone k true }

end Xfront.Output
