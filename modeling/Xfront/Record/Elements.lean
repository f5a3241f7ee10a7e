import Xfront.Lib.Bytes
import Xfront.Output.Model

/-!
# The data stream of a context (Xext/record/record.c)

`RecordAProtocolElement` and the reply buffer of one enabled context, whose recording client
is there. A reply is put together in the buffer: a header, and behind it the elements. What
does not fit is written directly, and `dixWriteToClient` pads what is written to units of
four bytes. Fields are stored as the host has them and swapped for the recording client.
-/

namespace Xfront.Record
open Xfront.Bytes Xfront.Output List

structure Client where
  clientAsMask : UInt32
  swapped : Bool
  deriving DecidableEq

inductive Category
  | fromServer | fromClient | clientStarted | clientDied | startOfData | endOfData
  deriving DecidableEq

def Category.code : Category → Byte
  | .fromServer => 0
  | .fromClient => 1
  | .clientStarted => 2
  | .clientDied => 3
  | .startOfData => 4
  | .endOfData => 5

/-- The arguments of `RecordAProtocolElement`: `data` is without the `padlen` pad bytes, and
`sequence` is that of the client. -/
structure ProtocolElement where
  pClient : Option Client
  sequence : UInt32
  category : Category
  data : List Byte
  padlen : Nat
  futurelen : Int
  deriving DecidableEq

def ProtocolElement.datalen (e : ProtocolElement) : Nat := e.data.length + e.padlen

def ProtocolElement.padded (e : ProtocolElement) : List Byte := e.data ++ replicate e.padlen 0

structure Recording where
  host : Bool
  swapped : Bool
  sequence : UInt32
  elemHeaders : Nat

structure RecordContext where
  pBufClient : Option Client
  bufCategory : Category
  numBufBytes : Nat
  replyBuffer : Block

def replyBufSize : Nat := 1024

def sizeofReply : Nat := 32

def bytesToInt32 (bytes : Nat) : Nat := (bytes + 3) / 4

/-- `swapl`, when the recording client has the other byte order. -/
def Recording.swapl (r : Recording) (n : Nat) : Nat := if r.swapped then bswap32 n else n

def Recording.swaps (r : Recording) (n : Nat) : Nat := if r.swapped then bswap16 n else n

def Recording.card32 (r : Recording) (n : Nat) : List Byte := bytes32 r.host (r.swapl n)

def Recording.card16 (r : Recording) (n : Nat) : List Byte := bytes16 r.host (r.swaps n)

def dixWriteToClient (buf : List Byte) : List Byte :=
  buf ++ replicate (paddingForInt32 buf.length) 0

def recordFlushReplyBuffer (c : RecordContext) (data1 data2 : List Byte) :
    Option (RecordContext × List Byte) :=
  (c.replyBuffer.read 0 c.numBufBytes).map fun buf =>
    ({ c with numBufBytes := 0 },
      dixWriteToClient buf ++ dixWriteToClient data1 ++ dixWriteToClient data2)

def RecordContext.append (c : RecordContext) (data : List Byte) : Option RecordContext :=
  (c.replyBuffer.write c.numBufBytes data).map fun b =>
    { c with replyBuffer := b, numBufBytes := c.numBufBytes + data.length }

def headerFields (r : Recording) (e : ProtocolElement) (serverTime : UInt32) :
    List (Nat × List Byte) :=
  let clientSwapped : Bool := match e.pClient with
    | some pClient => pClient.swapped != r.swapped
    | none => decide (e.category ≠ .fromServer) && r.swapped
  let idBase := match e.pClient with
    | some pClient => pClient.clientAsMask.toNat
    | none => 0
  let recordedSequenceNumber := if e.pClient.isSome then e.sequence.toNat else 0
  [(0, [1]), (1, [e.category.code]), (2, r.card16 r.sequence.toNat), (4, r.card32 0),
    (8, [digit r.elemHeaders 0]), (9, [if clientSwapped then 1 else 0]), (12, r.card32 idBase),
    (16, r.card32 serverTime.toNat), (20, r.card32 recordedSequenceNumber)]

def writeFields (b : Block) (fields : List (Nat × List Byte)) : Option Block :=
  fields.foldlM (fun b f => b.write f.1 f.2) b

/-- The flags of `elemHeaders`: `XRecordFromServerTime`, `XRecordFromClientTime`,
`XRecordFromClientSequence`. -/
def elemHeaderData (r : Recording) (e : ProtocolElement) (time : UInt32) : List Byte :=
  (if (r.elemHeaders.testBit 1 ∧ e.category = .fromClient) ∨
      (r.elemHeaders.testBit 0 ∧ e.category = .fromServer) then r.card32 time.toNat else []) ++
  (if r.elemHeaders.testBit 2 ∧ (e.category = .fromClient ∨ e.category = .clientDied) then
    r.card32 e.sequence.toNat else [])

def adjustLength (r : Recording) (e : ProtocolElement) (numElemHeaders : Nat) (b : Block) :
    Option Block :=
  (b.load32 r.host 4).bind fun length =>
    b.write 4 (r.card32 (r.swapl length + (numElemHeaders + bytesToInt32 e.datalen +
      bytesToInt32 e.futurelen.toNat)))

def changeClient (c : RecordContext) (e : ProtocolElement) :
    Option (RecordContext × List Byte) :=
  if c.pBufClient ≠ e.pClient ∨ c.bufCategory ≠ e.category then
    (recordFlushReplyBuffer c [] []).map fun (c, out) =>
      ({ c with pBufClient := e.pClient, bufCategory := e.category }, out)
  else some (c, [])

def startReply (r : Recording) (c : RecordContext) (e : ProtocolElement) (time : UInt32) :
    Option RecordContext :=
  if c.numBufBytes = 0 then
    (writeFields c.replyBuffer (headerFields r e time)).map fun b =>
      { c with replyBuffer := b, numBufBytes := sizeofReply }
  else some c

/-- What is done when `futurelen` is not negative. -/
def startElement (r : Recording) (c : RecordContext) (e : ProtocolElement) (time : UInt32) :
    Option (RecordContext × List Byte) :=
  (changeClient c e).bind fun (c, out) =>
    (startReply r c e time).bind fun c =>
      (adjustLength r e ((elemHeaderData r e time).length / 4) c.replyBuffer).map fun b =>
        ({ c with replyBuffer := b }, out)

def recordData (c : RecordContext) (headers : List Byte) (e : ProtocolElement) :
    Option (RecordContext × List Byte) :=
  if e.datalen + headers.length + c.numBufBytes ≤ replyBufSize then
    (c.append headers).bind fun c => (c.append e.data).bind fun c =>
      (c.append (replicate e.padlen 0)).map fun c => (c, [])
  else recordFlushReplyBuffer c headers e.data

def recordAProtocolElement (r : Recording) (c : RecordContext) (e : ProtocolElement)
    (time : UInt32) : Option (RecordContext × List Byte) :=
  if 0 ≤ e.futurelen then
    (startElement r c e time).bind fun (c, out) =>
      (recordData c (elemHeaderData r e time) e).map fun (c, out') => (c, out ++ out')
  else recordData c [] e

inductive Act
  | element (e : ProtocolElement) (time : UInt32)
  | flushAllContexts
  deriving DecidableEq

def step (r : Recording) (c : RecordContext) : Act → Option (RecordContext × List Byte)
  | .element e time => recordAProtocolElement r c e time
  | .flushAllContexts =>
    if c.numBufBytes = 0 then some (c, []) else recordFlushReplyBuffer c [] []

end Xfront.Record
