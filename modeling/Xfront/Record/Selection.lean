import Xfront.Record.Elements
import Xfront.Record.Sets

/-!
# What is recorded (Xext/record/record.c)

The ranges of a registration become the sets of a `RecordClientsAndProtocolRec`, and the hooks
`RecordARequest`, `RecordAReply` and `RecordADeliveredEventOrError` look what they are told of
up in the sets of each enabled context. A failed assertion, and a copy of a negative length,
have no result; allocations succeed. What a hook does on a context are its calls of
`RecordAProtocolElement`.
-/

namespace Xfront.Record
open Xfront.Bytes

structure Range8 where
  first : UInt8
  last : UInt8
  deriving DecidableEq

structure ExtRange where
  major : Range8
  minor : RecordSetInterval
  deriving DecidableEq

structure RecordRange where
  coreRequests : Range8
  coreReplies : Range8
  extRequests : ExtRange
  extReplies : ExtRange
  deliveredEvents : Range8
  deviceEvents : Range8
  errors : Range8
  clientStarted : Bool
  clientDied : Bool
  deriving DecidableEq

def Range8.Present (r : Range8) : Prop := r.first ≠ 0 ∨ r.last ≠ 0

/-- The ranges that `RecordSanityCheckRegisterClients` lets pass. -/
def Range8.From (least : UInt8) (r : Range8) : Prop :=
  r.Present → least ≤ r.first ∧ least ≤ r.last ∧ r.first ≤ r.last

structure RecordRange.Sane (r : RecordRange) : Prop where
  coreRequests : r.coreRequests.first ≤ r.coreRequests.last
  coreReplies : r.coreReplies.first ≤ r.coreReplies.last
  extRequestsMajor : r.extRequests.major.From 128
  extRequestsMinor : r.extRequests.minor.first ≤ r.extRequests.minor.last
  extRepliesMajor : r.extReplies.major.From 128
  extRepliesMinor : r.extReplies.minor.first ≤ r.extReplies.minor.last
  deliveredEvents : r.deliveredEvents.From 2
  deviceEvents : r.deviceEvents.From 2
  errors : r.errors.first ≤ r.errors.last

structure Registration where
  clients : List UInt32
  ranges : List RecordRange

instance (r : Range8) : Decidable r.Present := inferInstanceAs (Decidable (_ ∨ _))

def Range8.interval (r : Range8) : RecordSetInterval := ⟨r.first.toUInt16, r.last.toUInt16⟩

/-- `RecordConvertRangesToIntervals` without `pExtSetInfo`. -/
def convertRangesToIntervals (intervals : List RecordSetInterval) (ranges : List Range8) :
    List RecordSetInterval :=
  ranges.foldl (fun intervals r => if r.Present then intervals ++ [r.interval] else intervals)
    intervals

structure SetInfo where
  major : Range8
  intervals : List RecordSetInterval

def addMinor (e : ExtRange) : List SetInfo → List SetInfo
  | [] => [⟨e.major, [e.minor]⟩]
  | psi :: rest =>
    if e.major = psi.major then { psi with intervals := psi.intervals ++ [e.minor] } :: rest
    else psi :: addMinor e rest

/-- What `RecordConvertRangesToIntervals` stores through `pExtSetInfo`. -/
def convertMinors (ranges : List ExtRange) : List SetInfo :=
  ranges.foldl (fun psi e => if e.major.Present then addMinor e psi else psi) []

structure RecordMinorOp where
  major : Range8
  pMinOpSet : Option RecordSet

structure RecordClientsAndProtocol where
  pRequestMajorOpSet : Option RecordSet
  pRequestMinOpInfo : Option (List RecordMinorOp)
  pReplyMajorOpSet : Option RecordSet
  pReplyMinOpInfo : Option (List RecordMinorOp)
  pDeviceEventSet : Option RecordSet
  pDeliveredEventSet : Option RecordSet
  pErrorSet : Option RecordSet
  pClientIDs : List UInt32
  clientStarted : Bool
  clientDied : Bool

def createSet (intervals : List RecordSetInterval) : Option RecordSet :=
  recordCreateSet intervals (some 0) (recordSetMemoryRequirements intervals).1 true true

def setOf (intervals : List RecordSetInterval) : Option RecordSet :=
  if intervals = [] then none else createSet intervals

def minOpInfo (psi : List SetInfo) : Option (List RecordMinorOp) :=
  if psi = [] then none else some (psi.map fun s => ⟨s.major, createSet s.intervals⟩)

/-- The registration that `RecordRegisterClients` builds. -/
def recordClientsAndProtocol (reg : Registration) : RecordClientsAndProtocol :=
  let core := convertRangesToIntervals [] (reg.ranges.map (·.coreRequests))
  let coreReplies := convertRangesToIntervals [] (reg.ranges.map (·.coreReplies))
  { pRequestMajorOpSet :=
      setOf (convertRangesToIntervals core (reg.ranges.map (·.extRequests.major)))
    pRequestMinOpInfo := minOpInfo (convertMinors (reg.ranges.map (·.extRequests)))
    pReplyMajorOpSet :=
      setOf (convertRangesToIntervals coreReplies (reg.ranges.map (·.extReplies.major)))
    pReplyMinOpInfo := minOpInfo (convertMinors (reg.ranges.map (·.extReplies)))
    pDeviceEventSet := setOf (convertRangesToIntervals [] (reg.ranges.map (·.deviceEvents)))
    pDeliveredEventSet := setOf (convertRangesToIntervals [] (reg.ranges.map (·.deliveredEvents)))
    pErrorSet := setOf (convertRangesToIntervals [] (reg.ranges.map (·.errors)))
    pClientIDs := reg.clients
    clientStarted := reg.ranges.any (·.clientStarted)
    clientDied := reg.ranges.any (·.clientDied) }

/-- `RecordIsMemberOfSet`, behind a check for `NULL`. -/
def isMemberOfSet (pSet : Option RecordSet) (m : Nat) : Bool :=
  pSet.any fun s => s.isMemberOfSet m ≠ 0

structure Server where
  host : Bool
  eventSwapVector : Nat → List Byte → List Byte

structure Recordee where
  client : Client
  sequence : UInt32

/-- A request that is dispatched: its opcodes, its length in words and its bytes. -/
structure Request where
  majorOp : UInt8
  minorOp : UInt16
  reqLen : Nat
  stuff : List Byte

/-- `ReplyInfoRec` and the opcodes of the request that is answered; the data includes the
`padBytes` bytes behind what the caller writes. -/
structure ReplyInfo where
  majorOp : UInt8
  minorOp : UInt16
  replyData : List Byte
  padBytes : Nat
  startOfReply : Bool
  bytesRemaining : Nat

structure Event where
  bytes : List Byte

def Event.type (ev : Event) : Byte := ev.bytes.getD 0 0

def Event.code (ev : Event) : Byte := ev.bytes.getD 1 0

def Event.kind (ev : Event) : Nat := ev.type.val % 128

inductive Told
  | request (who : Recordee) (req : Request)
  | reply (who : Recordee) (pri : ReplyInfo)
  | events (who : Recordee) (events : List Event)

structure EnabledContext where
  pListOfRCAP : List RecordClientsAndProtocol
  continuedReply : Bool

def findClientOnContext (c : EnabledContext) (clientspec : UInt32) :
    Option RecordClientsAndProtocol :=
  c.pListOfRCAP.find? fun pRCAP => pRCAP.pClientIDs.contains clientspec

def element (who : Recordee) (category : Category) (data : List Byte) (padlen : Nat)
    (futurelen : Int) : ProtocolElement :=
  ⟨some who.client, who.sequence, category, data, padlen, futurelen⟩

def recordABigRequest (sv : Server) (who : Recordee) (req : Request) :
    Option (List ProtocolElement) :=
  let bytesLeft := req.reqLen * 4
  let bigLength := if who.client.swapped then bswap32 (req.reqLen + 1) else req.reqLen + 1
  if bytesLeft < 4 then none
  else some
    [element who .fromClient (req.stuff.take 4) 0 bytesLeft,
      element who .fromClient (bytes32 sv.host bigLength) 0 (-1),
      element who .fromClient ((req.stuff.drop 4).take (bytesLeft - 4)) 0 (-1)]

def recordRequest (sv : Server) (who : Recordee) (req : Request) :
    Option (List ProtocolElement) :=
  if req.reqLen = 0 then recordABigRequest sv who req
  else some [element who .fromClient (req.stuff.take (req.reqLen * 4)) 0 0]

def minorMatches (info : List RecordMinorOp) (majorop minorop : Nat) : Bool :=
  info.any fun m => m.major.first.toNat ≤ majorop && majorop ≤ m.major.last.toNat &&
    isMemberOfSet m.pMinOpSet minorop

def selected (info : Option (List RecordMinorOp)) (majorop minorop : Nat) : Option Bool :=
  if majorop ≤ 127 then some true
  else info.map fun info => minorMatches info majorop minorop

def recordARequest (sv : Server) (c : EnabledContext) (who : Recordee) (req : Request) :
    Option (List ProtocolElement) :=
  match findClientOnContext c who.client.clientAsMask with
  | none => some []
  | some pRCAP =>
    if isMemberOfSet pRCAP.pRequestMajorOpSet req.majorOp.toNat then
      (selected pRCAP.pRequestMinOpInfo req.majorOp.toNat req.minorOp.toNat).bind fun record =>
        if record then recordRequest sv who req else some []
    else some []

def recordAReply (c : EnabledContext) (who : Recordee) (pri : ReplyInfo) :
    Option (EnabledContext × List ProtocolElement) :=
  match findClientOnContext c who.client.clientAsMask with
  | none => some (c, [])
  | some pRCAP =>
    if c.continuedReply then
      let data := pri.replyData.take (pri.replyData.length - pri.padBytes)
      some ({ c with continuedReply := pri.bytesRemaining ≠ 0 },
        [element who .fromServer data pri.padBytes (-1)])
    else if pri.startOfReply ∧ isMemberOfSet pRCAP.pReplyMajorOpSet pri.majorOp.toNat then
      (selected pRCAP.pReplyMinOpInfo pri.majorOp.toNat pri.minorOp.toNat).map fun record =>
        if record then
          ({ c with continuedReply := pri.bytesRemaining ≠ 0 },
            [element who .fromServer pri.replyData 0 pri.bytesRemaining])
        else (c, [])
    else some (c, [])

def recordit (pRCAP : RecordClientsAndProtocol) (ev : Event) : Bool :=
  if pRCAP.pErrorSet.isSome then isMemberOfSet pRCAP.pErrorSet ev.code.val
  else isMemberOfSet pRCAP.pDeliveredEventSet ev.kind

def recordEvent (sv : Server) (who : Recordee) (ev : Event) : ProtocolElement :=
  element who .fromServer
    (if who.client.swapped then sv.eventSwapVector ev.kind ev.bytes else ev.bytes) 0 0

/-- `RecordADeliveredEventOrError`, on one context. -/
def recordADeliveredEventOrError (sv : Server) (c : EnabledContext) (who : Recordee)
    (events : List Event) : List ProtocolElement :=
  match findClientOnContext c who.client.clientAsMask with
  | none => []
  | some pRCAP => (events.filter (recordit pRCAP)).map (recordEvent sv who)

def recordOn (sv : Server) (c : EnabledContext) :
    Told → Option (EnabledContext × List ProtocolElement)
  | .request who req => (recordARequest sv c who req).map fun calls => (c, calls)
  | .reply who pri => recordAReply c who pri
  | .events who events => some (c, recordADeliveredEventOrError sv c who events)

def record (sv : Server) (contexts : List EnabledContext) (t : Told) :
    Option (List EnabledContext × List (List ProtocolElement)) :=
  (contexts.mapM fun c => recordOn sv c t).map List.unzip

end Xfront.Record
