import Xfront.Lib.Wire

/-!
# The events of the input extension

The events that are swapped for clients of the other byte order, with the layouts of the
protocol headers: every member in its place, variable-length parts behind the fixed ones, and
`length` counting the 32-bit words behind the first 32 bytes. Numbers are cut to the width of
their member, as assignments to it do.
-/

namespace Xfront.Swap
open List

open Bytes (Byte digit)
open Wire

def XI_DeviceChanged : Nat := 1
def XI_KeyPress : Nat := 2
def XI_KeyRelease : Nat := 3
def XI_ButtonPress : Nat := 4
def XI_ButtonRelease : Nat := 5
def XI_Motion : Nat := 6
def XI_Enter : Nat := 7
def XI_Leave : Nat := 8
def XI_FocusIn : Nat := 9
def XI_FocusOut : Nat := 10
def XI_HierarchyChanged : Nat := 11
def XI_PropertyEvent : Nat := 12
def XI_RawKeyPress : Nat := 13
def XI_RawKeyRelease : Nat := 14
def XI_RawButtonPress : Nat := 15
def XI_RawButtonRelease : Nat := 16
def XI_RawMotion : Nat := 17
def XI_TouchBegin : Nat := 18
def XI_TouchUpdate : Nat := 19
def XI_TouchEnd : Nat := 20
def XI_TouchOwnership : Nat := 21
def XI_RawTouchBegin : Nat := 22
def XI_RawTouchUpdate : Nat := 23
def XI_RawTouchEnd : Nat := 24
def XI_BarrierHit : Nat := 25
def XI_BarrierLeave : Nat := 26
def XI_GesturePinchBegin : Nat := 27
def XI_GesturePinchUpdate : Nat := 28
def XI_GesturePinchEnd : Nat := 29
def XI_GestureSwipeBegin : Nat := 30
def XI_GestureSwipeUpdate : Nat := 31
def XI_GestureSwipeEnd : Nat := 32

def leaveTypes : List Nat := [XI_Enter, XI_Leave, XI_FocusIn, XI_FocusOut]

def deviceTypes : List Nat :=
  [XI_Motion, XI_KeyPress, XI_KeyRelease, XI_ButtonPress, XI_ButtonRelease, XI_TouchBegin,
    XI_TouchUpdate, XI_TouchEnd]

def rawTypes : List Nat :=
  [XI_RawMotion, XI_RawKeyPress, XI_RawKeyRelease, XI_RawButtonPress, XI_RawButtonRelease,
    XI_RawTouchBegin, XI_RawTouchUpdate, XI_RawTouchEnd]

def barrierTypes : List Nat := [XI_BarrierHit, XI_BarrierLeave]

def pinchTypes : List Nat := [XI_GesturePinchBegin, XI_GesturePinchUpdate, XI_GesturePinchEnd]

def swipeTypes : List Nat := [XI_GestureSwipeBegin, XI_GestureSwipeUpdate, XI_GestureSwipeEnd]

def GenericEvent : Nat := 35

def pad (n : Nat) : List Item := replicate n (.card8 0)

def pad_to_int32 (bytes : Nat) : Nat := (bytes + 3) / 4 * 4

def bits_to_bytes (bits : Nat) : Nat := (bits + 7) / 8

def bytes_to_int32 (bytes : Nat) : Nat := (bytes + 3) / 4

structure Header where
  extension : Nat
  sequenceNumber : Nat
  deviceid : Nat
  time : Nat

def Header.items (h : Header) (length evtype : Nat) : List Item :=
  [.card8 GenericEvent, .card8 h.extension, .card16 h.sequenceNumber, .card32 length,
    .card16 evtype, .card16 h.deviceid, .card32 h.time]

structure FP3232 where
  integral : Nat
  frac : Nat

def FP3232.items (v : FP3232) : List Item := [.card32 v.integral, .card32 v.frac]

structure ModifierInfo where
  base_mods : Nat
  latched_mods : Nat
  locked_mods : Nat
  effective_mods : Nat

def ModifierInfo.items (m : ModifierInfo) : List Item :=
  [.card32 m.base_mods, .card32 m.latched_mods, .card32 m.locked_mods, .card32 m.effective_mods]

structure GroupInfo where
  base_group : Nat
  latched_group : Nat
  locked_group : Nat
  effective_group : Nat

def GroupInfo.items (g : GroupInfo) : List Item :=
  [.card8 g.base_group, .card8 g.latched_group, .card8 g.locked_group, .card8 g.effective_group]

structure Position where
  root : Nat
  event : Nat
  child : Nat
  root_x : Nat
  root_y : Nat
  event_x : Nat
  event_y : Nat

def Position.items (p : Position) : List Item :=
  [.card32 p.root, .card32 p.event, .card32 p.child, .card32 p.root_x, .card32 p.root_y,
    .card32 p.event_x, .card32 p.event_y]

structure BitMask where
  len : Nat
  bytes : List Byte
  bytes_length : bytes.length = len * 4
  len_lt : len < 2 ^ 16

def byteItems (bytes : List Byte) : List Item := bytes.map fun b => .card8 b.val

def wordItems (words : List Nat) : List Item := words.map .card32

def BitMask.isOn (mask : BitMask) (i : Nat) : Bool := (mask.bytes.getD (i / 8) 0).val.testBit (i % 8)

def BitMask.count (mask : BitMask) : Nat := (range (mask.len * 32)).countP mask.isOn

def fpWords (values : List FP3232) : List Nat := values.flatMap fun v => [v.integral, v.frac]

structure EnterEvent where
  header : Header
  evtype : Nat
  evtype_mem : evtype ∈ leaveTypes
  sourceid : Nat
  mode : Nat
  detail : Nat
  position : Position
  same_screen : Nat
  focus : Nat
  mods : ModifierInfo
  group : GroupInfo
  buttons : BitMask

def EnterEvent.items (e : EnterEvent) : List Item :=
  e.header.items (10 + e.buttons.len) e.evtype ++
    [.card16 e.sourceid, .card8 e.mode, .card8 e.detail] ++ e.position.items ++
    [.card8 e.same_screen, .card8 e.focus, .card16 e.buttons.len] ++ e.mods.items ++
    e.group.items ++ byteItems e.buttons.bytes

def KeyClass : Nat := 0
def ButtonClass : Nat := 1
def ValuatorClass : Nat := 2
def XIScrollClass : Nat := 3

structure KeyInfo where
  sourceid : Nat
  keycodes : List Nat
  length_lt : 2 + keycodes.length < 2 ^ 16

structure ButtonInfo where
  sourceid : Nat
  state : List Byte
  labels : List Nat
  state_length : state.length = pad_to_int32 (bits_to_bytes labels.length)
  length_lt : 2 + labels.length + state.length / 4 < 2 ^ 16

structure ValuatorInfo where
  sourceid : Nat
  number : Nat
  label : Nat
  min : FP3232
  max : FP3232
  value : FP3232
  resolution : Nat
  mode : Nat

structure ScrollInfo where
  sourceid : Nat
  number : Nat
  scroll_type : Nat
  flags : Nat
  increment : FP3232

inductive ClassInfo
  | key (info : KeyInfo)
  | button (info : ButtonInfo)
  | valuator (info : ValuatorInfo)
  | scroll (info : ScrollInfo)

namespace ClassInfo

def length : ClassInfo → Nat
  | key info => 2 + info.keycodes.length
  | button info => 2 + info.labels.length + info.state.length / 4
  | valuator _ => 11
  | scroll _ => 6

def items : ClassInfo → List Item
  | key info =>
    [.card16 KeyClass, .card16 (2 + info.keycodes.length), .card16 info.sourceid,
      .card16 info.keycodes.length] ++ wordItems info.keycodes
  | button info =>
    [.card16 ButtonClass, .card16 (2 + info.labels.length + info.state.length / 4),
      .card16 info.sourceid, .card16 info.labels.length] ++ byteItems info.state ++
      wordItems info.labels
  | valuator info =>
    [.card16 ValuatorClass, .card16 11, .card16 info.sourceid, .card16 info.number,
      .card32 info.label] ++ info.min.items ++ info.max.items ++ info.value.items ++
      [.card32 info.resolution, .card8 info.mode] ++ pad 3
  | scroll info =>
    [.card16 XIScrollClass, .card16 6, .card16 info.sourceid, .card16 info.number,
      .card16 info.scroll_type] ++ pad 2 ++ [.card32 info.flags] ++ info.increment.items

end ClassInfo

def classItems (classes : List ClassInfo) : List Item := classes.flatMap ClassInfo.items

structure DeviceChangedEvent where
  header : Header
  sourceid : Nat
  reason : Nat
  classes : List ClassInfo
  classes_lt : classes.length < 2 ^ 16

def DeviceChangedEvent.length (e : DeviceChangedEvent) : Nat :=
  (e.classes.map ClassInfo.length).sum

def DeviceChangedEvent.items (e : DeviceChangedEvent) : List Item :=
  e.header.items e.length XI_DeviceChanged ++
    [.card16 e.classes.length, .card16 e.sourceid, .card8 e.reason] ++ pad 11 ++
    classItems e.classes

structure DeviceEvent where
  header : Header
  evtype : Nat
  evtype_mem : evtype ∈ deviceTypes
  detail : Nat
  position : Position
  sourceid : Nat
  flags : Nat
  mods : ModifierInfo
  group : GroupInfo
  buttons : BitMask
  mask : BitMask
  values : List FP3232
  values_length : values.length = mask.count

def DeviceEvent.length (e : DeviceEvent) : Nat :=
  12 + e.buttons.len + e.mask.len + 2 * e.values.length

def DeviceEvent.items (e : DeviceEvent) : List Item :=
  e.header.items e.length e.evtype ++ [.card32 e.detail] ++ e.position.items ++
    [.card16 e.buttons.len, .card16 e.mask.len, .card16 e.sourceid] ++ pad 2 ++
    [.card32 e.flags] ++ e.mods.items ++ e.group.items ++ byteItems e.buttons.bytes ++
    byteItems e.mask.bytes ++ wordItems (fpWords e.values)

structure HierarchyInfo where
  deviceid : Nat
  attachment : Nat
  use : Nat
  enabled : Nat
  flags : Nat

def HierarchyInfo.items (i : HierarchyInfo) : List Item :=
  [.card16 i.deviceid, .card16 i.attachment, .card8 i.use, .card8 i.enabled] ++ pad 2 ++
    [.card32 i.flags]

structure HierarchyEvent where
  header : Header
  flags : Nat
  infos : List HierarchyInfo
  infos_lt : infos.length < 2 ^ 16

def HierarchyEvent.items (e : HierarchyEvent) : List Item :=
  e.header.items (3 * e.infos.length) XI_HierarchyChanged ++
    [.card32 e.flags, .card16 e.infos.length] ++ pad 10 ++ e.infos.flatMap HierarchyInfo.items

structure PropertyEvent where
  header : Header
  property : Nat
  what : Nat

def PropertyEvent.items (e : PropertyEvent) : List Item :=
  e.header.items 0 XI_PropertyEvent ++ [.card32 e.property, .card8 e.what] ++ pad 11

structure RawEvent where
  header : Header
  evtype : Nat
  evtype_mem : evtype ∈ rawTypes
  detail : Nat
  sourceid : Nat
  flags : Nat
  mask : BitMask
  values : List FP3232
  values_raw : List FP3232
  values_length : values.length = mask.count
  values_raw_length : values_raw.length = mask.count

def RawEvent.length (e : RawEvent) : Nat :=
  e.mask.len + 2 * e.values.length + 2 * e.values_raw.length

def RawEvent.items (e : RawEvent) : List Item :=
  e.header.items e.length e.evtype ++
    [.card32 e.detail, .card16 e.sourceid, .card16 e.mask.len, .card32 e.flags] ++ pad 4 ++
    byteItems e.mask.bytes ++ wordItems (fpWords e.values ++ fpWords e.values_raw)

structure TouchOwnershipEvent where
  header : Header
  touchid : Nat
  root : Nat
  event : Nat
  child : Nat
  sourceid : Nat
  flags : Nat

def TouchOwnershipEvent.items (e : TouchOwnershipEvent) : List Item :=
  e.header.items 4 XI_TouchOwnership ++
    [.card32 e.touchid, .card32 e.root, .card32 e.event, .card32 e.child, .card16 e.sourceid] ++
    pad 2 ++ [.card32 e.flags] ++ pad 8

structure BarrierEvent where
  header : Header
  evtype : Nat
  evtype_mem : evtype ∈ barrierTypes
  eventid : Nat
  root : Nat
  event : Nat
  barrier : Nat
  dtime : Nat
  flags : Nat
  sourceid : Nat
  root_x : Nat
  root_y : Nat
  dx : FP3232
  dy : FP3232

def BarrierEvent.items (e : BarrierEvent) : List Item :=
  e.header.items 9 e.evtype ++
    [.card32 e.eventid, .card32 e.root, .card32 e.event, .card32 e.barrier, .card32 e.dtime,
      .card32 e.flags, .card16 e.sourceid] ++ pad 2 ++ [.card32 e.root_x, .card32 e.root_y] ++
    e.dx.items ++ e.dy.items

structure Delta where
  delta_x : Nat
  delta_y : Nat
  delta_unaccel_x : Nat
  delta_unaccel_y : Nat

def Delta.items (d : Delta) : List Item :=
  [.card32 d.delta_x, .card32 d.delta_y, .card32 d.delta_unaccel_x, .card32 d.delta_unaccel_y]

structure GesturePinchEvent where
  header : Header
  evtype : Nat
  evtype_mem : evtype ∈ pinchTypes
  detail : Nat
  position : Position
  delta : Delta
  scale : Nat
  delta_angle : Nat
  sourceid : Nat
  mods : ModifierInfo
  group : GroupInfo
  flags : Nat

def GesturePinchEvent.items (e : GesturePinchEvent) : List Item :=
  e.header.items 17 e.evtype ++ [.card32 e.detail] ++ e.position.items ++ e.delta.items ++
    [.card32 e.scale, .card32 e.delta_angle, .card16 e.sourceid] ++ pad 2 ++ e.mods.items ++
    e.group.items ++ [.card32 e.flags]

structure GestureSwipeEvent where
  header : Header
  evtype : Nat
  evtype_mem : evtype ∈ swipeTypes
  detail : Nat
  position : Position
  delta : Delta
  sourceid : Nat
  mods : ModifierInfo
  group : GroupInfo
  flags : Nat

def GestureSwipeEvent.items (e : GestureSwipeEvent) : List Item :=
  e.header.items 15 e.evtype ++ [.card32 e.detail] ++ e.position.items ++ e.delta.items ++
    [.card16 e.sourceid] ++ pad 2 ++ e.mods.items ++ e.group.items ++ [.card32 e.flags]

inductive Event
  | enter (e : EnterEvent)
  | deviceChanged (e : DeviceChangedEvent)
  | hierarchy (e : HierarchyEvent)
  | property (e : PropertyEvent)
  | device (e : DeviceEvent)
  | touchOwnership (e : TouchOwnershipEvent)
  | raw (e : RawEvent)
  | barrier (e : BarrierEvent)
  | pinch (e : GesturePinchEvent)
  | swipe (e : GestureSwipeEvent)

namespace Event

def items : Event → List Item
  | enter e => e.items
  | deviceChanged e => e.items
  | hierarchy e => e.items
  | property e => e.items
  | device e => e.items
  | touchOwnership e => e.items
  | raw e => e.items
  | barrier e => e.items
  | pinch e => e.items
  | swipe e => e.items

def length : Event → Nat
  | enter e => 10 + e.buttons.len
  | deviceChanged e => e.length
  | hierarchy e => 3 * e.infos.length
  | property _ => 0
  | device e => e.length
  | touchOwnership _ => 4
  | raw e => e.length
  | barrier _ => 9
  | pinch _ => 17
  | swipe _ => 15

end Event
end Xfront.Swap
