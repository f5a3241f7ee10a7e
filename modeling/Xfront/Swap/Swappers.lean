import Xfront.Swap.Layouts

/-!
# Swapping events

`XI2EventSwap` copies an event to a buffer and reverses the bytes of its members there, one swapper
for each kind of event.
-/

namespace Xfront.Swap

open Wire

namespace Common

def sequenceNumber : Member := ⟨2, 2⟩
def length : Member := ⟨4, 4⟩
def evtype : Member := ⟨8, 2⟩
def deviceid : Member := ⟨10, 2⟩
def time : Member := ⟨12, 4⟩

end Common

namespace XXILeaveEvent

def sourceid : Member := ⟨16, 2⟩
def root : Member := ⟨20, 4⟩
def event : Member := ⟨24, 4⟩
def child : Member := ⟨28, 4⟩
def root_x : Member := ⟨32, 4⟩
def root_y : Member := ⟨36, 4⟩
def event_x : Member := ⟨40, 4⟩
def event_y : Member := ⟨44, 4⟩
def buttons_len : Member := ⟨50, 2⟩
def mods_base_mods : Member := ⟨52, 4⟩
def mods_latched_mods : Member := ⟨56, 4⟩
def mods_locked_mods : Member := ⟨60, 4⟩
def size : Nat := 72

end XXILeaveEvent

namespace XXIDeviceChangedEvent

def num_classes : Member := ⟨16, 2⟩
def sourceid : Member := ⟨18, 2⟩
def size : Nat := 32

end XXIDeviceChangedEvent

namespace XXIDeviceEvent

def detail : Member := ⟨16, 4⟩
def root : Member := ⟨20, 4⟩
def event : Member := ⟨24, 4⟩
def child : Member := ⟨28, 4⟩
def root_x : Member := ⟨32, 4⟩
def root_y : Member := ⟨36, 4⟩
def event_x : Member := ⟨40, 4⟩
def event_y : Member := ⟨44, 4⟩
def buttons_len : Member := ⟨48, 2⟩
def valuators_len : Member := ⟨50, 2⟩
def sourceid : Member := ⟨52, 2⟩
def flags : Member := ⟨56, 4⟩
def mods_base_mods : Member := ⟨60, 4⟩
def mods_latched_mods : Member := ⟨64, 4⟩
def mods_locked_mods : Member := ⟨68, 4⟩
def mods_effective_mods : Member := ⟨72, 4⟩
def size : Nat := 80

end XXIDeviceEvent

namespace XXIHierarchyEvent

def flags : Member := ⟨16, 4⟩
def num_info : Member := ⟨20, 2⟩
def size : Nat := 32
def infoSize : Nat := 12

end XXIHierarchyEvent

namespace XXIPropertyEvent

def property : Member := ⟨16, 4⟩
def size : Nat := 32

end XXIPropertyEvent

namespace XXIRawEvent

def detail : Member := ⟨16, 4⟩
def valuators_len : Member := ⟨22, 2⟩
def size : Nat := 32

end XXIRawEvent

namespace XXITouchOwnershipEvent

def touchid : Member := ⟨16, 4⟩
def root : Member := ⟨20, 4⟩
def event : Member := ⟨24, 4⟩
def child : Member := ⟨28, 4⟩
def sourceid : Member := ⟨32, 2⟩
def flags : Member := ⟨36, 4⟩
def size : Nat := 48

end XXITouchOwnershipEvent

namespace XXIBarrierEvent

def eventid : Member := ⟨16, 4⟩
def root : Member := ⟨20, 4⟩
def event : Member := ⟨24, 4⟩
def barrier : Member := ⟨28, 4⟩
def dtime : Member := ⟨32, 4⟩
def sourceid : Member := ⟨40, 2⟩
def root_x : Member := ⟨44, 4⟩
def root_y : Member := ⟨48, 4⟩
def dx_integral : Member := ⟨52, 4⟩
def dx_frac : Member := ⟨56, 4⟩
def dy_integral : Member := ⟨60, 4⟩
def dy_frac : Member := ⟨64, 4⟩
def size : Nat := 68

end XXIBarrierEvent

-- The members of both gesture events that stand in the same places.
namespace XXIGestureEvent

def detail : Member := ⟨16, 4⟩
def root : Member := ⟨20, 4⟩
def event : Member := ⟨24, 4⟩
def child : Member := ⟨28, 4⟩
def root_x : Member := ⟨32, 4⟩
def root_y : Member := ⟨36, 4⟩
def event_x : Member := ⟨40, 4⟩
def event_y : Member := ⟨44, 4⟩
def delta_x : Member := ⟨48, 4⟩
def delta_y : Member := ⟨52, 4⟩
def delta_unaccel_x : Member := ⟨56, 4⟩
def delta_unaccel_y : Member := ⟨60, 4⟩

end XXIGestureEvent

namespace XXIGesturePinchEvent

def scale : Member := ⟨64, 4⟩
def delta_angle : Member := ⟨68, 4⟩
def sourceid : Member := ⟨72, 2⟩
def mods_base_mods : Member := ⟨76, 4⟩
def mods_latched_mods : Member := ⟨80, 4⟩
def mods_locked_mods : Member := ⟨84, 4⟩
def mods_effective_mods : Member := ⟨88, 4⟩
def flags : Member := ⟨96, 4⟩
def size : Nat := 100

end XXIGesturePinchEvent

namespace XXIGestureSwipeEvent

def sourceid : Member := ⟨64, 2⟩
def mods_base_mods : Member := ⟨68, 4⟩
def mods_latched_mods : Member := ⟨72, 4⟩
def mods_locked_mods : Member := ⟨76, 4⟩
def mods_effective_mods : Member := ⟨80, 4⟩
def flags : Member := ⟨88, 4⟩
def size : Nat := 92

end XXIGestureSwipeEvent

def swapWords (be : Bool) : Nat → Nat → Output → Output
  | 0, _, dst => dst
  | n + 1, ptr, dst => swapWords be n (ptr + 4) (dst.swapl be ptr)

def bitIsOn (m : Memory) (ptr i : Nat) : Bool := (m (ptr + i / 8)).val.testBit (i % 8)

/-- For each bit of the mask that is on, `words` words of values. -/
def swapValues (be : Bool) (words mask : Nat) : Nat → Nat → Nat → Output → Output
  | 0, _, _, dst => dst
  | n + 1, i, ptr, dst =>
    if bitIsOn dst.mem mask i then
      swapValues be words mask n (i + 1) (ptr + words * 4) (swapWords be words ptr dst)
    else swapValues be words mask n (i + 1) ptr dst

def swapClass (be : Bool) (any : Nat) (dst : Output) : Output :=
  let type := load16 be dst.mem any
  if type = KeyClass then
    (swapWords be (load16 be dst.mem (any + 6)) (any + 8) dst).swaps be (any + 6)
  else if type = ButtonClass then
    let num_buttons := load16 be dst.mem (any + 6)
    (swapWords be num_buttons (any + 8 + pad_to_int32 (bits_to_bytes num_buttons)) dst).swaps be
      (any + 6)
  else if type = ValuatorClass then
    -- label, min, max, resolution and number; the value and scroll classes are not swapped
    dst.swapFields be [⟨any + 8, 4⟩, ⟨any + 12, 4⟩, ⟨any + 16, 4⟩, ⟨any + 20, 4⟩, ⟨any + 24, 4⟩,
      ⟨any + 36, 4⟩, ⟨any + 6, 2⟩]
  else dst

def swapClasses (be : Bool) : Nat → Nat → Output → Output
  | 0, _, dst => dst
  | n + 1, any, dst =>
    let length := load16 be dst.mem (any + 2)
    let dst := swapClass be any dst
    let dst := dst.swapFields be [⟨any, 2⟩, ⟨any + 2, 2⟩, ⟨any + 4, 2⟩]
    swapClasses be n (any + length * 4) dst

def swapInfos (be : Bool) : Nat → Nat → Output → Output
  | 0, _, dst => dst
  | n + 1, info, dst =>
    swapInfos be n (info + XXIHierarchyEvent.infoSize)
      (dst.swapFields be [⟨info, 2⟩, ⟨info + 2, 2⟩])

section
open Common

section
open XXILeaveEvent

def leaveSwaps : List Member :=
  [sequenceNumber, length, evtype, deviceid, time, root, event, child, root_x, root_y, event_x,
    event_y, sourceid, buttons_len, mods_base_mods, mods_latched_mods, mods_locked_mods]

def SDeviceLeaveNotifyEvent (be : Bool) (src : Memory) (dst : Output) : Output :=
  (dst.copy src 0 XXILeaveEvent.size).swapFields be leaveSwaps

end

section
open XXIDeviceChangedEvent

def changedSwaps : List Member :=
  [sequenceNumber, length, evtype, deviceid, time, num_classes, sourceid]

def SDeviceChangedEvent (be : Bool) (src : Memory) (dst : Output) : Output :=
  let dst := dst.copy src 0 XXIDeviceChangedEvent.size
  let dst := dst.copy src XXIDeviceChangedEvent.size (load32 be src 4 * 4)
  let dst := swapClasses be (load16 be dst.mem 16) XXIDeviceChangedEvent.size dst
  dst.swapFields be changedSwaps

end

section
open XXIDeviceEvent

def deviceSwaps : List Member :=
  [sequenceNumber, length, evtype, deviceid, time, detail, root, event, child, root_x, root_y,
    event_x, event_y, buttons_len, valuators_len, sourceid, mods_base_mods, mods_latched_mods,
    mods_locked_mods, mods_effective_mods, flags]

def SDeviceEvent (be : Bool) (src : Memory) (dst : Output) : Output :=
  let dst := dst.copy src 0 (32 + load32 be src 4 * 4)
  let dst := dst.swapFields be deviceSwaps
  let vmask := XXIDeviceEvent.size + load16 be src 48 * 4
  let ptr := vmask + load16 be src 50 * 4
  swapValues be 2 vmask (load16 be src 50 * 32) 0 ptr dst

end

section
open XXIHierarchyEvent

def hierarchySwaps : List Member :=
  [sequenceNumber, length, evtype, deviceid, time, flags, num_info]

def SDeviceHierarchyEvent (be : Bool) (src : Memory) (dst : Output) : Output :=
  let dst := dst.copy src 0 XXIHierarchyEvent.size
  let dst := dst.copy src XXIHierarchyEvent.size (load32 be src 4 * 4)
  let dst := dst.swapFields be hierarchySwaps
  swapInfos be (load16 be src 20) XXIHierarchyEvent.size dst

end

section
open XXIPropertyEvent

def propertySwaps : List Member := [sequenceNumber, length, evtype, deviceid, property]

def SXIPropertyEvent (be : Bool) (src : Memory) (dst : Output) : Output :=
  (dst.copy src 0 XXIPropertyEvent.size).swapFields be propertySwaps

end

section
open XXIRawEvent

def rawSwaps : List Member := [sequenceNumber, length, evtype, deviceid, time, detail]

def SRawEvent (be : Bool) (src : Memory) (dst : Output) : Output :=
  let dst := dst.copy src 0 (32 + load32 be src 4 * 4)
  let dst := dst.swapFields be rawSwaps
  let mask := XXIRawEvent.size
  let values := mask + load16 be src 22 * 4
  let dst := swapValues be 4 mask (load16 be src 22 * 32) 0 values dst
  dst.swapFields be [valuators_len]

end

section
open XXITouchOwnershipEvent

def ownershipSwaps : List Member :=
  [sequenceNumber, length, evtype, deviceid, time, sourceid, touchid, flags, root, event, child]

def STouchOwnershipEvent (be : Bool) (src : Memory) (dst : Output) : Output :=
  (dst.copy src 0 XXITouchOwnershipEvent.size).swapFields be ownershipSwaps

end

section
open XXIBarrierEvent

def barrierSwaps : List Member :=
  [sequenceNumber, length, evtype, time, deviceid, sourceid, event, root, root_x, root_y,
    dx_integral, dx_frac, dy_integral, dy_frac, dtime, barrier, eventid]

def SBarrierEvent (be : Bool) (src : Memory) (dst : Output) : Output :=
  (dst.copy src 0 XXIBarrierEvent.size).swapFields be barrierSwaps

end

section
open XXIGestureEvent

def gestureSwaps : List Member :=
  [sequenceNumber, length, evtype, deviceid, time, detail, root, event, child, root_x, root_y,
    event_x, event_y, delta_x, delta_y, delta_unaccel_x, delta_unaccel_y]

end

section
open XXIGesturePinchEvent

def pinchSwaps : List Member :=
  gestureSwaps ++ [scale, delta_angle, sourceid, mods_base_mods, mods_latched_mods,
    mods_locked_mods, mods_effective_mods, flags]

def SGesturePinchEvent (be : Bool) (src : Memory) (dst : Output) : Output :=
  (dst.copy src 0 XXIGesturePinchEvent.size).swapFields be pinchSwaps

end

section
open XXIGestureSwipeEvent

def swipeSwaps : List Member :=
  gestureSwaps ++ [sourceid, mods_base_mods, mods_latched_mods, mods_locked_mods,
    mods_effective_mods, flags]

def SGestureSwipeEvent (be : Bool) (src : Memory) (dst : Output) : Output :=
  (dst.copy src 0 XXIGestureSwipeEvent.size).swapFields be swipeSwaps

end
end

def XI2EventSwap (be : Bool) (src : Memory) (dst : Output) : Output :=
  let evtype := load16 be src 8
  if evtype ∈ leaveTypes then SDeviceLeaveNotifyEvent be src dst
  else if evtype = XI_DeviceChanged then SDeviceChangedEvent be src dst
  else if evtype = XI_HierarchyChanged then SDeviceHierarchyEvent be src dst
  else if evtype = XI_PropertyEvent then SXIPropertyEvent be src dst
  else if evtype ∈ deviceTypes then SDeviceEvent be src dst
  else if evtype = XI_TouchOwnership then STouchOwnershipEvent be src dst
  else if evtype ∈ rawTypes then SRawEvent be src dst
  else if evtype ∈ barrierTypes then SBarrierEvent be src dst
  else if evtype ∈ pinchTypes then SGesturePinchEvent be src dst
  else if evtype ∈ swipeTypes then SGestureSwipeEvent be src dst
  else dst

/-- Every word of the event reads in the other byte order as it did, its other bytes are
unchanged, each word is swapped once, and only the event is written. -/
structure Exact (be : Bool) (e : Event) (src : Memory) (out : Output) : Prop where
  swapped : ∀ f ∈ fields 0 e.items, read (!be) out.mem f = read be src f
  kept : ∀ i < size e.items, (∀ f ∈ fields 0 e.items, ¬ f.Covers i) → out.mem i = src i
  once : ∀ f ∈ fields 0 e.items, out.writes.count (.swap f) = 1
  inside : ∀ w ∈ out.writes, w.fin ≤ 32 + 4 * e.length

def Event.memory (be : Bool) (junk : Memory) (e : Event) : Memory :=
  fun i => (encode be e.items).getD i (junk i)

end Xfront.Swap
