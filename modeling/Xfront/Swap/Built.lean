import Xfront.Swap.Exact

/-!
# Events as the server builds them

Changed devices, device events and raw events are built from internal events. The room for a
changed device is counted in advance; what is appended fills it, so that the length it is given
is that of its classes.
-/

namespace Xfront.Swap

open List
open Bytes (Byte digit)
open Wire

def MAX_BUTTONS : Nat := 256
def MAX_VALUATORS : Nat := 36
def EXTENSION_MAJOR_XINPUT : Nat := 156
def DEVCHANGE_DEVICE_CHANGE : Nat := 0x10
def XISlaveSwitch : Nat := 1
def XIDeviceChange : Nat := 2

inductive ScrollType
  | none
  | vertical
  | horizontal
  deriving DecidableEq

/-- One axis of an internal event; what a `double` becomes on the wire is given. -/
structure AxisInfo where
  name : Nat
  min : Nat
  max : Nat
  value : FP3232
  resolution : Nat
  mode : Nat
  scrollType : ScrollType
  increment : FP3232
  dontEmulate : Bool
  preferred : Bool

structure DeviceChanged where
  deviceid : Nat
  sourceid : Nat
  time : Nat
  flags : Nat
  names : List Nat
  min_keycode : Nat
  max_keycode : Nat
  valuators : List AxisInfo
  names_le : names.length ≤ MAX_BUTTONS
  keycodes_le : min_keycode ≤ max_keycode
  max_keycode_lt : max_keycode < 256
  valuators_le : valuators.length ≤ MAX_VALUATORS

namespace DeviceChanged

def nkeys (dce : DeviceChanged) : Nat :=
  if 0 < dce.max_keycode then dce.max_keycode - dce.min_keycode + 1 else 0

theorem nkeys_le (dce : DeviceChanged) : dce.nkeys ≤ 256 := by
  have h := dce.max_keycode_lt
  rw [nkeys]
  split_ifs <;> omega

def appendKeyInfo (dce : DeviceChanged) : KeyInfo where
  sourceid := dce.sourceid
  keycodes := (range dce.nkeys).map fun i => i + dce.min_keycode
  length_lt := by
    have h := dce.nkeys_le
    rw [length_map, length_range]
    omega

def appendButtonInfo (dce : DeviceChanged) : ButtonInfo where
  sourceid := dce.sourceid
  state := replicate (bytes_to_int32 (bits_to_bytes dce.names.length) * 4) 0
  labels := dce.names
  state_length := length_replicate
  length_lt := by
    have h : dce.names.length ≤ 256 := dce.names_le
    rw [length_replicate, bytes_to_int32, bits_to_bytes]
    omega

def appendValuatorInfo (dce : DeviceChanged) (axisnumber : Nat) (axis : AxisInfo) :
    ValuatorInfo where
  sourceid := dce.sourceid
  number := axisnumber
  label := axis.name
  min := ⟨axis.min, 0⟩
  max := ⟨axis.max, 0⟩
  value := axis.value
  resolution := axis.resolution
  mode := axis.mode

def scrollInfo (dce : DeviceChanged) (axisnumber scroll_type : Nat) (axis : AxisInfo) :
    ScrollInfo where
  sourceid := dce.sourceid
  number := axisnumber
  scroll_type := scroll_type
  flags := (if axis.dontEmulate then 1 else 0) + (if axis.preferred then 2 else 0)
  increment := axis.increment

def appendScrollInfo (dce : DeviceChanged) (axisnumber : Nat) (axis : AxisInfo) :
    Option ScrollInfo :=
  match axis.scrollType with
  | .none => none
  | .vertical => some (dce.scrollInfo axisnumber 1 axis)
  | .horizontal => some (dce.scrollInfo axisnumber 2 axis)

def len (dce : DeviceChanged) : Nat :=
  let len := 32
  let len := if dce.names.length ≠ 0 then
      len + 8 + dce.names.length * 4 + pad_to_int32 (bits_to_bytes dce.names.length)
    else len
  let len := len + 44 * dce.valuators.length +
    24 * dce.valuators.countP fun axis => axis.scrollType ≠ .none
  if 0 < dce.nkeys then len + 8 + 4 * dce.nkeys else len

def scrolls (dce : DeviceChanged) (first : Nat) (axes : List AxisInfo) : List ClassInfo :=
  (axes.zipIdx first).filterMap fun axis => (dce.appendScrollInfo axis.2 axis.1).map .scroll

def classes (dce : DeviceChanged) : List ClassInfo :=
  (if dce.names.length ≠ 0 then [.button dce.appendButtonInfo] else []) ++
    (if dce.nkeys ≠ 0 then [.key dce.appendKeyInfo] else []) ++
    (dce.valuators.zipIdx.map fun axis => .valuator (dce.appendValuatorInfo axis.2 axis.1)) ++
    dce.scrolls 0 dce.valuators

theorem scrolls_cons (dce : DeviceChanged) (first : Nat) (axis : AxisInfo)
    (axes : List AxisInfo) : dce.scrolls first (axis :: axes) =
      ((dce.appendScrollInfo first axis).map .scroll).toList ++ dce.scrolls (first + 1) axes := by
  rw [scrolls, zipIdx_cons, filterMap_cons]
  cases dce.appendScrollInfo first axis <;> rfl

theorem scrolls_length (dce : DeviceChanged) (first : Nat) (axes : List AxisInfo) :
    (dce.scrolls first axes).length = axes.countP fun axis => axis.scrollType ≠ .none := by
  induction axes generalizing first with
  | nil => rfl
  | cons axis axes ih =>
    rw [scrolls_cons, length_append, ih, countP_cons, add_comm, appendScrollInfo]
    cases axis.scrollType <;> rfl

theorem words_of_forall {cs : List ClassInfo} {n : Nat} (h : ∀ c ∈ cs, c.length = n) :
    (cs.map ClassInfo.length).sum = n * cs.length := by
  induction cs with
  | nil => rfl
  | cons c cs ih =>
    rw [map_cons, sum_cons, ih fun d hd => h d (mem_cons_of_mem _ hd),
      h c mem_cons_self, length_cons, mul_add, mul_one, add_comm]

theorem scrolls_words (dce : DeviceChanged) (first : Nat) (axes : List AxisInfo) :
    ((dce.scrolls first axes).map ClassInfo.length).sum =
      6 * axes.countP fun axis => axis.scrollType ≠ .none := by
  rw [← dce.scrolls_length first]
  refine words_of_forall fun c hc => ?_
  obtain ⟨axis, -, h⟩ := mem_filterMap.mp hc
  obtain ⟨info, -, rfl⟩ := Option.map_eq_some_iff.mp h
  rfl

theorem classes_lt (dce : DeviceChanged) : dce.classes.length < 2 ^ 16 := by
  have haxes : dce.valuators.length ≤ 36 := dce.valuators_le
  have hscrolls : (dce.scrolls 0 dce.valuators).length ≤ dce.valuators.length := by
    rw [scrolls_length]
    exact countP_le_length
  rw [classes, length_append, length_append, length_append, length_map, length_zipIdx]
  split_ifs <;> simp only [length_cons, length_nil] <;> omega

end DeviceChanged

def eventToDeviceChanged (dce : DeviceChanged) : DeviceChangedEvent where
  header := ⟨EXTENSION_MAJOR_XINPUT, 0, dce.deviceid, dce.time⟩
  sourceid := dce.sourceid
  reason := if dce.flags &&& DEVCHANGE_DEVICE_CHANGE ≠ 0 then XIDeviceChange else XISlaveSwitch
  classes := dce.classes
  classes_lt := dce.classes_lt

theorem eventToDeviceChanged_length (dce : DeviceChanged) :
    (eventToDeviceChanged dce).length = bytes_to_int32 (dce.len - 32) := by
  have hbutton : (ClassInfo.button dce.appendButtonInfo).length =
      2 + dce.names.length + (dce.names.length + 31) / 32 := by
    simp only [ClassInfo.length, DeviceChanged.appendButtonInfo, length_replicate,
      bytes_to_int32, bits_to_bytes]
    omega
  have hkey : (ClassInfo.key dce.appendKeyInfo).length = 2 + dce.nkeys := by
    simp only [ClassInfo.length, DeviceChanged.appendKeyInfo, length_map, length_range]
  have hvaluators : ((dce.valuators.zipIdx.map fun axis =>
      ClassInfo.valuator (dce.appendValuatorInfo axis.2 axis.1)).map ClassInfo.length).sum =
      11 * dce.valuators.length := by
    rw [DeviceChanged.words_of_forall (n := 11) (fun c hc => ?_), length_map, length_zipIdx]
    obtain ⟨axis, -, rfl⟩ := mem_map.mp hc
    rfl
  have hclasses : (eventToDeviceChanged dce).length = (dce.classes.map ClassInfo.length).sum := rfl
  rw [hclasses, DeviceChanged.classes, map_append, map_append, map_append,
    sum_append, sum_append, sum_append, hvaluators, dce.scrolls_words,
    DeviceChanged.len, bytes_to_int32, pad_to_int32, bits_to_bytes]
  generalize dce.valuators.countP _ = k
  by_cases hn : dce.names.length ≠ 0
  · by_cases hk : dce.nkeys ≠ 0
    · rw [if_pos hn, if_pos hk, if_pos hn, if_pos (Nat.pos_of_ne_zero hk)]
      simp only [map_cons, map_nil, sum_cons, sum_nil, hbutton, hkey]
      omega
    · rw [if_pos hn, if_neg hk, if_pos hn, if_neg (by omega)]
      simp only [map_cons, map_nil, sum_cons, sum_nil, hbutton]
      omega
  · by_cases hk : dce.nkeys ≠ 0
    · rw [if_neg hn, if_pos hk, if_neg hn, if_pos (Nat.pos_of_ne_zero hk)]
      simp only [map_cons, map_nil, sum_cons, sum_nil, hkey]
      omega
    · rw [if_neg hn, if_neg hk, if_neg hn, if_neg (by omega)]
      simp only [map_nil, sum_nil]
      omega

def maskByte (on : Nat → Bool) (k : Nat) : Byte :=
  ⟨Nat.ofBits fun j : Fin 8 => on (8 * k + j), Nat.ofBits_lt_two_pow _⟩

theorem maskWords_lt : 2 < 2 ^ 16 := by decide

def valuatorMask (on : Nat → Bool) : BitMask where
  len := 2
  bytes := (range 8).map (maskByte fun i => decide (i < MAX_VALUATORS) && on i)
  bytes_length := rfl
  len_lt := maskWords_lt

theorem valuatorMask_isOn (on : Nat → Bool) {i : Nat} (h : i < 64) :
    (valuatorMask on).isOn i = (decide (i < MAX_VALUATORS) && on i) := by
  have hk : i / 8 < 8 := by omega
  have hbyte : (valuatorMask on).bytes.getD (i / 8) 0 =
      maskByte (fun i => decide (i < MAX_VALUATORS) && on i) (i / 8) := by
    simp [valuatorMask, getD, hk]
  rw [BitMask.isOn, hbyte, maskByte, Nat.testBit_ofBits_lt _ _ (by omega), Nat.div_add_mod]

theorem valuatorMask_count (on : Nat → Bool) :
    (valuatorMask on).count = (range MAX_VALUATORS).countP on := by
  have hsplit : range ((valuatorMask on).len * 32) =
      range MAX_VALUATORS ++ (range 28).map (MAX_VALUATORS + ·) :=
    range_add (n := 36) (m := 28)
  have hlow : (range MAX_VALUATORS).countP (valuatorMask on).isOn =
      (range MAX_VALUATORS).countP on := by
    refine countP_congr fun i hi => ?_
    have hi' : i < MAX_VALUATORS := mem_range.mp hi
    rw [valuatorMask_isOn on (by simp only [MAX_VALUATORS] at hi'; omega), decide_eq_true hi',
      Bool.true_and]
  have hhigh : ((range 28).map (MAX_VALUATORS + ·)).countP (valuatorMask on).isOn = 0 := by
    refine countP_eq_zero.mpr fun i hi => ?_
    obtain ⟨j, hj, rfl⟩ := mem_map.mp hi
    have hj' : j < 28 := mem_range.mp hj
    rw [valuatorMask_isOn on (by simp only [MAX_VALUATORS]; omega)]
    simp
  rw [BitMask.count, hsplit, countP_append, hlow, hhigh, add_zero]

def axisValues (on : Nat → Bool) (data : Nat → FP3232) : List FP3232 :=
  ((range MAX_VALUATORS).filter on).map data

theorem axisValues_length (on : Nat → Bool) (data : Nat → FP3232) :
    (axisValues on data).length = (valuatorMask on).count := by
  rw [axisValues, length_map, valuatorMask_count, countP_eq_length_filter]

structure RawDeviceEvent where
  evtype : Nat
  evtype_mem : evtype ∈ rawTypes
  time : Nat
  deviceid : Nat
  sourceid : Nat
  button : Nat
  mask : Nat → Bool
  data : Nat → FP3232
  data_raw : Nat → FP3232
  flags : Nat

def eventToRawEvent (ev : RawDeviceEvent) : RawEvent where
  header := ⟨EXTENSION_MAJOR_XINPUT, 0, ev.deviceid, ev.time⟩
  evtype := ev.evtype
  evtype_mem := ev.evtype_mem
  detail := ev.button
  sourceid := ev.sourceid
  flags := ev.flags
  mask := valuatorMask ev.mask
  values := axisValues ev.mask ev.data
  values_raw := axisValues ev.mask ev.data_raw
  values_length := axisValues_length ev.mask ev.data
  values_raw_length := axisValues_length ev.mask ev.data_raw

def slaveMotion : RawDeviceEvent where
  evtype := XI_RawMotion
  evtype_mem := by decide
  time := 1
  deviceid := 2
  sourceid := 6
  button := 0
  mask := fun i => i = 0
  data := fun _ => ⟨1, 0⟩
  data_raw := fun _ => ⟨1, 0⟩
  flags := 65536

/-- A client of the other byte order is told of another source device. -/
theorem slaveMotion_source : ¬ Exact false (.raw (eventToRawEvent slaveMotion))
    ((Event.raw (eventToRawEvent slaveMotion)).memory false fun _ => 0)
    (XI2EventSwap false ((Event.raw (eventToRawEvent slaveMotion)).memory false fun _ => 0)
      ⟨fun _ => 0, []⟩) := by
  intro h
  have hread := h.swapped ⟨20, 2⟩ (by decide)
  revert hread
  decide

end Xfront.Swap
