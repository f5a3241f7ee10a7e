import Xfront.Swap.Swaps

/-!
# Which events are swapped exactly

An event is copied and then its swaps flip fields of the copy.
-/

namespace Xfront.Swap

open List
open Bytes (Byte digit)
open Wire

def Event.swaps : Event → List Member
  | enter _ => leaveSwaps
  | deviceChanged e => classesSwaps 32 e.classes ++ changedSwaps
  | hierarchy e => hierarchySwaps ++ infosSwaps e.infos.length 32
  | property _ => propertySwaps
  | device e =>
    deviceSwaps ++ wordFields (80 + e.buttons.len * 4 + e.mask.len * 4) (2 * e.mask.count)
  | touchOwnership _ => ownershipSwaps
  | raw e =>
    rawSwaps ++ wordFields (32 + e.mask.len * 4) (4 * e.mask.count) ++ [XXIRawEvent.valuators_len]
  | barrier _ => barrierSwaps
  | pinch _ => pinchSwaps
  | swipe _ => swipeSwaps

def Event.copied : Event → Nat
  | enter _ => 72
  | e => 32 + 4 * e.length

def Ran (e : Event) (src : Memory) (out : Output) : Prop :=
  ∃ m copies, out = (⟨m, copies⟩ : Output).flipped e.swaps ∧ (∀ i < e.copied, m i = src i) ∧
    ∀ w ∈ copies, ∃ off n, w = .copy off n ∧ off + n ≤ 32 + 4 * e.length

variable {e : Event} {src : Memory} {n : Nat}

theorem ran_copy {old : Memory} (hn : n = e.copied) (hle : n ≤ 32 + 4 * e.length) :
    Ran e src (((⟨old, []⟩ : Output).copy src 0 n).flipped e.swaps) := by
  refine ⟨_, [.copy 0 n], rfl, fun i hi => ?_, fun w hw => ⟨0, n, ?_, by omega⟩⟩
  · exact if_pos ⟨Nat.zero_le i, by omega⟩
  · exact mem_singleton.mp hw

theorem copy_copy_mem {dst : Output} {i : Nat} (hi : i < 32 + n) :
    ((dst.copy src 0 32).copy src 32 n).mem i = src i := by
  simp only [Output.copy]
  by_cases hi' : 32 ≤ i ∧ i < 32 + n
  · exact if_pos hi'
  · rw [if_neg hi', if_pos (by omega)]

theorem ran_copy_copy {old : Memory} (hcopied : e.copied = 32 + 4 * e.length) :
    Ran e src ((((⟨old, []⟩ : Output).copy src 0 32).copy src 32 (e.length * 4)).flipped
      e.swaps) := by
  refine ⟨_, [.copy 0 32, .copy 32 (e.length * 4)], rfl, fun i hi => ?_, fun w hw => ?_⟩
  · exact copy_copy_mem (by omega)
  · rcases mem_cons.mp hw with rfl | hw
    · exact ⟨0, 32, rfl, by omega⟩
    · exact ⟨32, e.length * 4, mem_singleton.mp hw, by omega⟩

section
variable {be : Bool} {src : Memory} {dst : Output}

theorem xi2EventSwap_leave (h : load16 be src 8 ∈ leaveTypes) :
    XI2EventSwap be src dst = SDeviceLeaveNotifyEvent be src dst := if_pos h

theorem xi2EventSwap_changed (h : load16 be src 8 = XI_DeviceChanged) :
    XI2EventSwap be src dst = SDeviceChangedEvent be src dst := by
  rw [XI2EventSwap, h]
  rfl

theorem xi2EventSwap_hierarchy (h : load16 be src 8 = XI_HierarchyChanged) :
    XI2EventSwap be src dst = SDeviceHierarchyEvent be src dst := by
  rw [XI2EventSwap, h]
  rfl

theorem xi2EventSwap_property (h : load16 be src 8 = XI_PropertyEvent) :
    XI2EventSwap be src dst = SXIPropertyEvent be src dst := by
  rw [XI2EventSwap, h]
  rfl

theorem xi2EventSwap_device (h : load16 be src 8 ∈ deviceTypes) :
    XI2EventSwap be src dst = SDeviceEvent be src dst := by
  simp only [deviceTypes, mem_cons, not_mem_nil, or_false] at h
  rw [XI2EventSwap]
  rcases h with h | h | h | h | h | h | h | h <;> rw [h] <;> rfl

theorem xi2EventSwap_ownership (h : load16 be src 8 = XI_TouchOwnership) :
    XI2EventSwap be src dst = STouchOwnershipEvent be src dst := by
  rw [XI2EventSwap, h]
  rfl

theorem xi2EventSwap_raw (h : load16 be src 8 ∈ rawTypes) :
    XI2EventSwap be src dst = SRawEvent be src dst := by
  simp only [rawTypes, mem_cons, not_mem_nil, or_false] at h
  rw [XI2EventSwap]
  rcases h with h | h | h | h | h | h | h | h <;> rw [h] <;> rfl

theorem xi2EventSwap_barrier (h : load16 be src 8 ∈ barrierTypes) :
    XI2EventSwap be src dst = SBarrierEvent be src dst := by
  simp only [barrierTypes, mem_cons, not_mem_nil, or_false] at h
  rw [XI2EventSwap]
  rcases h with h | h <;> rw [h] <;> rfl

theorem xi2EventSwap_pinch (h : load16 be src 8 ∈ pinchTypes) :
    XI2EventSwap be src dst = SGesturePinchEvent be src dst := by
  simp only [pinchTypes, mem_cons, not_mem_nil, or_false] at h
  rw [XI2EventSwap]
  rcases h with h | h | h <;> rw [h] <;> rfl

theorem xi2EventSwap_swipe (h : load16 be src 8 ∈ swipeTypes) :
    XI2EventSwap be src dst = SGestureSwipeEvent be src dst := by
  simp only [swipeTypes, mem_cons, not_mem_nil, or_false] at h
  rw [XI2EventSwap]
  rcases h with h | h | h <;> rw [h] <;> rfl

end

open Item

theorem bytes_flatMap_length (be : Bool) (items : List Item) :
    (encode be items).length = size items := by
  induction items with
  | nil => rfl
  | cons it items ih =>
    rw [encode, flatMap_cons, length_append, ← encode, ih, bytes_length, size_cons]

open Event

theorem holds_memory (be : Bool) (junk : Memory) (e : Event) :
    Wire.Holds be (e.memory be junk) 0 e.items := by
  refine holds_encode be fun i hi => ?_
  have hlen : i < (encode be e.items).length := by rwa [bytes_flatMap_length]
  rw [memory, zero_add, getD_eq_getElem _ _ hlen, getD_eq_getElem _ _ hlen]

@[simp] theorem Header.size_items (h : Header) (length evtype : Nat) :
    size (h.items length evtype) = 16 := rfl

@[simp] theorem Position.size_items (p : Position) : size p.items = 28 := rfl

@[simp] theorem ModifierInfo.size_items (m : ModifierInfo) : size m.items = 16 := rfl

@[simp] theorem GroupInfo.size_items (g : GroupInfo) : size g.items = 4 := rfl

@[simp] theorem FP3232.size_items (v : FP3232) : size v.items = 8 := rfl

@[simp] theorem Delta.size_items (d : Delta) : size d.items = 16 := rfl

@[simp] theorem size_pad (n : Nat) : size (pad n) = n := by
  induction n with
  | zero => rfl
  | succ n ih =>
    rw [pad, replicate_succ, size_cons, ← pad, ih]
    exact add_comm 1 n

theorem size_infos (infos : List HierarchyInfo) :
    size (infos.flatMap HierarchyInfo.items) = 12 * infos.length := by
  induction infos with
  | nil => rfl
  | cons info infos ih =>
    rw [flatMap_cons, size_append, ih, length_cons]
    show 12 + 12 * infos.length = _
    omega

theorem size_classItems (cs : List ClassInfo) :
    size (classItems cs) = 4 * (cs.map ClassInfo.length).sum := by
  induction cs with
  | nil => rfl
  | cons c cs ih =>
    rw [classItems, flatMap_cons, size_append, ← classItems, ih, c.size_items, map_cons, sum_cons]
    omega

theorem Event.size_items (e : Event) : size e.items = 32 + 4 * e.length := by
  cases e with
  | enter e =>
    have hbytes := e.buttons.bytes_length
    simp only [items, EnterEvent.items, length, size_append, size_cons, size_nil, size_byteItems,
      Header.size_items, Position.size_items, ModifierInfo.size_items, GroupInfo.size_items,
      width]
    omega
  | deviceChanged e =>
    simp only [items, DeviceChangedEvent.items, length, DeviceChangedEvent.length, size_append,
      size_cons, size_nil, size_classItems, Header.size_items, size_pad, width]
  | hierarchy e =>
    simp only [items, HierarchyEvent.items, length, size_append, size_cons, size_nil, size_infos,
      Header.size_items, size_pad, width]
    omega
  | property e =>
    simp only [items, PropertyEvent.items, length, size_append, size_cons, size_nil,
      Header.size_items, size_pad, width]
  | device e =>
    have hbuttons := e.buttons.bytes_length
    have hmask := e.mask.bytes_length
    simp only [items, DeviceEvent.items, length, DeviceEvent.length, size_append, size_cons,
      size_nil, size_byteItems, size_wordItems, fpWords_length, Header.size_items,
      Position.size_items, ModifierInfo.size_items, GroupInfo.size_items, size_pad, width]
    omega
  | touchOwnership e =>
    simp only [items, TouchOwnershipEvent.items, length, size_append, size_cons, size_nil,
      Header.size_items, size_pad, width]
  | raw e =>
    have hmask := e.mask.bytes_length
    simp only [items, RawEvent.items, length, RawEvent.length, size_append, size_cons, size_nil,
      size_byteItems, size_wordItems, length_append, fpWords_length, Header.size_items,
      size_pad, width]
    omega
  | barrier e =>
    simp only [items, BarrierEvent.items, length, size_append, size_cons, size_nil,
      Header.size_items, FP3232.size_items, size_pad, width]
  | pinch e =>
    simp only [items, GesturePinchEvent.items, length, size_append, size_cons, size_nil,
      Header.size_items, Position.size_items, Delta.size_items, ModifierInfo.size_items,
      GroupInfo.size_items, size_pad, width]
  | swipe e =>
    simp only [items, GestureSwipeEvent.items, length, size_append, size_cons, size_nil,
      Header.size_items, Position.size_items, Delta.size_items, ModifierInfo.size_items,
      GroupInfo.size_items, size_pad, width]

theorem BitMask.count_le (mask : BitMask) : mask.count ≤ mask.len * 32 := by
  have h := countP_le_length (p := mask.isOn) (l := range (mask.len * 32))
  rwa [length_range] at h

theorem DeviceChangedEvent.length_lt (e : DeviceChangedEvent) : e.length < 2 ^ 32 := by
  have hsum : ∀ cs : List ClassInfo, (cs.map ClassInfo.length).sum ≤ cs.length * (2 ^ 16 - 1) := by
    intro cs
    induction cs with
    | nil => exact Nat.zero_le _
    | cons c cs ih =>
      have hc := c.length_lt
      rw [map_cons, sum_cons, length_cons]
      omega
  have hclasses := hsum e.classes
  have hlt := e.classes_lt
  rw [DeviceChangedEvent.length]
  omega

theorem Event.length_lt (e : Event) : e.length < 2 ^ 32 := by
  cases e with
  | enter e =>
    have h := e.buttons.len_lt
    simp only [length]
    omega
  | deviceChanged e => exact e.length_lt
  | hierarchy e =>
    have h := e.infos_lt
    simp only [length]
    omega
  | device e =>
    have h := e.buttons.len_lt
    have h' := e.mask.len_lt
    have hcount := e.mask.count_le
    rw [length, DeviceEvent.length, e.values_length]
    omega
  | raw e =>
    have h := e.mask.len_lt
    have hcount := e.mask.count_le
    rw [length, RawEvent.length, e.values_length, e.values_raw_length]
    omega
  | property e => exact (by decide : 0 < 2 ^ 32)
  | touchOwnership e => exact (by decide : 4 < 2 ^ 32)
  | barrier e => exact (by decide : 9 < 2 ^ 32)
  | pinch e => exact (by decide : 17 < 2 ^ 32)
  | swipe e => exact (by decide : 15 < 2 ^ 32)

variable {be : Bool}

theorem load_length (h : Wire.Holds be src 0 e.items) : load32 be src 4 = e.length := by
  have hmod : load32 be src 4 = e.length % 2 ^ 32 := by
    cases e <;> exact h.2.2.2.1
  rw [hmod, Nat.mod_eq_of_lt e.length_lt]

theorem bitIsOn_mask {m : Memory} {off : Nat} {mask : BitMask}
    (h : Wire.Holds be m off (byteItems mask.bytes)) {j : Nat} (hj : j < mask.len * 32) :
    bitIsOn m off j = mask.isOn j := by
  have hlen := mask.bytes_length
  rw [bitIsOn, holds_byteItems h (by omega), BitMask.isOn]

theorem count_mask {m : Memory} {off : Nat} {mask : BitMask}
    (h : Wire.Holds be m off (byteItems mask.bytes)) :
    (range' 0 (mask.len * 32)).countP (bitIsOn m off) = mask.count := by
  rw [BitMask.count, ← range_eq_range']
  refine countP_congr fun j hj => ?_
  rw [bitIsOn_mask h (mem_range.mp hj)]

theorem device_members {e : DeviceEvent} (h : Wire.Holds be src 0 e.items) :
    load16 be src 48 = e.buttons.len ∧ load16 be src 50 = e.mask.len ∧
      Wire.Holds be src (80 + e.buttons.len * 4) (byteItems e.mask.bytes) := by
  simp only [DeviceEvent.items, holds_append, size_append, size_cons, size_nil,
    Header.size_items, Position.size_items, ModifierInfo.size_items, GroupInfo.size_items, size_pad,
    size_byteItems, e.buttons.bytes_length, width] at h
  obtain ⟨⟨⟨⟨⟨⟨⟨⟨-, hlens⟩, -⟩, -⟩, -⟩, -⟩, -⟩, hmask⟩, -⟩ := h
  refine ⟨?_, ?_, ?_⟩
  · exact hlens.1.trans (Nat.mod_eq_of_lt e.buttons.len_lt)
  · exact hlens.2.1.trans (Nat.mod_eq_of_lt e.mask.len_lt)
  · rwa [zero_add] at hmask

theorem low_not_covers {fs : List Member} {i : Nat} (hfs : ∀ f ∈ fs, f.off + f.width ≤ n)
    (hi : n ≤ i) : ∀ f ∈ fs, ¬ f.Covers i := fun f hf hcov => by
  have hend := hfs f hf
  have hcov' := hcov.2
  omega

theorem ran_device {e : DeviceEvent} (h : Wire.Holds be src 0 (device e).items) (old : Memory) :
    Ran (.device e) src (SDeviceEvent be src ⟨old, []⟩) := by
  obtain ⟨hb, hv, hmask⟩ := device_members h
  have hcopied : (device e).copied = 32 + 4 * (device e).length := rfl
  have hlength : (device e).length = 12 + e.buttons.len + e.mask.len + 2 * e.values.length := rfl
  have hn : 32 + load32 be src 4 * 4 = (device e).copied := by
    rw [load_length h, hcopied]
    omega
  have hcount : (List.range' 0 (e.mask.len * 32)).countP (bitIsOn (((⟨old, []⟩ : Output).copy src 0
      (device e).copied).flipped deviceSwaps).mem (80 + e.buttons.len * 4)) =
      e.mask.count := by
    refine count_mask (hmask.congr fun i hlow hhigh => ?_)
    rw [size_byteItems, e.mask.bytes_length] at hhigh
    have hfs : ∀ f ∈ deviceSwaps, f.off + f.width ≤ 80 := by decide
    rw [Output.flipped_mem (low_not_covers hfs (by omega))]
    exact if_pos ⟨Nat.zero_le i, by omega⟩
  rw [SDeviceEvent, hb, hv, hn]
  simp only [XXIDeviceEvent.size]
  rw [Output.swapFields_eq _ _ (by decide), swapValues_eq _ _ _ _ _ _ _ (by omega),
    Output.flipped_flipped, hcount]
  exact ran_copy rfl (le_refl _)

theorem raw_members {e : RawEvent} (h : Wire.Holds be src 0 e.items) :
    load16 be src 22 = e.mask.len ∧ Wire.Holds be src 32 (byteItems e.mask.bytes) := by
  simp only [RawEvent.items, holds_append, size_append, size_cons, size_nil, Header.size_items,
    size_pad, width] at h
  obtain ⟨⟨⟨⟨-, hlens⟩, -⟩, hmask⟩, -⟩ := h
  exact ⟨hlens.2.2.1.trans (Nat.mod_eq_of_lt e.mask.len_lt), hmask⟩

theorem ran_raw {e : RawEvent} (h : Wire.Holds be src 0 (raw e).items) (old : Memory) :
    Ran (.raw e) src (SRawEvent be src ⟨old, []⟩) := by
  obtain ⟨hv, hmask⟩ := raw_members h
  have hcopied : (raw e).copied = 32 + 4 * (raw e).length := rfl
  have hlength : (raw e).length = e.mask.len + 2 * e.values.length + 2 * e.values_raw.length := rfl
  have hn : 32 + load32 be src 4 * 4 = (raw e).copied := by
    rw [load_length h, hcopied]
    omega
  have hcount : (List.range' 0 (e.mask.len * 32)).countP (bitIsOn (((⟨old, []⟩ : Output).copy src 0
      (raw e).copied).flipped rawSwaps).mem 32) = e.mask.count := by
    refine count_mask (hmask.congr fun i hlow hhigh => ?_)
    rw [size_byteItems, e.mask.bytes_length] at hhigh
    have hfs : ∀ f ∈ rawSwaps, f.off + f.width ≤ 32 := by decide
    rw [Output.flipped_mem (low_not_covers hfs hlow)]
    exact if_pos ⟨Nat.zero_le i, by omega⟩
  rw [SRawEvent, hv, hn]
  simp only [XXIRawEvent.size]
  rw [Output.swapFields_eq _ _ (by decide), swapValues_eq _ _ _ _ _ _ _ (by omega),
    Output.swapFields_eq _ _ (by decide), Output.flipped_flipped, Output.flipped_flipped, hcount]
  exact ran_copy rfl (le_refl _)

theorem changed_members {e : DeviceChangedEvent} (h : Wire.Holds be src 0 e.items) :
    load16 be src 16 = e.classes.length ∧ Wire.Holds be src 32 (classItems e.classes) := by
  simp only [DeviceChangedEvent.items, holds_append, size_append, size_cons, size_nil,
    Header.size_items, size_pad, width] at h
  obtain ⟨⟨⟨-, hnum⟩, -⟩, hclasses⟩ := h
  exact ⟨hnum.1.trans (Nat.mod_eq_of_lt e.classes_lt), hclasses⟩

theorem ran_changed {e : DeviceChangedEvent}
    (h : Wire.Holds be src 0 (deviceChanged e).items) (old : Memory) :
    Ran (.deviceChanged e) src (SDeviceChangedEvent be src ⟨old, []⟩) := by
  obtain ⟨hnum, hclasses⟩ := changed_members h
  have hnum' : load16 be (((⟨old, []⟩ : Output).copy src 0 32).copy src 32
      ((deviceChanged e).length * 4)).mem 16 = e.classes.length := by
    rw [load16, copy_copy_mem (by omega), copy_copy_mem (by omega), ← hnum, load16]
  rw [SDeviceChangedEvent, load_length h]
  simp only [XXIDeviceChangedEvent.size]
  rw [hnum', swapClasses_eq e.classes 32 _ (hclasses.congr fun i _ hi => copy_copy_mem ?_),
    Output.swapFields_eq _ _ (by decide), Output.flipped_flipped]
  · exact ran_copy_copy rfl
  · rw [size_classItems] at hi
    have hlength : (deviceChanged e).length = (e.classes.map ClassInfo.length).sum := rfl
    omega

theorem hierarchy_members {e : HierarchyEvent}
    (h : Wire.Holds be src 0 e.items) : load16 be src 20 = e.infos.length := by
  simp only [HierarchyEvent.items, holds_append, size_append, size_cons, size_nil,
    Header.size_items, size_pad, width] at h
  obtain ⟨⟨⟨-, hnum⟩, -⟩, -⟩ := h
  exact hnum.2.1.trans (Nat.mod_eq_of_lt e.infos_lt)

theorem ran_hierarchy {e : HierarchyEvent}
    (h : Wire.Holds be src 0 (hierarchy e).items) (old : Memory) :
    Ran (.hierarchy e) src (SDeviceHierarchyEvent be src ⟨old, []⟩) := by
  rw [SDeviceHierarchyEvent, load_length h, hierarchy_members h]
  simp only [XXIHierarchyEvent.size]
  rw [Output.swapFields_eq _ _ (by decide), swapInfos_eq, Output.flipped_flipped]
  exact ran_copy_copy rfl

theorem type_mem {types : List Nat} {t : Nat} (htypes : ∀ t ∈ types, t < 2 ^ 16)
    (ht : t ∈ types) (h : n = t % 2 ^ 16) : n ∈ types := by
  rwa [h, Nat.mod_eq_of_lt (htypes t ht)]

theorem xi2EventSwap_ran (h : Wire.Holds be src 0 e.items)
    (old : Memory) : Ran e src (XI2EventSwap be src ⟨old, []⟩) := by
  cases e with
  | enter e =>
    have htype : load16 be src 8 ∈ leaveTypes := type_mem (by decide) e.evtype_mem h.2.2.2.2.1
    rw [xi2EventSwap_leave htype, SDeviceLeaveNotifyEvent, Output.swapFields_eq _ _ (by decide)]
    exact ran_copy rfl (by simp only [XXILeaveEvent.size, Event.length]; omega)
  | deviceChanged e =>
    rw [xi2EventSwap_changed h.2.2.2.2.1]
    exact ran_changed h old
  | hierarchy e =>
    rw [xi2EventSwap_hierarchy h.2.2.2.2.1]
    exact ran_hierarchy h old
  | property e =>
    rw [xi2EventSwap_property h.2.2.2.2.1, SXIPropertyEvent, Output.swapFields_eq _ _ (by decide)]
    exact ran_copy rfl (le_refl _)
  | device e =>
    have htype : load16 be src 8 ∈ deviceTypes := type_mem (by decide) e.evtype_mem h.2.2.2.2.1
    rw [xi2EventSwap_device htype]
    exact ran_device h old
  | touchOwnership e =>
    rw [xi2EventSwap_ownership h.2.2.2.2.1, STouchOwnershipEvent, Output.swapFields_eq _ _ (by decide)]
    exact ran_copy rfl (le_refl _)
  | raw e =>
    have htype : load16 be src 8 ∈ rawTypes := type_mem (by decide) e.evtype_mem h.2.2.2.2.1
    rw [xi2EventSwap_raw htype]
    exact ran_raw h old
  | barrier e =>
    have htype : load16 be src 8 ∈ barrierTypes := type_mem (by decide) e.evtype_mem h.2.2.2.2.1
    rw [xi2EventSwap_barrier htype, SBarrierEvent, Output.swapFields_eq _ _ (by decide)]
    exact ran_copy rfl (le_refl _)
  | pinch e =>
    have htype : load16 be src 8 ∈ pinchTypes := type_mem (by decide) e.evtype_mem h.2.2.2.2.1
    rw [xi2EventSwap_pinch htype, SGesturePinchEvent, Output.swapFields_eq _ _ (by decide)]
    exact ran_copy rfl (le_refl _)
  | swipe e =>
    have htype : load16 be src 8 ∈ swipeTypes := type_mem (by decide) e.evtype_mem h.2.2.2.2.1
    rw [xi2EventSwap_swipe htype, SGestureSwipeEvent, Output.swapFields_eq _ _ (by decide)]
    exact ran_copy rfl (le_refl _)

def ClassInfo.isAxis : ClassInfo → Bool
  | key _ => false
  | button _ => false
  | valuator _ => true
  | scroll _ => true

def Event.Complete : Event → Prop
  | enter _ => False
  | deviceChanged e => ∀ c ∈ e.classes, c.isAxis = false
  | hierarchy e => e.infos = []
  | property _ => False
  | device _ => True
  | touchOwnership _ => True
  | raw _ => False
  | barrier _ => False
  | pinch _ => True
  | swipe _ => True

variable {any : Nat} {c : ClassInfo}

theorem classSwaps_perm (h : c.isAxis = false) :
    (classSwaps any c ++ anySwaps any).Perm (fields any c.items) := by
  have hhead : ∀ ws : List Member, (ws ++ [Member.mk (any + 6) 2] ++ anySwaps any).Perm
      (anySwaps any ++ [Member.mk (any + 6) 2] ++ ws) := by
    intro ws
    rw [append_assoc]
    exact perm_append_comm.trans (List.Perm.append_right ws perm_append_comm)
  cases c with
  | key info =>
    rw [ClassInfo.items, fields_append, fields_wordItems]
    exact hhead _
  | button info =>
    rw [ClassInfo.items, fields_append, fields_append, fields_wordItems, fields_byteItems,
      append_nil, size_append, size_byteItems]
    exact (hhead _).trans (by rw [add_assoc]; rfl)
  | valuator info => cases h
  | scroll info => cases h

variable {cs : List ClassInfo}

theorem classesSwaps_perm (h : ∀ c ∈ cs, c.isAxis = false) :
    (classesSwaps any cs).Perm (fields any (classItems cs)) := by
  induction cs generalizing any with
  | nil => exact List.Perm.nil
  | cons c cs ih =>
    rw [classesSwaps, classItems, flatMap_cons, fields_append, c.size_items]
    exact (classSwaps_perm (h c mem_cons_self)).append
      (ih fun c hc => h c (mem_cons_of_mem _ hc))

@[simp] theorem Header.fields_items (h : Header) (length evtype off : Nat) :
    fields off (h.items length evtype) =
      [⟨off + 2, 2⟩, ⟨off + 4, 4⟩, ⟨off + 8, 2⟩, ⟨off + 10, 2⟩, ⟨off + 12, 4⟩] := rfl

@[simp] theorem Position.fields_items (p : Position) (off : Nat) : fields off p.items =
    [⟨off, 4⟩, ⟨off + 4, 4⟩, ⟨off + 8, 4⟩, ⟨off + 12, 4⟩, ⟨off + 16, 4⟩, ⟨off + 20, 4⟩,
      ⟨off + 24, 4⟩] := rfl

@[simp] theorem ModifierInfo.fields_items (m : ModifierInfo) (off : Nat) :
    fields off m.items = [⟨off, 4⟩, ⟨off + 4, 4⟩, ⟨off + 8, 4⟩, ⟨off + 12, 4⟩] := rfl

@[simp] theorem GroupInfo.fields_items (g : GroupInfo) (off : Nat) : fields off g.items = [] := rfl

@[simp] theorem FP3232.fields_items (v : FP3232) (off : Nat) :
    fields off v.items = [⟨off, 4⟩, ⟨off + 4, 4⟩] := rfl

@[simp] theorem Delta.fields_items (d : Delta) (off : Nat) :
    fields off d.items = [⟨off, 4⟩, ⟨off + 4, 4⟩, ⟨off + 8, 4⟩, ⟨off + 12, 4⟩] := rfl

@[simp] theorem fields_pad (n off : Nat) : fields off (pad n) = [] := by
  induction n generalizing off with
  | zero => rfl
  | succ n ih => exact ih (off + 1)

theorem Event.swaps_perm (h : e.Complete) : e.swaps.Perm (fields 0 e.items) := by
  cases e with
  | enter e | property e | raw e | barrier e => exact h.elim
  | deviceChanged e =>
    simp only [items, DeviceChangedEvent.items, fields_append, fields, size_append, size_cons,
      size_nil, Header.size_items, Header.fields_items, size_pad, fields_pad, width,
      append_nil, zero_add, Nat.reduceAdd]
    refine perm_append_comm.trans (List.Perm.append ?_ (classesSwaps_perm h))
    decide
  | hierarchy e =>
    have hinfos : e.infos = [] := h
    simp only [items, HierarchyEvent.items, fields_append, fields, size_append, size_cons, size_nil,
      Header.size_items, Header.fields_items, fields_pad, width, append_nil,
      zero_add, Nat.reduceAdd, hinfos, flatMap_nil, swaps, length_nil, infosSwaps]
    decide
  | device e =>
    simp only [items, DeviceEvent.items, fields_append, fields, size_append, size_cons, size_nil,
      Header.size_items, Header.fields_items, Position.size_items, Position.fields_items,
      ModifierInfo.size_items, ModifierInfo.fields_items, GroupInfo.size_items,
      GroupInfo.fields_items, size_pad, fields_pad, size_byteItems, fields_byteItems,
      fields_wordItems, fpWords_length, e.buttons.bytes_length, e.mask.bytes_length,
      e.values_length, width, append_nil, zero_add, Nat.reduceAdd, swaps]
    exact List.Perm.append_right _ (by decide)
  | touchOwnership e =>
    simp only [items, TouchOwnershipEvent.items, fields_append, fields, size_append, size_cons,
      size_nil, Header.size_items, Header.fields_items, size_pad, fields_pad, width,
      append_nil, zero_add, Nat.reduceAdd, swaps]
    decide
  | pinch e =>
    simp only [items, GesturePinchEvent.items, fields_append, fields, size_append, size_cons,
      size_nil, Header.size_items, Header.fields_items, Position.size_items, Position.fields_items,
      Delta.size_items, Delta.fields_items, ModifierInfo.size_items, ModifierInfo.fields_items,
      GroupInfo.size_items, GroupInfo.fields_items, size_pad, fields_pad, width,
      append_nil, zero_add, Nat.reduceAdd, swaps]
    decide
  | swipe e =>
    simp only [items, GestureSwipeEvent.items, fields_append, fields, size_append, size_cons,
      size_nil, Header.size_items, Header.fields_items, Position.size_items, Position.fields_items,
      Delta.size_items, Delta.fields_items, ModifierInfo.size_items, ModifierInfo.fields_items,
      GroupInfo.size_items, GroupInfo.fields_items, size_pad, fields_pad, width,
      append_nil, zero_add, Nat.reduceAdd, swaps]
    decide

theorem axis_missed (any : Nat) (h : c.isAxis = true) :
    ∃ f ∈ fields any c.items, f ∉ classSwaps any c ++ anySwaps any := by
  cases c with
  | key info => cases h
  | button info => cases h
  | valuator info =>
    refine ⟨⟨any + 28, 4⟩, ?_, ?_⟩
    · simp [ClassInfo.items, fields_append, fields]
    · simp [classSwaps, anySwaps]
  | scroll info =>
    refine ⟨⟨any + 12, 4⟩, ?_, ?_⟩
    · simp [ClassInfo.items, fields_append, fields]
    · simp [classSwaps, anySwaps]

variable {f : Member}

theorem classesSwaps_low (h : f ∈ classesSwaps any cs) : any ≤ f.off := by
  induction cs generalizing any with
  | nil => cases h
  | cons c cs ih =>
    rcases mem_append.mp h with h | h
    · exact (classSwaps_bounds h).1
    · have hrest := ih h
      omega

theorem classes_missed (any : Nat) (hc : c ∈ cs)
    (h : c.isAxis = true) : ∃ f ∈ fields any (classItems cs), f ∉ classesSwaps any cs := by
  induction cs generalizing any with
  | nil => cases hc
  | cons d cs ih =>
    rw [classItems, flatMap_cons, fields_append, d.size_items, ← classItems, classesSwaps]
    rcases mem_cons.mp hc with rfl | hc
    · obtain ⟨f, hf, hmissed⟩ := axis_missed any h
      refine ⟨f, mem_append_left _ hf, fun hmem => ?_⟩
      rcases mem_append.mp hmem with hmem | hmem
      · exact hmissed hmem
      · have hlow := classesSwaps_low hmem
        obtain ⟨-, hend, hwidth⟩ := fields_bounds hf
        rw [c.size_items] at hend
        omega
    · obtain ⟨f, hf, hmissed⟩ := ih (any + d.length * 4) hc
      refine ⟨f, mem_append_right _ hf, fun hmem => ?_⟩
      rcases mem_append.mp hmem with hmem | hmem
      · have hlow := (fields_bounds hf).1
        obtain ⟨-, hend⟩ := classSwaps_bounds hmem
        have hwidth := (fields_bounds hf).2.2
        omega
      · exact hmissed hmem

theorem mem_infosSwaps {info : Nat} (h : f ∈ infosSwaps n info) : f.width = 2 := by
  induction n generalizing info with
  | zero => cases h
  | succ n ih =>
    simp only [infosSwaps, mem_cons] at h
    rcases h with rfl | rfl | h
    · rfl
    · rfl
    · exact ih h

theorem Event.missed (h : ¬ e.Complete) : ∃ f ∈ fields 0 e.items, f ∉ e.swaps := by
  cases e with
  | enter e =>
    refine ⟨⟨64, 4⟩, ?_, (by decide : ⟨64, 4⟩ ∉ leaveSwaps)⟩
    simp [items, EnterEvent.items, fields_append, fields]
  | deviceChanged e =>
    have hex : ∃ c ∈ e.classes, c.isAxis = true := by
      by_contra hnone
      refine h fun c hc => ?_
      by_contra haxis
      exact hnone ⟨c, hc, by simpa using haxis⟩
    obtain ⟨c, hc, haxis⟩ := hex
    obtain ⟨f, hf, hmissed⟩ := classes_missed 32 hc haxis
    have hlow := (fields_bounds hf).1
    have hheader : ∀ g ∈ changedSwaps, g.off < 32 := by decide
    refine ⟨f, ?_, fun hmem => ?_⟩
    · rw [items, DeviceChangedEvent.items, fields_append]
      refine mem_append_right _ ?_
      simpa [width] using hf
    · rcases mem_append.mp hmem with hmem | hmem
      · exact hmissed hmem
      · have hhigh := hheader f hmem
        omega
  | hierarchy e =>
    cases hinfos : e.infos with
    | nil => exact absurd hinfos h
    | cons info infos =>
      refine ⟨⟨40, 4⟩, ?_, fun hmem => ?_⟩
      · simp [items, HierarchyEvent.items, HierarchyInfo.items, hinfos, fields_append, fields]
      · rw [swaps, hinfos] at hmem
        rcases mem_append.mp hmem with hmem | hmem
        · exact absurd hmem (by decide)
        · cases mem_infosSwaps hmem
  | property e =>
    refine ⟨⟨12, 4⟩, ?_, (by decide : ⟨12, 4⟩ ∉ propertySwaps)⟩
    simp [items, PropertyEvent.items, fields_append, fields]
  | device e | touchOwnership e | pinch e | swipe e => exact absurd trivial h
  | raw e =>
    refine ⟨⟨20, 2⟩, ?_, fun hmem => ?_⟩
    · simp [items, RawEvent.items, fields_append, fields]
    · rw [swaps] at hmem
      rcases mem_append.mp hmem with hmem | hmem
      · rcases mem_append.mp hmem with hmem | hmem
        · exact absurd hmem (by decide)
        · cases (mem_wordFields hmem).2.2
      · exact absurd hmem (by decide)
  | barrier e =>
    refine ⟨⟨36, 4⟩, ?_, (by decide : ⟨36, 4⟩ ∉ barrierSwaps)⟩
    simp [items, BarrierEvent.items, fields_append, fields]

theorem Ran.exact_of_perm {out : Output}
    (hsrc : Wire.Holds be src 0 e.items) (h : Ran e src out) (hcopied : e.copied = 32 + 4 * e.length)
    (hperm : e.swaps.Perm (fields 0 e.items)) : Exact be e src out := by
  obtain ⟨m, copies, rfl, hm, hcopies⟩ := h
  have hsize := e.size_items
  have hcopy : Wire.Holds be m 0 e.items := hsrc.congr fun i _ hi => hm i (by omega)
  have hout : Wire.Holds (!be) ((⟨m, copies⟩ : Output).flipped e.swaps).mem 0 e.items := by
    rw [Output.flipped, flipAll_perm m hperm (fields_apart _ _)]
    exact hcopy.flipAll
  refine ⟨hsrc.read_eq hout, fun i hi hbyte => ?_, fun f hf => ?_, fun w hw => ?_⟩
  · exact hsrc.byte_eq hout (Nat.zero_le i) (by omega) hbyte
  · have hnone : copies.count (.swap f) = 0 := by
      refine count_eq_zero_of_not_mem fun hmem => ?_
      obtain ⟨off, n, hw, -⟩ := hcopies _ hmem
      cases hw
    have hinj : Function.Injective Write.swap := fun f g hfg => by cases hfg; rfl
    rw [Output.flipped, count_append, hnone, count_map_of_injective _ _ hinj,
      hperm.count_eq, count_eq_one_of_mem (fields_nodup _ _) hf]
  · rw [Output.flipped] at hw
    rcases mem_append.mp hw with hw | hw
    · obtain ⟨off, n, rfl, hle⟩ := hcopies w hw
      exact hle
    · obtain ⟨f, hf, rfl⟩ := List.mem_map.mp hw
      obtain ⟨-, hend, -⟩ := fields_bounds (hperm.subset hf)
      rw [Write.fin]
      omega

theorem Ran.not_exact {out : Output} (h : Ran e src out)
    (hf : f ∈ fields 0 e.items) (hmissed : f ∉ e.swaps) : ¬ Exact be e src out := by
  intro hexact
  obtain ⟨m, copies, rfl, -, hcopies⟩ := h
  have honce := hexact.once f hf
  have hzero : ((⟨m, copies⟩ : Output).flipped e.swaps).writes.count (.swap f) = 0 := by
    refine count_eq_zero_of_not_mem fun hmem => ?_
    rcases mem_append.mp hmem with hmem | hmem
    · obtain ⟨off, n, hw, -⟩ := hcopies _ hmem
      cases hw
    · obtain ⟨g, hg, hgf⟩ := mem_map.mp hmem
      cases hgf
      exact hmissed hg
  omega

/-- An event says the same in the other byte order exactly when it is a device, touch, touch
ownership or gesture event, a changed device without valuators, or a hierarchy change without
infos. -/
theorem xi2EventSwap_exact (be : Bool) (e : Event) (junk old : Memory) :
    Exact be e (e.memory be junk) (XI2EventSwap be (e.memory be junk) ⟨old, []⟩) ↔ e.Complete := by
  have hsrc := holds_memory be junk e
  have hran := xi2EventSwap_ran hsrc old
  refine ⟨fun hexact => ?_, fun hcomplete => ?_⟩
  · by_contra hnot
    obtain ⟨f, hf, hmissed⟩ := missed hnot
    exact hran.not_exact hf hmissed hexact
  · refine hran.exact_of_perm hsrc ?_ (swaps_perm hcomplete)
    cases e with
    | enter e => exact hcomplete.elim
    | _ => rfl

end Xfront.Swap
