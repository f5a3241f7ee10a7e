import Xfront.Lib.Slices
import Xfront.XIProperty.Runs

/-!
# What a read of a property returns

The slice that the offset and the length of a request ask for, and what the 32 bits of the code make
of it.
-/

namespace Xfront.XIProperty
open BitVec Event

open List Option
open Slices (Slice slice slice_none slice_some)

section

variable {σ : Type}

/-- The answer to a request, the properties behind it and the events that were sent. -/
structure Seen where
  rc : Rc
  data : Bytes
  bytesAfter : Nat
  properties : List Property
  events : List Event
deriving DecidableEq

def Event.isNotify : Event → Bool
  | .notify _ _ => true
  | _ => false

def seen (r : Device σ × Out) : Seen :=
  ⟨r.2.rc, r.2.reply.elim [] (·.data), r.2.reply.elim 0 (·.bytesAfter.toNat), r.1.properties,
    r.2.log.filter isNotify⟩

inductive Form where
  | xi1
  | xi2
deriving DecidableEq

def Form.get (validAtom : Nat → Bool) (dev : Device σ) (stuff : GetReq) : Form → Device σ × Out
  | .xi1 => procXGetDeviceProperty validAtom dev stuff
  | .xi2 => procXIGetProperty validAtom dev stuff

def answered (dev : Device σ) (property : Nat) (gone event : Prop) [Decidable gone]
    [Decidable event] (data : Bytes) (bytesAfter : Nat) : Seen :=
  ⟨.success, data, bytesAfter, if gone then (unlink dev property).properties else dev.properties,
    if event then [.notify property .deleted] else []⟩

def Mismatch (value : PropertyValue) (type : Nat) : Prop := type ≠ value.type ∧ type ≠ 0

instance (value : PropertyValue) (type : Nat) : Decidable (Mismatch value type) :=
  inferInstanceAs (Decidable (_ ∧ _))

def sliced (dev : Device σ) (stuff : GetReq) : Seen :=
  match xiFetchDeviceProperty dev stuff.property with
  | none => answered dev stuff.property False False [] 0
  | some prop =>
    if Mismatch prop.value stuff.type then
      answered dev stuff.property False False [] prop.value.data.length
    else
      match slice prop.value.data (4 * stuff.longOffset.toNat) (4 * stuff.longLength.toNat) with
      | none => ⟨.badValue, [], 0, dev.properties, []⟩
      | some s =>
        answered dev stuff.property (stuff.delete = 1 ∧ s.after = 0)
          (stuff.delete = 1 ∧ s.after = 0) s.value s.after

/-- The device, the atoms and the handlers let the request read, and the reply can be sent. -/
structure MayRead (validAtom : Nat → Bool) (dev : Device σ) (stuff : GetReq) : Prop where
  access : stuff.access = .success
  reply : stuff.reply = .success
  delete : stuff.delete = 0 ∨ stuff.delete = 1
  property : validAtom stuff.property = true
  type : stuff.type = 0 ∨ validAtom stuff.type = true
  handlers : ∀ p ∈ xiFetchDeviceProperty dev stuff.property,
    (xiGetDeviceProperty dev p).2.1 = .success

def ind (longOffset : BitVec 32) : Nat := ((longOffset <<< 2).signExtend 64).toNat
def room (longLength : BitVec 32) : Nat := ((4 * longLength).signExtend 64).toNat

theorem toNat_signExtend64 (x : BitVec 32) :
    (x.signExtend 64).toNat = x.toNat + if 2 ^ 31 ≤ x.toNat then 2 ^ 64 - 2 ^ 32 else 0 := by
  rw [toNat_signExtend, toNat_setWidth, msb_eq_decide, Nat.mod_eq_of_lt (by omega)]
  simp only [decide_eq_true_eq, Nat.reduceSub]

theorem ind_eq (longOffset : BitVec 32) : ind longOffset = 4 * longOffset.toNat % 2 ^ 32 +
    if 2 ^ 31 ≤ 4 * longOffset.toNat % 2 ^ 32 then 2 ^ 64 - 2 ^ 32 else 0 := by
  rw [ind, toNat_signExtend64, toNat_shiftLeft, Nat.shiftLeft_eq, mul_comm]

theorem readValue_eq {value : PropertyValue} {type : Nat} (h : ¬ Mismatch value type)
    (hdata : value.data.length = value.size * (value.format / 8))
    (hlong : value.data.length < 2 ^ 63) (offset length : BitVec 32) :
    (value.data.length < ind offset ∧ readValue value type offset length = none) ∨
    (ind offset ≤ value.data.length ∧ ∃ r ∈ readValue value type offset length, ∃ len,
      len = min (value.data.length - ind offset) (room length) ∧
      r.bytesAfter.toNat = (value.data.length - (ind offset + len)) % 2 ^ 32 ∧
      r.length = BitVec.ofNat 32 len ∧
      r.data = (value.data.drop (ind offset)).take (BitVec.ofNat 32 len).toInt.toNat) := by
  have hn : (BitVec.ofNat 64 (value.format / 8 * value.size)).toNat = value.data.length := by
    rw [toNat_ofNat, hdata, mul_comm, Nat.mod_eq_of_lt (by omega)]
  rw [readValue, if_neg (show ¬ (type ≠ value.type ∧ type ≠ 0) from h), ind, room]
  generalize BitVec.ofNat 64 (value.format / 8 * value.size) = n at hn
  generalize (offset <<< 2).signExtend 64 = i
  generalize (4 * length).signExtend 64 = limit
  by_cases hlt : n < i
  · have hlt' : n.toNat < i.toNat := hlt
    exact .inl ⟨by omega, if_pos hlt⟩
  · have hle : i.toNat ≤ n.toNat := BitVec.not_lt.mp hlt
    have hsub : (n - i).toNat = n.toNat - i.toNat := toNat_sub_of_le (le_def.mpr hle)
    have hlen : (if n - i < limit then n - i else limit).toNat =
        min (value.data.length - i.toNat) limit.toNat := by
      split
      next hmin =>
        have hmin' : (n - i).toNat < limit.toNat := hmin
        omega
      next hmin =>
        have hmin' : limit.toNat ≤ (n - i).toNat := BitVec.not_lt.mp hmin
        omega
    rw [if_neg hlt]
    refine .inr ⟨by omega, _, rfl, _, rfl, ?_, ?_, ?_⟩
    · rw [← hlen]
      generalize (if n - i < limit then n - i else limit) = len at hlen
      have hsum : (i + len).toNat = i.toNat + len.toNat := by
        rw [toNat_add, Nat.mod_eq_of_lt (by omega)]
      rw [toNat_setWidth, toNat_sub_of_le (le_def.mpr (by omega)), hsum, hn]
    · rw [← hlen, ofNat_toNat]
    · rw [← hlen, ofNat_toNat]

variable {validAtom : Nat → Bool} {dev : Device σ} {stuff : GetReq}

theorem notify_of_asked {log : List Event}
    (h : ∀ e ∈ log, ∃ handler name rc, e = getAsked handler name rc) :
    log.filter isNotify = [] := by
  rw [filter_eq_nil_iff]
  intro e he
  obtain ⟨_, _, _, rfl⟩ := h e he
  exact Bool.false_ne_true

theorem getProperty_eq (h : MayRead validAtom dev stuff) :
    ∃ driver log, (log.filter isNotify = []) ∧
      getProperty validAtom dev stuff.property stuff.type stuff.delete stuff.longOffset
        stuff.longLength = (driver, log, match xiFetchDeviceProperty dev stuff.property with
          | none => .ok ⟨0, 0, 0, 0, 0, []⟩
          | some prop =>
            match readValue prop.value stuff.type stuff.longOffset stuff.longLength with
            | none => .error ⟨.badValue, some stuff.longOffset.toNat⟩
            | some reply => .ok reply) := by
  generalize hget : getProperty validAtom dev stuff.property stuff.type stuff.delete
    stuff.longOffset stuff.longLength = got
  obtain ⟨driver, log, r⟩ := got
  refine ⟨driver, log, notify_of_asked fun _ he => getProperty_log hget he, ?_⟩
  have hatom : ¬ (!validAtom stuff.property) = true := by
    rw [h.property]
    exact Bool.false_ne_true
  have hdelete : ¬ (stuff.delete ≠ 1 ∧ stuff.delete ≠ 0) := by
    have hflag := h.delete
    omega
  have htype : ¬ (stuff.type ≠ 0 ∧ (!validAtom stuff.type) = true) := by
    rintro ⟨hne, hbad⟩
    rw [h.type.resolve_left hne] at hbad
    cases hbad
  rw [getProperty, if_neg hatom, if_neg hdelete, if_neg htype] at hget
  have hhandlers := h.handlers
  cases hfetch : xiFetchDeviceProperty dev stuff.property with
  | none =>
    rw [hfetch] at hget
    cases hget
    rfl
  | some prop =>
    rw [hfetch] at hget
    dsimp only at hget
    rw [if_neg (not_not.mpr (hhandlers prop hfetch))] at hget
    dsimp only
    cases hread : readValue prop.value stuff.type stuff.longOffset stuff.longLength with
    | none | some reply =>
      rw [hread] at hget
      cases hget
      rfl

theorem get_seen (h : MayRead validAtom dev stuff) (form : Form) :
    seen (form.get validAtom dev stuff) = match xiFetchDeviceProperty dev stuff.property with
      | none => answered dev stuff.property False (stuff.delete = 1 ∧ form = .xi1) [] 0
      | some prop =>
        match readValue prop.value stuff.type stuff.longOffset stuff.longLength with
        | none => ⟨.badValue, [], 0, dev.properties, []⟩
        | some r => answered dev stuff.property (stuff.delete = 1 ∧ r.bytesAfter = 0)
            (stuff.delete = 1 ∧ r.bytesAfter = 0 ∧ (form = .xi2 → r.length ≠ 0)) r.data
            r.bytesAfter.toNat := by
  obtain ⟨driver, log, hlog, hget⟩ := getProperty_eq h
  have haccess : ¬ stuff.access ≠ .success := not_not.mpr h.access
  have hflag : stuff.delete ≠ 0 ↔ stuff.delete = 1 := by
    have hdelete := h.delete
    omega
  have hdriver : ∀ property, (unlink { dev with driver } property).properties =
      (unlink dev property).properties := fun _ => rfl
  cases form with
  | xi1 =>
    rw [Form.get, procXGetDeviceProperty, if_neg haccess, hget]
    cases hfetch : xiFetchDeviceProperty dev stuff.property with
    | none =>
      have hkept := unlink_none hfetch
      by_cases hdelete : stuff.delete = 1
      · simp [seen, answered, filter_append, hlog, h.reply, hdelete, hkept, isNotify, hdriver]
      · simp [seen, answered, hlog, h.reply, hdelete, hflag]
    | some prop =>
      dsimp only
      cases readValue prop.value stuff.type stuff.longOffset stuff.longLength with
      | none => simp [seen, hlog]
      | some r =>
        by_cases hgone : stuff.delete = 1 ∧ r.bytesAfter = 0#32
        · simp [seen, answered, filter_append, hlog, h.reply, hgone, isNotify, hdriver]
        · simp [seen, answered, hlog, h.reply, hgone, hflag]
  | xi2 =>
    rw [Form.get, procXIGetProperty, if_neg haccess, hget]
    cases hfetch : xiFetchDeviceProperty dev stuff.property with
    | none =>
      have hkept := unlink_none hfetch
      by_cases hdelete : stuff.delete = 1
      · simp [seen, answered, hlog, h.reply, hdelete, hkept, hdriver]
      · simp [seen, answered, hlog, h.reply, hdelete, hflag]
    | some prop =>
      dsimp only
      cases readValue prop.value stuff.type stuff.longOffset stuff.longLength with
      | none => simp [seen, hlog]
      | some r =>
        by_cases hgone : stuff.delete = 1 ∧ r.bytesAfter = 0#32
        · by_cases hempty : r.length = 0
          · simp [seen, answered, hlog, h.reply, hgone, hempty, hdriver]
          · simp [seen, answered, filter_append, hlog, h.reply, hgone, isNotify, hdriver]
        · simpa [seen, answered, hlog, h.reply, hgone, hflag] using
            fun h₁ h₂ => absurd (And.intro h₁ h₂) hgone

/-- The offset is not cut off, or is behind the end all the same, the length still reaches as far,
and what is read and what is left fit in an `int` and in a `CARD32`. XI 2 sends no event for the
deletion of a property none of which was read. -/
def Whole (form : Form) (stuff : GetReq) (data : Bytes) : Prop :=
  let offset := 4 * stuff.longOffset.toNat
  let len := min (data.length - offset) (4 * stuff.longLength.toNat)
  (data.length < offset ∧ data.length < ind stuff.longOffset) ∨
    (offset ≤ data.length ∧ offset < 2 ^ 31 ∧
      min (data.length - offset) (room stuff.longLength) = len ∧ len < 2 ^ 31 ∧
      data.length - (offset + len) < 2 ^ 32 ∧
      (form = .xi2 → stuff.delete = 1 → offset < data.length))

/-- With another type the items are the bytes, and there are some if the property is to be deleted;
XI 1 sends an event for a deletion of no property. -/
def Sound (form : Form) (dev : Device σ) (stuff : GetReq) : Prop :=
  match xiFetchDeviceProperty dev stuff.property with
  | none => form = .xi1 → stuff.delete = 0
  | some prop =>
    if Mismatch prop.value stuff.type then
      prop.value.size = prop.value.data.length ∧ prop.value.size < 2 ^ 32 ∧
        (stuff.delete = 1 → prop.value.size ≠ 0)
    else Whole form stuff prop.value.data

variable {prop : Property}

theorem unlink_ne (h : xiFetchDeviceProperty dev stuff.property = some prop) :
    (unlink dev stuff.property).properties ≠ dev.properties := by
  intro heq
  have hlength := congrArg length heq
  have hpos := length_pos_of_mem (mem_of_find?_eq_some h)
  rw [unlink, length_eraseP_of_mem (mem_of_find?_eq_some h) (find?_some h)] at hlength
  omega

theorem answered_eq {gone event gone' event' : Prop} [Decidable gone] [Decidable event]
    [Decidable gone'] [Decidable event'] {data data' : Bytes} {after after' property : Nat}
    (hne : (unlink dev property).properties ≠ dev.properties) :
    answered dev property gone event data after = answered dev property gone' event' data' after' ↔
      (gone ↔ gone') ∧ (event ↔ event') ∧ data = data' ∧ after = after' := by
  by_cases hg : gone <;> by_cases hg' : gone' <;> by_cases he : event <;> by_cases he' : event' <;>
    simp [answered, hg, hg', he, he', hne, hne.symm]

theorem bytesAfter_zero {r : GetReply} {after : Nat} (h : r.bytesAfter.toNat = after) :
    r.bytesAfter = 0 ↔ after = 0 := by
  rw [← h, ← toNat_inj]
  rfl

/-- A length that is negative as an `int` reads nothing. -/
theorem toInt_ofNat32 {len : Nat} (h : len < 2 ^ 32) :
    (BitVec.ofNat 32 len).toInt.toNat = if len < 2 ^ 31 then len else 0 := by
  rw [toInt_eq_toNat_cond, toNat_ofNat, Nat.mod_eq_of_lt h]
  split <;> split <;> omega

/-- The size is a `long`. -/
def PropertyValue.Formed (value : PropertyValue) : Prop :=
  Slices.Formed value.format value.size value.data.length ∧ value.data.length < 2 ^ 63

theorem mismatch_iff
    (h : xiFetchDeviceProperty dev stuff.property = some prop) (hformed : prop.value.Formed)
    (form : Form) :
    answered dev stuff.property (stuff.delete = 1 ∧ BitVec.ofNat 32 prop.value.size = 0)
        (stuff.delete = 1 ∧ BitVec.ofNat 32 prop.value.size = 0 ∧
          (form = .xi2 → (0 : BitVec 32) ≠ 0)) [] (BitVec.ofNat 32 prop.value.size).toNat =
      answered dev stuff.property False False [] prop.value.data.length ↔
    prop.value.size = prop.value.data.length ∧ prop.value.size < 2 ^ 32 ∧
      (stuff.delete = 1 → prop.value.size ≠ 0) := by
  have hitems : (BitVec.ofNat 32 prop.value.size).toNat = prop.value.size % 2 ^ 32 :=
    toNat_ofNat _ _
  have hzero : BitVec.ofNat 32 prop.value.size = 0 ↔ prop.value.size % 2 ^ 32 = 0 := by
    rw [← toNat_inj, hitems]
    rfl
  have hbytes := hformed.1.size_le
  rw [answered_eq (unlink_ne h), hzero, hitems]
  constructor
  · rintro ⟨hgone, -, -, hafter⟩
    refine ⟨by omega, by omega, fun hdelete hsize => hgone.mp ⟨hdelete, by omega⟩⟩
  · rintro ⟨hsize, hlt, hdelete⟩
    have hgone : ¬ (stuff.delete = 1 ∧ prop.value.size % 2 ^ 32 = 0) := fun hgone =>
      hdelete hgone.1 (by omega)
    refine ⟨iff_of_false hgone id, iff_of_false (fun he => hgone ⟨he.1, he.2.1⟩) id, rfl, by omega⟩

theorem match_iff (h : xiFetchDeviceProperty dev stuff.property = some prop)
    (hformed : prop.value.Formed) (hm : ¬ Mismatch prop.value stuff.type) (form : Form)
    {got asked : Seen}
    (hgot : got = match readValue prop.value stuff.type stuff.longOffset stuff.longLength with
      | none => ⟨.badValue, [], 0, dev.properties, []⟩
      | some r => answered dev stuff.property (stuff.delete = 1 ∧ r.bytesAfter = 0)
          (stuff.delete = 1 ∧ r.bytesAfter = 0 ∧ (form = .xi2 → r.length ≠ 0)) r.data
          r.bytesAfter.toNat)
    (hasked : asked =
      match slice prop.value.data (4 * stuff.longOffset.toNat) (4 * stuff.longLength.toNat) with
      | none => ⟨.badValue, [], 0, dev.properties, []⟩
      | some s => answered dev stuff.property (stuff.delete = 1 ∧ s.after = 0)
          (stuff.delete = 1 ∧ s.after = 0) s.value s.after) :
    (Whole form stuff prop.value.data → got = asked) ∧
      (prop.value.data.length < 2 ^ 32 → got = asked → Whole form stuff prop.value.data) := by
  have hoffset := ind_eq stuff.longOffset
  rw [Whole]
  generalize hN : prop.value.data.length = N at *
  rcases readValue_eq hm hformed.1.2 hformed.2 stuff.longOffset stuff.longLength with
    ⟨hlt, hread⟩ | ⟨hle, r, hread, len, hlen, hafter, hlength, hdata⟩
  · -- The code's offset is behind the end.
    rw [hread] at hgot
    by_cases hin : 4 * stuff.longOffset.toNat ≤ N
    · rw [slice_some (by omega)] at hasked
      have hne : got ≠ asked := by
        rw [hgot, hasked]
        exact fun heq => by cases congrArg Seen.rc heq
      refine ⟨fun hwhole => ?_, fun _ heq => absurd heq hne⟩
      rcases hwhole with hwhole | ⟨-, hshort, -⟩
      · omega
      · rw [if_neg (by omega)] at hoffset
        omega
    · rw [slice_none (by omega)] at hasked
      exact ⟨fun _ => hgot.trans hasked.symm, fun _ _ => .inl ⟨by omega, by omega⟩⟩
  · rw [mem_def.mp hread] at hgot
    by_cases hin : 4 * stuff.longOffset.toNat ≤ N
    · rw [slice_some (by omega)] at hasked
      dsimp only at hgot hasked
      rw [hgot, hasked, answered_eq (unlink_ne h), bytesAfter_zero hafter, hafter, hdata]
      have hempty : r.length ≠ 0 ↔ len % 2 ^ 32 ≠ 0 := by
        rw [hlength, Ne, ← toNat_inj, toNat_ofNat]
        rfl
      rw [hempty, hN]
      rw [hN] at hlen hle
      have hfit := @toInt_ofNat32 len
      generalize 4 * stuff.longOffset.toNat = o at *
      generalize ind stuff.longOffset = i at *
      generalize room stuff.longLength = r' at *
      generalize hm' : min (N - o) (4 * stuff.longLength.toNat) = m at *
      constructor
      · rintro (⟨hbehind, -⟩ | ⟨-, hshort, hroom, hint, hcard, hlast⟩)
        · omega
        · -- Nothing is cut off.
          rw [if_neg (by omega), Nat.mod_eq_of_lt (by omega)] at hoffset
          have hi : i = o := hoffset
          rw [← hi] at hroom hcard hlast ⊢
          rw [hlen, hroom] at hfit ⊢
          rw [hfit (by omega), if_pos hint, Nat.mod_eq_of_lt hcard, Nat.mod_eq_of_lt (by omega)]
          refine ⟨Iff.rfl, ⟨fun hgone => ⟨hgone.1, hgone.2.1⟩, fun hgone =>
            ⟨hgone.1, hgone.2, fun hform => ?_⟩⟩, rfl, rfl⟩
          have hlt := hlast hform hgone.1
          omega
      · rintro hcard ⟨-, hevent, hvalue, hleft⟩
        have hi : i = o := by
          split at hoffset <;> omega
        have hshort : o < 2 ^ 31 := by
          split at hoffset <;> omega
        rw [hi] at hlen hleft hvalue hevent
        have hlm : len = m := by omega
        have hint : m < 2 ^ 31 := by
          by_contra hlong
          have hlengths := congrArg length hvalue
          rw [hlm] at hfit hlengths
          rw [hfit (by omega), if_neg hlong, take_zero, length_nil, length_take, length_drop, hN]
            at hlengths
          omega
        refine .inr ⟨hin, hshort, by omega, hint, by omega, fun hform hdelete => ?_⟩
        by_contra hend
        have hsent := (hevent.mpr ⟨hdelete, by omega⟩).2.2 hform
        omega
    · rw [slice_none (by omega)] at hasked
      have hne : got ≠ asked := by
        rw [hgot, hasked]
        exact fun heq => by cases congrArg Seen.rc heq
      refine ⟨fun hwhole => ?_, fun _ heq => absurd heq hne⟩
      rcases hwhole with ⟨-, hbehind⟩ | ⟨hin', -⟩
      · omega
      · exact absurd hin' hin

theorem get_slice (validAtom : Nat → Bool) (dev : Device σ) (form : Form) (stuff : GetReq)
    (hformed : ∀ p ∈ dev.properties, p.value.Formed) (h : MayRead validAtom dev stuff) :
    (Sound form dev stuff → seen (form.get validAtom dev stuff) = sliced dev stuff) ∧
      ((∀ p ∈ dev.properties, p.value.data.length < 2 ^ 32) →
        seen (form.get validAtom dev stuff) = sliced dev stuff → Sound form dev stuff) := by
  rw [get_seen h, sliced, Sound]
  cases hfetch : xiFetchDeviceProperty dev stuff.property with
  | none =>
    have hflag := h.delete
    have hiff : (form = .xi1 → stuff.delete = 0) ↔ ¬ (stuff.delete = 1 ∧ form = .xi1) := by
      refine ⟨fun himp hboth => ?_, fun hnot hform => ?_⟩
      · have hzero := himp hboth.2
        omega
      · exact hflag.resolve_right fun hone => hnot ⟨hone, hform⟩
    dsimp only
    rw [hiff]
    by_cases hboth : stuff.delete = 1 ∧ form = .xi1
    · simp [answered, hboth]
    · simp [answered, hboth]
  | some prop =>
    have hprop := hformed prop (mem_of_find?_eq_some hfetch)
    dsimp only
    by_cases hm : Mismatch prop.value stuff.type
    · have hread : readValue prop.value stuff.type stuff.longOffset stuff.longLength =
          some ⟨BitVec.ofNat 32 prop.value.size, prop.value.type, prop.value.format, 0, 0, []⟩ :=
        if_pos hm
      rw [hread, if_pos hm, if_pos hm]
      have hiff := mismatch_iff hfetch hprop form
      exact ⟨hiff.mpr, fun _ => hiff.mp⟩
    · rw [if_neg hm, if_neg hm]
      obtain ⟨hif, honly⟩ := match_iff hfetch hprop hm form rfl rfl
      exact ⟨hif, fun hshort => honly (hshort prop (mem_of_find?_eq_some hfetch))⟩

def twoItems : Device Unit := ⟨[⟨1, ⟨1, 32, 2, [1, 2, 3, 4, 5, 6, 7, 8]⟩, true⟩], [], ()⟩

def twoItemsReq (longOffset : BitVec 32) : GetReq := ⟨.success, 1, 0, 1, longOffset, 4, .success⟩

theorem get_slice_twoItems :
    (seen (Form.get (fun _ => true) twoItems (twoItemsReq 1) .xi1)).data = [5, 6, 7, 8] ∧
      seen (Form.get (fun _ => true) twoItems (twoItemsReq 1) .xi1) =
        sliced twoItems (twoItemsReq 1) :=
  ⟨by decide, (get_slice (fun _ => true) twoItems .xi1 (twoItemsReq 1) (by
    intro p hp
    cases mem_singleton.mp hp
    exact ⟨⟨.inr (.inr (.inl rfl)), rfl⟩, by decide⟩)
    ⟨rfl, rfl, .inr rfl, rfl, .inl rfl, fun p hp => by cases hp; rfl⟩).1
    (.inr ⟨by decide, by decide, by decide, by decide, by decide, by decide⟩)⟩

theorem get_offset_cut : seen (Form.get (fun _ => true) twoItems (twoItemsReq 0x40000000) .xi1) =
        ⟨.success, [1, 2, 3, 4, 5, 6, 7, 8], 0, [], [.notify 1 .deleted]⟩ ∧
      sliced twoItems (twoItemsReq 0x40000000) = ⟨.badValue, [], 0, twoItems.properties, []⟩ := by
  decide

end

end Xfront.XIProperty
