import Xfront.Lib.Bytes
import Xfront.Lib.Slices
import Xfront.Randr.Model

/-!
# Reading an output property

`ProcRRGetOutputProperty`, and the slice that the offset and the length of a request ask for.
-/

namespace Xfront.Randr
open Nat

open List Option
open Bytes (bswap32 bswap32_bswap32)
open Keyed (update)
open Slices (Formed slice slice_none slice_some)

inductive GetRc where
  | success
  | badAtom
  | badValue
  | badAccess
  | badAlloc
  | code (n : Nat)
deriving DecidableEq

/-- What the request meets: the lookup of the output, the atoms, the driver's new current value and
memory for the data. -/
structure Surroundings where
  access : GetRc
  validAtom : Nat → Bool
  refresh : PropertyValue → PropertyValue
  memory : Bool

structure GetReq where
  property : Nat
  type : Nat
  longOffset : BitVec 32
  longLength : BitVec 32
  delete : Nat
  pending : Bool

structure GetReply where
  format : Nat
  propertyType : Nat
  bytesAfter : Nat
  nItems : Nat
  data : Bytes

structure GetAnswer where
  rc : GetRc
  reply : Option GetReply
  notified : List Nat

/-- `RRGetOutputProperty`: a current value is brought up to date first. -/
def getOutputProperty (refresh : PropertyValue → PropertyValue) (output : Output) (prop : Property)
    (pending : Bool) : Output × PropertyValue :=
  if pending && prop.isPending then (output, prop.pending)
  else
    let current := refresh prop.current
    ({ output with
        properties := update Property.propertyName (fun prop => { prop with current })
          prop.propertyName output.properties }, current)

def swapl (swapped : Bool) (n : Nat) : Nat := if swapped then bswap32 n else n

def items (swapped : Bool) (format : Nat) (src : Bytes) : Bytes :=
  if swapped ∧ (format = 16 ∨ format = 32) then (src.toChunks (format / 8)).flatMap reverse else src

/-- From `sendout` on; what is removed hangs on the reply, whose numbers are swapped by now. -/
def sendout (swapped : Bool) (output : Output) (stuff : GetReq) (notified : List Nat)
    (reply : GetReply) : Output × GetAnswer :=
  let reply := { reply with
    propertyType := swapl swapped reply.propertyType
    bytesAfter := swapl swapped reply.bytesAfter
    nItems := swapl swapped reply.nItems }
  let gone := stuff.delete ≠ 0 ∧ reply.bytesAfter = 0
  (if gone then deleteOutputProperty output stuff.property else output,
    ⟨.success, some reply, notified⟩)

/-- The part for a property that was found; `value` is the one that is asked for. -/
def readOutputProperty (env : Surroundings) (swapped : Bool) (output : Output)
    (value : PropertyValue) (stuff : GetReq) : Output × GetAnswer :=
  if stuff.type ≠ value.type ∧ stuff.type ≠ 0 then
    sendout swapped output stuff [] ⟨value.format, value.type, value.size % 2 ^ 32, 0, []⟩
  else
    let n := value.format / 8 * value.size
    let ind := (stuff.longOffset <<< 2).toNat
    if n < ind then (output, ⟨.badValue, none, []⟩)
    else
      let len := min (n - ind) (4 * stuff.longLength).toNat
      let bytesAfter := (n - (ind + len)) % 2 ^ 32
      let notified := if stuff.delete ≠ 0 ∧ bytesAfter = 0 then [stuff.property] else []
      if len ≠ 0 ∧ !env.memory then (output, ⟨.badAlloc, none, notified⟩)
      else
        sendout swapped output stuff notified
          ⟨value.format, value.type, bytesAfter, len / (value.format / 8) % 2 ^ 32,
            items swapped value.format ((value.data.drop ind).take len)⟩

def procRRGetOutputProperty (env : Surroundings) (swapped : Bool) (output : Output)
    (stuff : GetReq) : Output × GetAnswer :=
  if env.access ≠ .success then (output, ⟨env.access, none, []⟩)
  else if !env.validAtom stuff.property then (output, ⟨.badAtom, none, []⟩)
  else if stuff.delete ≠ 1 ∧ stuff.delete ≠ 0 then (output, ⟨.badValue, none, []⟩)
  else if stuff.type ≠ 0 ∧ !env.validAtom stuff.type then (output, ⟨.badAtom, none, []⟩)
  else
    match queryOutputProperty output stuff.property with
    | none =>
      (output, ⟨.success, some ⟨0, swapl swapped 0, swapl swapped 0, swapl swapped 0, []⟩, []⟩)
    | some prop =>
      if prop.immutable ∧ stuff.delete ≠ 0 then (output, ⟨.badAccess, none, []⟩)
      else
        let (output, value) := getOutputProperty env.refresh output prop stuff.pending
        readOutputProperty env swapped output value stuff

structure Seen where
  rc : GetRc
  data : Bytes
  bytesAfter : Nat
  properties : List Property
  notified : List Nat
deriving DecidableEq

def seen (swapped : Bool) (r : Output × GetAnswer) : Seen :=
  ⟨r.2.rc, r.2.reply.elim [] (·.data), r.2.reply.elim 0 fun reply => swapl swapped reply.bytesAfter,
    r.1.properties, r.2.notified⟩

def answered (output : Output) (property : Nat) (gone told : Prop) [Decidable gone] [Decidable told]
    (data : Bytes) (bytesAfter : Nat) : Seen :=
  ⟨.success, data, bytesAfter,
    if gone then (deleteOutputProperty output property).properties else output.properties,
    if told then [property] else []⟩

def sliced (env : Surroundings) (swapped : Bool) (output : Output) (stuff : GetReq) : Seen :=
  match queryOutputProperty output stuff.property with
  | none => answered output stuff.property False False [] 0
  | some prop =>
    let (output, value) := getOutputProperty env.refresh output prop stuff.pending
    if stuff.type ≠ value.type ∧ stuff.type ≠ 0 then
      answered output stuff.property False False [] value.data.length
    else
      match slice value.data (4 * stuff.longOffset.toNat) (4 * stuff.longLength.toNat) with
      | none => ⟨.badValue, [], 0, output.properties, []⟩
      | some s =>
        answered output stuff.property (stuff.delete = 1 ∧ s.after = 0)
          (stuff.delete = 1 ∧ s.after = 0) (items swapped value.format s.value) s.after

/-- The output and the atoms let the request read, and there is memory for the reply. -/
structure MayRead (env : Surroundings) (stuff : GetReq) : Prop where
  access : env.access = .success
  property : env.validAtom stuff.property = true
  delete : stuff.delete = 0 ∨ stuff.delete = 1
  type : stuff.type = 0 ∨ env.validAtom stuff.type = true
  memory : env.memory = true

/-- With another type the items are the bytes, and there are some if the property is to be deleted.
Else the offset is not cut off, or is behind the end all the same, the length still reaches as far,
and what is left fits in a `CARD32`. -/
def Whole (stuff : GetReq) (value : PropertyValue) : Prop :=
  let N := value.data.length
  let offset := 4 * stuff.longOffset.toNat
  let length := 4 * stuff.longLength.toNat
  if stuff.type ≠ value.type ∧ stuff.type ≠ 0 then
    value.size = N ∧ N < 2 ^ 32 ∧ (stuff.delete = 1 → N ≠ 0)
  else
    (N < offset ∧ N < offset % 2 ^ 32) ∨
      (offset ≤ N ∧ offset < 2 ^ 32 ∧ min (N - offset) (length % 2 ^ 32) = min (N - offset) length ∧
        N - (offset + min (N - offset) length) < 2 ^ 32)

/-- No immutable property is to be deleted, and the slice of the value is not cut off. -/
def Sound (env : Surroundings) (output : Output) (stuff : GetReq) : Prop :=
  ∀ prop ∈ queryOutputProperty output stuff.property, ¬ (prop.immutable ∧ stuff.delete = 1) ∧
      Whole stuff (getOutputProperty env.refresh output prop stuff.pending).2

variable {env : Surroundings} {swapped : Bool} {output : Output} {stuff : GetReq}
  {value : PropertyValue} {n : Nat}

theorem swapl_swapl (h : n < 2 ^ 32) : swapl swapped (swapl swapped n) = n := by
  cases swapped with
  | false => rfl
  | true => exact bswap32_bswap32 h

theorem swapl_eq_zero (h : n < 2 ^ 32) : swapl swapped n = 0 ↔ n = 0 := by
  have hzero : swapl swapped 0 = 0 := by cases swapped <;> rfl
  refine ⟨fun hn => ?_, fun hn => hn ▸ hzero⟩
  rw [← @swapl_swapl swapped n h, hn, hzero]

theorem sendout_seen {notified : List Nat} {reply : GetReply} (h : MayRead env stuff)
    (hafter : reply.bytesAfter < 2 ^ 32) :
    seen swapped (sendout swapped output stuff notified reply) = ⟨.success, reply.data,
      reply.bytesAfter, if stuff.delete = 1 ∧ reply.bytesAfter = 0 then
        (deleteOutputProperty output stuff.property).properties else output.properties,
      notified⟩ := by
  have hgone : stuff.delete ≠ 0 ∧ swapl swapped reply.bytesAfter = 0 ↔
      stuff.delete = 1 ∧ reply.bytesAfter = 0 := by
    have hdelete := h.delete
    rw [swapl_eq_zero hafter]
    omega
  rw [sendout, seen]
  dsimp only [elim_some]
  rw [swapl_swapl hafter]
  simp only [hgone]
  split <;> rfl

theorem readOutputProperty_seen (h : MayRead env stuff) :
    seen swapped (readOutputProperty env swapped output value stuff) =
      if stuff.type ≠ value.type ∧ stuff.type ≠ 0 then
        answered output stuff.property (stuff.delete = 1 ∧ value.size % 2 ^ 32 = 0) False []
          (value.size % 2 ^ 32)
      else
        let n := value.format / 8 * value.size
        let ind := (stuff.longOffset <<< 2).toNat
        let len := min (n - ind) (4 * stuff.longLength).toNat
        let bytesAfter := (n - (ind + len)) % 2 ^ 32
        if n < ind then ⟨.badValue, [], 0, output.properties, []⟩
        else answered output stuff.property (stuff.delete = 1 ∧ bytesAfter = 0)
          (stuff.delete = 1 ∧ bytesAfter = 0)
          (items swapped value.format ((value.data.drop ind).take len)) bytesAfter := by
  have hmod : ∀ n, n % 2 ^ 32 < 2 ^ 32 := fun n => mod_lt n (by decide)
  have hflag : stuff.delete ≠ 0 ↔ stuff.delete = 1 := by
    have hdelete := h.delete
    omega
  rw [readOutputProperty]
  split
  · rw [sendout_seen h (hmod _)]
    rfl
  · dsimp only
    split
    · rfl
    · rw [if_neg (by rw [h.memory]; exact fun hno => Bool.false_ne_true hno.2),
        sendout_seen h (hmod _)]
      simp only [hflag]
      rfl

theorem procRRGetOutputProperty_seen (h : MayRead env stuff) :
    seen swapped (procRRGetOutputProperty env swapped output stuff) =
      match queryOutputProperty output stuff.property with
      | none => answered output stuff.property False False [] 0
      | some prop =>
        if prop.immutable ∧ stuff.delete = 1 then ⟨.badAccess, [], 0, output.properties, []⟩
        else
          let r := getOutputProperty env.refresh output prop stuff.pending
          seen swapped (readOutputProperty env swapped r.1 r.2 stuff) := by
  have hdelete := h.delete
  have htype : ¬ (stuff.type ≠ 0 ∧ (!env.validAtom stuff.type) = true) := by
    rintro ⟨hne, hbad⟩
    rw [h.type.resolve_left hne] at hbad
    cases hbad
  have hflag : stuff.delete ≠ 0 ↔ stuff.delete = 1 := by omega
  rw [procRRGetOutputProperty, if_neg (not_not.mpr h.access), if_neg (by rw [h.property]; decide),
    if_neg (by omega), if_neg htype]
  cases queryOutputProperty output stuff.property with
  | none =>
    rw [seen]
    dsimp only [elim_some]
    rw [swapl_swapl (by decide)]
    rfl
  | some prop =>
    simp only [hflag]
    split <;> rfl

theorem getOutputProperty_listed {prop : Property} {refresh : PropertyValue → PropertyValue}
    {property : Nat} (pending : Bool) (h : queryOutputProperty output property = some prop) :
    (deleteOutputProperty (getOutputProperty refresh output prop pending).1 property).properties ≠
      (getOutputProperty refresh output prop pending).1.properties := by
  have hname := Keyed.key_of_lookup h
  have hlisted : ∃ p, Keyed.lookup Property.propertyName
      (getOutputProperty refresh output prop pending).1.properties property = some p := by
    rw [getOutputProperty]
    split
    · exact ⟨prop, h⟩
    · dsimp only
      have hkey : ∀ p : Property,
          Property.propertyName { p with current := refresh prop.current } = p.propertyName :=
        fun _ => rfl
      rw [Keyed.lookup_update hkey, if_pos hname.symm, hname,
        show Keyed.lookup Property.propertyName output.properties property = some prop from h]
      exact ⟨_, rfl⟩
  obtain ⟨p, hp⟩ := hlisted
  intro heq
  have hlength := (Keyed.perm_erase hp).length_eq
  rw [deleteOutputProperty] at heq
  dsimp only at heq
  rw [heq, length_cons] at hlength
  omega

theorem answered_eq {gone told gone' told' : Prop} [Decidable gone] [Decidable told]
    [Decidable gone'] [Decidable told'] {data data' : Bytes} {after after' property : Nat}
    (hne : (deleteOutputProperty output property).properties ≠ output.properties) :
    answered output property gone told data after =
        answered output property gone' told' data' after' ↔
      (gone ↔ gone') ∧ (told ↔ told') ∧ data = data' ∧ after = after' := by
  by_cases hg : gone <;> by_cases hg' : gone' <;> by_cases ht : told <;> by_cases ht' : told' <;>
    simp [answered, hg, hg', ht, ht', hne, hne.symm]

theorem offset_toNat (longOffset : BitVec 32) :
    (longOffset <<< 2).toNat = 4 * longOffset.toNat % 2 ^ 32 := by
  rw [BitVec.toNat_shiftLeft, shiftLeft_eq, mul_comm]

theorem length_toNat (longLength : BitVec 32) :
    (4 * longLength).toNat = 4 * longLength.toNat % 2 ^ 32 := by
  rw [BitVec.toNat_mul]
  rfl

theorem read_slice (h : MayRead env stuff)
    (hformed : Formed value.format value.size value.data.length)
    (hne : (deleteOutputProperty output stuff.property).properties ≠ output.properties)
    {asked : Seen}
    (hasked : asked = if stuff.type ≠ value.type ∧ stuff.type ≠ 0 then
        answered output stuff.property False False [] value.data.length
      else
        match slice value.data (4 * stuff.longOffset.toNat) (4 * stuff.longLength.toNat) with
        | none => ⟨.badValue, [], 0, output.properties, []⟩
        | some s => answered output stuff.property (stuff.delete = 1 ∧ s.after = 0)
            (stuff.delete = 1 ∧ s.after = 0) (items swapped value.format s.value) s.after) :
    (Whole stuff value → seen swapped (readOutputProperty env swapped output value stuff) = asked) ∧
      (value.data.length < 2 ^ 32 →
        seen swapped (readOutputProperty env swapped output value stuff) = asked →
          Whole stuff value) := by
  rw [readOutputProperty_seen h, Whole, hasked]
  by_cases hm : stuff.type ≠ value.type ∧ stuff.type ≠ 0
  · have hbytes := hformed.size_le
    rw [if_pos hm, if_pos hm, if_pos hm, answered_eq hne]
    constructor
    · rintro ⟨hsize, hlt, hdelete⟩
      have hgone : ¬ (stuff.delete = 1 ∧ value.size % 2 ^ 32 = 0) := fun hgone =>
        hdelete hgone.1 (by omega)
      exact ⟨iff_of_false hgone id, Iff.rfl, rfl, by omega⟩
    · rintro hlt ⟨hgone, -, -, hafter⟩
      exact ⟨by omega, hlt, fun hdelete hsize => hgone.mp ⟨hdelete, by omega⟩⟩
  · have hn : value.format / 8 * value.size = value.data.length := by
      rw [hformed.2, mul_comm]
    rw [if_neg hm, if_neg hm, if_neg hm, hn, offset_toNat, length_toNat]
    generalize hN : value.data.length = N at *
    generalize 4 * stuff.longOffset.toNat = o at *
    generalize 4 * stuff.longLength.toNat = l at *
    by_cases hin : o ≤ N
    · rw [slice_some (by omega), hN]
      dsimp only
      by_cases hcut : N < o % 2 ^ 32
      · -- Inside 4 GiB an offset is cut off only to a smaller one.
        exact absurd hcut (by have hle := mod_le o (2 ^ 32); omega)
      · rw [if_neg hcut, answered_eq hne]
        constructor
        · rintro (⟨hbehind, -⟩ | ⟨-, hshort, hroom, hcard⟩)
          · omega
          · rw [mod_eq_of_lt hshort, hroom, mod_eq_of_lt hcard]
            exact ⟨Iff.rfl, Iff.rfl, rfl, rfl⟩
        · rintro hlt ⟨-, -, -, hafter⟩
          have hshort : o % 2 ^ 32 = o := mod_eq_of_lt (by omega)
          rw [hshort] at hafter
          exact .inr ⟨hin, by omega, by omega, by omega⟩
    · rw [slice_none (by omega)]
      by_cases hcut : N < o % 2 ^ 32
      · rw [if_pos hcut]
        exact ⟨fun _ => rfl, fun _ _ => .inl ⟨by omega, hcut⟩⟩
      · rw [if_neg hcut]
        refine ⟨fun hwhole => ?_, fun _ heq => by cases congrArg Seen.rc heq⟩
        rcases hwhole with ⟨-, hbehind⟩ | ⟨hin', -⟩
        · exact absurd hbehind hcut
        · exact absurd hin' hin

theorem procRRGetOutputProperty_slice (env : Surroundings) (swapped : Bool) (output : Output)
    (stuff : GetReq)
    (hformed : ∀ prop ∈ queryOutputProperty output stuff.property,
      let value := (getOutputProperty env.refresh output prop stuff.pending).2
      Formed value.format value.size value.data.length)
    (h : MayRead env stuff) :
    (Sound env output stuff → seen swapped (procRRGetOutputProperty env swapped output stuff) =
        sliced env swapped output stuff) ∧
      ((∀ prop ∈ queryOutputProperty output stuff.property,
        (getOutputProperty env.refresh output prop stuff.pending).2.data.length < 2 ^ 32) →
        seen swapped (procRRGetOutputProperty env swapped output stuff) =
          sliced env swapped output stuff → Sound env output stuff) := by
  rw [procRRGetOutputProperty_seen h, sliced, Sound]
  cases hquery : queryOutputProperty output stuff.property with
  | none => exact ⟨fun _ => rfl, fun _ _ prop hprop => nomatch hprop⟩
  | some prop =>
    have hprop := hformed prop hquery
    have hne :=
      @getOutputProperty_listed output prop env.refresh stuff.property stuff.pending hquery
    obtain ⟨hif, honly⟩ := @read_slice env swapped _ stuff _ h hprop hne _ rfl
    dsimp only
    by_cases himmutable : prop.immutable ∧ stuff.delete = 1
    · rw [if_pos himmutable]
      refine ⟨fun hsound => absurd himmutable (hsound prop rfl).1, fun _ => ?_⟩
      split
      · exact fun heq => nomatch congrArg Seen.rc heq
      · split <;> exact fun heq => nomatch congrArg Seen.rc heq
    · rw [if_neg himmutable]
      refine ⟨fun hsound => hif (hsound prop rfl).2, fun hlong heq p hp => ?_⟩
      cases hp
      exact ⟨himmutable, honly (hlong prop rfl) heq⟩

def twoItems : Output :=
  ⟨[⟨1, false, false, false, [], ⟨1, 32, 2, [1, 2, 3, 4, 5, 6, 7, 8]⟩, ⟨0, 0, 0, []⟩⟩], false,
    false⟩

def quiet : Surroundings := ⟨.success, fun _ => true, id, true⟩

def twoItemsReq (longOffset : BitVec 32) : GetReq := ⟨1, 0, longOffset, 4, 1, false⟩

theorem procRRGetOutputProperty_twoItems :
    (seen true (procRRGetOutputProperty quiet true twoItems (twoItemsReq 1))).data = [8, 7, 6, 5] ∧
      seen true (procRRGetOutputProperty quiet true twoItems (twoItemsReq 1)) =
        sliced quiet true twoItems (twoItemsReq 1) :=
  ⟨by decide, (procRRGetOutputProperty_slice quiet true twoItems (twoItemsReq 1)
    (fun prop hprop => by cases hprop; exact ⟨.inr (.inr (.inl rfl)), rfl⟩)
    ⟨rfl, rfl, .inr rfl, .inl rfl, rfl⟩).1 fun prop hprop => by
      cases hprop
      exact ⟨by decide, .inr ⟨by decide, by decide, by decide, by decide⟩⟩⟩

theorem procRRGetOutputProperty_offset_cut :
    seen false (procRRGetOutputProperty quiet false twoItems (twoItemsReq 0x40000000)) =
        ⟨.success, [1, 2, 3, 4, 5, 6, 7, 8], 0, [], [1]⟩ ∧
      sliced quiet false twoItems (twoItemsReq 0x40000000) =
        ⟨.badValue, [], 0, twoItems.properties, []⟩ := by
  decide

end Xfront.Randr
