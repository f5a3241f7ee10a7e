import Xfront.Property.Model

/-!
# The slices `GetProperty` returns

A property of `N` bytes, an offset and a length in 32-bit units.
-/

namespace Xfront.Property
open Nat Option BitVec Prod

open List
open Bytes (Byte)

structure Slice where
  value : List Byte
  bytesAfter : Nat

def protocolSlice (data : List Byte) (longOffset longLength : Nat) : Option Slice :=
  if data.length < 4 * longOffset then none
  else
    let len := min (data.length - 4 * longOffset) (4 * longLength)
    some ⟨(data.drop (4 * longOffset)).take len, data.length - (4 * longOffset + len)⟩

def Obeys (properties : List PropertyRec) (prop : PropertyRec) (req : GetPropertyReq)
    (answer : Answer × List PropertyRec) : Prop :=
  match protocolSlice prop.data req.longOffset.toNat req.longLength.toNat with
  | none => answer = (.error badValue, properties)
  | some slice => ∃ r, answer.1 = .reply r ∧ r.format = prop.format ∧ r.propertyType = prop.type ∧
      r.value = slice.value ∧ r.bytesAfter.toNat = slice.bytesAfter ∧
      answer.2 = if req.delete = 1 ∧ slice.bytesAfter = 0 then
          removeProperty properties prop.propertyName
        else properties

/-- The property of the request is there and may be read, with a matching type or any. -/
structure Readable (env : Surroundings) (properties : List PropertyRec) (prop : PropertyRec)
    (req : GetPropertyReq) : Prop where
  stored : prop.Stored
  found : findProperty properties req.property = some prop
  validAtom : env.validAtom req.property = true
  delete : req.delete = 0 ∨ req.delete = 1
  type : req.type = anyPropertyType ∨ (env.validAtom req.type = true ∧ req.type = prop.type)
  window : env.lookupWindow = success
  hook : ∀ mode, env.hook prop mode = success
  rpcbuf : env.rpcbuf = true

/-- The multiples of four keep what the answer depends on: the offset stays past the end, or
stays where it is (for a property of 4 GiB and more, at a place with the same bytes) and the
length still reaches as far. -/
def Fits (data : List Byte) (longOffset longLength : CARD32) : Prop :=
  let o := 4 * longOffset.toNat
  let l := 4 * longLength.toNat
  (data.length < o ∧ data.length % 2 ^ 32 < o % 2 ^ 32) ∨
    (o ≤ data.length ∧ data.length / 2 ^ 32 = o / 2 ^ 32 ∧
      (l < 2 ^ 32 ∨ data.length - o ≤ l % 2 ^ 32) ∧
      (o < 2 ^ 32 ∨ (data.drop (o % 2 ^ 32)).take (min (data.length - o) l) =
        (data.drop o).take (min (data.length - o) l)))

variable {prop : PropertyRec}

theorem PropertyRec.Stored.size_toNat (h : prop.Stored) :
    ((BitVec.ofNat 32 (prop.format / 8) * prop.size).setWidth 64).toNat =
      prop.data.length % 2 ^ 32 := by
  have hformat : prop.format / 8 % 2 ^ 32 = prop.format / 8 := by
    have hmem := h.format_mem
    simp only [mem_cons, not_mem_nil, or_false] at hmem
    omega
  rw [toNat_setWidth, toNat_mul, toNat_ofNat, hformat, h.data_length, mul_comm prop.size.toNat]
  have hlt := mod_lt (prop.format / 8 * prop.size.toNat) (by norm_num : 0 < 2 ^ 32)
  omega

theorem offset_toNat (longOffset : CARD32) :
    ((longOffset <<< 2).setWidth 64).toNat = 4 * longOffset.toNat % 2 ^ 32 := by
  rw [BitVec.toNat_setWidth, BitVec.toNat_shiftLeft, Nat.shiftLeft_eq, Nat.mul_comm]
  have hlt := Nat.mod_lt (2 ^ 2 * longOffset.toNat) (by norm_num : 0 < 2 ^ 32)
  omega

theorem length_toNat (longLength : CARD32) :
    ((4#32 * longLength).setWidth 64).toNat = 4 * longLength.toNat % 2 ^ 32 := by
  have hfour : (4#32).toNat = 4 := rfl
  rw [toNat_setWidth, toNat_mul, hfour]
  have hlt := mod_lt (4 * longLength.toNat) (by norm_num : 0 < 2 ^ 32)
  omega

theorem selectSlice_eq (h : prop.Stored) (longOffset longLength : CARD32) :
    (selectSlice prop longOffset longLength).map (fun s => (s.1.toNat, s.2.1.toNat, s.2.2.toNat)) =
      if prop.data.length % 2 ^ 32 < 4 * longOffset.toNat % 2 ^ 32 then none
      else some (prop.data.length % 2 ^ 32, 4 * longOffset.toNat % 2 ^ 32,
        min (prop.data.length % 2 ^ 32 - 4 * longOffset.toNat % 2 ^ 32)
          (4 * longLength.toNat % 2 ^ 32)) := by
  have hn := h.size_toNat
  have hind := offset_toNat longOffset
  have hroom := length_toNat longLength
  rw [selectSlice]
  generalize (BitVec.ofNat 32 (prop.format / 8) * prop.size).setWidth 64 = n at hn ⊢
  generalize (longOffset <<< 2).setWidth 64 = ind at hind ⊢
  generalize (4#32 * longLength).setWidth 64 = room at hroom ⊢
  rw [← hn, ← hind, ← hroom]
  by_cases hlt : n < ind
  · rw [if_pos hlt, if_pos (lt_def.mp hlt)]
    rfl
  · have hle : ind.toNat ≤ n.toNat := BitVec.not_lt.mp hlt
    have hsub : (n - ind).toNat = n.toNat - ind.toNat := toNat_sub_of_le (le_def.mpr hle)
    have hlt' : ¬ n.toNat < ind.toNat := by omega
    rw [if_neg hlt, if_neg hlt', map_some, ← hsub]
    by_cases hmin : n - ind < room
    · have hmin' : (n - ind).toNat < room.toNat := hmin
      rw [if_pos hmin, min_eq_left (by omega)]
    · have hmin' : room.toNat ≤ (n - ind).toNat := BitVec.not_lt.mp hmin
      rw [if_neg hmin, min_eq_right hmin']

theorem units_whole (h : prop.Stored) (o l : Nat) :
    min (prop.data.length % 2 ^ 32 - 4 * o % 2 ^ 32) (4 * l % 2 ^ 32) / (prop.format / 8) *
      (prop.format / 8) = min (prop.data.length % 2 ^ 32 - 4 * o % 2 ^ 32) (4 * l % 2 ^ 32) := by
  have hmem := h.format_mem
  have hlen := h.data_length
  simp only [mem_cons, not_mem_nil, or_false] at hmem
  rcases hmem with hf | hf | hf
  · rw [hf]
    omega
  · rw [hf] at hlen ⊢
    omega
  · rw [hf] at hlen ⊢
    omega

variable {env : Surroundings} {properties : List PropertyRec} {req : GetPropertyReq}

theorem procGetProperty_eq (h : Readable env properties prop req) :
    procGetProperty env properties req = match selectSlice prop req.longOffset req.longLength with
      | none => (.error badValue, properties)
      | some (n, ind, len) =>
        (.reply ⟨prop.format, prop.type, (n - (ind + len)).setWidth 32,
            BitVec.ofNat 32 (len.toNat / (prop.format / 8)),
            (prop.data.drop ind.toNat).take (len.toNat / (prop.format / 8) * (prop.format / 8))⟩,
          if req.delete = 1 ∧ (n - (ind + len)).setWidth 32 = (0 : CARD32) then
            removeProperty properties req.property
          else properties) := by
  have hdelete : ¬ (req.delete ≠ 0 ∧ req.delete ≠ 1) := by
    rcases h.delete with hd | hd <;> omega
  have htype : ¬ (req.type ≠ anyPropertyType ∧ (!env.validAtom req.type) = true) := by
    rintro ⟨hne, hinvalid⟩
    rcases h.type with ht | ⟨hvalid, -⟩
    · exact hne ht
    · rw [hvalid] at hinvalid
      cases hinvalid
  have hmatch : ¬ (req.type ≠ prop.type ∧ req.type ≠ anyPropertyType) := by
    rintro ⟨hne, hany⟩
    rcases h.type with ht | ⟨-, ht⟩
    · exact hany ht
    · exact hne ht
  rw [procGetProperty, h.validAtom, h.window, if_neg (by decide), if_neg hdelete, if_neg htype,
    if_neg (by simp)]
  simp only [dixLookupProperty, h.found, h.hook, h.rpcbuf, Bool.not_true, Bool.false_eq_true,
    and_false, if_false]
  rw [if_neg (by decide), if_neg (by simp)]
  exact if_neg hmatch

theorem answer_cases (h : Readable env properties prop req) {n i r : Nat}
    (hn : n = prop.data.length % 2 ^ 32) (hi : i = 4 * req.longOffset.toNat % 2 ^ 32)
    (hr : r = 4 * req.longLength.toNat % 2 ^ 32) :
    (n < i ∧ procGetProperty env properties req = (.error badValue, properties)) ∨
    (i ≤ n ∧ ∃ reply, (procGetProperty env properties req).1 = .reply reply ∧
      reply.format = prop.format ∧ reply.propertyType = prop.type ∧
      reply.value = (prop.data.drop i).take (min (n - i) r) ∧
      reply.bytesAfter.toNat = n - (i + min (n - i) r) ∧ (procGetProperty env properties req).2 =
        if req.delete = 1 ∧ reply.bytesAfter.toNat = 0 then
          removeProperty properties prop.propertyName else properties) := by
  have hname : req.property = prop.propertyName := by
    have hsome := find?_some h.found
    simpa [eq_comm] using hsome
  have hanswer := procGetProperty_eq h
  have hslice := selectSlice_eq h.stored req.longOffset req.longLength
  rw [← hn, ← hi, ← hr] at hslice
  cases hs : selectSlice prop req.longOffset req.longLength with
  | none =>
    rw [hs] at hslice hanswer
    refine .inl ⟨?_, hanswer⟩
    by_contra hle
    rw [if_neg hle] at hslice
    cases hslice
  | some slice =>
    obtain ⟨n', ind, len⟩ := slice
    rw [hs] at hslice hanswer
    by_cases hlt : n < i
    · rw [if_pos hlt] at hslice
      cases hslice
    · rw [if_neg hlt] at hslice
      simp only [map_some, some.injEq, mk.injEq] at hslice
      obtain ⟨hn', hi', hl'⟩ := hslice
      have hunits := units_whole h.stored req.longOffset.toNat req.longLength.toNat
      rw [← hn, ← hi, ← hr] at hunits
      have hsum : (ind + len).toNat = i + min (n - i) r := by
        rw [toNat_add, hi', hl']
        omega
      have hafter : ((n' - (ind + len)).setWidth 32).toNat = n - (i + min (n - i) r) := by
        rw [toNat_setWidth, toNat_sub_of_le (by rw [le_def]; omega), hn', hsum]
        omega
      have hzero : ((n' - (ind + len)).setWidth 32 = (0 : CARD32)) ↔
          ((n' - (ind + len)).setWidth 32 : CARD32).toNat = 0 := by
        rw [← toNat_inj]
        rfl
      refine .inr ⟨by omega, _, congrArg fst hanswer, rfl, rfl, ?_, hafter, ?_⟩
      · simp only
        rw [hl', hunits, hi']
      · rw [hanswer]
        simp only [hzero, hname]

theorem slice_iff {data : List Byte} {longOffset longLength : CARD32} {n i r : Nat}
    (hn : n = data.length % 2 ^ 32) (hi : i = 4 * longOffset.toNat % 2 ^ 32)
    (hr : r = 4 * longLength.toNat % 2 ^ 32) (hle : i ≤ n)
    (hin : 4 * longOffset.toNat ≤ data.length) :
    ((data.drop i).take (min (n - i) r) = (data.drop (4 * longOffset.toNat)).take
        (min (data.length - 4 * longOffset.toNat) (4 * longLength.toNat)) ∧
      n - (i + min (n - i) r) = data.length - (4 * longOffset.toNat +
        min (data.length - 4 * longOffset.toNat) (4 * longLength.toNat))) ↔
      Fits data longOffset longLength := by
  rw [Fits]
  rw [← hn, ← hi, ← hr]
  generalize 4 * longOffset.toNat = o at *
  generalize 4 * longLength.toNat = l at *
  constructor
  · rintro ⟨hvalue, hafter⟩
    have hlen : min (n - i) r = min (data.length - o) l := by
      have hlengths := congrArg length hvalue
      rw [length_take, length_take, length_drop, length_drop] at hlengths
      omega
    have hrest : n - i = data.length - o := by omega
    refine .inr ⟨hin, by omega, by omega, ?_⟩
    rw [hlen] at hvalue
    exact .inr hvalue
  · rintro (⟨hout, -⟩ | ⟨-, hhigh, hlength, hplace⟩)
    · omega
    · have hrest : n - i = data.length - o := by omega
      have hlen : min (n - i) r = min (data.length - o) l := by omega
      refine ⟨?_, by omega⟩
      rw [hlen]
      rcases hplace with hlow | hplace
      · have hio : i = o := by omega
        rw [hio]
      · exact hplace

theorem obeys_iff (h : Readable env properties prop req) :
    Obeys properties prop req (procGetProperty env properties req) ↔
      Fits prop.data req.longOffset req.longLength := by
  rw [Obeys, protocolSlice]
  rcases answer_cases h rfl rfl rfl with ⟨hlt, herror⟩ | ⟨hle, reply, hreply, hformat, htype, hvalue,
    hafter, hleft⟩
  · by_cases hout : prop.data.length < 4 * req.longOffset.toNat
    · rw [if_pos hout]
      exact ⟨fun _ => .inl ⟨hout, hlt⟩, fun _ => herror⟩
    · rw [if_neg hout]
      constructor
      · rintro ⟨r, hr, -⟩
        rw [herror] at hr
        cases hr
      · rintro (⟨hout', -⟩ | ⟨hin, hhigh, -⟩)
        · exact absurd hout' hout
        · omega
  · by_cases hout : prop.data.length < 4 * req.longOffset.toNat
    · rw [if_pos hout]
      constructor
      · intro herror
        rw [herror] at hreply
        cases hreply
      · rintro (⟨-, hlt⟩ | ⟨hin, -⟩) <;> omega
    · rw [if_neg hout, ← slice_iff rfl rfl rfl hle (by omega)]
      constructor
      · rintro ⟨r, hr, -, -, hv, ha, -⟩
        rw [hreply] at hr
        cases hr
        exact ⟨hvalue.symm.trans hv, hafter.symm.trans ha⟩
      · rintro ⟨hv, ha⟩
        refine ⟨reply, hreply, hformat, htype, hvalue.trans hv, hafter.trans ha, ?_⟩
        rw [hleft, hafter, ha]

def Answer.value : Answer → List Byte
  | .error _ => []
  | .reply r => r.value

/-- Reads of `longLength` units each, one after the other from the start of the property, as
long as they start inside it. -/
def readPieces (env : Surroundings) (properties : List PropertyRec) (req : GetPropertyReq)
    (reads : Nat) : List Byte :=
  (range reads).flatMap fun k => Answer.value (procGetProperty env properties
    { req with
      longOffset := BitVec.ofNat 32 (k * req.longLength.toNat)
      delete := 0 }).1

theorem take_pieces (data : List Byte) (c m : Nat) :
    ((List.range m).flatMap fun k => (data.drop (c * k)).take c) = data.take (c * m) := by
  induction m with
  | zero => simp
  | succ m ih =>
    rw [range_succ, flatMap_append, ih, Nat.mul_succ, take_add]
    simp

theorem piece_value (h : Readable env properties prop req) (hsize : prop.data.length < 2 ^ 32)
    (hlength : 4 * req.longLength.toNat < 2 ^ 32 ∨
      prop.data.length ≤ 4 * req.longLength.toNat % 2 ^ 32)
    {k : Nat} (hk : 4 * req.longLength.toNat * k ≤ prop.data.length) :
    Answer.value (procGetProperty env properties
      { req with
        longOffset := BitVec.ofNat 32 (k * req.longLength.toNat)
        delete := 0 }).1 =
      (prop.data.drop (4 * req.longLength.toNat * k)).take (4 * req.longLength.toNat) := by
  have hread : Readable env properties prop
      { req with
        longOffset := BitVec.ofNat 32 (k * req.longLength.toNat)
        delete := 0 } :=
    ⟨h.stored, h.found, h.validAtom, .inl rfl, h.type, h.window, h.hook, h.rpcbuf⟩
  have hfour : 4 * (k * req.longLength.toNat) = 4 * req.longLength.toNat * k := by
    rw [mul_comm k, mul_assoc]
  have hoff : 4 * (BitVec.ofNat 32 (k * req.longLength.toNat)).toNat =
      4 * req.longLength.toNat * k := by
    rw [toNat_ofNat]
    omega
  have hfits : Fits prop.data (BitVec.ofNat 32 (k * req.longLength.toNat)) req.longLength := by
    rw [Fits]
    rw [hoff]
    exact .inr ⟨hk, by omega, by omega, .inl (by omega)⟩
  have hobeys := (obeys_iff hread).mpr hfits
  rw [Obeys, protocolSlice] at hobeys
  simp only at hobeys
  rw [hoff, if_neg (by omega)] at hobeys
  obtain ⟨r, hr, -, -, hvalue, -⟩ := hobeys
  rw [hr, Answer.value, hvalue, take_eq_take_iff, length_drop]
  omega

theorem readPieces_eq (h : Readable env properties prop req)
    (hpos : 0 < req.longLength.toNat) (hsize : prop.data.length < 2 ^ 32)
    (hlength : 4 * req.longLength.toNat < 2 ^ 32 ∨
      prop.data.length ≤ 4 * req.longLength.toNat % 2 ^ 32) :
    readPieces env properties req (prop.data.length / (4 * req.longLength.toNat) + 1) =
      prop.data := by
  have hpieces : ∀ k ∈ range (prop.data.length / (4 * req.longLength.toNat) + 1),
      4 * req.longLength.toNat * k ≤ prop.data.length := by
    intro k hk
    have hk' : k ≤ prop.data.length / (4 * req.longLength.toNat) :=
      Nat.lt_succ_iff.mp (mem_range.mp hk)
    exact (Nat.mul_le_mul_left _ hk').trans (mul_div_le _ _)
  have hall : prop.data.length ≤
      4 * req.longLength.toNat * (prop.data.length / (4 * req.longLength.toNat) + 1) :=
    (lt_mul_div_succ _ (by omega)).le
  calc readPieces env properties req (prop.data.length / (4 * req.longLength.toNat) + 1)
      = (range (prop.data.length / (4 * req.longLength.toNat) + 1)).flatMap fun k =>
          (prop.data.drop (4 * req.longLength.toNat * k)).take (4 * req.longLength.toNat) := by
        rw [readPieces]
        exact flatMap_congr fun k hk => piece_value h hsize hlength (hpieces k hk)
    _ = prop.data.take (4 * req.longLength.toNat *
          (prop.data.length / (4 * req.longLength.toNat) + 1)) := take_pieces _ _ _
    _ = prop.data := take_of_length_le hall

/-- A request for a property is answered with the protocol's slice exactly when the multiples of
four keep what matters; a property below 4 GiB is read piece by piece with any length of which
the multiple is kept, or still covers the property. -/
theorem procGetProperty_slices {env : Surroundings} {properties : List PropertyRec}
    {prop : PropertyRec} {req : GetPropertyReq} (h : Readable env properties prop req) :
    (Obeys properties prop req (procGetProperty env properties req) ↔
      Fits prop.data req.longOffset req.longLength) ∧
    (0 < req.longLength.toNat → prop.data.length < 2 ^ 32 → (4 * req.longLength.toNat < 2 ^ 32 ∨
        prop.data.length ≤ 4 * req.longLength.toNat % 2 ^ 32) →
      readPieces env properties req (prop.data.length / (4 * req.longLength.toNat) + 1) =
        prop.data) :=
  ⟨obeys_iff h, readPieces_eq h⟩

def allAllowed : Surroundings where
  validAtom := fun _ => true
  lookupWindow := success
  hook := fun _ _ => success
  rpcbuf := true

def twoUnits : PropertyRec := ⟨39, 31, 32, 2, [1, 2, 3, 4, 5, 6, 7, 8]⟩

theorem procGetProperty_slices_two : Obeys [twoUnits] twoUnits ⟨39, 31, 1, 1, 1⟩
      (procGetProperty allAllowed [twoUnits] ⟨39, 31, 1, 1, 1⟩) ∧
    readPieces allAllowed [twoUnits] ⟨39, 31, 1, 1, 1⟩ 3 = twoUnits.data := by
  have h : Readable allAllowed [twoUnits] twoUnits ⟨39, 31, 1, 1, 1⟩ :=
    ⟨⟨by decide, rfl⟩, rfl, rfl, .inr rfl, .inr ⟨rfl, rfl⟩, rfl, fun _ => rfl, rfl⟩
  have hslices := procGetProperty_slices h
  exact ⟨hslices.1.mpr (.inr ⟨by decide, by decide, .inl (by decide), .inl (by decide)⟩),
    hslices.2 (by decide) (by decide) (.inl (by decide))⟩

/-- An offset of `2 ^ 30` units is past the end of every property below 4 GiB; the property is
returned from its start. -/
theorem offset_wraps : ¬ Obeys [twoUnits] twoUnits ⟨39, 31, 0, 0x40000000, 2⟩
    (procGetProperty allAllowed [twoUnits] ⟨39, 31, 0, 0x40000000, 2⟩) := by
  intro h
  have herror : procGetProperty allAllowed [twoUnits] ⟨39, 31, 0, 0x40000000, 2⟩ =
      (.error badValue, [twoUnits]) := h
  exact absurd (congrArg (fun a => a.1.value) herror) (by decide)

end Xfront.Property
