import Xfront.Property.Slices

/-!
# Changing a property

A change either is done as a whole or leaves the property list as it was.
-/

namespace Xfront.Property
open Nat

open List
open Bytes (Byte)

def PropertyRec.changed (old : PropertyRec) (type format : Nat) (mode : Mode) (len : Nat)
    (value : List Byte) : PropertyRec :=
  match mode with
  | .replace =>
    { old with
      type := type
      format := format
      size := BitVec.ofNat 32 len
      data := value }
  | .append =>
    { old with
      size := old.size + BitVec.ofNat 32 len
      data := old.data ++ value }
  | .prepend =>
    { old with
      size := old.size + BitVec.ofNat 32 len
      data := value ++ old.data }

/-- The first property with a name has been changed, all others are as they were. -/
def InPlace (properties : List PropertyRec) (property : Nat) (f : PropertyRec → PropertyRec)
    (list : List PropertyRec) : Prop :=
  ∃ before old after, properties = before ++ old :: after ∧ old.propertyName = property ∧
    (∀ prop ∈ before, prop.propertyName ≠ property) ∧ list = before ++ f old :: after

/-- An error changes nothing; a success changes the property in place, or creates it where
`absent` says so. What is left are stored properties. -/
structure Atomic (absent : Prop) (properties : List PropertyRec) (property type format : Nat)
    (mode : Mode) (len : Nat) (value : List Byte) (rc : Nat) (list : List PropertyRec) : Prop where
  unchanged : rc ≠ success → list = properties
  done : rc = success →
    (absent ∧ list = ⟨property, type, format, BitVec.ofNat 32 len, value⟩ :: properties) ∨
      InPlace properties property (·.changed type format mode len value) list
  stored : ∀ prop ∈ list, prop.Stored

def lookupAnswer (o : Outcomes) (properties : List PropertyRec) (property : Nat) (mode : Mode) :
    Nat :=
  (dixLookupProperty properties property { write := mode = .replace, blend := mode ≠ .replace }
    o.hook).1

theorem totalSize_eq {len k : Nat} (h : len * k < 2 ^ 31) : totalSize len k = (len * k : Nat) := by
  have hnat : (BitVec.ofNat 32 (len * k)).toNat = len * k := by
    rw [BitVec.toNat_ofNat, mod_eq_of_lt (by omega)]
  rw [totalSize, BitVec.toInt_eq_toNat_of_lt (by omega), hnat]

theorem callocData_some {ok : Bool} {n : Nat} {data : List Byte}
    (h : callocData ok n = some data) : data = replicate n 0 := by
  unfold callocData at h
  split at h
  · cases h
  · split at h
    · cases h
    · simpa using h.symm

theorem memcpy_all (value : List Byte) :
    memcpy (replicate value.length 0) 0 value value.length = some value := by
  simp [memcpy]

theorem memcpy_parts (a b : List Byte) :
    ((memcpy (replicate (a.length + b.length) 0) 0 a a.length).bind fun data =>
      memcpy data a.length b b.length) = some (a ++ b) := by
  have ha : ¬ (a.length : Int) < 0 := by omega
  have hb : ¬ (b.length : Int) < 0 := by omega
  simp [memcpy, ha, hb]

theorem memcpy_parts_back (a b : List Byte) :
    ((memcpy (replicate (a.length + b.length) 0) a.length b b.length).bind fun data =>
      memcpy data 0 a a.length) = some (a ++ b) := by
  have ha : ¬ (a.length : Int) < 0 := by omega
  have hb : ¬ (b.length : Int) < 0 := by omega
  simp [memcpy, ha, hb]

/-- The arguments of a change describe a value of the right length, and no size that the code
computes in 32 bits is too large for them. -/
structure Sized (properties : List PropertyRec) (property format : Nat) (mode : Mode) (len : Nat)
    (value : List Byte) : Prop where
  format_mem : format ∈ [8, 16, 32]
  value_length : value.length = len * (format / 8)
  total_lt : len * (format / 8) < 2 ^ 31
  grown_lt : ∀ prop, findProperty properties property = some prop → mode ≠ .replace →
    prop.size.toNat * (prop.format / 8) < 2 ^ 32 ∧ prop.size.toNat + len < 2 ^ 32

theorem unit_pos {format : Nat} (h : format ∈ [8, 16, 32]) : 0 < format / 8 := by
  have hcases : format = 8 ∨ format = 16 ∨ format = 32 := by simpa using h
  omega

theorem Sized.len_lt {properties : List PropertyRec} {property format len : Nat} {mode : Mode}
    {value : List Byte} (h : Sized properties property format mode len value) : len < 2 ^ 31 :=
  lt_of_le_of_lt (Nat.le_mul_of_pos_right len (unit_pos h.format_mem)) h.total_lt

variable {prop : PropertyRec}

theorem oldSize_eq (h : prop.Stored) (hlt : prop.size.toNat * (prop.format / 8) < 2 ^ 32) :
    (prop.size * BitVec.ofNat 32 (prop.format / 8)).toNat = prop.data.length := by
  have hmem : prop.format = 8 ∨ prop.format = 16 ∨ prop.format = 32 := by simpa using h.format_mem
  have hunit : prop.format / 8 < 2 ^ 32 := by omega
  rw [BitVec.toNat_mul, BitVec.toNat_ofNat, mod_eq_of_lt hunit, mod_eq_of_lt hlt, h.data_length]

section

variable {properties : List PropertyRec} {property type format len : Nat} {mode : Mode}
  {value : List Byte} {prop : PropertyRec}

theorem newContents_replace (hsized : Sized properties property format .replace len value)
    (allocated : Bool) :
    newContents prop type format .replace len value allocated = some (.error badAlloc) ∨
      newContents prop type format .replace len value allocated =
        some (.ok (prop.changed type format .replace len value)) := by
  have htotal := totalSize_eq hsized.total_lt
  rw [← hsized.value_length] at htotal
  simp only [newContents, htotal]
  cases hcalloc : callocData allocated value.length with
  | none => exact .inl rfl
  | some data =>
    right
    have hdata := callocData_some hcalloc
    by_cases hzero : (value.length : Int) = 0
    · have hnil : value = [] := eq_nil_of_length_eq_zero (by omega)
      simp only [hdata, hnil]
      rfl
    · simp only [if_neg hzero, hdata, memcpy_all]
      rfl

theorem newContents_append (hstored : prop.Stored)
    (hsized : Sized properties property prop.format .append len value)
    (hfound : findProperty properties property = some prop) (allocated : Bool) :
    newContents prop prop.type prop.format .append len value allocated = some (.error badAlloc) ∨
      newContents prop prop.type prop.format .append len value allocated =
        some (.ok (prop.changed prop.type prop.format .append len value)) := by
  have htotal := totalSize_eq hsized.total_lt
  rw [← hsized.value_length] at htotal
  have hold := oldSize_eq hstored (hsized.grown_lt prop hfound (by decide)).1
  have hroom : (prop.size.toNat + len) * (prop.format / 8) = prop.data.length + value.length := by
    rw [add_mul, hstored.data_length, hsized.value_length]
  simp only [newContents, htotal, hold, hroom, memcpy_parts]
  split
  case isTrue hzero =>
    right
    have hnil : value = [] := eq_nil_of_length_eq_zero (by simp [hsized.value_length, hzero])
    simp [PropertyRec.changed, hzero, hnil]
  case isFalse =>
    split
    · exact .inl rfl
    · exact .inr rfl

theorem newContents_prepend (hstored : prop.Stored)
    (hsized : Sized properties property prop.format .prepend len value)
    (hfound : findProperty properties property = some prop) (allocated : Bool) :
    newContents prop prop.type prop.format .prepend len value allocated = some (.error badAlloc) ∨
      newContents prop prop.type prop.format .prepend len value allocated =
        some (.ok (prop.changed prop.type prop.format .prepend len value)) := by
  have htotal := totalSize_eq hsized.total_lt
  rw [← hsized.value_length] at htotal
  have hold := oldSize_eq hstored (hsized.grown_lt prop hfound (by decide)).1
  have hroom : (len + prop.size.toNat) * (prop.format / 8) = value.length + prop.data.length := by
    rw [add_mul, hstored.data_length, hsized.value_length]
  have hnonneg : ¬ (value.length : Int) < 0 := by omega
  simp only [newContents, htotal, hold, hroom, if_neg hnonneg, Int.toNat_natCast, memcpy_parts_back]
  split
  case isTrue hzero =>
    right
    have hnil : value = [] := eq_nil_of_length_eq_zero (by simp [hsized.value_length, hzero])
    simp [PropertyRec.changed, hzero, hnil]
  case isFalse =>
    split
    · exact .inl rfl
    · exact .inr rfl

theorem newContents_eq (hstored : prop.Stored)
    (hsized : Sized properties property format mode len value)
    (hfound : findProperty properties property = some prop)
    (hsame : mode ≠ .replace → format = prop.format ∧ type = prop.type) (allocated : Bool) :
    newContents prop type format mode len value allocated = some (.error badAlloc) ∨
      newContents prop type format mode len value allocated =
        some (.ok (prop.changed type format mode len value)) := by
  cases mode with
  | replace => exact newContents_replace hsized allocated
  | append =>
    obtain ⟨rfl, rfl⟩ := hsame (by decide)
    exact newContents_append hstored hsized hfound allocated
  | prepend =>
    obtain ⟨rfl, rfl⟩ := hsame (by decide)
    exact newContents_prepend hstored hsized hfound allocated

theorem created_stored (hsized : Sized properties property format mode len value) :
    (PropertyRec.mk property type format (BitVec.ofNat 32 len) value).Stored where
  format_mem := hsized.format_mem
  data_length := by
    have hlen := hsized.len_lt
    rw [BitVec.toNat_ofNat, mod_eq_of_lt (by omega)]
    exact hsized.value_length

theorem changed_stored (hstored : prop.Stored)
    (hsized : Sized properties property format mode len value)
    (hfound : findProperty properties property = some prop)
    (hsame : mode ≠ .replace → format = prop.format ∧ type = prop.type) :
    (prop.changed type format mode len value).Stored := by
  have hgrown (hmode : mode ≠ .replace) :
      (prop.size + BitVec.ofNat 32 len).toNat * (prop.format / 8) =
        prop.data.length + value.length := by
    have hlen := hsized.len_lt
    have hlt := (hsized.grown_lt prop hfound hmode).2
    rw [BitVec.toNat_add, BitVec.toNat_ofNat, mod_eq_of_lt (a := len) (by omega),
      mod_eq_of_lt hlt, add_mul, hstored.data_length, hsized.value_length,
      (hsame hmode).1]
  cases mode with
  | replace =>
    have hcreated : (PropertyRec.mk property type format (BitVec.ofNat 32 len) value).Stored :=
      created_stored hsized
    exact ⟨hsized.format_mem, hcreated.data_length⟩
  | append =>
    refine ⟨hstored.format_mem, ?_⟩
    have h := hgrown (by decide)
    simp only [PropertyRec.changed, length_append, h]
  | prepend =>
    refine ⟨hstored.format_mem, ?_⟩
    have h := hgrown (by decide)
    simp only [PropertyRec.changed, length_append, h]
    omega

end

theorem findProperty_split {properties : List PropertyRec} {property : Nat}
    (h : findProperty properties property = some prop) :
    ∃ before after, properties = before ++ prop :: after ∧ prop.propertyName = property ∧
      ∀ other ∈ before, other.propertyName ≠ property := by
  obtain ⟨hname, before, after, hsplit, hbefore⟩ := find?_eq_some_iff_append.mp h
  exact ⟨before, after, hsplit, by simpa using hname, fun other hother => by
    simpa using hbefore other hother⟩

theorem updateProperty_append {before after : List PropertyRec} {name : Nat}
    (hname : prop.propertyName = name) (hbefore : ∀ other ∈ before, other.propertyName ≠ name)
    (f : PropertyRec → PropertyRec) :
    updateProperty name f (before ++ prop :: after) = before ++ f prop :: after := by
  induction before with
  | nil => simp [updateProperty, hname]
  | cons other before ih =>
    have hother := hbefore other (by simp)
    have hrest := ih fun x hx => hbefore x (by simp [hx])
    simp [updateProperty, hother, hrest]

theorem changed_propertyName (prop : PropertyRec) (type format : Nat) (mode : Mode) (len : Nat)
    (value : List Byte) :
    (prop.changed type format mode len value).propertyName = prop.propertyName := by
  cases mode <;> rfl

section

variable {o : Outcomes} {properties : List PropertyRec} {property type format len : Nat}
  {mode : Mode} {value : List Byte} {absent : Prop}

section
variable (hstored : ∀ prop ∈ properties, prop.Stored)
include hstored

theorem atomic_refused {rc : Nat}
    (hrc : rc ≠ success) :
    Atomic absent properties property type format mode len value rc properties :=
  ⟨fun _ => rfl, fun h => absurd h hrc, hstored⟩

theorem createProperty_atomic
    (hsized : Sized properties property format mode len value) (habsent : absent) :
    ∃ rc list, createProperty o properties property type format len value = some (rc, list) ∧
      Atomic absent properties property type format mode len value rc list := by
  have hrefused : Atomic absent properties property type format mode len value badAlloc
      properties := atomic_refused hstored (by decide)
  have htotal := totalSize_eq hsized.total_lt
  rw [← hsized.value_length] at htotal
  unfold createProperty
  simp only [htotal]
  split
  · exact ⟨_, _, rfl, hrefused⟩
  split
  · exact ⟨_, _, rfl, hrefused⟩
  cases hcalloc : callocData o.data value.length with
  | none => exact ⟨_, _, rfl, hrefused⟩
  | some data =>
    have hcopied : (if (value.length : Int) = 0 then some data
        else memcpy data 0 value value.length) = some value := by
      rw [callocData_some hcalloc]
      split
      case isTrue hzero =>
        have hnil : value = [] := eq_nil_of_length_eq_zero (by omega)
        simp [hnil]
      case isFalse => exact memcpy_all value
    simp only [hcopied, Option.map_some]
    split
    case isTrue hdenied => exact ⟨_, _, rfl, atomic_refused hstored hdenied⟩
    case isFalse =>
      refine ⟨_, _, rfl, fun h => absurd rfl h, fun _ => .inl ⟨habsent, rfl⟩, ?_⟩
      intro prop hprop
      rcases mem_cons.mp hprop with rfl | hprop
      · exact created_stored hsized
      · exact hstored prop hprop

theorem changeExisting_atomic {prop : PropertyRec}
    (hsized : Sized properties property format mode len value)
    (hfound : findProperty properties property = some prop) :
    ∃ rc list, changeExisting o properties prop type format mode len value = some (rc, list) ∧
      Atomic absent properties property type format mode len value rc list := by
  have hrefused {rc : Nat} (hrc : rc ≠ success) :
      Atomic absent properties property type format mode len value rc properties :=
    atomic_refused hstored hrc
  unfold changeExisting
  split
  · exact ⟨_, _, rfl, hrefused (by decide)⟩
  split
  · exact ⟨_, _, rfl, hrefused (by decide)⟩
  rename_i hformat htype
  have hsame (hmode : mode ≠ .replace) : format = prop.format ∧ type = prop.type := by
    simp only [hmode, ne_eq, not_false_eq_true, and_true, Decidable.not_not] at hformat htype
    exact ⟨hformat, htype.symm⟩
  obtain ⟨before, after, rfl, hname, hbefore⟩ := findProperty_split hfound
  have hprop : prop.Stored := hstored prop (by simp)
  rcases newContents_eq hprop hsized hfound hsame o.data with hcontents | hcontents
  · simp only [hcontents]
    exact ⟨_, _, rfl, hrefused (by decide)⟩
  have hupdated : updateProperty prop.propertyName
      (fun _ => prop.changed type format mode len value) (before ++ prop :: after) =
      before ++ prop.changed type format mode len value :: after := by
    rw [hname]
    exact updateProperty_append hname hbefore _
  simp only [hcontents, hupdated]
  split
  case isTrue =>
    refine ⟨_, _, rfl, fun h => absurd rfl h, fun _ => .inr ⟨before, prop, after, rfl, hname,
      hbefore, rfl⟩, ?_⟩
    intro other hother
    rcases mem_append.mp hother with hother | hother
    · exact hstored other (by simp [hother])
    · rcases mem_cons.mp hother with rfl | hother
      · exact changed_stored hprop hsized hfound hsame
      · exact hstored other (by simp [hother])
  case isFalse hdenied =>
    -- the saved record takes the place of the changed one
    have hrestored : updateProperty property (fun _ => prop)
        (before ++ prop.changed type format mode len value :: after) =
        before ++ prop :: after :=
      updateProperty_append ((changed_propertyName ..).trans hname) hbefore _
    rw [hname, hrestored]
    exact ⟨_, _, rfl, hrefused hdenied⟩

end

end

/-- What a change does, whatever the hook and the allocations answer. The hook may say that the
property it is asked about does not count, and a new one is then created. -/
theorem dixChangeWindowProperty_atomic {properties : List PropertyRec}
    {property format len : Nat} {mode : Mode} {value : List Byte}
    (hstored : ∀ prop ∈ properties, prop.Stored)
    (hsized : Sized properties property format mode len value) (o : Outcomes) (type : Nat) :
    (∃ rc list, dixChangeWindowProperty o properties property type format mode len value =
        some (rc, list) ∧
      Atomic (lookupAnswer o properties property mode = badMatch) properties property type format
        mode len value rc list) ∧ ∀ prop, findProperty properties property = some prop →
      lookupAnswer o properties property mode = success → mode ≠ .replace →
      (format ≠ prop.format ∨ type ≠ prop.type) →
      dixChangeWindowProperty o properties property type format mode len value =
        some (badMatch, properties) := by
  constructor
  · unfold dixChangeWindowProperty lookupAnswer dixLookupProperty
    cases hfound : findProperty properties property with
    | none => exact createProperty_atomic hstored hsized rfl
    | some prop =>
      simp only
      split
      case isTrue habsent => exact createProperty_atomic hstored hsized habsent
      case isFalse =>
        split
        case isTrue => exact changeExisting_atomic hstored hsized hfound
        case isFalse hdenied => exact ⟨_, _, rfl, atomic_refused hstored hdenied⟩
  · intro prop hfound hanswer hmode hdiffers
    simp only [lookupAnswer, dixLookupProperty, hfound] at hanswer
    have hnotMatch : success ≠ badMatch := by decide
    simp only [dixChangeWindowProperty, dixLookupProperty, hfound, hanswer, if_neg hnotMatch,
      if_true, changeExisting]
    rcases hdiffers with hformat | htype
    · rw [if_pos ⟨hformat, hmode⟩]
    · split
      · rfl
      · rw [if_pos ⟨htype.symm, hmode⟩]

def allGranted : Outcomes where
  hook := fun _ _ => success
  makeOptional := true
  property := true
  data := true

def hidden : Outcomes where
  hook := fun _ mode => if mode.create then success else badMatch
  makeOptional := true
  property := true
  data := true

theorem twoUnits_stored : ∀ prop ∈ [twoUnits], prop.Stored := by
  intro prop hprop
  obtain rfl : prop = twoUnits := by simpa using hprop
  exact ⟨by decide, rfl⟩

theorem twoUnits_sized (mode : Mode) : Sized [twoUnits] 39 32 mode 1 [9, 9, 9, 9] where
  format_mem := by decide
  value_length := rfl
  total_lt := by decide
  grown_lt := by
    intro prop hfound _
    obtain rfl : twoUnits = prop := by simpa [findProperty, twoUnits] using hfound
    decide

theorem dixChangeWindowProperty_atomic_two : (∃ rc list,
      dixChangeWindowProperty allGranted [twoUnits] 39 31 32 .append 1 [9, 9, 9, 9] =
        some (rc, list) ∧
      Atomic (lookupAnswer allGranted [twoUnits] 39 .append = badMatch) [twoUnits] 39 31 32
        .append 1 [9, 9, 9, 9] rc list) ∧
    dixChangeWindowProperty allGranted [twoUnits] 39 30 32 .append 1 [9, 9, 9, 9] =
      some (badMatch, [twoUnits]) :=
  ⟨(dixChangeWindowProperty_atomic twoUnits_stored (twoUnits_sized .append) allGranted 31).1,
    (dixChangeWindowProperty_atomic twoUnits_stored (twoUnits_sized .append) allGranted 30).2
      twoUnits rfl rfl (by decide) (.inr (by decide))⟩

/-- The change creates a second property with the name of the first. -/
theorem hidden_duplicated : ¬ ∃ rc list,
      dixChangeWindowProperty hidden [twoUnits] 39 31 32 .replace 1 [9, 9, 9, 9] = some (rc, list) ∧
      Atomic (findProperty [twoUnits] 39 = none) [twoUnits] 39 31 32 .replace 1 [9, 9, 9, 9]
        rc list := by
  rintro ⟨rc, list, hchange, hatomic⟩
  obtain ⟨rfl, rfl⟩ : success = rc ∧ [⟨39, 31, 32, 1, [9, 9, 9, 9]⟩, twoUnits] = list := by
    have hrun : dixChangeWindowProperty hidden [twoUnits] 39 31 32 .replace 1 [9, 9, 9, 9] =
        some (success, [⟨39, 31, 32, 1, [9, 9, 9, 9]⟩, twoUnits]) := rfl
    simpa using hrun.symm.trans hchange
  rcases hatomic.done rfl with ⟨habsent, _⟩ | ⟨before, old, after, hsplit, _, _, hlist⟩
  · cases habsent
  · have hlength := congrArg length hsplit
    have hlength' := congrArg length hlist
    simp only [length_cons, length_append, length_nil] at hlength hlength'
    omega

end Xfront.Property
