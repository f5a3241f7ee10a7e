import Mathlib

/-!
# The range of keycodes

`XkbChangeKeycodeRange` of XKBMAlloc.c: the keycodes that a description has, the six
tables with an entry for each of them, and what a changes record says of the tables. A
result of `none` is a write past the end of a table.
-/

namespace Xfront.Xkb.Keycodes

open List Option Function

inductive Component where
  | keySyms
  | modifierMap
  | keyBehaviors
  | keyActions
  | virtualModMap
  | keyNames
  deriving DecidableEq

def Component.width : Component → Nat
  | .keySyms => 8
  | .modifierMap => 1
  | .keyBehaviors => 2
  | .keyActions => 2
  | .virtualModMap => 2
  | .keyNames => 4

abbrev Entry := List (BitVec 8)

/-- A table of `size` entries; those from `size` on are not part of it. -/
structure KeyTable where
  size : Nat
  entry : Nat → Entry

/-- A table that is not there is `none`. -/
structure XkbDesc where
  minKeyCode : Nat
  maxKeyCode : Nat
  table : Component → Option KeyTable

/-- Whether a bit of `changed` is set, and the first key and the number of keys. -/
structure KeyRange where
  flagged : Bool
  first : Nat
  num : Nat
  deriving DecidableEq

structure XkbChanges where
  minKeyCode : Nat
  maxKeyCode : Nat
  range : Component → KeyRange

inductive Status where
  | success
  | badValue
  | badMatch
  deriving DecidableEq

/-- `_ExtendRange`, with `first` and `num` of one byte. -/
def extendRange (flagged : Bool) (newKC first num : Nat) : Nat × Nat :=
  if flagged = false then (newKC, 1)
  else
    let last : Int := first + num - 1
    if newKC < first then (newKC, ((last - newKC + 1) % 256).toNat)
    else if last < newKC then (first, (newKC - first + 1) % 256)
    else (first, num)

/-- The component whose `first` the call for a component is given. -/
def Component.firstOf : Component → Component
  -- the call for the virtual modifiers names the modifier map's
  | .virtualModMap => .modifierMap
  | c => c

def XkbChanges.extend (changes : XkbChanges) (c : Component) (newKC : Nat) : XkbChanges :=
  let r := extendRange (changes.range c).flagged newKC (changes.range c.firstOf).first
    (changes.range c).num
  { changes with
    range := fun d =>
      { flagged := if d = c then true else (changes.range d).flagged
        first := if d = c.firstOf then r.1 else (changes.range d).first
        num := if d = c then r.2 else (changes.range d).num } }

def KeyTable.cleared (t : KeyTable) (c : Component) (start len : Nat) : KeyTable :=
  { t with
    entry := fun k => if start ≤ k ∧ k < start + len then replicate c.width 0 else t.entry k }

def KeyTable.clear (t : KeyTable) (c : Component) (start len : Nat) : Option KeyTable :=
  if start + len ≤ t.size then some (t.cleared c start len) else none

def components : List Component :=
  [.keySyms, .modifierMap, .keyBehaviors, .keyActions, .virtualModMap, .keyNames]

def enterKeys (start len : Nat) (newKC : Nat) : List Component → XkbDesc → Option XkbChanges →
    Option (XkbDesc × Option XkbChanges)
  | [], xkb, changes => some (xkb, changes)
  | c :: cs, xkb, changes =>
    match xkb.table c with
    | none => enterKeys start len newKC cs xkb changes
    | some t =>
      (t.clear c start len).bind fun t =>
        enterKeys start len newKC cs
          { xkb with table := update xkb.table c (some t) }
          (changes.map fun changes => changes.extend c newKC)

def mapLength : Nat := 256

def lowerKeys (xkb : XkbDesc) (minKC : Nat) (changes : Option XkbChanges) :
    Option (XkbDesc × Option XkbChanges) :=
  if minKC < xkb.minKeyCode then
    let changes := changes.map fun changes => { changes with minKeyCode := minKC }
    (enterKeys minKC (xkb.minKeyCode - minKC) minKC components xkb changes).map
      fun (xkb, changes) => ({ xkb with minKeyCode := minKC }, changes)
  else some (xkb, changes)

/-- The second half of the call. The entries are cleared from the old last key on. -/
def raiseKeys (xkb : XkbDesc) (maxKC : Nat) (changes : Option XkbChanges) :
    Option (XkbDesc × Option XkbChanges) :=
  if xkb.maxKeyCode < maxKC then
    let changes := changes.map fun changes => { changes with maxKeyCode := maxKC }
    (enterKeys xkb.maxKeyCode (mapLength - xkb.maxKeyCode) maxKC components xkb changes).map
      fun (xkb, changes) => ({ xkb with maxKeyCode := maxKC }, changes)
  else some (xkb, changes)

def xkbMinLegalKeyCode : Nat := 8

def xkbMaxLegalKeyCode : Nat := 255

def xkbChangeKeycodeRange (xkb : XkbDesc) (minKC maxKC : Nat) (changes : Option XkbChanges) :
    Option (XkbDesc × Option XkbChanges × Status) :=
  if minKC < xkbMinLegalKeyCode ∨ xkbMaxLegalKeyCode < maxKC then
    some (xkb, changes, .badValue)
  else if maxKC < minKC then some (xkb, changes, .badMatch)
  else
    (lowerKeys xkb minKC changes).bind fun (xkb, changes) =>
      (raiseKeys xkb maxKC changes).map fun (xkb, changes) => (xkb, changes, .success)

/-- A description as it is allocated: every table has entries up to the last key. -/
structure XkbDesc.Legal (xkb : XkbDesc) : Prop where
  ordered : xkb.minKeyCode ≤ xkb.maxKeyCode
  last : xkb.maxKeyCode ≤ xkbMaxLegalKeyCode
  sizes : ∀ c t, xkb.table c = some t → xkb.maxKeyCode < t.size

def KeyRange.Legal (r : KeyRange) : Prop :=
  r.num < 256 ∧ (r.flagged = true → xkbMinLegalKeyCode ≤ r.first ∧ 0 < r.num ∧ r.first + r.num ≤ 256)

def XkbChanges.Legal (changes : XkbChanges) : Prop := ∀ c, (changes.range c).Legal

def KeyRange.Covers (r : KeyRange) (k : Nat) : Prop :=
  r.flagged = true ∧ r.first ≤ k ∧ k < r.first + r.num

def XkbDesc.Has (xkb : XkbDesc) (k : Nat) : Prop := xkb.minKeyCode ≤ k ∧ k ≤ xkb.maxKeyCode

def XkbDesc.Enters (xkb : XkbDesc) (minKC maxKC : Nat) (k : Nat) : Prop :=
  minKC ≤ k ∧ k < xkb.minKeyCode ∨ xkb.maxKeyCode < k ∧ k ≤ maxKC

/-- Keys keep their entries, new keys have empty ones, and what is recorded of a table
covers the new keys and what it covered before. -/
structure Lossless (xkb : XkbDesc) (changes : Option XkbChanges) (minKC maxKC : Nat)
    (xkb' : XkbDesc) (changes' : Option XkbChanges) : Prop where
  tables : ∀ c, (xkb'.table c).isSome = (xkb.table c).isSome
  kept : ∀ c t t', xkb.table c = some t → xkb'.table c = some t' → ∀ k, xkb.Has k →
    t'.entry k = t.entry k
  empty : ∀ c t', xkb'.table c = some t' → ∀ k, xkb.Enters minKC maxKC k →
    t'.entry k = replicate c.width 0
  covered : ∀ old new, changes = some old → changes' = some new → ∀ c k,
    (old.range c).Covers k ∨ (xkb.table c).isSome = true ∧ xkb.Enters minKC maxKC k →
    (new.range c).Covers k

def KeyRange.Reaches (r : KeyRange) (xkb : XkbDesc) (minKC maxKC : Nat) : Prop :=
  (minKC < xkb.minKeyCode → xkb.maxKeyCode < maxKC ∨ xkb.minKeyCode = minKC + 1 ∨
    r.flagged = true ∧ xkb.minKeyCode ≤ r.first + r.num) ∧
  (xkb.maxKeyCode < maxKC → minKC < xkb.minKeyCode ∨ maxKC = xkb.maxKeyCode + 1 ∨
    r.flagged = true ∧ r.first ≤ xkb.maxKeyCode + 1)

def XkbDesc.firstNew (xkb : XkbDesc) (minKC maxKC : Nat) : Nat :=
  if minKC < xkb.minKeyCode then minKC else maxKC

def XkbDesc.has (xkb : XkbDesc) (c : Component) : Bool := (xkb.table c).isSome

/-- How many keys there are from `first` or `kc` on to the end of a range or `kc`. -/
def spread (first num kc : Nat) : Nat := (max (first + num) (kc + 1) - min first kc) % 256

/-- The virtual modifiers' record leaves the start of the modifier map's range, if there
is one, where it is. -/
def XkbDesc.Unmoved (xkb : XkbDesc) (kc : Nat) (old : XkbChanges) : Prop :=
  xkb.has .virtualModMap = true → (old.range .modifierMap).flagged = true →
    if (old.range .virtualModMap).flagged = true then
      xkb.has .modifierMap = true ∨ (old.range .modifierMap).first ≤ kc
    else kc ≤ (old.range .modifierMap).first ∧
      (xkb.has .modifierMap = true ∨ (old.range .modifierMap).first = kc)

def XkbDesc.mixedFirst (xkb : XkbDesc) (kc : Nat) (old : XkbChanges) : Nat :=
  let m := old.range .modifierMap
  if xkb.has .modifierMap = true then if m.flagged = false then kc else min m.first kc
  else m.first

/-- The number of keys that the virtual modifiers' range is given: counted from the
start of the modifier map's. -/
def XkbDesc.mixedNum (xkb : XkbDesc) (minKC maxKC : Nat) (old : XkbChanges) : Nat :=
  let v := old.range .virtualModMap
  let kc := xkb.firstNew minKC maxKC
  let first := xkb.mixedFirst kc old
  let num := if v.flagged = false then 1 else spread first v.num kc
  if minKC < xkb.minKeyCode ∧ xkb.maxKeyCode < maxKC then
    spread (if v.flagged = false then kc else min first kc) num maxKC
  else num

/-- This number of keys covers what it should from the start of the virtual modifiers'
own range. -/
def XkbDesc.Mixed (xkb : XkbDesc) (minKC maxKC : Nat) (old : XkbChanges) : Prop :=
  let v := old.range .virtualModMap
  let num := xkb.mixedNum minKC maxKC old
  (minKC < xkb.minKeyCode → v.first ≤ minKC ∧ xkb.minKeyCode ≤ v.first + num) ∧
  (xkb.maxKeyCode < maxKC → v.first ≤ xkb.maxKeyCode + 1 ∧ maxKC < v.first + num) ∧
  (v.flagged = true → v.num ≤ num)

/-- When the call does what it should: a new last key finds the old one without entries
and tables of full length, and the keys that it records reach all new ones. -/
structure Harmless (xkb : XkbDesc) (changes : Option XkbChanges) (minKC maxKC : Nat) : Prop where
  last : xkb.maxKeyCode < maxKC → ∀ c t, xkb.table c = some t → mapLength ≤ t.size ∧
    t.entry xkb.maxKeyCode = replicate c.width 0
  reaches : ∀ old, changes = some old → ∀ c, c ≠ .virtualModMap → xkb.has c = true →
    (old.range c).Reaches xkb minKC maxKC
  unmoved : ∀ old, changes = some old → (minKC < xkb.minKeyCode ∨ xkb.maxKeyCode < maxKC) →
    xkb.Unmoved (xkb.firstNew minKC maxKC) old
  mixed : ∀ old, changes = some old → (minKC < xkb.minKeyCode ∨ xkb.maxKeyCode < maxKC) →
    xkb.has .virtualModMap = true → xkb.Mixed minKC maxKC old

theorem extendRange_eq (flagged : Bool) {kc first num : Nat} (hnum : num < 256) :
    extendRange flagged kc first num =
      if flagged = false then (kc, 1) else (min first kc, spread first num kc) := by
  unfold extendRange spread
  by_cases hf : flagged = false
  · rw [if_pos hf, if_pos hf]
  rw [if_neg hf, if_neg hf]
  by_cases hlt : kc < first
  · rw [if_pos hlt, min_eq_right (le_of_lt hlt)]
    have hmax : max (first + num) (kc + 1) = first + num := by omega
    rw [hmax]
    congr 1
    omega
  rw [if_neg hlt, Nat.min_eq_left (by omega)]
  by_cases hgt : (first : Int) + num - 1 < kc
  · rw [if_pos hgt]
    have hmax : max (first + num) (kc + 1) = kc + 1 := by omega
    rw [hmax]
    congr 2
    omega
  · rw [if_neg hgt]
    have hmax : max (first + num) (kc + 1) = first + num := by omega
    rw [hmax, Nat.add_sub_cancel_left, Nat.mod_eq_of_lt hnum]

def KeyRange.grow (r : KeyRange) (kc : Nat) : KeyRange :=
  ⟨true, if r.flagged = false then kc else min r.first kc,
    if r.flagged = false then 1 else spread r.first r.num kc⟩

section

variable {changes : XkbChanges} {c d : Component} {kc : Nat} {has : Component → Bool}

theorem extend_range_of_ne (hc : d ≠ c) (hf : d ≠ c.firstOf) :
    (changes.extend c kc).range d = changes.range d := by
  show (⟨_, _, _⟩ : KeyRange) = _
  rw [if_neg hc, if_neg hf, if_neg hc]

theorem extend_range_self (hc : c ≠ .virtualModMap) (hb : (changes.range c).num < 256) :
    (changes.extend c kc).range c = (changes.range c).grow kc := by
  have hf : c.firstOf = c := by
    cases c <;> first | rfl | exact absurd rfl hc
  show (⟨_, _, _⟩ : KeyRange) = _
  rw [hf, if_pos rfl, if_pos rfl, if_pos rfl, extendRange_eq _ hb, KeyRange.grow]
  split <;> rfl

def recordAll (has : Component → Bool) (kc : Nat) (cs : List Component)
    (changes : XkbChanges) : XkbChanges :=
  cs.foldl (fun changes c => if has c then changes.extend c kc else changes) changes

theorem enterKeys_eq {start len : Nat} {cs : List Component} (hcs : cs.Nodup) (xkb : XkbDesc)
    (changes : Option XkbChanges) :
    enterKeys start len kc cs xkb changes =
      if ∀ c ∈ cs, ∀ t ∈ xkb.table c, start + len ≤ t.size then
        some ({ xkb with
          table := fun c =>
            if c ∈ cs then (xkb.table c).map fun t => t.cleared c start len else xkb.table c },
          changes.map (recordAll (fun c => (xkb.table c).isSome) kc cs))
      else none := by
  induction cs generalizing xkb changes with
  | nil =>
    rw [enterKeys, if_pos (fun _ hc => nomatch hc)]
    cases changes <;> rfl
  | cons c cs ih =>
    obtain ⟨hc, hcs⟩ := nodup_cons.mp hcs
    rw [enterKeys]
    simp only [forall_mem_cons]
    cases ht : xkb.table c with
    | none =>
      rw [ih hcs]
      have htable : (fun d => if d ∈ c :: cs then (xkb.table d).map fun t => t.cleared d start len
          else xkb.table d) = fun d => if d ∈ cs then (xkb.table d).map fun t =>
          t.cleared d start len else xkb.table d := by
        funext d
        by_cases hd : d = c
        · subst hd
          rw [if_pos mem_cons_self, if_neg hc, ht, map_none]
        · simp only [mem_cons, hd, false_or]
      have hrecord : recordAll (fun d => (xkb.table d).isSome) kc (c :: cs) =
          recordAll (fun d => (xkb.table d).isSome) kc cs := by
        funext ch
        rw [recordAll, foldl_cons, ht]
        rfl
      rw [htable, hrecord]
      simp
    | some t =>
      dsimp only
      rw [KeyTable.clear]
      by_cases hroom : start + len ≤ t.size
      · rw [if_pos hroom, bind_some, ih hcs]
        have hother : ∀ d ∈ cs, update xkb.table c (some (t.cleared c start len)) d =
            xkb.table d := by
          intro d hd
          exact update_of_ne (by rintro rfl; exact hc hd) ..
        have hhas : (fun d => (update xkb.table c (some (t.cleared c start len)) d).isSome) =
            fun d => (xkb.table d).isSome := by
          funext d
          by_cases hd : d = c
          · subst hd
            rw [update_self, ht, isSome_some, isSome_some]
          · rw [update_of_ne hd]
        have htable : (fun d => if d ∈ cs then
              (update xkb.table c (some (t.cleared c start len)) d).map fun t =>
                t.cleared d start len
              else update xkb.table c (some (t.cleared c start len)) d) =
            fun d => if d ∈ c :: cs then (xkb.table d).map fun t => t.cleared d start len
              else xkb.table d := by
          funext d
          by_cases hd : d = c
          · subst hd
            rw [if_neg hc, if_pos mem_cons_self, update_self, ht, map_some]
          · simp only [mem_cons, hd, false_or, update_of_ne hd]
        have hrecord : (changes.map fun ch => ch.extend c kc).map
              (recordAll (fun d => (xkb.table d).isSome) kc cs) =
            changes.map (recordAll (fun d => (xkb.table d).isSome) kc (c :: cs)) := by
          rw [Option.map_map]
          congr 1
          funext ch
          rw [recordAll, foldl_cons, ht]
          rfl
        have hcond : (∀ d ∈ cs, ∀ t' ∈ update xkb.table c (some (t.cleared c start len)) d,
            start + len ≤ t'.size) ↔ (∀ t' ∈ some t, start + len ≤ t'.size) ∧
            ∀ d ∈ cs, ∀ t' ∈ xkb.table d, start + len ≤ t'.size := by
          constructor
          · intro hall
            refine ⟨?_, fun d hd => ?_⟩
            · rintro _ ⟨⟩
              exact hroom
            · rw [← hother d hd]
              exact hall d hd
          · rintro ⟨-, hall⟩ d hd
            rw [hother d hd]
            exact hall d hd
        rw [hhas, hrecord]
        simp only [hcond, htable]
      · rw [if_neg hroom, bind_none, if_neg]
        intro hall
        exact hroom (hall.1 t rfl)

theorem record_of_ne (hc : d ≠ c) (hf : d ≠ c.firstOf) :
    (if has c then changes.extend c kc else changes).range d = changes.range d := by
  by_cases h : has c = true
  · rw [if_pos h, extend_range_of_ne hc hf]
  · rw [if_neg h]

theorem recordAll_other (hb : ∀ c, (changes.range c).num < 256) (hm : d ≠ .modifierMap)
    (hv : d ≠ .virtualModMap) : (recordAll has kc components changes).range d =
      if has d then (changes.range d).grow kc else changes.range d := by
  have hself : ∀ ch : XkbChanges, (ch.range d).num < 256 →
      (if has d then ch.extend d kc else ch).range d =
        if has d then (ch.range d).grow kc else ch.range d := by
    intro ch hn
    by_cases h : has d = true
    · rw [if_pos h, if_pos h, extend_range_self hv hn]
    · rw [if_neg h, if_neg h]
  simp only [recordAll, components, foldl_cons, foldl_nil]
  cases d with
  | modifierMap => exact absurd rfl hm
  | virtualModMap => exact absurd rfl hv
  | keySyms =>
    iterate 5 rw [record_of_ne (by decide) (by decide)]
    exact hself _ (hb _)
  | keyBehaviors =>
    iterate 3 rw [record_of_ne (by decide) (by decide)]
    rw [hself, record_of_ne (by decide) (by decide), record_of_ne (by decide) (by decide)]
    rw [record_of_ne (by decide) (by decide), record_of_ne (by decide) (by decide)]
    exact hb _
  | keyActions =>
    iterate 2 rw [record_of_ne (by decide) (by decide)]
    rw [hself]
    all_goals iterate 3 rw [record_of_ne (by decide) (by decide)]
    exact hb _
  | keyNames =>
    rw [hself]
    all_goals iterate 5 rw [record_of_ne (by decide) (by decide)]
    exact hb _

def ownRange (has : Component → Bool) (kc : Nat) (changes : XkbChanges) : KeyRange :=
  if has .modifierMap then (changes.range .modifierMap).grow kc else changes.range .modifierMap

theorem extend_virtualModMap (kc : Nat) (hn : (changes.range .virtualModMap).num < 256) :
    (changes.extend .virtualModMap kc).range .modifierMap = { changes.range .modifierMap with
          first := if (changes.range .virtualModMap).flagged = false then kc
            else min (changes.range .modifierMap).first kc } ∧
      (changes.extend .virtualModMap kc).range .virtualModMap = {
          flagged := true
          first := (changes.range .virtualModMap).first
          num := if (changes.range .virtualModMap).flagged = false then 1
            else spread (changes.range .modifierMap).first (changes.range .virtualModMap).num kc } := by
  simp only [XkbChanges.extend, Component.firstOf, extendRange_eq _ hn]
  by_cases hf : (changes.range .virtualModMap).flagged = false
  · simp only [if_pos hf]
    exact ⟨rfl, rfl⟩
  · simp only [if_neg hf]
    exact ⟨rfl, rfl⟩

theorem recordAll_modmaps (has : Component → Bool) (kc : Nat) (hb : ∀ c, (changes.range c).num < 256) :
    (recordAll has kc components changes).range .modifierMap = (if has .virtualModMap then
          { ownRange has kc changes with
            first := if (changes.range .virtualModMap).flagged = false then kc
              else min (ownRange has kc changes).first kc }
        else ownRange has kc changes) ∧
      (recordAll has kc components changes).range .virtualModMap = if has .virtualModMap then
          { flagged := true
            first := (changes.range .virtualModMap).first
            num := if (changes.range .virtualModMap).flagged = false then 1
              else spread (ownRange has kc changes).first (changes.range .virtualModMap).num kc }
        else changes.range .virtualModMap := by
  have hown : ∀ ch : XkbChanges, ch.range .modifierMap = changes.range .modifierMap →
      (if has .modifierMap then ch.extend .modifierMap kc else ch).range .modifierMap =
        ownRange has kc changes := by
    intro ch hch
    unfold ownRange
    by_cases h : has .modifierMap = true
    · rw [if_pos h, if_pos h, extend_range_self (by decide) (by rw [hch]; exact hb _), hch]
    · rw [if_neg h, if_neg h, hch]
  have hlast : ∀ ch : XkbChanges, ch.range .modifierMap = ownRange has kc changes →
      ch.range .virtualModMap = changes.range .virtualModMap →
      (if has .virtualModMap then ch.extend .virtualModMap kc else ch).range .modifierMap =
        (if has .virtualModMap then
          { ownRange has kc changes with
            first := if (changes.range .virtualModMap).flagged = false then kc
              else min (ownRange has kc changes).first kc }
        else ownRange has kc changes) ∧
      (if has .virtualModMap then ch.extend .virtualModMap kc else ch).range .virtualModMap =
        if has .virtualModMap then
          { flagged := true
            first := (changes.range .virtualModMap).first
            num := if (changes.range .virtualModMap).flagged = false then 1
              else spread (ownRange has kc changes).first (changes.range .virtualModMap).num kc }
        else changes.range .virtualModMap := by
    intro ch hm hv
    by_cases h : has .virtualModMap = true
    · obtain ⟨hfirst, hsecond⟩ := extend_virtualModMap kc
        (show (ch.range .virtualModMap).num < 256 by rw [hv]; exact hb _)
      rw [if_pos h, if_pos h, if_pos h, hfirst, hsecond, hm, hv]
      exact ⟨rfl, rfl⟩
    · rw [if_neg h, if_neg h, if_neg h, hm, hv]
      exact ⟨rfl, rfl⟩
  simp only [recordAll, components, foldl_cons, foldl_nil]
  rw [record_of_ne (c := .keyNames) (d := .modifierMap) (by decide) (by decide),
    record_of_ne (c := .keyNames) (d := .virtualModMap) (by decide) (by decide)]
  refine hlast _ ?_ ?_
  · iterate 2 rw [record_of_ne (by decide) (by decide)]
    exact hown _ (record_of_ne (by decide) (by decide))
  · iterate 4 rw [record_of_ne (by decide) (by decide)]

end

end Xfront.Xkb.Keycodes
