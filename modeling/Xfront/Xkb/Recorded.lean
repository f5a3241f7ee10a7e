import Xfront.Xkb.Keycodes

/-!
# What a change of the keycodes records

When the entries of all keys are kept and the ranges of a changes record reach all keys
that are new.
-/

namespace Xfront.Xkb.Keycodes
open List

open Option

section

variable {changes : XkbChanges} {c : Component} {kc : Nat} {has : Component → Bool} {r : KeyRange}

theorem grow_legal (h : r.Legal) (hlo : xkbMinLegalKeyCode ≤ kc)
    (hhi : kc ≤ xkbMaxLegalKeyCode) : (r.grow kc).Legal := by
  unfold KeyRange.Legal xkbMinLegalKeyCode xkbMaxLegalKeyCode at *
  unfold KeyRange.grow spread
  dsimp only
  cases hf : r.flagged with
  | false =>
    rw [if_pos rfl, if_pos rfl]
    exact ⟨by omega, fun _ => by omega⟩
  | true =>
    have hkeys := h.2 hf
    rw [if_neg (by decide), if_neg (by decide)]
    exact ⟨by omega, fun _ => by omega⟩

theorem grow_covers (h : r.Legal) (hlo : xkbMinLegalKeyCode ≤ kc)
    (hhi : kc ≤ xkbMaxLegalKeyCode) (k : Nat) : (r.grow kc).Covers k ↔
      k = kc ∨ r.flagged = true ∧ min r.first kc ≤ k ∧ k < max (r.first + r.num) (kc + 1) := by
  unfold KeyRange.Legal xkbMinLegalKeyCode xkbMaxLegalKeyCode at *
  unfold KeyRange.grow KeyRange.Covers spread
  cases hf : r.flagged with
  | false =>
    rw [if_pos rfl, if_pos rfl]
    simp only [true_and, Bool.false_eq_true, false_and, or_false]
    omega
  | true =>
    have hkeys := h.2 hf
    rw [if_neg (by decide), if_neg (by decide)]
    simp only [true_and]
    omega

theorem grow_bounds (h : r.Legal) (hlo : xkbMinLegalKeyCode ≤ kc)
    (hhi : kc ≤ xkbMaxLegalKeyCode) : (r.grow kc).first ≤ kc ∧
      kc < (r.grow kc).first + (r.grow kc).num ∧ (r.flagged = true → (r.grow kc).first ≤ r.first ∧
        r.first + r.num ≤ (r.grow kc).first + (r.grow kc).num) := by
  have hself := (grow_covers h hlo hhi kc).mpr (.inl rfl)
  refine ⟨hself.2.1, hself.2.2, fun hf => ?_⟩
  have hkeys := h.2 hf
  have hfirst := (grow_covers h hlo hhi r.first).mpr (.inr ⟨hf, by omega, by omega⟩)
  have hend := (grow_covers h hlo hhi (r.first + r.num - 1)).mpr (.inr ⟨hf, by omega, by omega⟩)
  exact ⟨hfirst.2.1, by have hlt := hend.2.2; omega⟩

variable {xkb : XkbDesc} {minKC maxKC : Nat}

theorem reaches_iff (h : r.Legal)
    (hxkb : xkb.Legal) (hmin : xkbMinLegalKeyCode ≤ minKC) (hle : minKC ≤ maxKC)
    (hmax : maxKC ≤ xkbMaxLegalKeyCode)
    {r₁ r₂ : KeyRange} (h₁ : r₁ = if minKC < xkb.minKeyCode then r.grow minKC else r)
    (h₂ : r₂ = if xkb.maxKeyCode < maxKC then r₁.grow maxKC else r₁) :
    (∀ k, r.Covers k ∨ xkb.Enters minKC maxKC k → r₂.Covers k) ↔ r.Reaches xkb minKC maxKC := by
  have hord := hxkb.ordered
  unfold XkbDesc.Enters KeyRange.Reaches
  by_cases hdown : minKC < xkb.minKeyCode
  · rw [if_pos hdown] at h₁
    have hg := grow_covers h hmin (le_trans hle hmax)
    by_cases hup : xkb.maxKeyCode < maxKC
    · -- the hull of both keys has every key in between
      rw [if_pos hup, h₁] at h₂
      have hb := grow_bounds h hmin (le_trans hle hmax)
      have hb' := grow_bounds (grow_legal h hmin (le_trans hle hmax)) (le_trans hmin hle) hmax
      have hf' := hb'.2.2 rfl
      subst h₂
      refine iff_of_true (fun k hk => ⟨rfl, ?_⟩) ⟨fun _ => .inl hup, fun _ => .inl hdown⟩
      rcases hk with ⟨hf, hk⟩ | hk
      · have hold := hb.2.2 hf
        omega
      · omega
    · rw [if_neg hup, h₁] at h₂
      subst h₂
      unfold KeyRange.Covers at hg ⊢
      simp only [hg]
      cases hf : r.flagged with
      | false =>
        simp only [Bool.false_eq_true, false_and, or_false, false_or]
        constructor
        · intro hall
          have hlast := hall (xkb.minKeyCode - 1)
          omega
        · intro hr k hk
          omega
      | true =>
        simp only [true_and]
        constructor
        · intro hall
          have hlast := hall (xkb.minKeyCode - 1)
          omega
        · intro hr k hk
          omega
  · rw [if_neg hdown] at h₁
    by_cases hup : xkb.maxKeyCode < maxKC
    · have hg := grow_covers h (le_trans hmin hle) hmax
      rw [if_pos hup, h₁] at h₂
      subst h₂
      unfold KeyRange.Covers at hg ⊢
      simp only [hg]
      cases hf : r.flagged with
      | false =>
        simp only [Bool.false_eq_true, false_and, or_false, false_or]
        constructor
        · intro hall
          have hfirst := hall (xkb.maxKeyCode + 1)
          omega
        · intro hr k hk
          omega
      | true =>
        simp only [true_and]
        constructor
        · intro hall
          have hfirst := hall (xkb.maxKeyCode + 1)
          omega
        · intro hr k hk
          omega
    · rw [if_neg hup, h₁] at h₂
      subst h₂
      refine iff_of_true (fun k hk => hk.resolve_right (by omega)) ⟨fun hd => ?_, fun hu => ?_⟩
      · exact absurd hd hdown
      · exact absurd hu hup

def rangesAfter (xkb : XkbDesc) (minKC maxKC : Nat) (old : XkbChanges) : Component → KeyRange :=
  let low := if minKC < xkb.minKeyCode then recordAll xkb.has minKC components old else old
  (if xkb.maxKeyCode < maxKC then recordAll xkb.has maxKC components low else low).range

theorem recordAll_range {changes' : XkbChanges} (h : changes.range = changes'.range)
    (cs : List Component) :
    (recordAll has kc cs changes).range = (recordAll has kc cs changes').range := by
  induction cs generalizing changes changes' with
  | nil => exact h
  | cons c cs ih =>
    rw [recordAll, recordAll, foldl_cons, foldl_cons]
    by_cases hc : has c = true
    · rw [if_pos hc, if_pos hc]
      refine ih ?_
      simp only [XkbChanges.extend, h]
    · rw [if_neg hc, if_neg hc]
      exact ih h

theorem mem_components (c : Component) : c ∈ components := by
  cases c <;> decide

theorem lowerKeys_spec (hxkb : xkb.Legal) (minKC : Nat) (changes : Option XkbChanges) :
    ∃ xkb' changes', lowerKeys xkb minKC changes = some (xkb', changes') ∧
      xkb'.maxKeyCode = xkb.maxKeyCode ∧ (∀ c, xkb'.table c = (xkb.table c).map fun t =>
        if minKC < xkb.minKeyCode then t.cleared c minKC (xkb.minKeyCode - minKC) else t) ∧
      changes'.map XkbChanges.range = changes.map fun old =>
        (if minKC < xkb.minKeyCode then recordAll xkb.has minKC components old else old).range := by
  unfold lowerKeys
  by_cases hdown : minKC < xkb.minKeyCode
  · have hroom : ∀ c ∈ components, ∀ t ∈ xkb.table c, minKC + (xkb.minKeyCode - minKC) ≤ t.size := by
      intro c _ t ht
      have hsize := hxkb.sizes c t ht
      have hord := hxkb.ordered
      omega
    simp only [if_pos hdown]
    rw [enterKeys_eq (by decide), if_pos hroom, map_some]
    refine ⟨_, _, rfl, rfl, fun c => if_pos (mem_components c), ?_⟩
    cases changes with
    | none => rfl
    | some old =>
      have hrange : ({ old with minKeyCode := minKC } : XkbChanges).range = old.range := rfl
      exact congrArg some (recordAll_range hrange components)
  · simp only [if_neg hdown]
    refine ⟨_, _, rfl, rfl, fun c => ?_, rfl⟩
    rw [Option.map_id']

theorem raiseKeys_spec (xkb : XkbDesc) (maxKC : Nat) (changes : Option XkbChanges) :
    ((xkb.maxKeyCode < maxKC → ∀ c, ∀ t ∈ xkb.table c, xkb.maxKeyCode +
        (mapLength - xkb.maxKeyCode) ≤ t.size) →
      ∃ xkb' changes', raiseKeys xkb maxKC changes = some (xkb', changes') ∧
        (∀ c, xkb'.table c = (xkb.table c).map fun t => if xkb.maxKeyCode < maxKC then
          t.cleared c xkb.maxKeyCode (mapLength - xkb.maxKeyCode) else t) ∧
        changes'.map XkbChanges.range = changes.map fun old =>
          (if xkb.maxKeyCode < maxKC then recordAll xkb.has maxKC components old else old).range) ∧
    (∀ r, raiseKeys xkb maxKC changes = some r → xkb.maxKeyCode < maxKC → ∀ c, ∀ t ∈ xkb.table c,
      xkb.maxKeyCode + (mapLength - xkb.maxKeyCode) ≤ t.size) := by
  unfold raiseKeys
  by_cases hup : xkb.maxKeyCode < maxKC
  · simp only [if_pos hup]
    rw [enterKeys_eq (by decide)]
    refine ⟨fun hroom => ?_, fun r hr _ c t ht => ?_⟩
    · rw [if_pos fun c _ => hroom hup c, map_some]
      refine ⟨_, _, rfl, fun c => if_pos (mem_components c), ?_⟩
      cases changes with
      | none => rfl
      | some old =>
        have hrange : ({ old with maxKeyCode := maxKC } : XkbChanges).range = old.range := rfl
        exact congrArg some (recordAll_range hrange components)
    · by_contra hlong
      rw [if_neg fun hall => hlong (hall c (mem_components c) t ht)] at hr
      cases hr
  · simp only [if_neg hup]
    refine ⟨fun _ => ⟨_, _, rfl, fun c => ?_, rfl⟩, fun _ _ h => absurd h hup⟩
    rw [Option.map_id']

def tableAfter (xkb : XkbDesc) (minKC maxKC : Nat) (c : Component) (t : KeyTable) : KeyTable :=
  let low := if minKC < xkb.minKeyCode then t.cleared c minKC (xkb.minKeyCode - minKC) else t
  if xkb.maxKeyCode < maxKC then low.cleared c xkb.maxKeyCode (mapLength - xkb.maxKeyCode) else low

def Fits (xkb : XkbDesc) (maxKC : Nat) : Prop :=
  xkb.maxKeyCode < maxKC → ∀ c, ∀ t ∈ xkb.table c, mapLength ≤ t.size

theorem xkbChangeKeycodeRange_spec (hxkb : xkb.Legal)
    (hmin : xkbMinLegalKeyCode ≤ minKC) (hle : minKC ≤ maxKC) (hmax : maxKC ≤ xkbMaxLegalKeyCode)
    (changes : Option XkbChanges) : (Fits xkb maxKC → ∃ xkb' changes',
      xkbChangeKeycodeRange xkb minKC maxKC changes = some (xkb', changes', .success) ∧
      (∀ c, xkb'.table c = (xkb.table c).map (tableAfter xkb minKC maxKC c)) ∧
      changes'.map XkbChanges.range = changes.map (rangesAfter xkb minKC maxKC)) ∧
    (∀ r, xkbChangeKeycodeRange xkb minKC maxKC changes = some r → Fits xkb maxKC) := by
  obtain ⟨xkb₁, changes₁, hlow, hmaxkc, htable, hrange⟩ := lowerKeys_spec hxkb minKC changes
  obtain ⟨hraise, hroom⟩ := raiseKeys_spec xkb₁ maxKC changes₁
  have hlast : mapLength = xkb.maxKeyCode + (mapLength - xkb.maxKeyCode) := by
    have hle := hxkb.last
    unfold xkbMaxLegalKeyCode at hle
    unfold mapLength
    omega
  have hhas : xkb₁.has = xkb.has := by
    funext c
    rw [XkbDesc.has, XkbDesc.has, htable, isSome_map]
  have hfits : Fits xkb maxKC ↔ (xkb₁.maxKeyCode < maxKC → ∀ c, ∀ t ∈ xkb₁.table c,
      xkb₁.maxKeyCode + (mapLength - xkb₁.maxKeyCode) ≤ t.size) := by
    rw [hmaxkc, ← hlast]
    refine forall_congr' fun _ => forall_congr' fun c => ?_
    rw [htable]
    cases xkb.table c with
    | none => simp
    | some t =>
      have hsize : (if minKC < xkb.minKeyCode then t.cleared c minKC (xkb.minKeyCode - minKC)
          else t).size = t.size := by
        split <;> rfl
      constructor
      · rintro hall _ ⟨⟩
        rw [hsize]
        exact hall t rfl
      · rintro hall _ ⟨⟩
        rw [← hsize]
        exact hall _ rfl
  have hcall : xkbChangeKeycodeRange xkb minKC maxKC changes =
      (raiseKeys xkb₁ maxKC changes₁).map fun r => (r.1, r.2, .success) := by
    rw [xkbChangeKeycodeRange, if_neg (by omega), if_neg (by omega), hlow, bind_some]
  rw [hcall, hfits]
  refine ⟨fun hf => ?_, fun r hr => ?_⟩
  · obtain ⟨xkb₂, changes₂, hup, htable₂, hrange₂⟩ := hraise hf
    refine ⟨xkb₂, changes₂, by rw [hup, map_some], fun c => ?_, ?_⟩
    · rw [htable₂, htable, Option.map_map, hmaxkc]
      rfl
    · rw [hrange₂, hmaxkc, hhas]
      cases changes with
      | none =>
        cases changes₁ with
        | none => rfl
        | some ch => cases hrange
      | some old =>
        cases changes₁ with
        | none => cases hrange
        | some ch =>
          have hr : ch.range = (if minKC < xkb.minKeyCode then
              recordAll xkb.has minKC components old else old).range := Option.some.inj hrange
          refine congrArg some ?_
          unfold rangesAfter
          split
          · exact recordAll_range hr components
          · exact hr
  · obtain ⟨r', hr', -⟩ := map_eq_some_iff.mp hr
    exact hroom r' hr'

theorem grow_num (r : KeyRange) : (r.grow kc).num < 256 := by
  unfold KeyRange.grow spread
  dsimp only
  split <;> omega

theorem recordAll_num (hb : ∀ c, (changes.range c).num < 256) (c : Component) :
    ((recordAll has kc components changes).range c).num < 256 := by
  have hown : (ownRange has kc changes).num < 256 := by
    unfold ownRange
    split
    · exact grow_num _
    · exact hb _
  obtain ⟨hm, hv⟩ := recordAll_modmaps has kc hb
  have hother : c ≠ .modifierMap → c ≠ .virtualModMap →
      ((recordAll has kc components changes).range c).num < 256 := by
    intro hcm hcv
    rw [recordAll_other hb hcm hcv]
    split
    · exact grow_num _
    · exact hb _
  cases c with
  | modifierMap =>
    rw [hm]
    split <;> exact hown
  | virtualModMap =>
    rw [hv]
    split
    · unfold spread
      dsimp only
      split <;> omega
    · exact hb _
  | keySyms | keyBehaviors | keyActions | keyNames => exact hother (by decide) (by decide)

def ownAfter (xkb : XkbDesc) (minKC maxKC : Nat) (r : KeyRange) : KeyRange :=
  let low := if minKC < xkb.minKeyCode then r.grow minKC else r
  if xkb.maxKeyCode < maxKC then low.grow maxKC else low

variable {old : XkbChanges}

theorem rangesAfter_other (hold : old.Legal)
    (hm : c ≠ .modifierMap) (hv : c ≠ .virtualModMap) : rangesAfter xkb minKC maxKC old c =
      if xkb.has c = true then ownAfter xkb minKC maxKC (old.range c) else old.range c := by
  have hb : ∀ c, (old.range c).num < 256 := fun c => (hold c).1
  unfold rangesAfter ownAfter
  by_cases hdown : minKC < xkb.minKeyCode
  · rw [if_pos hdown, if_pos hdown]
    by_cases hup : xkb.maxKeyCode < maxKC
    · rw [if_pos hup, if_pos hup, recordAll_other (recordAll_num hb) hm hv,
        recordAll_other hb hm hv]
      split <;> rfl
    · rw [if_neg hup, if_neg hup, recordAll_other hb hm hv]
  · rw [if_neg hdown, if_neg hdown]
    by_cases hup : xkb.maxKeyCode < maxKC
    · rw [if_pos hup, if_pos hup, recordAll_other hb hm hv]
    · rw [if_neg hup, if_neg hup]
      split <;> rfl

theorem first_modmaps (hb : ∀ c, (old.range c).num < 256) (xkb : XkbDesc) (kc : Nat) :
    ((recordAll xkb.has kc components old).range .modifierMap).first =
        (if xkb.has .virtualModMap = true then if (old.range .virtualModMap).flagged = false then kc
          else min (xkb.mixedFirst kc old) kc else xkb.mixedFirst kc old) ∧
      (recordAll xkb.has kc components old).range .virtualModMap =
        if xkb.has .virtualModMap = true then {
            flagged := true
            first := (old.range .virtualModMap).first
            num := if (old.range .virtualModMap).flagged = false then 1
              else spread (xkb.mixedFirst kc old) (old.range .virtualModMap).num kc }
        else old.range .virtualModMap := by
  obtain ⟨hm, hv⟩ := recordAll_modmaps xkb.has kc hb
  have hown : (ownRange xkb.has kc old).first = xkb.mixedFirst kc old := by
    unfold ownRange XkbDesc.mixedFirst
    split <;> rfl
  rw [hm, hv, hown]
  refine ⟨?_, rfl⟩
  split
  · rfl
  · exact hown

theorem modifierMap_unmoved (hb : ∀ c, (old.range c).num < 256)
    (hhas : xkb.has .modifierMap = true) (h : xkb.Unmoved kc old) :
    (recordAll xkb.has kc components old).range .modifierMap =
      (old.range .modifierMap).grow kc := by
  obtain ⟨hm, -⟩ := recordAll_modmaps xkb.has kc hb
  rw [hm, ownRange, if_pos hhas]
  by_cases hv : xkb.has .virtualModMap = true
  · rw [if_pos hv]
    have hfirst : (if (old.range .virtualModMap).flagged = false then kc
        else min ((old.range .modifierMap).grow kc).first kc) =
        ((old.range .modifierMap).grow kc).first := by
      unfold KeyRange.grow
      cases hmf : (old.range .modifierMap).flagged with
      | false => simp
      | true =>
        have hkeep := h hv hmf
        cases hvf : (old.range .virtualModMap).flagged with
        | false =>
          rw [hvf, if_neg Bool.false_ne_true] at hkeep
          rw [if_pos rfl, if_neg (by decide), min_eq_right hkeep.1]
        | true =>
          rw [if_neg (by decide), if_neg (by decide), Nat.min_assoc, Nat.min_self]
    rw [hfirst]
  · rw [if_neg hv]

theorem modifierMap_absent (hb : ∀ c, (old.range c).num < 256)
    (kc : Nat) (hhas : ¬ xkb.has .modifierMap = true) :
    (recordAll xkb.has kc components old).range .modifierMap = if xkb.has .virtualModMap = true then
        { old.range .modifierMap with
          first := if (old.range .virtualModMap).flagged = false then kc
            else min (old.range .modifierMap).first kc }
      else old.range .modifierMap := by
  obtain ⟨hm, -⟩ := recordAll_modmaps xkb.has kc hb
  rw [hm, ownRange, if_neg hhas]

theorem virtualModMap_flagged (hb : ∀ c, (old.range c).num < 256)
    (kc : Nat) (hhas : xkb.has .virtualModMap = true) :
    ((recordAll xkb.has kc components old).range .virtualModMap).flagged = true := by
  rw [(first_modmaps hb xkb kc).2, if_pos hhas]

theorem unmoved_second (hb : ∀ c, (old.range c).num < 256) (hhas : xkb.has .modifierMap = true) :
    xkb.Unmoved maxKC (recordAll xkb.has minKC components old) := by
  intro hv _
  rw [virtualModMap_flagged hb minKC hv, if_pos rfl]
  exact .inl hhas

theorem rangesAfter_modifierMap (hold : old.Legal) (hhas : xkb.has .modifierMap = true)
    (h : minKC < xkb.minKeyCode ∨ xkb.maxKeyCode < maxKC →
      xkb.Unmoved (xkb.firstNew minKC maxKC) old) : rangesAfter xkb minKC maxKC old .modifierMap =
      ownAfter xkb minKC maxKC (old.range .modifierMap) := by
  have hb : ∀ c, (old.range c).num < 256 := fun c => (hold c).1
  unfold rangesAfter ownAfter
  unfold XkbDesc.firstNew at h
  by_cases hdown : minKC < xkb.minKeyCode
  · rw [if_pos hdown] at h
    have hfirst := modifierMap_unmoved hb hhas (h (.inl hdown))
    rw [if_pos hdown, if_pos hdown]
    by_cases hup : xkb.maxKeyCode < maxKC
    · rw [if_pos hup, if_pos hup, modifierMap_unmoved (recordAll_num hb) hhas
        (unmoved_second hb hhas), hfirst]
    · rw [if_neg hup, if_neg hup, hfirst]
  · rw [if_neg hdown] at h
    rw [if_neg hdown, if_neg hdown]
    by_cases hup : xkb.maxKeyCode < maxKC
    · rw [if_pos hup, if_pos hup, modifierMap_unmoved hb hhas (h (.inr hup))]
    · rw [if_neg hup, if_neg hup]

theorem absent_num (minKC maxKC : Nat) (hold : old.Legal) (hhas : ¬ xkb.has .modifierMap = true) :
    (rangesAfter xkb minKC maxKC old .modifierMap).flagged = (old.range .modifierMap).flagged ∧
      (rangesAfter xkb minKC maxKC old .modifierMap).num = (old.range .modifierMap).num := by
  have hb : ∀ c, (old.range c).num < 256 := fun c => (hold c).1
  have hpass : ∀ (ch : XkbChanges) kc, (∀ c, (ch.range c).num < 256) →
      ((recordAll xkb.has kc components ch).range .modifierMap).flagged =
        (ch.range .modifierMap).flagged ∧
      ((recordAll xkb.has kc components ch).range .modifierMap).num = (ch.range .modifierMap).num := by
    intro ch kc hch
    rw [modifierMap_absent hch kc hhas]
    split <;> exact ⟨rfl, rfl⟩
  unfold rangesAfter
  split
  · split
    · obtain ⟨hf, hn⟩ := hpass _ maxKC (recordAll_num hb)
      obtain ⟨hf', hn'⟩ := hpass old minKC hb
      exact ⟨hf.trans hf', hn.trans hn'⟩
    · exact hpass old maxKC hb
  · split
    · exact hpass old minKC hb
    · exact ⟨rfl, rfl⟩

def XkbDesc.movedFirst (xkb : XkbDesc) (kc : Nat) (old : XkbChanges) : Nat :=
  if (old.range .virtualModMap).flagged = false then kc else min (xkb.mixedFirst kc old) kc

theorem mixedFirst_second
    (hb : ∀ c, (old.range c).num < 256) (hle : minKC ≤ maxKC) (hv : xkb.has .virtualModMap = true) :
    xkb.mixedFirst maxKC (recordAll xkb.has minKC components old) = xkb.movedFirst minKC old := by
  have hfirst := (first_modmaps hb xkb minKC).1
  rw [if_pos hv] at hfirst
  have hmoved : xkb.movedFirst minKC old ≤ minKC := by
    unfold XkbDesc.movedFirst
    split
    · exact le_refl _
    · exact min_le_right ..
  unfold XkbDesc.mixedFirst
  dsimp only
  rw [hfirst]
  by_cases hm : xkb.has .modifierMap = true
  · have hflag : ((recordAll xkb.has minKC components old).range .modifierMap).flagged = true := by
      rw [(recordAll_modmaps xkb.has minKC hb).1, if_pos hv, ownRange, if_pos hm]
      rfl
    rw [if_pos hm, hflag, if_neg (by decide)]
    exact min_eq_left (le_trans hmoved hle)
  · rw [if_neg hm]
    rfl

theorem moved_first (hold : old.Legal) (hle : minKC ≤ maxKC) (hv : xkb.has .virtualModMap = true)
    (henters : minKC < xkb.minKeyCode ∨ xkb.maxKeyCode < maxKC) :
    (rangesAfter xkb minKC maxKC old .modifierMap).first =
      xkb.movedFirst (xkb.firstNew minKC maxKC) old := by
  have hb : ∀ c, (old.range c).num < 256 := fun c => (hold c).1
  have hfirst : ∀ kc, ((recordAll xkb.has kc components old).range .modifierMap).first =
      xkb.movedFirst kc old := by
    intro kc
    rw [(first_modmaps hb xkb kc).1, if_pos hv]
    rfl
  unfold rangesAfter XkbDesc.firstNew
  by_cases hdown : minKC < xkb.minKeyCode
  · rw [if_pos hdown, if_pos hdown]
    by_cases hup : xkb.maxKeyCode < maxKC
    · rw [if_pos hup, (first_modmaps (recordAll_num hb) xkb maxKC).1, if_pos hv,
        virtualModMap_flagged hb minKC hv, if_neg (by decide), mixedFirst_second hb hle hv]
      have hmoved : xkb.movedFirst minKC old ≤ minKC := by
        unfold XkbDesc.movedFirst
        split
        · exact le_refl _
        · exact min_le_right ..
      exact min_eq_left (le_trans hmoved hle)
    · rw [if_neg hup, hfirst]
  · rw [if_neg hdown, if_neg hdown, if_pos (henters.resolve_left hdown), hfirst]

theorem modifierMap_moved (hold : old.Legal) (hle : minKC ≤ maxKC)
    (henters : minKC < xkb.minKeyCode ∨ xkb.maxKeyCode < maxKC)
    (h : ¬ xkb.Unmoved (xkb.firstNew minKC maxKC) old) : ∃ k, (old.range .modifierMap).Covers k ∧
      ¬ (rangesAfter xkb minKC maxKC old .modifierMap).Covers k := by
  unfold XkbDesc.Unmoved at h
  simp only [Classical.not_imp] at h
  obtain ⟨hv, hmf, hcond⟩ := h
  have hfirst := moved_first hold hle hv henters
  generalize xkb.firstNew minKC maxKC = kc at hcond hfirst
  obtain ⟨-, hlegal⟩ := hold .modifierMap
  obtain ⟨-, hpos, -⟩ := hlegal hmf
  have hlow : (old.range .modifierMap).first < (rangesAfter xkb minKC maxKC old .modifierMap).first →
      ∃ k, (old.range .modifierMap).Covers k ∧
        ¬ (rangesAfter xkb minKC maxKC old .modifierMap).Covers k := by
    intro hlt
    exact ⟨_, ⟨hmf, le_refl _, by omega⟩, fun hc => absurd hc.2.1 (by omega)⟩
  have hhigh : ¬ xkb.has .modifierMap = true →
      (rangesAfter xkb minKC maxKC old .modifierMap).first < (old.range .modifierMap).first →
      ∃ k, (old.range .modifierMap).Covers k ∧
        ¬ (rangesAfter xkb minKC maxKC old .modifierMap).Covers k := by
    intro hm hlt
    have hnum := (absent_num minKC maxKC hold hm).2
    refine ⟨(old.range .modifierMap).first + (old.range .modifierMap).num - 1,
      ⟨hmf, by omega, by omega⟩, fun hc => ?_⟩
    have hend := hc.2.2
    rw [hnum] at hend
    omega
  unfold XkbDesc.movedFirst at hfirst
  cases hvf : (old.range .virtualModMap).flagged with
  | false =>
    rw [hvf, if_neg (by decide)] at hcond
    rw [hvf, if_pos rfl] at hfirst
    by_cases hlt : (old.range .modifierMap).first < kc
    · exact hlow (by omega)
    · have hm : ¬ xkb.has .modifierMap = true := fun hm => hcond ⟨by omega, .inl hm⟩
      have hne : (old.range .modifierMap).first ≠ kc := fun he => hcond ⟨by omega, .inr he⟩
      exact hhigh hm (by omega)
  | true =>
    rw [hvf, if_pos rfl, not_or] at hcond
    rw [hvf, if_neg (by decide), XkbDesc.mixedFirst, if_neg hcond.1] at hfirst
    exact hhigh hcond.1 (by omega)

theorem modifierMap_kept
    (hold : old.Legal) (hle : minKC ≤ maxKC) (hhas : ¬ xkb.has .modifierMap = true)
    (h : minKC < xkb.minKeyCode ∨ xkb.maxKeyCode < maxKC →
      xkb.Unmoved (xkb.firstNew minKC maxKC) old) (k : Nat)
    (hk : (old.range .modifierMap).Covers k) :
    (rangesAfter xkb minKC maxKC old .modifierMap).Covers k := by
  have hb : ∀ c, (old.range c).num < 256 := fun c => (hold c).1
  have hfirst : (rangesAfter xkb minKC maxKC old .modifierMap).first =
      (old.range .modifierMap).first := by
    by_cases hv : xkb.has .virtualModMap = true
    · by_cases henters : minKC < xkb.minKeyCode ∨ xkb.maxKeyCode < maxKC
      · have hcond := h henters hv hk.1
        rw [moved_first hold hle hv henters, XkbDesc.movedFirst, XkbDesc.mixedFirst, if_neg hhas]
        cases hvf : (old.range .virtualModMap).flagged with
        | false =>
          rw [hvf, if_neg (by decide)] at hcond
          rw [if_pos rfl]
          exact (hcond.2.resolve_left hhas).symm
        | true =>
          rw [hvf, if_pos rfl] at hcond
          rw [if_neg (by decide)]
          exact min_eq_left (hcond.resolve_left hhas)
      · unfold rangesAfter
        rw [if_neg (by omega), if_neg (by omega)]
    · have hpass : ∀ (ch : XkbChanges) kc, (∀ c, (ch.range c).num < 256) →
          ((recordAll xkb.has kc components ch).range .modifierMap).first =
            (ch.range .modifierMap).first := by
        intro ch kc hch
        rw [modifierMap_absent hch kc hhas, if_neg hv]
      unfold rangesAfter
      split
      · split
        · exact (hpass _ maxKC (recordAll_num hb)).trans (hpass old minKC hb)
        · exact hpass old maxKC hb
      · split
        · exact hpass old minKC hb
        · rfl
  obtain ⟨hflag, hnum⟩ := absent_num minKC maxKC hold hhas
  refine ⟨hflag.trans hk.1, ?_, ?_⟩
  · rw [hfirst]
    exact hk.2.1
  · rw [hfirst, hnum]
    exact hk.2.2

theorem rangesAfter_virtualModMap
    (hold : old.Legal) (hle : minKC ≤ maxKC) (hv : xkb.has .virtualModMap = true)
    (henters : minKC < xkb.minKeyCode ∨ xkb.maxKeyCode < maxKC) :
    rangesAfter xkb minKC maxKC old .virtualModMap = {
        flagged := true
        first := (old.range .virtualModMap).first
        num := xkb.mixedNum minKC maxKC old } := by
  have hb : ∀ c, (old.range c).num < 256 := fun c => (hold c).1
  unfold rangesAfter XkbDesc.mixedNum XkbDesc.firstNew
  by_cases hdown : minKC < xkb.minKeyCode
  · rw [if_pos hdown, if_pos hdown]
    by_cases hup : xkb.maxKeyCode < maxKC
    · rw [if_pos hup, if_pos ⟨hdown, hup⟩, (first_modmaps (recordAll_num hb) xkb maxKC).2,
        if_pos hv, virtualModMap_flagged hb minKC hv, if_neg (by decide),
        mixedFirst_second hb hle hv, (first_modmaps hb xkb minKC).2, if_pos hv]
      rfl
    · rw [if_neg hup, if_neg (fun h => hup h.2), (first_modmaps hb xkb minKC).2, if_pos hv]
  · rw [if_neg hdown, if_neg hdown, if_pos (henters.resolve_left hdown),
      if_neg (fun h => hdown h.1), (first_modmaps hb xkb maxKC).2, if_pos hv]

end

section

variable {xkb : XkbDesc} {minKC maxKC : Nat} {old : XkbChanges}

theorem rangesAfter_still (h : ¬ (minKC < xkb.minKeyCode ∨ xkb.maxKeyCode < maxKC))
    (c : Component) : rangesAfter xkb minKC maxKC old c = old.range c := by
  unfold rangesAfter
  rw [if_neg (fun hd => h (.inl hd)), if_neg (fun hu => h (.inr hu))]

theorem covered_iff (hold : old.Legal) (hxkb : xkb.Legal) (hmin : xkbMinLegalKeyCode ≤ minKC)
    (hle : minKC ≤ maxKC) (hmax : maxKC ≤ xkbMaxLegalKeyCode) :
    (∀ c k, (old.range c).Covers k ∨ (xkb.table c).isSome = true ∧ xkb.Enters minKC maxKC k →
      (rangesAfter xkb minKC maxKC old c).Covers k) ↔
    (∀ c, c ≠ .virtualModMap → xkb.has c = true → (old.range c).Reaches xkb minKC maxKC) ∧
      ((minKC < xkb.minKeyCode ∨ xkb.maxKeyCode < maxKC) →
        xkb.Unmoved (xkb.firstNew minKC maxKC) old) ∧
      ((minKC < xkb.minKeyCode ∨ xkb.maxKeyCode < maxKC) → xkb.has .virtualModMap = true →
        xkb.Mixed minKC maxKC old) := by
  have hown : ∀ c, (∀ k, (old.range c).Covers k ∨ xkb.Enters minKC maxKC k →
      (ownAfter xkb minKC maxKC (old.range c)).Covers k) ↔
      (old.range c).Reaches xkb minKC maxKC := fun c =>
    reaches_iff (hold c) hxkb hmin hle hmax rfl rfl
  constructor
  · intro hall
    have hunmoved : (minKC < xkb.minKeyCode ∨ xkb.maxKeyCode < maxKC) →
        xkb.Unmoved (xkb.firstNew minKC maxKC) old := by
      intro henters
      by_contra hmoved
      obtain ⟨k, hk, hlost⟩ := modifierMap_moved hold hle henters hmoved
      exact hlost (hall .modifierMap k (.inl hk))
    refine ⟨fun c hc hhas => ?_, hunmoved, fun henters hv => ?_⟩
    · refine (hown c).mp fun k hk => ?_
      have hcov := hall c k (hk.imp_right fun he => ⟨hhas, he⟩)
      by_cases hm : c = .modifierMap
      · subst hm
        rwa [rangesAfter_modifierMap hold hhas hunmoved] at hcov
      · rwa [rangesAfter_other hold hm hc, if_pos hhas] at hcov
    · have hcov := hall .virtualModMap
      rw [rangesAfter_virtualModMap hold hle hv henters] at hcov
      refine ⟨fun hdown => ?_, fun hup => ?_, fun hflag => ?_⟩
      · have hlow := (hcov minKC (.inr ⟨hv, .inl ⟨le_refl _, hdown⟩⟩)).2
        have hhigh := (hcov (xkb.minKeyCode - 1) (.inr ⟨hv, .inl ⟨by omega, by omega⟩⟩)).2
        dsimp only at hlow hhigh
        omega
      · have hlow := (hcov (xkb.maxKeyCode + 1) (.inr ⟨hv, .inr ⟨by omega, hup⟩⟩)).2
        have hhigh := (hcov maxKC (.inr ⟨hv, .inr ⟨hup, le_refl _⟩⟩)).2
        dsimp only at hlow hhigh
        omega
      · obtain ⟨-, hpos, -⟩ := (hold .virtualModMap).2 hflag
        have hend := (hcov ((old.range .virtualModMap).first + (old.range .virtualModMap).num - 1)
          (.inl ⟨hflag, by omega, by omega⟩)).2
        dsimp only at hend
        omega
  · rintro ⟨hreach, hunmoved, hmixed⟩ c k hk
    by_cases henters : minKC < xkb.minKeyCode ∨ xkb.maxKeyCode < maxKC
    · by_cases hv : c = .virtualModMap
      · subst hv
        by_cases hhas : xkb.has .virtualModMap = true
        · obtain ⟨hdown, hup, hflag⟩ := hmixed henters hhas
          rw [rangesAfter_virtualModMap hold hle hhas henters]
          refine ⟨rfl, ?_⟩
          dsimp only
          rcases hk with ⟨hf, hk⟩ | ⟨-, hk | hk⟩
          · have hnum := hflag hf
            omega
          · have hd := hdown (by omega)
            omega
          · have hu := hup (by omega)
            omega
        · have hsame : rangesAfter xkb minKC maxKC old .virtualModMap =
              old.range .virtualModMap := by
            have hb : ∀ c, (old.range c).num < 256 := fun c => (hold c).1
            unfold rangesAfter
            split
            · rw [(first_modmaps (by split; exacts [recordAll_num hb, hb]) xkb maxKC).2, if_neg hhas]
              split
              · rw [(first_modmaps hb xkb minKC).2, if_neg hhas]
              · rfl
            · split
              · rw [(first_modmaps hb xkb minKC).2, if_neg hhas]
              · rfl
          rw [hsame]
          exact hk.resolve_right fun h => hhas h.1
      · by_cases hhas : xkb.has c = true
        · have hcov := (hown c).mpr (hreach c hv hhas) k (hk.imp_right And.right)
          by_cases hm : c = .modifierMap
          · subst hm
            rwa [rangesAfter_modifierMap hold hhas hunmoved]
          · rwa [rangesAfter_other hold hm hv, if_pos hhas]
        · have hk := hk.resolve_right fun h => hhas h.1
          by_cases hm : c = .modifierMap
          · subst hm
            exact modifierMap_kept hold hle hhas hunmoved k hk
          · rwa [rangesAfter_other hold hm hv, if_neg hhas]
    · rw [rangesAfter_still henters]
      refine hk.resolve_right fun h => ?_
      have he := h.2
      unfold XkbDesc.Enters at he
      omega

theorem tableAfter_kept (hxkb : xkb.Legal) {c : Component} {t : KeyTable}
    (hlast : xkb.maxKeyCode < maxKC → t.entry xkb.maxKeyCode = replicate c.width 0) {k : Nat}
    (hk : xkb.Has k) : (tableAfter xkb minKC maxKC c t).entry k = t.entry k := by
  obtain ⟨hmin, hmax⟩ := hk
  have hlow : (if minKC < xkb.minKeyCode then t.cleared c minKC (xkb.minKeyCode - minKC)
      else t).entry k = t.entry k := by
    split
    · exact if_neg (by omega)
    · rfl
  unfold tableAfter
  by_cases hup : xkb.maxKeyCode < maxKC
  · rw [if_pos hup]
    by_cases hkm : k = xkb.maxKeyCode
    · subst hkm
      rw [hlast hup]
      have hle := hxkb.last
      unfold xkbMaxLegalKeyCode at hle
      exact if_pos ⟨le_refl _, by unfold mapLength; omega⟩
    · exact (if_neg (by omega)).trans hlow
  · rw [if_neg hup]
    exact hlow

theorem tableAfter_empty (hmax : maxKC ≤ xkbMaxLegalKeyCode) {c : Component} {t : KeyTable} {k : Nat}
    (hk : xkb.Enters minKC maxKC k) :
    (tableAfter xkb minKC maxKC c t).entry k = replicate c.width 0 := by
  unfold xkbMaxLegalKeyCode at hmax
  unfold tableAfter
  by_cases hup : xkb.maxKeyCode < maxKC
  · rw [if_pos hup]
    by_cases hkm : xkb.maxKeyCode ≤ k ∧ k < xkb.maxKeyCode + (mapLength - xkb.maxKeyCode)
    · exact if_pos hkm
    · unfold XkbDesc.Enters at hk
      unfold mapLength at hkm
      refine (if_neg hkm).trans ?_
      rw [if_pos (by omega)]
      exact if_pos (by omega)
  · unfold XkbDesc.Enters at hk
    rw [if_neg hup, if_pos (by omega)]
    exact if_pos (by omega)

theorem xkbChangeKeycodeRange_iff {changes : Option XkbChanges} (hxkb : xkb.Legal)
    (hchanges : ∀ old, changes = some old → old.Legal) (hmin : xkbMinLegalKeyCode ≤ minKC)
    (hle : minKC ≤ maxKC) (hmax : maxKC ≤ xkbMaxLegalKeyCode) : (∃ xkb' changes',
      xkbChangeKeycodeRange xkb minKC maxKC changes = some (xkb', changes', .success) ∧
      Lossless xkb changes minKC maxKC xkb' changes') ↔ Harmless xkb changes minKC maxKC := by
  obtain ⟨hdone, hfits⟩ := xkbChangeKeycodeRange_spec hxkb hmin hle hmax changes
  constructor
  · rintro ⟨xkb', changes', hcall, hloss⟩
    have hfit := hfits _ hcall
    obtain ⟨xkb₁, changes₁, hcall₁, htable, hrange⟩ := hdone hfit
    cases hcall.symm.trans hcall₁
    have hcov : ∀ old, changes = some old → ∀ c k, (old.range c).Covers k ∨
        (xkb.table c).isSome = true ∧ xkb.Enters minKC maxKC k →
        (rangesAfter xkb minKC maxKC old c).Covers k := by
      rintro old rfl c k hk
      obtain ⟨new, rfl, hnew⟩ := map_eq_some_iff.mp hrange
      rw [← hnew]
      exact hloss.covered old new rfl rfl c k hk
    have hiff := fun old ho => (covered_iff (hchanges old ho) hxkb hmin hle hmax).mp (hcov old ho)
    refine ⟨fun hup c t ht => ⟨hfit hup c t ht, ?_⟩, fun old ho => (hiff old ho).1,
      fun old ho => (hiff old ho).2.1, fun old ho => (hiff old ho).2.2⟩
    have hkeep := hloss.kept c t (tableAfter xkb minKC maxKC c t) ht
      (by rw [htable, ht, map_some]) xkb.maxKeyCode ⟨hxkb.ordered, le_refl _⟩
    rw [← hkeep]
    have hlast := hxkb.last
    unfold xkbMaxLegalKeyCode at hlast
    unfold tableAfter
    dsimp only
    rw [if_pos hup]
    exact if_pos ⟨le_refl _, by unfold mapLength; omega⟩
  · rintro ⟨hlast, hreach, hunmoved, hmixed⟩
    obtain ⟨xkb', changes', hcall, htable, hrange⟩ := hdone fun hup c t ht => (hlast hup c t ht).1
    refine ⟨xkb', changes', hcall, fun c => by rw [htable, isSome_map], ?_, ?_, ?_⟩
    · intro c t t' ht ht' k hk
      rw [htable, ht] at ht'
      cases ht'
      exact tableAfter_kept hxkb (fun hup => (hlast hup c t ht).2) hk
    · intro c t' ht' k hk
      rw [htable] at ht'
      obtain ⟨t, -, rfl⟩ := map_eq_some_iff.mp ht'
      exact tableAfter_empty hmax hk
    · rintro old new rfl rfl c k hk
      have hnew : new.range = rangesAfter xkb minKC maxKC old := some.inj hrange
      rw [hnew]
      exact (covered_iff (hchanges old rfl) hxkb hmin hle hmax).mpr
        ⟨hreach old rfl, hunmoved old rfl, hmixed old rfl⟩ c k hk

end

def lastUsed : XkbDesc where
  minKeyCode := 8
  maxKeyCode := 100
  table
    | .keySyms => some ⟨256, fun k => if k = 100 then [1, 0, 0, 0, 1, 1, 1, 0] else
        [0, 0, 0, 0, 0, 0, 0, 0]⟩
    | _ => none

theorem lastUsed_legal : lastUsed.Legal := by
  refine ⟨by decide, by decide, fun c t ht => ?_⟩
  cases c with
  | keySyms =>
    cases ht
    decide
  | modifierMap | keyBehaviors | keyActions | virtualModMap | keyNames => cases ht

def cleared : XkbChanges := ⟨0, 0, fun _ => ⟨false, 0, 0⟩⟩

theorem cleared_legal : cleared.Legal := fun _ =>
  ⟨(by decide : 0 < 256), fun h => nomatch h⟩

theorem xkbChangeKeycodeRange_iff_raise :
    (∃ xkb' changes', xkbChangeKeycodeRange lastUsed 8 101 (some cleared) =
        some (xkb', changes', .success) ∧ Lossless lastUsed (some cleared) 8 101 xkb' changes') ↔
    Harmless lastUsed (some cleared) 8 101 :=
  xkbChangeKeycodeRange_iff lastUsed_legal (fun _ h => some.inj h ▸ cleared_legal)
    (by decide) (by decide) (by decide)

/-- A range that grows at its end takes the entries of the key it ended with. -/
theorem raise_clears_last : ∃ xkb' changes',
    xkbChangeKeycodeRange lastUsed 8 101 (some cleared) = some (xkb', changes', .success) ∧
    ¬ Lossless lastUsed (some cleared) 8 101 xkb' changes' := by
  have hfits : Fits lastUsed 101 := by
    intro _ c t ht
    cases c with
    | keySyms =>
      cases ht
      decide
    | modifierMap | keyBehaviors | keyActions | virtualModMap | keyNames => cases ht
  obtain ⟨xkb', changes', hcall, htable, -⟩ := (xkbChangeKeycodeRange_spec lastUsed_legal
    (by decide : xkbMinLegalKeyCode ≤ 8) (by decide : 8 ≤ 101) (by decide) (some cleared)).1 hfits
  refine ⟨xkb', changes', hcall, fun hloss => ?_⟩
  have hkeep := hloss.kept .keySyms _ _ rfl (htable .keySyms) 100 ⟨by decide, by decide⟩
  revert hkeep
  decide

end Xfront.Xkb.Keycodes
