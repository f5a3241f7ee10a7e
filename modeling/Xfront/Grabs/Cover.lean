import Xfront.Grabs.Model

/-!
# What a grab covers

A detail stands for a set of numbers, a grab for a set of pairs.
-/

namespace Xfront.Grabs
open Option BitVec
open Touch (InputLevel)

theorem getBit_bitClear (mask : DetailMask) (i k : Nat) :
    getBit (bitClear mask k) i = (getBit mask i && i ≠ k) := by
  rw [getBit, getBit, bitClear, getLsbD_and, getLsbD_not, getLsbD_twoPow]
  rcases lt_or_ge i 256 with hlt | hge
  · by_cases hk : k = i
    · simp [hk]
    · simp [hlt, hk, Ne.symm hk]
  · simp [getLsbD_of_ge mask i hge]

namespace DetailRec
variable {any k : Nat} {d p : DetailRec}

def left (d : DetailRec) : DetailMask := d.pMask.getD (allOnes 256)

def Covers (any : Nat) (d : DetailRec) (x : Nat) : Prop :=
  if d.exact = any then x < 256 → getBit d.left x = true else x = d.exact

instance (any x : Nat) (d : DetailRec) : Decidable (d.Covers any x) :=
  inferInstanceAs (Decidable (if d.exact = any then _ else _))

variable {x : Nat}

theorem covers_exact (h : d.exact ≠ any) : d.Covers any x ↔ x = d.exact := by
  rw [Covers, if_neg h]

theorem covers_any (h : d.exact = any) : d.Covers any x ↔ (x < 256 → getBit d.left x = true) := by
  rw [Covers, if_pos h]

theorem covers_plain (h : d.exact = any) (hm : d.pMask = none) (x : Nat) : d.Covers any x := by
  rw [covers_any h, left, hm, getD_none, getBit, getLsbD_allOnes]
  exact decide_eq_true

/-- A detail as a request has it: any without a mask, or a number that fits into one. -/
structure Plain (any : Nat) (p : DetailRec) : Prop where
  unmasked : p.exact = any → p.pMask = none
  small : p.exact = any ∨ p.exact < 256

theorem supersedes_any (h : p.exact = any) (hm : p.pMask = none) :
    detailSupersedesSecond p d any = true := by
  rw [detailSupersedesSecond, isInGrabMask, if_pos h, hm]
  rfl

theorem supersedes_exact (h : p.exact ≠ any) :
    detailSupersedesSecond p d any = true ↔ d.exact = p.exact := by
  rw [detailSupersedesSecond, isInGrabMask, if_neg h, Bool.false_or, identicalExactDetails]
  by_cases hd : d.exact = any
  · simp [hd, Ne.symm h]
  · simp [h, hd, eq_comm]

theorem Plain.covers_of_supersedes (h : p.Plain any)
    (hs : detailSupersedesSecond p d any = true) (hx : d.Covers any x) : p.Covers any x := by
  by_cases hp : p.exact = any
  · exact covers_plain hp (h.unmasked hp) x
  · have he := (supersedes_exact hp).mp hs
    rw [covers_exact (he ▸ hp)] at hx
    rw [covers_exact hp, hx, he]

theorem Plain.around (h : p.Plain any) (hs : detailSupersedesSecond d p any = true)
    (hn : detailSupersedesSecond p d any = false) :
    d.exact = any ∧ p.exact ≠ any ∧ p.exact < 256 ∧ d.Covers any p.exact := by
  have hp : p.exact ≠ any := fun hp => by
    rw [supersedes_any hp (h.unmasked hp)] at hn
    cases hn
  have hlt := h.small.resolve_left hp
  have hd : d.exact = any := by
    by_contra hd
    have he := (supersedes_exact hd).mp hs
    rw [(supersedes_exact hp).mpr he.symm] at hn
    cases hn
  refine ⟨hd, hp, hlt, (covers_any hd).mpr fun _ => ?_⟩
  cases hm : d.pMask with
  | none => rw [left, hm, getD_none, getBit, getLsbD_allOnes, decide_eq_true hlt]
  | some mask =>
    rw [detailSupersedesSecond, isInGrabMask, if_pos hd, hm, identicalExactDetails] at hs
    rw [left, hm, getD_some]
    simpa [hd, hp] using hs

theorem Plain.supersedes_of_meet (h : p.Plain any) (hx : p.Covers any x) (hd : d.Covers any x) :
    detailSupersedesSecond p d any = true ∨ detailSupersedesSecond d p any = true := by
  by_cases hp : p.exact = any
  · exact .inl (supersedes_any hp (h.unmasked hp))
  rw [covers_exact hp] at hx
  by_cases he : d.exact = any
  · refine .inr ?_
    rw [covers_any he, left] at hd
    rw [detailSupersedesSecond, isInGrabMask, if_pos he]
    cases hm : d.pMask with
    | none => rfl
    | some mask =>
      have hbit := hd (hx ▸ h.small.resolve_left hp)
      rw [hm, getD_some, hx] at hbit
      dsimp only
      rw [if_neg hp, hbit, Bool.true_or]
  · rw [covers_exact he] at hd
    exact .inl ((supersedes_exact hp).mpr (by rw [← hd, hx]))

theorem covers_deleted (hd : d.exact = any) (hk : k < 256) {mask : DetailMask}
    (h : deleteDetailFromMask d.pMask k true = some mask) :
    DetailRec.Covers any ⟨d.exact, some mask⟩ x ↔ d.Covers any x ∧ x ≠ k := by
  rw [deleteDetailFromMask, if_pos rfl] at h
  have hmask : mask = bitClear d.left k := (some.inj h).symm
  rw [covers_any (d := ⟨d.exact, some mask⟩) hd, covers_any hd, left, getD_some, hmask,
    getBit_bitClear, Bool.and_eq_true, decide_eq_true_eq]
  constructor
  · intro hx
    refine ⟨fun hlt => (hx hlt).1, ?_⟩
    rintro rfl
    exact (hx hk).2 rfl
  · exact fun ⟨hx, hne⟩ hlt => ⟨hx hlt, hne⟩

theorem Plain.of_mutual (h : p.Plain any) (hpd : detailSupersedesSecond p d any = true)
    (hdp : detailSupersedesSecond d p any = true) : d.Plain any := by
  by_cases hd : d.exact = any
  · refine ⟨fun _ => ?_, .inl hd⟩
    have hp : p.exact = any := by
      by_contra hp
      exact hp (((supersedes_exact hp).mp hpd).symm.trans hd)
    rw [detailSupersedesSecond, isInGrabMask, if_pos hd, identicalExactDetails] at hdp
    cases hm : d.pMask with
    | none => rfl
    | some mask =>
      rw [hm] at hdp
      simp [hp, hd] at hdp
  · have he := (supersedes_exact hd).mp hdp
    refine ⟨fun h => absurd h hd, .inr ?_⟩
    rw [← he]
    exact h.small.resolve_left (he ▸ hd)

end DetailRec

namespace GrabRec
variable {g m : GrabRec}

def Covers (g : GrabRec) (x : Nat × Nat) : Prop :=
  g.detail.Covers anyKey x.1 ∧ g.modifiersDetail.Covers (anyModifier g.grabtype) x.2

instance (g : GrabRec) (x : Nat × Nat) : Decidable (g.Covers x) :=
  inferInstanceAs (Decidable (_ ∧ _))

structure Plain (m : GrabRec) : Prop where
  detail : m.detail.Plain anyKey
  modifiers : m.modifiersDetail.Plain (anyModifier m.grabtype)

def SameKind (isMaster : Nat → Bool) (g m : GrabRec) (ignoreDevice : Bool) : Bool :=
  g.grabtype = m.grabtype && devicesMatch isMaster g m ignoreDevice && g.type = m.type

def Overlaps (g m : GrabRec) : Prop :=
  (detailSupersedesSecond g.detail m.detail anyKey = true ∨
    detailSupersedesSecond m.detail g.detail anyKey = true) ∧
  (detailSupersedesSecond g.modifiersDetail m.modifiersDetail (anyModifier g.grabtype) = true ∨
    detailSupersedesSecond m.modifiersDetail g.modifiersDetail (anyModifier g.grabtype) = true)

theorem supersedes_iff : grabSupersedesSecond g m = true ↔
    detailSupersedesSecond g.detail m.detail anyKey = true ∧
    detailSupersedesSecond g.modifiersDetail m.modifiersDetail (anyModifier g.grabtype) = true := by
  rw [grabSupersedesSecond]
  split
  · next h => simp [h]
  · next h => simp_all

theorem matches_iff (isMaster : Nat → Bool) (ignoreDevice : Bool) :
    grabMatchesSecond isMaster g m ignoreDevice = true ↔
      SameKind isMaster g m ignoreDevice = true ∧ Overlaps g m := by
  rw [grabMatchesSecond, SameKind, Overlaps]
  by_cases ht : g.grabtype = m.grabtype
  · simp only [ht, supersedes_iff, ne_eq, not_true, if_false, decide_true, Bool.true_and]
    by_cases hd : devicesMatch isMaster g m ignoreDevice = true
    · by_cases hy : g.type = m.type
      · simp only [hd, hy, not_true, if_false, decide_true, Bool.and_self, true_and]
        split
        · next h => rcases h with h | h <;> simp [h.1, h.2]
        · split
          · next h => simp [h.1, h.2]
          · split
            · next h => simp [h.1, h.2]
            · simp_all
              tauto
      · simp [hd, hy]
    · simp [hd]
  · simp [ht]

theorem Plain.overlaps (h : m.Plain) (ht : g.grabtype = m.grabtype) {x : Nat × Nat}
    (hm : m.Covers x) (hg : g.Covers x) : Overlaps g m := by
  refine ⟨(h.detail.supersedes_of_meet hm.1 hg.1).symm, ?_⟩
  rw [ht]
  exact (h.modifiers.supersedes_of_meet hm.2 (ht ▸ hg.2)).symm

theorem Plain.covers_of_supersedes (h : m.Plain) (ht : g.grabtype = m.grabtype)
    (hs : grabSupersedesSecond m g = true) {x : Nat × Nat} (hx : g.Covers x) : m.Covers x := by
  obtain ⟨hd, hm⟩ := supersedes_iff.mp hs
  exact ⟨h.detail.covers_of_supersedes hd hx.1, h.modifiers.covers_of_supersedes hm (ht ▸ hx.2)⟩

end GrabRec

end Xfront.Grabs
