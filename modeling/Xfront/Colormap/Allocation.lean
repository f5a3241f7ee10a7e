import Xfront.Colormap.Apart

/-!
# When AllocCP is right

The masks of consecutive planes go up to the depth of the visual, whatever the number of entries.
-/

namespace Xfront.Colormap
open Submasks List Nat

def Meets (ent : List Entry) (count planes : Nat) (contig : Bool) (r : Except Fault Result) : Prop :=
  ∃ result, r = .ok result ∧ ∀ ent' pixels mask, result = some (ent', pixels, mask) →
    Allocated ent ent' count planes contig pixels mask

/-- There is room for a mask that fits, or every mask of consecutive planes fits. -/
def Fits (visual : Visual) (ent : List Entry) (count planes : Nat) : Prop :=
  planes = 0 ∨
  (∃ k ≤ visual.nplanes - planes, contigMask planes k ≤ visual.colormapEntries ∧
    Roomy ent (contigMask planes k) count) ∨
  contigMask planes (visual.nplanes - planes) ≤ visual.colormapEntries

section

variable {visual : Visual} {ent : List Entry} {count planes : Nat}

theorem contigMask_zero (p : Nat) : contigMask p 0 = 2 ^ p - 1 := mul_one _

theorem pow_le_length (hcount : 1 ≤ count) (hroom : count * 2 ^ planes ≤ freeCells ent) :
    2 ^ planes ≤ ent.length :=
  calc 2 ^ planes ≤ count * 2 ^ planes := Nat.le_mul_of_pos_left _ hcount
    _ ≤ freeCells ent := hroom
    _ ≤ ent.length := freeCells_le ent

theorem planes_lt (hlen : ent.length < 2 ^ 15) (hpow : 2 ^ planes ≤ ent.length) : planes < 15 :=
  (Nat.pow_lt_pow_iff_right Nat.one_lt_two).mp (lt_of_le_of_lt hpow hlen)

theorem planes_le (hlen : ent.length = visual.colormapEntries) (hpow : 2 ^ planes ≤ ent.length) :
    planes ≤ visual.nplanes := by
  refine (Nat.pow_le_pow_iff_right Nat.one_lt_two).mp (le_trans hpow ?_)
  rw [hlen]
  exact visual.entries_le

theorem roomy_of_all (hlen : ent.length = visual.colormapEntries) (hcount : 1 ≤ count)
    (hroom : count * 2 ^ planes ≤ freeCells ent) (heq : visual.nplanes = planes) :
    Roomy ent (contigMask planes 0) count := by
  have hle := freeCells_le ent
  have hentries := visual.entries_le
  rw [← hlen, heq] at hentries
  have hpos := Nat.two_pow_pos planes
  have hone : count = 1 := by
    have hmul : count * 2 ^ planes ≤ 1 * 2 ^ planes := by omega
    have hcount' := Nat.le_of_mul_le_mul_right hmul hpos
    omega
  subst hone
  have hall : freeCells ent = ent.length := by omega
  refine ⟨[0], nodup_singleton 0, rfl, fun p hp => ?_⟩
  rw [mem_singleton.mp hp]
  refine ⟨zero_and _, fun s hs => ?_⟩
  have hs := hs.le
  rw [contigMask_zero] at hs
  have hlt : 0 + s < ent.length := by omega
  have hfree := countP_eq_length.mp hall _ (getElem_mem hlt)
  exact ⟨_, getElem?_eq_getElem hlt, of_decide_eq_true hfree⟩

theorem word_le (x : Nat) : word x ≤ x := mod_le x _

theorem apart_masks_le (planes : Nat) {D : Nat} (hplanes : 1 ≤ planes) (hD : planes + 1 ≤ D) :
    word (word ((2 ^ (planes - 1) - 1) * 2 ^ (D - planes + 1)) + 2 ^ (D - planes - 1)) ≤
        contigMask planes (D - planes) ∧
      word (3 * 2 ^ (planes - 1)) - 1 ≤ contigMask planes (D - planes) := by
  obtain ⟨p, rfl⟩ : ∃ p, planes = p + 1 := ⟨planes - 1, by omega⟩
  obtain ⟨d, hd⟩ : ∃ d, D - (p + 1) = d + 1 := ⟨D - (p + 1) - 1, by omega⟩
  have hpos := Nat.two_pow_pos p
  rw [hd, Nat.add_sub_cancel, Nat.add_sub_cancel]
  constructor
  · refine le_trans (word_le _) (le_trans (Nat.add_le_add_right (word_le _) _) ?_)
    have hpow : 2 ^ (d + 1 + 1) = 4 * 2 ^ d := by rw [pow_succ, pow_succ]; ring
    have hmask : contigMask (p + 1) (d + 1) = (2 ^ p - 1) * (4 * 2 ^ d) + 2 * 2 ^ d := by
      have hsub : 2 ^ (p + 1) - 1 = 2 * (2 ^ p - 1) + 1 := by
        rw [pow_succ]
        omega
      rw [contigMask, hsub, pow_succ]
      ring
    rw [hpow, hmask]
    omega
  · have hmono := contigMask_mono (p + 1) (j := 1) (k := d + 1) (by omega)
    have hword := word_le (3 * 2 ^ p)
    have hone : contigMask (p + 1) 1 + 2 = 4 * 2 ^ p := by
      have hadd := contigMask_add (p + 1) 1
      rw [pow_succ 2 p] at hadd
      omega
    omega

theorem allocated_cells {xs : List Nat} {contig : Bool} (hlength : xs.length = count)
    (hsorted : xs.Pairwise (· < ·))
    (hfree : ∀ x ∈ xs, 0 ≤ x ∧ ∃ e, ent[x]? = some e ∧ e.refcnt = 0) :
    Allocated ent (takeAll ent xs) count 0 contig xs 0 := by
  have hsubs : SubsetsOf 0 [0] := by
    refine ⟨pairwise_singleton _ _, fun s => ?_⟩
    rw [mem_singleton]
    exact ⟨fun h => h ▸ Submasks.sub_zero 0, fun h => le_zero.mp h.le⟩
  have hfound : Found ent 0 xs := by
    refine ⟨hsorted, fun q hq => ⟨and_zero q, fun s hs => ?_⟩⟩
    rw [le_zero.mp hs.le]
    exact (hfree q hq).2
  have halloc := allocated_of_found hfound hlength hsubs (Nat.two_pow_pos 32)
    rfl fun (_ : contig = true) => ⟨0, rfl⟩
  have hpixels : (xs.reverse.flatMap fun q => [0].tail.map (q + ·)) = [] := by
    simp
  have hcells : takeAll ent (xs.reverse.flatMap fun q => [0].map (q + ·)) = takeAll ent xs :=
    takeAll_congr ent fun i => by simp
  rw [hpixels, append_nil, hcells] at halloc
  exact halloc

theorem allocCP_cases (hlen : ent.length = visual.colormapEntries) (hcount : 1 ≤ count)
    (hroom : count * 2 ^ planes ≤ freeCells ent) (contig : Bool) : Fits visual ent count planes ∧
        Meets ent count planes contig (allocCP visual ent count planes contig) ∨
      ¬ Fits visual ent count planes ∧
        allocCP visual ent count planes contig = .error .outside := by
  have hpow := pow_le_length hcount hroom
  have hlt : ent.length < 2 ^ 15 := by
    rw [hlen]
    exact visual.entries_lt
  have hplanes := planes_lt hlt hpow
  have hle := planes_le hlen hpow
  rw [allocCP]
  dsimp only
  by_cases hzero : planes = 0
  · subst hzero
    rw [pow_zero, mul_one] at hroom
    obtain ⟨xs, hxs, hlength, hsorted, hfree⟩ := allocCells_spec count ent 0 hroom
    rw [if_pos rfl, hxs]
    refine .inl ⟨.inl rfl, _, rfl, fun ent' pixels mask h => ?_⟩
    cases h
    exact allocated_cells hlength hsorted hfree
  · have hspec := tryContig_spec (p := planes) (by omega) hcount hlt
      (visual.nplanes - (planes - 1)) 0 (by rw [contigMask_zero]; omega)
    rw [contigMask_zero, pow_zero] at hspec
    rw [if_neg hzero, if_neg (by omega), if_neg (by omega), ← hlen]
    generalize tryContig ent ent.length count (visual.nplanes - (planes - 1)) (2 ^ planes - 1) 1 = r
      at hspec
    cases hspec with
    | found j r _ hj hmask hroomy halloc =>
      refine .inl ⟨.inr (.inl ⟨j, by omega, by rw [← hlen]; exact hmask, hroomy⟩), _, rfl,
        fun ent' pixels mask h => ?_⟩
      cases h
      exact halloc contig
    | full hmask hfull =>
      have hlast := hmask (visual.nplanes - planes) (zero_le _) (by omega)
      refine .inl ⟨.inr (.inr (by rw [← hlen]; exact hlast)), ?_⟩
      dsimp only [bind, Except.bind]
      by_cases hcontig : contig ∨ planes = 1 ∨ visual.nplanes < 3
      · rw [if_pos hcontig]
        exact ⟨none, rfl, fun _ _ _ h => by cases h⟩
      · have hne : visual.nplanes ≠ planes := fun heq =>
          hfull 0 (le_refl 0) (by omega) (roomy_of_all hlen hcount hroom heq)
        obtain ⟨hfinal, hfirst⟩ := apart_masks_le planes (D := visual.nplanes)
          (by omega) (by omega)
        rw [if_neg hcontig, if_neg (by omega)]
        rw [not_or, Bool.not_eq_true] at hcontig
        rw [hcontig.1]
        exact tryApart_spec ent planes hcount hlt _ _ (by omega)
    | outside j _ hj hmask hfull =>
      refine .inr ⟨?_, rfl⟩
      rintro (h | ⟨k, hk, hin, hroomy⟩ | hlast)
      · exact hzero h
      · rw [← hlen] at hin
        rcases lt_or_ge k j with hkj | hjk
        · exact hfull k (zero_le k) hkj hroomy
        · have hmono := contigMask_mono planes hjk
          omega
      · have hmono := contigMask_mono planes (j := j) (k := visual.nplanes - planes) (by omega)
        omega

theorem allocCP_allocated (hlen : ent.length = visual.colormapEntries)
    (hall : visual.colormapEntries = 2 ^ visual.nplanes) (hcount : 1 ≤ count) {contig : Bool}
    {ent' : List Entry} {pixels : List Nat} {mask : Nat}
    (h : allocCP visual ent count planes contig = .ok (some (ent', pixels, mask))) :
    Allocated ent ent' count planes contig pixels mask := by
  have hlt : ent.length < 2 ^ 15 := by
    rw [hlen]
    exact visual.entries_lt
  by_cases hzero : planes = 0
  · subst hzero
    have hroom : count * 2 ^ 0 ≤ freeCells ent := by
      rw [allocCP] at h
      rw [if_pos rfl] at h
      cases hcells : allocCells count ent 0 with
      | error e =>
        rw [hcells] at h
        cases h
      | ok r =>
        have hle := allocCells_room count hcells
        rw [pow_zero, mul_one]
        exact hle
    rcases allocCP_cases hlen hcount hroom contig with ⟨-, result, hok, halloc⟩ | ⟨hnot, -⟩
    · rw [h] at hok
      cases hok
      exact halloc _ _ _ rfl
    · exact absurd (.inl rfl) hnot
  · rw [allocCP] at h
    rw [if_neg hzero] at h
    split at h
    · cases h
    next hle =>
    split at h
    · cases h
    next hshift =>
    have hpow : 2 ^ planes ≤ 2 ^ visual.nplanes := Nat.pow_le_pow_right zero_lt_two (not_lt.mp hle)
    have hspec := tryContig_spec (p := planes) (by omega) hcount hlt
      (visual.nplanes - (planes - 1)) 0 (by rw [contigMask_zero]; omega)
    rw [contigMask_zero, pow_zero] at hspec
    rw [← hlen] at h
    generalize tryContig ent ent.length count (visual.nplanes - (planes - 1)) (2 ^ planes - 1) 1 = r
      at hspec h
    cases hspec with
    | found j r _ hj hmask hroomy halloc =>
      cases h
      exact halloc contig
    | full hmask hfull =>
      have hlast := hmask (visual.nplanes - planes) (zero_le _) (by omega)
      dsimp only [bind, Except.bind] at h
      split at h
      · cases h
      next hcontig =>
      split at h
      · cases h
      next hdepth =>
      obtain ⟨hfinal, hfirst⟩ := apart_masks_le planes (D := visual.nplanes)
        (by omega) (by omega)
      rw [not_or, Bool.not_eq_true] at hcontig
      rw [hcontig.1]
      exact tryApart_allocated hcount hlt (by omega) h
    | outside j _ hj hmask hfull => cases h

theorem allocCP_meets_iff (hlen : ent.length = visual.colormapEntries) (hcount : 1 ≤ count)
    (hroom : count * 2 ^ planes ≤ freeCells ent) (contig : Bool) :
    Meets ent count planes contig (allocCP visual ent count planes contig) ↔ planes = 0 ∨
      (∃ k ≤ visual.nplanes - planes, contigMask planes k ≤ visual.colormapEntries ∧
        Roomy ent (contigMask planes k) count) ∨
      contigMask planes (visual.nplanes - planes) ≤ visual.colormapEntries := by
  rcases allocCP_cases hlen hcount hroom contig with ⟨hfits, hmeets⟩ | ⟨hnot, herror⟩
  · exact iff_of_true hmeets hfits
  · refine iff_of_false ?_ hnot
    rintro ⟨result, hok, -⟩
    rw [herror] at hok
    cases hok

end

def direct24 : Visual := ⟨24, 256, by decide, by decide, by decide⟩

def sparse : List Entry :=
  (range 256).map fun i => { refcnt := if i = 0 ∨ i = 3 then 0 else 1 }

theorem sparse_length : sparse.length = direct24.colormapEntries := by decide +kernel

theorem sparse_room : 1 * 2 ^ 1 ≤ freeCells sparse := by decide +kernel

theorem allocCP_meets_iff_sparse : Meets sparse 1 1 false (allocCP direct24 sparse 1 1 false) ↔
      1 = 0 ∨ (∃ k ≤ direct24.nplanes - 1, contigMask 1 k ≤ direct24.colormapEntries ∧
        Roomy sparse (contigMask 1 k) 1) ∨
      contigMask 1 (direct24.nplanes - 1) ≤ direct24.colormapEntries :=
  allocCP_meets_iff sparse_length (le_refl 1) sparse_room false

/-- The cells 0 and 3 differ in two planes, and the mask of the tenth plane reads the cell 512. -/
theorem allocCP_outside : sparse.length = direct24.colormapEntries ∧ 1 * 2 ^ 1 ≤ freeCells sparse ∧
      ¬ Meets sparse 1 1 false (allocCP direct24 sparse 1 1 false) := by
  have hrun : allocCP direct24 sparse 1 1 false = .error .outside := by decide +kernel
  refine ⟨sparse_length, sparse_room, ?_⟩
  rintro ⟨result, hok, -⟩
  rw [hrun] at hok
  cases hok

end Xfront.Colormap
