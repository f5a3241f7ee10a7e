import Xfront.Record.Selection

/-!
# The sets of a registration

Each set that is built from the ranges of a registration has the numbers of the ranges, and
the entries for minor opcodes have the pairs of major and minor opcodes.
-/

namespace Xfront.Record

open List

def Range8.Contains (r : Range8) (m : Nat) : Prop :=
  r.Present ∧ r.first.toNat ≤ m ∧ m ≤ r.last.toNat

def ExtRange.Contains (e : ExtRange) (majorop minorop : Nat) : Prop :=
  e.major.Contains majorop ∧ e.minor.first.toNat ≤ minorop ∧ minorop ≤ e.minor.last.toNat

instance (r : Range8) (m : Nat) : Decidable (r.Contains m) :=
  inferInstanceAs (Decidable (_ ∧ _))

instance (e : ExtRange) (majorop minorop : Nat) : Decidable (e.Contains majorop minorop) :=
  inferInstanceAs (Decidable (_ ∧ _))

theorem Range8.From.le {least : UInt8} {r : Range8} (h : r.From least) (hp : r.Present) :
    r.first ≤ r.last := (h hp).2.2

variable {m : Nat}

theorem Range8.From.least {least : UInt8} {r : Range8} (h : r.From least)
    (hm : r.Contains m) : least.toNat ≤ m :=
  le_trans (UInt8.le_iff_toNat_le.mp (h hm.1).1) hm.2.1

theorem Range8.interval_bounds (r : Range8) :
    r.interval.first.toNat = r.first.toNat ∧ r.interval.last.toNat = r.last.toNat :=
  ⟨UInt8.toNat_toUInt16 _, UInt8.toNat_toUInt16 _⟩

def OrderedIntervals (ivs : List RecordSetInterval) : Prop := ∀ iv ∈ ivs, iv.first ≤ iv.last

variable {ivs : List RecordSetInterval} {ranges : List Range8}

theorem mem_convertRanges {iv : RecordSetInterval} : iv ∈ convertRangesToIntervals ivs ranges ↔
      iv ∈ ivs ∨ ∃ r ∈ ranges, r.Present ∧ iv = r.interval := by
  induction ranges generalizing ivs with
  | nil => simp [convertRangesToIntervals]
  | cons r ranges ih =>
    rw [convertRangesToIntervals, foldl_cons]
    refine ih.trans ?_
    split
    · rename_i hr
      rw [mem_append, mem_singleton, exists_mem_cons_iff, or_assoc]
      simp only [hr, true_and]
    · rename_i hr
      rw [exists_mem_cons_iff]
      simp only [hr, false_and, false_or]

theorem convertRanges_ordered
    (hivs : OrderedIntervals ivs) (h : ∀ r ∈ ranges, r.Present → r.first ≤ r.last) :
    OrderedIntervals (convertRangesToIntervals ivs ranges) := by
  intro iv hiv
  rcases mem_convertRanges.mp hiv with hiv | ⟨r, hr, hp, rfl⟩
  · exact hivs iv hiv
  · have hle := UInt8.le_iff_toNat_le.mp (h r hr hp)
    rw [UInt16.le_iff_toNat_le, r.interval_bounds.1, r.interval_bounds.2]
    exact hle

theorem mem_members_convertRanges : m ∈ members (convertRangesToIntervals ivs ranges) ↔
      m ∈ members ivs ∨ ∃ r ∈ ranges, r.Contains m := by
  rw [mem_members, mem_members]
  constructor
  · rintro ⟨iv, hiv, hm⟩
    rcases mem_convertRanges.mp hiv with hiv | ⟨r, hr, hp, rfl⟩
    · exact .inl ⟨iv, hiv, hm⟩
    · rw [r.interval_bounds.1, r.interval_bounds.2] at hm
      exact .inr ⟨r, hr, hp, hm⟩
  · rintro (⟨iv, hiv, hm⟩ | ⟨r, hr, hp, hm⟩)
    · exact ⟨iv, mem_convertRanges.mpr (.inl hiv), hm⟩
    · refine ⟨r.interval, mem_convertRanges.mpr (.inr ⟨r, hr, hp, rfl⟩), ?_⟩
      rw [r.interval_bounds.1, r.interval_bounds.2]
      exact hm

theorem createSet_some (ivs : List RecordSetInterval) : ∃ s, createSet ivs = some s := by
  rw [createSet, recordCreateSet]
  rcases hreq : recordSetMemoryRequirements ivs with ⟨size, create⟩
  have hfits : ¬ ((some (0 : BitVec 64)).any fun p =>
      p &&& (setAlignment - 1) ≠ 0 ∨ size < size) := by
    simp
  dsimp only
  rw [if_neg hfits]
  cases create with
  | bitVector => exact ⟨_, rfl⟩
  | intervalList =>
    exact ⟨_, congrArg (Option.map RecordSet.intervalList) (intervalListCreateSet_eq ivs)⟩

theorem isMemberOfSet_createSet (h : OrderedIntervals ivs)
    (m : Nat) : isMemberOfSet (createSet ivs) m = true ↔ m ∈ members ivs := by
  obtain ⟨s, hs⟩ := createSet_some ivs
  rw [hs, isMemberOfSet, Option.any_some, decide_eq_true_iff]
  exact (recordCreateSet_represents h hs).member m

theorem isMemberOfSet_setOf (h : OrderedIntervals ivs) (m : Nat) :
    isMemberOfSet (setOf ivs) m = true ↔ m ∈ members ivs := by
  rw [setOf]
  split
  · rename_i hnil
    rw [hnil, mem_members]
    simp [isMemberOfSet]
  · exact isMemberOfSet_createSet h m

theorem isMemberOfSet_ranges (h : ∀ r ∈ ranges, r.Present → r.first ≤ r.last) (m : Nat) :
    isMemberOfSet (setOf (convertRangesToIntervals [] ranges)) m = true ↔
      ∃ r ∈ ranges, r.Contains m := by
  have hnil : OrderedIntervals [] := fun iv hiv => absurd hiv (not_mem_nil)
  rw [isMemberOfSet_setOf (convertRanges_ordered hnil h), mem_members_convertRanges, mem_members]
  simp

theorem setOf_isSome :
    (setOf (convertRangesToIntervals [] ranges)).isSome = true ↔ ∃ r ∈ ranges, r.Present := by
  rw [setOf]
  split
  · rename_i hnil
    refine iff_of_false (by simp) ?_
    rintro ⟨r, hr, hp⟩
    have hmem : r.interval ∈ convertRangesToIntervals [] ranges :=
      mem_convertRanges.mpr (.inr ⟨r, hr, hp, rfl⟩)
    rw [hnil] at hmem
    cases hmem
  · rename_i hne
    obtain ⟨s, hs⟩ := createSet_some (convertRangesToIntervals [] ranges)
    rw [hs]
    refine iff_of_true rfl ?_
    obtain ⟨iv, hiv⟩ := exists_mem_of_ne_nil _ hne
    rcases mem_convertRanges.mp hiv with hiv | ⟨r, hr, hp, -⟩
    · cases hiv
    · exact ⟨r, hr, hp⟩

def Matches (psi : List SetInfo) (majorop minorop : Nat) : Prop :=
  ∃ s ∈ psi, (s.major.first.toNat ≤ majorop ∧ majorop ≤ s.major.last.toNat) ∧
    minorop ∈ members s.intervals

theorem addMinor_ne_nil (e : ExtRange) (psi : List SetInfo) : addMinor e psi ≠ [] := by
  cases psi with
  | nil => simp [addMinor]
  | cons s rest =>
    rw [addMinor]
    split <;> simp

theorem members_append {as bs : List RecordSetInterval} :
    m ∈ members (as ++ bs) ↔ m ∈ members as ∨ m ∈ members bs := by
  simp only [mem_members, mem_append, or_and_right, exists_or]

variable {psi : List SetInfo} {majorop minorop : Nat}

theorem addMinor_matches {e : ExtRange} :
    Matches (addMinor e psi) majorop minorop ↔ Matches psi majorop minorop ∨
      (e.major.first.toNat ≤ majorop ∧ majorop ≤ e.major.last.toNat) ∧
        minorop ∈ members [e.minor] := by
  induction psi with
  | nil => simp [addMinor, Matches]
  | cons s rest ih =>
    rw [addMinor]
    split
    · rename_i hsame
      rw [Matches, Matches, exists_mem_cons_iff, exists_mem_cons_iff, members_append, hsame]
      rw [and_or_left, or_right_comm]
    · rw [Matches, Matches, exists_mem_cons_iff, exists_mem_cons_iff]
      rw [Matches, Matches] at ih
      rw [ih, or_assoc]

variable {exts : List ExtRange}

theorem convertMinors_matches : Matches (convertMinors exts) majorop minorop ↔
      ∃ e ∈ exts, e.Contains majorop minorop := by
  have hgen : ∀ psi, Matches (exts.foldl
      (fun psi e => if e.major.Present then addMinor e psi else psi) psi) majorop minorop ↔
      Matches psi majorop minorop ∨ ∃ e ∈ exts, e.Contains majorop minorop := by
    induction exts with
    | nil => simp
    | cons e exts ih =>
      intro psi
      rw [foldl_cons, ih, exists_mem_cons_iff]
      by_cases hp : e.major.Present
      · rw [if_pos hp, addMinor_matches, or_assoc, mem_members]
        simp [ExtRange.Contains, Range8.Contains, hp]
      · rw [if_neg hp]
        simp [ExtRange.Contains, Range8.Contains, hp]
  rw [convertMinors, hgen]
  simp [Matches]

theorem convertMinors_ne_nil : convertMinors exts ≠ [] ↔ ∃ e ∈ exts, e.major.Present := by
  have hgen : ∀ psi, exts.foldl
      (fun psi e => if e.major.Present then addMinor e psi else psi) psi ≠ [] ↔
      psi ≠ [] ∨ ∃ e ∈ exts, e.major.Present := by
    induction exts with
    | nil => simp
    | cons e exts ih =>
      intro psi
      rw [foldl_cons, ih, exists_mem_cons_iff]
      by_cases hp : e.major.Present
      · simp [hp, addMinor_ne_nil]
      · simp [hp]
  rw [convertMinors, hgen]
  simp

theorem addMinor_ordered {e : ExtRange}
    (he : e.minor.first ≤ e.minor.last) (h : ∀ s ∈ psi, OrderedIntervals s.intervals) :
    ∀ s ∈ addMinor e psi, OrderedIntervals s.intervals := by
  induction psi with
  | nil =>
    intro s hs iv hiv
    rw [addMinor, mem_singleton] at hs
    subst hs
    rw [mem_singleton] at hiv
    subst hiv
    exact he
  | cons t rest ih =>
    have ht := h t mem_cons_self
    have hrest : ∀ s ∈ rest, OrderedIntervals s.intervals := fun s hs =>
      h s (mem_cons_of_mem _ hs)
    intro s hs
    rw [addMinor] at hs
    split at hs
    · rcases mem_cons.mp hs with rfl | hs
      · intro iv hiv
        rcases mem_append.mp hiv with hiv | hiv
        · exact ht iv hiv
        · rw [mem_singleton] at hiv
          subst hiv
          exact he
      · exact hrest s hs
    · rcases mem_cons.mp hs with rfl | hs
      · exact ht
      · exact ih hrest s hs

theorem convertMinors_ordered (h : ∀ e ∈ exts, e.minor.first ≤ e.minor.last) :
    ∀ s ∈ convertMinors exts, OrderedIntervals s.intervals := by
  have hgen : ∀ psi : List SetInfo, (∀ s ∈ psi, OrderedIntervals s.intervals) →
      ∀ s ∈ exts.foldl (fun psi e => if e.major.Present then addMinor e psi else psi) psi,
        OrderedIntervals s.intervals := by
    induction exts with
    | nil => exact fun psi hpsi => hpsi
    | cons e exts ih =>
      intro psi hpsi
      rw [foldl_cons]
      refine ih (fun e' he' => h e' (mem_cons_of_mem _ he')) _ ?_
      split
      · exact addMinor_ordered (h e mem_cons_self) hpsi
      · exact hpsi
  exact hgen [] (fun s hs => absurd hs not_mem_nil)

theorem minorMatches_iff (h : ∀ s ∈ psi, OrderedIntervals s.intervals) :
    minorMatches (psi.map fun s => ⟨s.major, createSet s.intervals⟩) majorop minorop = true ↔
      Matches psi majorop minorop := by
  rw [minorMatches, any_map, any_eq_true, Matches]
  refine exists_congr fun s => and_congr_right fun hs => ?_
  simp only [Function.comp_apply, Bool.and_eq_true, decide_eq_true_eq,
    isMemberOfSet_createSet (h s hs)]

end Xfront.Record
