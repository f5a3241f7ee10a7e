import Mathlib

/-!
# Runs of consecutive numbers

A set of numbers as the list of its maximal runs, from left to right.
-/

open List

namespace Runs
open Nat

/-- `a` to `b` is a longest stretch of numbers in the set. -/
structure IsRun (S : Set Nat) (a b : Nat) : Prop where
  le : a ≤ b
  mem : ∀ m, a ≤ m → m ≤ b → m ∈ S
  left : ∀ m, m + 1 = a → m ∉ S
  right : b + 1 ∉ S

def covers (l : List (Nat × Nat)) : Set Nat := {m | ∃ r ∈ l, r.1 ≤ m ∧ m ≤ r.2}

variable {l : List (Nat × Nat)}

theorem mem_covers {m : Nat} : m ∈ covers l ↔ ∃ r ∈ l, r.1 ≤ m ∧ m ≤ r.2 := Iff.rfl

theorem mem_covers_cons {r : Nat × Nat} {m : Nat} :
    m ∈ covers (r :: l) ↔ (r.1 ≤ m ∧ m ≤ r.2) ∨ m ∈ covers l := by
  rw [mem_covers, exists_mem_cons_iff, mem_covers]

theorem covers_perm {l' : List (Nat × Nat)} (h : l.Perm l') : covers l = covers l' := by
  ext m
  simp only [mem_covers, h.mem_iff]

def Apart (r r' : Nat × Nat) : Prop := r.2 + 1 < r'.1

structure Separate (l : List (Nat × Nat)) : Prop where
  le : ∀ r ∈ l, r.1 ≤ r.2
  apart : l.Pairwise Apart

namespace Separate
variable {l l' : List (Nat × Nat)} {r r' : Nat × Nat}

theorem nil : Separate [] := ⟨nofun, .nil⟩

theorem tail (h : Separate (r :: l)) : Separate l :=
  ⟨fun r' hr => h.le r' (mem_cons_of_mem _ hr), (pairwise_cons.mp h.apart).2⟩

section
variable (h : Separate l)
include h

theorem cons (hr : r.1 ≤ r.2) (hgap : ∀ r' ∈ l, Apart r r') : Separate (r :: l) :=
  ⟨forall_mem_cons.mpr ⟨hr, h.le⟩, pairwise_cons.mpr ⟨hgap, h.apart⟩⟩

theorem apart_of_mem (hr : r ∈ l) (hr' : r' ∈ l) : r = r' ∨ Apart r r' ∨ Apart r' r := by
  induction l with
  | nil => cases hr
  | cons x l ih =>
    have hgap := (pairwise_cons.mp h.apart).1
    rcases mem_cons.mp hr with rfl | hrl <;> rcases mem_cons.mp hr' with rfl | hrl'
    · exact .inl rfl
    · exact .inr (.inl (hgap r' hrl'))
    · exact .inr (.inr (hgap r hrl))
    · exact ih h.tail hrl hrl'

theorem mem_of_stretch (hr : r ∈ l) {a b : Nat} (ha : r.1 ≤ a ∧ a ≤ r.2)
    (hab : a ≤ b) (hall : ∀ m, a ≤ m → m ≤ b → m ∈ covers l) : b ≤ r.2 := by
  induction b, hab using le_induction with
  | base => exact ha.2
  | succ b hab ih =>
    have hb := ih fun m h₁ h₂ => hall m h₁ (le_succ_of_le h₂)
    obtain ⟨r', hr', hle, hge⟩ := hall (b + 1) (by omega) le_rfl
    rcases h.apart_of_mem hr hr' with rfl | hgap | hgap
    · exact hge
    · rw [Apart] at hgap
      omega
    · rw [Apart] at hgap
      omega

theorem not_mem_beside (hr : r ∈ l) {m : Nat} (hm : m + 1 = r.1 ∨ m = r.2 + 1) : m ∉ covers l := by
  rintro ⟨r', hr', hle, hge⟩
  have hrr := h.le r hr
  rcases h.apart_of_mem hr hr' with rfl | hgap | hgap
  · omega
  · rw [Apart] at hgap
    omega
  · rw [Apart] at hgap
    omega

theorem isRun_iff (a b : Nat) : IsRun (covers l) a b ↔ (a, b) ∈ l := by
  constructor
  · intro hrun
    have hab := hrun.le
    obtain ⟨r, hr, hle, hge⟩ := hrun.mem a le_rfl hab
    have hb := h.mem_of_stretch hr ⟨hle, hge⟩ hab hrun.mem
    have ha : a = r.1 := by
      by_contra hne
      exact hrun.left (a - 1) (by omega) ⟨r, hr, by omega, by omega⟩
    have hb' : b = r.2 := by
      by_contra hne
      exact hrun.right ⟨r, hr, by omega, by omega⟩
    rw [ha, hb']
    exact hr
  · intro hr
    exact ⟨h.le _ hr, fun m h₁ h₂ => ⟨_, hr, h₁, h₂⟩,
      fun m hm => h.not_mem_beside hr (.inl hm), h.not_mem_beside hr (.inr rfl)⟩

theorem unique (h' : Separate l') (hc : covers l = covers l') : l = l' := by
  have hlt : ∀ {l : List (Nat × Nat)}, Separate l → l.Pairwise fun r r' => r.1 < r'.1 :=
    fun {l} hl => hl.apart.imp_of_mem fun {r r'} hr _ hgap => by
      have hle := hl.le r hr
      rw [Apart] at hgap
      omega
  have : Std.Irrefl fun r r' : Nat × Nat => r.1 < r'.1 := ⟨fun _ => lt_irrefl _⟩
  have : Std.Antisymm fun r r' : Nat × Nat => r.1 < r'.1 :=
    ⟨fun _ _ h₁ h₂ => absurd h₁ (Nat.lt_asymm h₂)⟩
  refine (hlt h).eq_of_mem_iff (hlt h') fun r => ?_
  rw [← h.isRun_iff, ← h'.isRun_iff, hc]

end

end Separate

theorem covers_join {r s : Nat × Nat} (hle : r.1 ≤ s.1)
    (htouch : s.1 ≤ r.2 + 1) (l : List (Nat × Nat)) :
    covers ((r.1, max r.2 s.2) :: l) = covers (r :: s :: l) := by
  ext m
  rw [mem_covers_cons, mem_covers_cons, mem_covers_cons, ← or_assoc]
  refine or_congr_left ?_
  omega

/-- The runs from `p` on, found one after the other. -/
inductive Scan (S : Set Nat) : Nat → List (Nat × Nat) → Prop
  | stop {p : Nat} : (∀ m, p ≤ m → m ∉ S) → Scan S p []
  | next {p a b : Nat} {l : List (Nat × Nat)} : p ≤ a → (∀ m, p ≤ m → m < a → m ∉ S) → a ≤ b →
      (∀ m, a ≤ m → m ≤ b → m ∈ S) → b + 1 ∉ S → Scan S (b + 1) l → Scan S p ((a, b) :: l)

theorem Scan.separate {S : Set Nat} {p : Nat} (h : Scan S p l) :
    Separate l ∧ (∀ m, m ∈ covers l ↔ p ≤ m ∧ m ∈ S) ∧ ∀ r ∈ l, p ≤ r.1 := by
  induction h with
  | stop hnone =>
    refine ⟨.nil, fun m => ?_, nofun⟩
    constructor
    · rintro ⟨r, hr, _⟩
      cases hr
    · exact fun hm => absurd hm.2 (hnone m hm.1)
  | @next p a b l hpa hbefore hab hin hout _ ih =>
    obtain ⟨hsep, hcov, hfirst⟩ := ih
    have hgap : ∀ r ∈ l, b + 1 < r.1 := by
      intro r hr
      have hle := hfirst r hr
      have hne : b + 1 ≠ r.1 := fun he =>
        hout ((hcov (b + 1)).mp ⟨r, hr, he ▸ le_rfl, he ▸ hsep.le r hr⟩).2
      omega
    refine ⟨hsep.cons hab hgap, fun m => ?_, ?_⟩
    · rw [mem_covers_cons, hcov]
      constructor
      · rintro (⟨h₁, h₂⟩ | ⟨h₁, h₂⟩)
        · exact ⟨hpa.trans h₁, hin m h₁ h₂⟩
        · exact ⟨by omega, h₂⟩
      · rintro ⟨h₁, h₂⟩
        rcases lt_or_ge m a with hlt | hge
        · exact absurd h₂ (hbefore m h₁ hlt)
        · rcases lt_or_ge b m with hlt | hle
          · exact .inr ⟨hlt, h₂⟩
          · exact .inl ⟨hge, hle⟩
    · intro r hr
      rcases mem_cons.mp hr with rfl | hr
      · exact hpa
      · exact (hpa.trans hab).trans ((le_succ b).trans (hfirst r hr))

theorem Scan.covers_eq {S : Set Nat} (h : Scan S 0 l) : covers l = S := by
  ext m
  rw [h.separate.2.1]
  exact and_iff_right (zero_le m)

end Runs
