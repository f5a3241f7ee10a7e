import Mathlib

/-!
# Forests

A forest gives each node the node above it. `up` lists what is above a node, from its
parent to its root, and `between` what lies on the way to a node above it.
-/

namespace Xfront.Forests
open Nat

open List

structure Forest (W : Type) where
  parent : W → Option W
  rank : W → Nat
  rank_lt : ∀ w p, parent w = some p → rank p < rank w

namespace Forest

section

variable {W : Type} (f : Forest W)

def upFrom : Nat → W → List W
  | 0, _ => []
  | n + 1, w =>
    match f.parent w with
    | none => []
    | some p => p :: upFrom n p

def up (w : W) : List W := f.upFrom (f.rank w) w

variable {f} {a b w p : W}

theorem parent_of_rank (h : f.rank w = 0) : f.parent w = none := by
  cases hp : f.parent w with
  | none => rfl
  | some p =>
    have hlt := f.rank_lt w p hp
    omega

theorem upFrom_none (h : f.parent w = none) (n : Nat) : f.upFrom n w = [] := by
  cases n with
  | zero => rfl
  | succ n => rw [upFrom, h]

theorem upFrom_congr {m n : Nat} (hm : f.rank w ≤ m) (hn : f.rank w ≤ n) :
    f.upFrom m w = f.upFrom n w := by
  induction m generalizing n w with
  | zero =>
    have hroot := parent_of_rank (le_zero.mp hm)
    rw [upFrom_none hroot, upFrom_none hroot]
  | succ m ih =>
    cases n with
    | zero =>
      have hroot := parent_of_rank (le_zero.mp hn)
      rw [upFrom_none hroot, upFrom_none hroot]
    | succ n =>
      rw [upFrom, upFrom]
      cases hp : f.parent w with
      | none => rfl
      | some p =>
        have hlt := f.rank_lt w p hp
        exact congrArg (p :: ·) (ih (by omega) (by omega))

theorem up_none (h : f.parent w = none) : f.up w = [] := upFrom_none h _

theorem up_some (h : f.parent w = some p) : f.up w = p :: f.up p := by
  have hlt := f.rank_lt w p h
  have hup : f.up w = f.upFrom (f.rank w + 1) w := upFrom_congr le_rfl (le_succ _)
  rw [hup, upFrom, h]
  exact congrArg (p :: ·) (upFrom_congr (by omega) le_rfl)

theorem induct {P : W → Prop} (hroot : ∀ w, f.parent w = none → P w)
    (hchild : ∀ w p, f.parent w = some p → P p → P w) (w : W) : P w := by
  generalize hr : f.rank w = r
  induction r using Nat.strong_induction_on generalizing w with
  | h r ih =>
    cases hp : f.parent w with
    | none => exact hroot w hp
    | some p => exact hchild w p hp (ih _ (hr ▸ f.rank_lt w p hp) p rfl)

theorem up_split (h : a ∈ f.up w) : ∃ front, f.up w = front ++ a :: f.up a := by
  induction w using f.induct with
  | hroot w hp =>
    rw [up_none hp] at h
    cases h
  | hchild w p hp ih =>
    rw [up_some hp] at h ⊢
    rcases mem_cons.mp h with rfl | h
    · exact ⟨[], rfl⟩
    · obtain ⟨front, hfront⟩ := ih h
      exact ⟨p :: front, by rw [hfront, cons_append]⟩

theorem up_trans (hab : a ∈ f.up b) (hbw : b ∈ f.up w) : a ∈ f.up w := by
  obtain ⟨front, hfront⟩ := up_split hbw
  rw [hfront]
  exact mem_append_right _ (mem_cons_of_mem _ hab)

theorem rank_lt_of_up (h : a ∈ f.up w) : f.rank a < f.rank w := by
  induction w using f.induct with
  | hroot w hp =>
    rw [up_none hp] at h
    cases h
  | hchild w p hp ih =>
    have hlt := f.rank_lt w p hp
    rw [up_some hp] at h
    rcases mem_cons.mp h with rfl | h
    · exact hlt
    · exact lt_trans (ih h) hlt

theorem not_mem_up_self (w : W) : w ∉ f.up w := fun h => lt_irrefl _ (rank_lt_of_up h)

theorem up_asymm (h : a ∈ f.up b) : b ∉ f.up a := fun h' =>
  Nat.lt_asymm (rank_lt_of_up h) (rank_lt_of_up h')

theorem up_nodup (w : W) : (f.up w).Nodup := by
  induction w using f.induct with
  | hroot w hp =>
    rw [up_none hp]
    exact nodup_nil
  | hchild w p hp ih =>
    rw [up_some hp]
    exact nodup_cons.mpr ⟨not_mem_up_self p, ih⟩

end

section

variable {W : Type} [DecidableEq W] (f : Forest W)

/-- What is above `w` and below `x`; all that is above `w` without an `x`. -/
def between (w : W) (x : Option W) : List W := (f.up w).takeWhile fun a => decide (some a ≠ x)

/-- The first node above `b` that is above `a` too. -/
def common (a b : W) : Option W := (f.up b).find? fun x => decide (x ∈ f.up a)

variable {f} {a b w x : W}

theorem between_none : f.between w none = f.up w :=
  takeWhile_eq_self_iff.mpr fun _ _ => decide_eq_true fun h => nomatch h

theorem between_of_split {front back : List W} (h : f.up w = front ++ x :: back) :
    f.between w (some x) = front := by
  have hnd := up_nodup (f := f) w
  rw [h] at hnd
  have hall : ∀ y ∈ front, decide (some y ≠ some x) = true := fun y hy => decide_eq_true fun he =>
    (nodup_append.mp hnd).2.2 y hy x mem_cons_self (Option.some.inj he)
  rw [between, h, takeWhile_append_of_pos hall, takeWhile_cons_of_neg (by simp), append_nil]

theorem up_eq_between (h : x ∈ f.up w) : f.up w = f.between w (some x) ++ x :: f.up x := by
  obtain ⟨front, hfront⟩ := up_split h
  rw [between_of_split hfront, hfront]

theorem mem_between (h : x ∈ f.up w) : a ∈ f.between w (some x) ↔ a ∈ f.up w ∧ a ≠ x ∧ a ∉ f.up x := by
  have hsplit := up_eq_between h
  have hnd := up_nodup (f := f) w
  rw [hsplit] at hnd
  constructor
  · intro ha
    have hne := (nodup_append.mp hnd).2.2 a ha
    refine ⟨hsplit ▸ mem_append_left _ ha, fun he => ?_, fun hup => ?_⟩
    · exact hne x mem_cons_self he
    · exact hne a (mem_cons_of_mem _ hup) rfl
  · rintro ⟨ha, hne, hup⟩
    rw [hsplit, mem_append, mem_cons] at ha
    exact ha.resolve_right fun h => h.elim hne hup

theorem common_some (hc : f.common a b = some x) :
    x ∈ f.up a ∧ x ∈ f.up b ∧ ∀ w ∈ f.between b (some x), w ∉ f.up a := by
  obtain ⟨hxa, front, back, hsplit, hfirst⟩ := find?_eq_some_iff_append.mp hc
  refine ⟨of_decide_eq_true hxa, hsplit ▸ mem_append_right _ mem_cons_self, fun w hw ha => ?_⟩
  rw [between_of_split hsplit] at hw
  have hnot := hfirst w hw
  rw [decide_eq_true ha] at hnot
  cases hnot

theorem common_none (hc : f.common a b = none) (hw : w ∈ f.up b) : w ∉ f.up a := by
  have hnot := find?_eq_none.mp hc w hw
  exact fun ha => hnot (decide_eq_true ha)

theorem mem_between_common : w ∈ f.between a (f.common a b) ↔ w ∈ f.up a ∧ w ∉ f.up b := by
  cases hc : f.common a b with
  | none =>
    rw [between_none]
    exact ⟨fun hw => ⟨hw, fun hb => common_none hc hb hw⟩, fun h => h.1⟩
  | some x =>
    obtain ⟨hxa, hxb, hfirst⟩ := common_some hc
    rw [mem_between hxa]
    refine and_congr_right fun hw => ⟨fun ⟨hne, hup⟩ hb => ?_, fun hb => ⟨?_, fun hup => ?_⟩⟩
    · exact hfirst w ((mem_between hxb).mpr ⟨hb, hne, hup⟩) hw
    · rintro rfl
      exact hb hxb
    · exact hb (up_trans hup hxb)

theorem mem_between_common_right : w ∈ f.between b (f.common a b) ↔ w ∈ f.up b ∧ w ∉ f.up a := by
  cases hc : f.common a b with
  | none =>
    rw [between_none]
    exact ⟨fun hw => ⟨hw, common_none hc hw⟩, fun h => h.1⟩
  | some x =>
    obtain ⟨hxa, hxb, hfirst⟩ := common_some hc
    constructor
    · exact fun hw => ⟨((mem_between hxb).mp hw).1, hfirst w hw⟩
    · rintro ⟨hw, ha⟩
      exact (mem_between hxb).mpr ⟨hw, fun he => ha (he ▸ hxa), fun hup => ha (up_trans hup hxa)⟩

end

end Forest

end Xfront.Forests
