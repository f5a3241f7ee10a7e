import Xfront.Selections.Owner

/-!
# Client times (dix/dixutils.c)

A time stamp is read as a number of milliseconds since month 0.
-/

namespace Xfront.Selections
open Nat BitVec

def TimeStamp.value (t : TimeStamp) : Nat := t.months.toNat * 2 ^ 32 + t.milliseconds.toNat

def distance (currentTime : TimeStamp) (c : BitVec 32) : Int :=
  (c - currentTime.milliseconds).toInt

/-- `CurrentTime` is left out, and the distance that is as far ahead as it is back. -/
def Placed (currentTime : TimeStamp) (c : BitVec 32) : Prop :=
  c ≠ 0 ∧ distance currentTime c ≠ -2 ^ 31

def BeyondMonths (currentTime : TimeStamp) (c : BitVec 32) : Prop :=
  (currentTime.value : Int) + distance currentTime c < 0 ∨
    2 ^ 64 ≤ (currentTime.value : Int) + distance currentTime c

instance (currentTime : TimeStamp) (c : BitVec 32) : Decidable (Placed currentTime c) :=
  inferInstanceAs (Decidable (_ ∧ _))

instance (currentTime : TimeStamp) (c : BitVec 32) : Decidable (BeyondMonths currentTime c) :=
  inferInstanceAs (Decidable (_ ∨ _))

/-- `EARLIER`, `SAMETIME` or `LATER` by two numbers. -/
def order (x y : Int) : Int := if x < y then earlier else if y < x then later else sameTime

theorem order_eq_later {x y : Int} : order x y = later ↔ y < x := by
  rw [order]
  split
  · exact iff_of_false (by decide) (by omega)
  · split
    · exact iff_of_true rfl (by omega)
    · exact iff_of_false (by decide) (by omega)

theorem order_eq_earlier {x y : Int} : order x y = earlier ↔ x < y := by
  rw [order]
  split
  · exact iff_of_true rfl (by omega)
  · split
    · exact iff_of_false (by decide) (by omega)
    · exact iff_of_false (by decide) (by omega)

theorem order_congr {x y x' y' : Int} (hlt : x < y ↔ x' < y') (hgt : y < x ↔ y' < x') :
    order x y = order x' y' := by
  rw [order, order]
  simp only [hlt, hgt]

theorem order_self (x : Int) : order x x = sameTime := by
  rw [order, if_neg (Int.lt_irrefl x), if_neg (Int.lt_irrefl x)]

theorem compareTimeStamps_eq (a b : TimeStamp) : compareTimeStamps a b = order a.value b.value := by
  have ham := a.milliseconds.isLt
  have hbm := b.milliseconds.isLt
  have ha : a.value = a.months.toNat * 2 ^ 32 + a.milliseconds.toNat := rfl
  have hb : b.value = b.months.toNat * 2 ^ 32 + b.milliseconds.toNat := rfl
  simp only [compareTimeStamps, lt_def, gt_iff_lt]
  by_cases hlt : a.months.toNat < b.months.toNat
  · rw [if_pos hlt]
    exact (order_eq_earlier.mpr (by omega)).symm
  · rw [if_neg hlt]
    by_cases hgt : b.months.toNat < a.months.toNat
    · rw [if_pos hgt]
      exact (order_eq_later.mpr (by omega)).symm
    · rw [if_neg hgt]
      by_cases hms : a.milliseconds.toNat < b.milliseconds.toNat
      · rw [if_pos hms]
        exact (order_eq_earlier.mpr (by omega)).symm
      · rw [if_neg hms]
        by_cases hms' : b.milliseconds.toNat < a.milliseconds.toNat
        · rw [if_pos hms']
          exact (order_eq_later.mpr (by omega)).symm
        · have heq : a.value = b.value := by omega
          rw [if_neg hms', heq, order_self]

theorem distance_eq (currentTime : TimeStamp) (c : BitVec 32) :
    distance currentTime c = let d : Int := (c.toNat : Int) - currentTime.milliseconds.toNat
      if d < -2 ^ 31 then d + 2 ^ 32 else if d < 2 ^ 31 then d else d - 2 ^ 32 := by
  have hc := c.isLt
  have hms := currentTime.milliseconds.isLt
  rw [distance, toInt_eq_toNat_cond, toNat_sub]
  dsimp only
  split <;> split
  · omega
  · split <;> omega
  · omega
  · split <;> omega

theorem clientTimeToServerTime_value {currentTime : TimeStamp} {c : BitVec 32}
    (h : Placed currentTime c) : ((clientTimeToServerTime currentTime c).value : Int) =
      currentTime.value + distance currentTime c +
        (if (currentTime.value : Int) + distance currentTime c < 0 then 2 ^ 64
        else if 2 ^ 64 ≤ (currentTime.value : Int) + distance currentTime c then -2 ^ 64 else 0) := by
  obtain ⟨hzero, hfar⟩ := h
  have hc := c.isLt
  have hm := currentTime.months.isLt
  have hms := currentTime.milliseconds.isLt
  rw [distance_eq] at hfar ⊢
  dsimp only at hfar ⊢
  have hlt : ∀ x y : BitVec 32, x < y ↔ x.toNat < y.toNat := fun x y => lt_def
  simp only [clientTimeToServerTime, if_neg hzero, gt_iff_lt, hlt, halfMonth]
  have hone : (1 : BitVec 32).toNat = 1 := rfl
  by_cases hahead : currentTime.milliseconds.toNat < c.toNat
  · rw [if_pos hahead]
    by_cases hhalf : 2 ^ 31 < c.toNat - currentTime.milliseconds.toNat
    · rw [if_pos hhalf]
      simp only [TimeStamp.value, toNat_sub, hone]
      split at hfar <;> split <;> omega
    · rw [if_neg hhalf]
      simp only [TimeStamp.value]
      split at hfar <;> split <;> omega
  · rw [if_neg hahead]
    by_cases hback : c.toNat < currentTime.milliseconds.toNat
    · rw [if_pos hback]
      by_cases hhalf : 2 ^ 31 < currentTime.milliseconds.toNat - c.toNat
      · rw [if_pos hhalf]
        simp only [TimeStamp.value, toNat_add, hone]
        split at hfar <;> split <;> omega
      · rw [if_neg hhalf]
        simp only [TimeStamp.value]
        split at hfar <;> split <;> omega
    · rw [if_neg hback]
      simp only [TimeStamp.value]
      split at hfar <;> split <;> omega

theorem distance_bounds (currentTime : TimeStamp) (c : BitVec 32) :
    -2 ^ 31 ≤ distance currentTime c ∧ distance currentTime c < 2 ^ 31 := by
  have hc := c.isLt
  have hms := currentTime.milliseconds.isLt
  rw [distance_eq]
  dsimp only
  split
  · omega
  · split <;> omega

theorem value_lt (t : TimeStamp) : t.value < 2 ^ 64 := by
  have hm := t.months.isLt
  have hms := t.milliseconds.isLt
  rw [TimeStamp.value]
  omega

section

variable {currentTime : TimeStamp} {c c₁ c₂ : BitVec 32}

theorem compare_iff (h₁ : Placed currentTime c₁) (h₂ : Placed currentTime c₂) :
    compareTimeStamps (clientTimeToServerTime currentTime c₁)
        (clientTimeToServerTime currentTime c₂) =
        order (distance currentTime c₁) (distance currentTime c₂) ↔
      (BeyondMonths currentTime c₁ ↔ BeyondMonths currentTime c₂) := by
  have hv₁ := clientTimeToServerTime_value h₁
  have hv₂ := clientTimeToServerTime_value h₂
  have hb₁ := distance_bounds currentTime c₁
  have hb₂ := distance_bounds currentTime c₂
  have hlt := value_lt currentTime
  rw [compareTimeStamps_eq, hv₁, hv₂, BeyondMonths, BeyondMonths]
  generalize distance currentTime c₁ = d₁ at *
  generalize distance currentTime c₂ = d₂ at *
  by_cases hout₁ : (currentTime.value : Int) + d₁ < 0 ∨ 2 ^ 64 ≤ (currentTime.value : Int) + d₁ <;>
    by_cases hout₂ : (currentTime.value : Int) + d₂ < 0 ∨ 2 ^ 64 ≤ (currentTime.value : Int) + d₂
  · -- both wrap around the same way
    refine iff_of_true (order_congr ?_ ?_) (iff_of_true hout₁ hout₂)
    · split <;> split <;> omega
    · split <;> split <;> omega
  · refine iff_of_false (fun heq => ?_) fun h => hout₂ (h.mp hout₁)
    rcases hout₁ with hunder | hover
    · have hearlier := heq.trans (order_eq_earlier.mpr (by omega : d₁ < d₂))
      rw [order_eq_earlier, if_pos hunder] at hearlier
      split at hearlier <;> omega
    · have hlater := heq.trans (order_eq_later.mpr (by omega : d₂ < d₁))
      rw [order_eq_later, if_neg (by omega), if_pos hover] at hlater
      split at hlater <;> omega
  · refine iff_of_false (fun heq => ?_) fun h => hout₁ (h.mpr hout₂)
    rcases hout₂ with hunder | hover
    · have hlater := heq.trans (order_eq_later.mpr (by omega : d₂ < d₁))
      rw [order_eq_later, if_pos hunder] at hlater
      split at hlater <;> omega
    · have hearlier := heq.trans (order_eq_earlier.mpr (by omega : d₁ < d₂))
      rw [order_eq_earlier] at hearlier
      split at hearlier <;> split at hearlier <;> omega
  · refine iff_of_true (order_congr ?_ ?_) (iff_of_false hout₁ hout₂)
    · split <;> split <;> omega
    · split <;> split <;> omega

theorem passed_iff (h : Placed currentTime c) (hpast : distance currentTime c ≤ 0) :
    compareTimeStamps (clientTimeToServerTime currentTime c) currentTime ≠ later ↔
      ¬ BeyondMonths currentTime c := by
  have hv := clientTimeToServerTime_value h
  have hb := distance_bounds currentTime c
  have hlt := value_lt currentTime
  rw [compareTimeStamps_eq, hv, Ne, order_eq_later, BeyondMonths]
  split <;> omega

end

inductive Update where
  | updateCurrentTime (now : BitVec 32)
  | noticeTimeMillis (ms : BitVec 32)

def timeSlop : Nat := 5 * 60 * 1000

def noticeTimeMillis (currentTime : TimeStamp) (ms : BitVec 32) : TimeStamp :=
  if ms < currentTime.milliseconds then
    if (currentTime.milliseconds - ms).toNat > timeSlop then ⟨currentTime.months + 1, ms⟩
    else currentTime
  else ⟨currentTime.months, ms⟩

def advance (currentTime : TimeStamp) : Update → TimeStamp
  | .updateCurrentTime now => updateCurrentTime currentTime now
  | .noticeTimeMillis ms => noticeTimeMillis currentTime ms

def moved (currentTime : TimeStamp) (u : Update) : Nat :=
  ((advance currentTime u).milliseconds - currentTime.milliseconds).toNat

def currentAfter (stamp : TimeStamp) (us : List Update) : TimeStamp := us.foldl advance stamp

def age : TimeStamp → List Update → Nat
  | _, [] => 0
  | stamp, u :: us => moved stamp u + age (advance stamp u) us

theorem value_next (t : TimeStamp) (ms : BitVec 32) (h : t.milliseconds.toNat ≤ ms.toNat) :
    TimeStamp.value ⟨t.months, ms⟩ = (t.value + (ms - t.milliseconds).toNat) % 2 ^ 64 := by
  have hm := t.months.isLt
  simp only [TimeStamp.value, toNat_sub]
  omega

theorem value_nextMonth (t : TimeStamp) (ms : BitVec 32) (h : ms.toNat < t.milliseconds.toNat) :
    TimeStamp.value ⟨t.months + 1, ms⟩ = (t.value + (ms - t.milliseconds).toNat) % 2 ^ 64 := by
  have hone : (1 : BitVec 32).toNat = 1 := rfl
  simp only [TimeStamp.value, toNat_sub, toNat_add, hone]
  omega

theorem value_same (t : TimeStamp) :
    t.value = (t.value + (t.milliseconds - t.milliseconds).toNat) % 2 ^ 64 := by
  have hlt := value_lt t
  rw [BitVec.sub_self, toNat_zero, add_zero, mod_eq_of_lt hlt]

theorem value_advance (t : TimeStamp) (u : Update) :
    (advance t u).value = (t.value + moved t u) % 2 ^ 64 := by
  cases u with
  | updateCurrentTime now =>
    rw [moved, advance, updateCurrentTime]
    by_cases hlt : now < t.milliseconds
    · rw [if_pos hlt]
      split
      · exact value_nextMonth t now hlt
      · exact value_same t
    · rw [if_neg hlt]
      split
      · exact value_next t now (not_lt.mp hlt)
      · exact value_same t
  | noticeTimeMillis ms =>
    rw [moved, advance, noticeTimeMillis]
    by_cases hlt : ms < t.milliseconds
    · rw [if_pos hlt]
      split
      · exact value_nextMonth t ms hlt
      · exact value_same t
    · rw [if_neg hlt]
      exact value_next t ms (not_lt.mp hlt)

theorem value_currentAfter (us : List Update) : ∀ stamp,
    (currentAfter stamp us).value = (stamp.value + age stamp us) % 2 ^ 64 := by
  induction us with
  | nil =>
    intro stamp
    rw [age, add_zero, mod_eq_of_lt (value_lt stamp)]
    rfl
  | cons u us ih =>
    intro stamp
    have hrest := ih (advance stamp u)
    rw [value_advance] at hrest
    rw [currentAfter, List.foldl_cons, age]
    refine hrest.trans ?_
    rw [mod_add_mod, add_assoc]

theorem value_inj {s t : TimeStamp} (h : s.value = t.value) : s = t := by
  have hs := s.milliseconds.isLt
  have ht := t.milliseconds.isLt
  rw [TimeStamp.value, TimeStamp.value] at h
  have hmonths : s.months = t.months := eq_of_toNat_eq (by omega)
  have hms : s.milliseconds = t.milliseconds := eq_of_toNat_eq (by omega)
  cases s
  cases t
  simp_all

theorem converts_back_iff {stamp : TimeStamp} {us : List Update} (h : age stamp us < 2 ^ 31) :
    clientTimeToServerTime (currentAfter stamp us) stamp.milliseconds = stamp ↔
      stamp.milliseconds ≠ 0 ∨ currentAfter stamp us = stamp := by
  have hvalue := value_currentAfter us stamp
  generalize currentAfter stamp us = t at hvalue
  by_cases hzero : stamp.milliseconds = 0
  · rw [clientTimeToServerTime, if_pos hzero]
    exact ⟨.inr, fun h => h.resolve_left (not_not_intro hzero)⟩
  · refine iff_of_true ?_ (.inl hzero)
    have hlt := value_lt stamp
    have hms := stamp.milliseconds.isLt
    have hms' := t.milliseconds.isLt
    have hs : stamp.value = stamp.months.toNat * 2 ^ 32 + stamp.milliseconds.toNat := rfl
    have ht : t.value = t.months.toNat * 2 ^ 32 + t.milliseconds.toNat := rfl
    have hdistance := distance_eq t stamp.milliseconds
    dsimp only at hdistance
    have hage : distance t stamp.milliseconds = -(age stamp us : Int) := by
      rw [hdistance]
      split
      · omega
      · split <;> omega
    have hplaced : Placed t stamp.milliseconds := ⟨hzero, by omega⟩
    have hconv := clientTimeToServerTime_value hplaced
    have hbound := value_lt (clientTimeToServerTime t stamp.milliseconds)
    rw [hage] at hconv
    refine value_inj ?_
    split at hconv
    · omega
    · split at hconv <;> omega

/-- Two client times compare as their distances unless just one of them lies beyond the months, a
time that has passed is not later unless it lies beyond them, and a stamp that is issued converts
back unless its milliseconds read as `CurrentTime`. -/
theorem clientTimes_iff (currentTime : TimeStamp) :
    (∀ c₁ c₂, Placed currentTime c₁ → Placed currentTime c₂ →
      (compareTimeStamps (clientTimeToServerTime currentTime c₁)
          (clientTimeToServerTime currentTime c₂) =
          order (distance currentTime c₁) (distance currentTime c₂) ↔
        (BeyondMonths currentTime c₁ ↔ BeyondMonths currentTime c₂))) ∧
      (∀ c, Placed currentTime c → distance currentTime c ≤ 0 →
        (compareTimeStamps (clientTimeToServerTime currentTime c) currentTime ≠ later ↔
          ¬ BeyondMonths currentTime c)) ∧ (∀ stamp us, age stamp us < 2 ^ 31 →
        (clientTimeToServerTime (currentAfter stamp us) stamp.milliseconds = stamp ↔
          stamp.milliseconds ≠ 0 ∨ currentAfter stamp us = stamp)) :=
  ⟨fun _ _ h₁ h₂ => compare_iff h₁ h₂, fun _ h hpast => passed_iff h hpast,
    fun _ _ h => converts_back_iff h⟩

/-- The fifth millisecond of month 1, and a client time ten milliseconds before it. -/
theorem clientTimes_iff_month1 :
    compareTimeStamps (clientTimeToServerTime ⟨1, 5⟩ 0xFFFFFFFB) ⟨1, 5⟩ ≠ later ↔
      ¬ BeyondMonths ⟨1, 5⟩ 0xFFFFFFFB :=
  (clientTimes_iff ⟨1, 5⟩).2.1 0xFFFFFFFB (by decide) (by decide)

/-- In month 0 the same client time is taken for one of the last month. -/
theorem clientTimes_month0 : Placed ⟨0, 5⟩ 0xFFFFFFFB ∧ distance ⟨0, 5⟩ 0xFFFFFFFB = -10 ∧
      compareTimeStamps (clientTimeToServerTime ⟨0, 5⟩ 0xFFFFFFFB) ⟨0, 5⟩ = later ∧
      compareTimeStamps (clientTimeToServerTime ⟨0, 5⟩ 0xFFFFFFFB)
        (clientTimeToServerTime ⟨0, 5⟩ 4) = later ∧ distance ⟨0, 5⟩ 4 = -1 := by
  decide

end Xfront.Selections
