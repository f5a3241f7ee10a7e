import Mathlib

/-!
# Walks that start over

A walk along a list on which some elements are hits. A hit drops its mates from the list, before
and behind it; the walk starts over when the next element is dropped. `visits` is the order in
which elements are looked at.
-/

namespace Xfront.Restart
open Prod

open List

variable {α : Type}

section

variable (hit : α → Bool) (mate : α → α → Bool)

def keep (p : α) (l : List α) : List α := l.filter fun q => !mate p q

def startsOver (p : α) (rest : List α) : Bool := rest.head?.any (mate p)

theorem length_keep_le (p : α) (l : List α) : (keep mate p l).length ≤ l.length :=
  length_filter_le _ l

/-- `pre` is behind the walk, which goes on with `rest`. -/
def visits (pre rest : List α) : List α :=
  match rest with
  | [] => []
  | p :: rest =>
    p :: if hit p then
      if startsOver mate p rest then visits [] (keep mate p (pre ++ rest))
      else visits (keep mate p pre) (keep mate p rest)
    else visits (pre ++ [p]) rest
termination_by (pre.length + rest.length, rest.length)
decreasing_by
  · have := length_keep_le mate p (pre ++ rest)
    simp only [lex_def, length_cons, length_nil, length_append] at *
    omega
  · have := length_keep_le mate p pre
    have := length_keep_le mate p rest
    simp only [lex_def, length_cons] at *
    omega
  · simp only [lex_def, length_cons, length_append, length_nil]
    omega

def again (rest : List α) : Bool :=
  match rest with
  | [] => false
  | p :: rest =>
    if hit p then startsOver mate p rest || again (keep mate p rest) else again rest
termination_by rest.length
decreasing_by
  · have := length_keep_le mate p rest
    simp only [length_cons]
    omega
  · simp only [length_cons]
    omega

def againAfter [DecidableEq α] (a : α) (rest : List α) : Bool :=
  match rest with
  | [] => false
  | p :: rest =>
    if p = a then again hit mate rest
    else if hit p then againAfter a (keep mate p rest)
    else againAfter a rest
termination_by rest.length
decreasing_by
  · have := length_keep_le mate p rest
    simp only [length_cons]
    omega
  · simp only [length_cons]
    omega

end

section

variable {hit : α → Bool} {mate : α → α → Bool}

theorem visits_nil (pre : List α) : visits hit mate pre [] = [] := by rw [visits]

variable {pre rest : List α} {p : α}

theorem visits_hit (hp : hit p = true) : visits hit mate pre (p :: rest) =
      p :: if startsOver mate p rest then visits hit mate [] (keep mate p (pre ++ rest))
        else visits hit mate (keep mate p pre) (keep mate p rest) := by
  rw [visits, if_pos hp]

theorem visits_miss (hp : hit p = false) :
    visits hit mate pre (p :: rest) = p :: visits hit mate (pre ++ [p]) rest := by
  rw [visits, if_neg (by simp [hp])]

variable {q : α}

theorem mem_keep {l : List α} : q ∈ keep mate p l ↔ q ∈ l ∧ mate p q = false := by
  simp [keep, mem_filter]

theorem keep_append (p : α) (l₁ l₂ : List α) :
    keep mate p (l₁ ++ l₂) = keep mate p l₁ ++ keep mate p l₂ := filter_append l₁ l₂

theorem visits_over (hp : hit p = true) (hover : startsOver mate p rest = true) :
    visits hit mate pre (p :: rest) = p :: visits hit mate [] (keep mate p (pre ++ rest)) := by
  rw [visits_hit hp, if_pos hover]

theorem visits_on (hp : hit p = true) (hover : startsOver mate p rest = false) :
    visits hit mate pre (p :: rest) =
      p :: visits hit mate (keep mate p pre) (keep mate p rest) := by
  rw [visits_hit hp, if_neg (by simp [hover])]

theorem visits_induction (hit : α → Bool) (mate : α → α → Bool)
    {motive : List α → List α → Prop} (hnil : ∀ pre, motive pre [])
    (hover : ∀ pre p rest, hit p = true → startsOver mate p rest = true →
      motive [] (keep mate p (pre ++ rest)) → motive pre (p :: rest))
    (hon : ∀ pre p rest, hit p = true → startsOver mate p rest = false →
      motive (keep mate p pre) (keep mate p rest) → motive pre (p :: rest))
    (hmiss : ∀ pre p rest, hit p = false → motive (pre ++ [p]) rest → motive pre (p :: rest))
    (pre rest : List α) : motive pre rest := by
  induction pre, rest using visits.induct mate with
  | case1 pre => exact hnil pre
  | case2 pre p rest ihover ihon ihmiss =>
    cases hp : hit p with
    | false => exact hmiss pre p rest hp ihmiss
    | true =>
      cases hs : startsOver mate p rest with
      | false => exact hon pre p rest hp hs ihon
      | true => exact hover pre p rest hp hs ihover

theorem length_visits_le (pre rest : List α) : (visits hit mate pre rest).length ≤
      (pre.length + rest.length) * (pre.length + rest.length) + rest.length := by
  induction pre, rest using visits_induction hit mate with
  | hnil pre => simp [visits_nil]
  | hover pre p rest hp hs ih =>
    rw [visits_over hp hs, length_cons, length_cons]
    have hlen := length_keep_le mate p (pre ++ rest)
    rw [length_nil, zero_add] at ih
    rw [length_append] at hlen
    generalize (keep mate p (pre ++ rest)).length = n at *
    nlinarith
  | hon pre p rest hp hs ih =>
    rw [visits_on hp hs, length_cons, length_cons]
    have hpre := length_keep_le mate p pre
    have hrest := length_keep_le mate p rest
    generalize (keep mate p pre).length = m at *
    generalize (keep mate p rest).length = n at *
    nlinarith
  | hmiss pre p rest hp ih =>
    rw [visits_miss hp, length_cons, length_cons]
    rw [length_append, length_singleton] at ih
    have heq : pre.length + 1 + rest.length = pre.length + (rest.length + 1) := by omega
    rw [heq] at ih
    omega

theorem mem_of_mem_visits (hq : q ∈ visits hit mate pre rest) : q ∈ pre ++ rest := by
  induction pre, rest using visits_induction hit mate with
  | hnil pre => simp [visits_nil] at hq
  | hover pre p rest hp hs ih =>
    rw [visits_over hp hs] at hq
    rcases mem_cons.mp hq with rfl | hq
    · simp
    · have := (mem_keep.mp (ih hq)).1
      simp only [mem_append, mem_cons] at this ⊢
      tauto
  | hon pre p rest hp hs ih =>
    rw [visits_on hp hs] at hq
    rcases mem_cons.mp hq with rfl | hq
    · simp
    · rw [← keep_append] at ih
      have := (mem_keep.mp (ih hq)).1
      simp only [mem_append, mem_cons] at this ⊢
      tauto
  | hmiss pre p rest hp ih =>
    rw [visits_miss hp] at hq
    rcases mem_cons.mp hq with rfl | hq
    · simp
    · simpa using ih hq

structure Mates (hit : α → Bool) (mate : α → α → Bool) : Prop where
  trans : ∀ p q r, hit p = true → hit q = true → mate p r = true → mate q r = true →
    ∀ x, mate p x = mate q x
  refl : ∀ p, hit p = true → mate p p = true

theorem any_keep (hm : Mates hit mate) (hp : hit p = true) (hpq : mate p q = false) (l : List α) :
    (keep mate p l).any (fun x => hit x && mate x q) = l.any (fun x => hit x && mate x q) := by
  rw [Bool.eq_iff_iff]
  simp only [any_eq_true, mem_keep, Bool.and_eq_true]
  constructor
  · rintro ⟨x, ⟨hx, _⟩, hhit, hmate⟩
    exact ⟨x, hx, hhit, hmate⟩
  · rintro ⟨x, hx, hhit, hmate⟩
    refine ⟨x, ⟨hx, ?_⟩, hhit, hmate⟩
    by_contra hne
    rw [Bool.not_eq_false] at hne
    have hsame := hm.trans p x x hp hhit hne (hm.refl x hhit) q
    rw [hpq, hmate] at hsame
    cases hsame

theorem any_keep_mate (hm : Mates hit mate) (hp : hit p = true) (hpq : mate p q = true)
    (l : List α) : (keep mate p l).any (fun x => hit x && mate x q) = false := by
  rw [any_eq_false]
  intro x hx hand
  rw [Bool.and_eq_true] at hand
  have hsame := hm.trans p x q hp hand.1 hpq hand.2 x
  rw [(mem_keep.mp hx).2, hm.refl x hand.1] at hsame
  cases hsame

theorem any_miss (hpre : ∀ p ∈ pre, hit p = false) (q : α) :
    pre.any (fun p => hit p && mate p q) = false := by
  rw [any_eq_false]
  intro p hp hand
  rw [hpre p hp] at hand
  exact absurd hand (by simp)

theorem countP_hit (hm : Mates hit mate) (hpre : ∀ p ∈ pre, hit p = false) (q : α) :
    (visits hit mate pre rest).countP (fun p => hit p && mate p q) =
      if rest.any (fun p => hit p && mate p q) then 1 else 0 := by
  induction pre, rest using visits_induction hit mate with
  | hnil pre => simp [visits_nil]
  | hover pre p rest hp hs ih =>
    rw [visits_over hp hs, countP_cons, ih (by simp), keep_append, any_append,
      any_cons, hp, Bool.true_and]
    have hnone : (keep mate p pre).any (fun x => hit x && mate x q) = false :=
      any_miss (fun x hx => hpre x (mem_keep.mp hx).1) q
    rw [hnone, Bool.false_or]
    cases hpq : mate p q with
    | false => rw [any_keep hm hp hpq]; simp
    | true => rw [any_keep_mate hm hp hpq]; simp
  | hon pre p rest hp hs ih =>
    rw [visits_on hp hs, countP_cons, ih fun x hx => hpre x (mem_keep.mp hx).1,
      any_cons, hp, Bool.true_and]
    cases hpq : mate p q with
    | false => rw [any_keep hm hp hpq]; simp
    | true => rw [any_keep_mate hm hp hpq]; simp
  | hmiss pre p rest hp ih =>
    rw [visits_miss hp, countP_cons, ih, any_cons, hp]
    · simp
    · intro x hx
      rcases mem_append.mp hx with hx | hx
      · exact hpre x hx
      · rw [mem_singleton.mp hx]
        exact hp

theorem again_nil : again hit mate [] = false := by rw [again]

theorem again_hit (hp : hit p = true) (rest : List α) :
    again hit mate (p :: rest) = (startsOver mate p rest || again hit mate (keep mate p rest)) := by
  rw [again, if_pos hp]

theorem again_miss (hp : hit p = false) (rest : List α) :
    again hit mate (p :: rest) = again hit mate rest := by
  rw [again, if_neg (by simp [hp])]

section

variable {a : α} (ha : ∀ p, hit p = true → mate p a = false) (hmiss : hit a = false)

include ha

theorem mem_keep_iff {p : α} (hp : hit p = true) (l : List α) : a ∈ keep mate p l ↔ a ∈ l := by
  rw [mem_keep, ha p hp, and_iff_left rfl]

include hmiss in
omit ha in
theorem ne_of_hit {p : α} (hp : hit p = true) : p ≠ a := by
  rintro rfl
  rw [hmiss] at hp
  cases hp

variable [DecidableEq α] {pre rest : List α}

theorem one_le_count (hmem : a ∈ rest) : 1 ≤ (visits hit mate pre rest).count a := by
  induction pre, rest using visits_induction hit mate with
  | hnil pre => cases hmem
  | hover pre p rest hp hs ih =>
    rw [visits_over hp hs, count_cons]
    rcases mem_cons.mp hmem with rfl | hmem
    · simp
    · have := ih ((mem_keep_iff ha hp _).mpr (mem_append_right pre hmem))
      omega
  | hon pre p rest hp hs ih =>
    rw [visits_on hp hs, count_cons]
    rcases mem_cons.mp hmem with rfl | hmem
    · simp
    · have := ih ((mem_keep_iff ha hp _).mpr hmem)
      omega
  | hmiss pre p rest hp ih =>
    rw [visits_miss hp, count_cons]
    rcases mem_cons.mp hmem with rfl | hmem
    · simp
    · have := ih hmem
      omega

include hmiss

theorem count_pre (hmem : a ∈ pre) (hnot : a ∉ rest) :
    1 ≤ (visits hit mate pre rest).count a ↔ again hit mate rest = true := by
  induction pre, rest using visits_induction hit mate with
  | hnil pre => simp [visits_nil, again_nil]
  | hover pre p rest hp hs ih =>
    rw [visits_over hp hs, again_hit hp, hs, Bool.true_or, count_cons_of_ne (ne_of_hit hmiss hp)]
    refine iff_of_true (one_le_count ha ?_) rfl
    exact (mem_keep_iff ha hp _).mpr (mem_append_left rest hmem)
  | hon pre p rest hp hs ih =>
    rw [visits_on hp hs, again_hit hp, hs, Bool.false_or, count_cons_of_ne (ne_of_hit hmiss hp)]
    exact ih ((mem_keep_iff ha hp _).mpr hmem)
      fun h => hnot (mem_cons_of_mem p ((mem_keep_iff ha hp _).mp h))
  | hmiss pre p rest hp ih =>
    have hne : p ≠ a := fun h => hnot (h ▸ mem_cons_self)
    rw [visits_miss hp, again_miss hp, count_cons_of_ne hne]
    exact ih (mem_append_left _ hmem) fun h => hnot (mem_cons_of_mem p h)

omit ha hmiss in
theorem againAfter_append (hpre : ∀ p ∈ pre, hit p = false) (hnot : a ∉ pre)
    (rest : List α) : againAfter hit mate a (pre ++ rest) = againAfter hit mate a rest := by
  induction pre with
  | nil => rfl
  | cons p pre ih =>
    have hp := hpre p mem_cons_self
    rw [mem_cons, not_or] at hnot
    rw [cons_append, againAfter, if_neg (Ne.symm hnot.1), if_neg (by simp [hp])]
    exact ih (fun x hx => hpre x (mem_cons_of_mem p hx)) hnot.2

theorem two_le_count (hpre : ∀ p ∈ pre, hit p = false)
    (hnodup : (pre ++ rest).Nodup) (hmem : a ∈ rest) :
    2 ≤ (visits hit mate pre rest).count a ↔ againAfter hit mate a rest = true := by
  induction pre, rest using visits_induction hit mate with
  | hnil pre => cases hmem
  | hover pre p rest hp hs ih =>
    have hne := ne_of_hit hmiss hp
    have hrest := mem_of_ne_of_mem (Ne.symm hne) hmem
    have hsub : (pre ++ rest).Sublist (pre ++ p :: rest) :=
      (sublist_cons_self p rest).append_left pre
    have hnot : a ∉ keep mate p pre := by
      intro h
      exact (disjoint_of_nodup_append hnodup) (mem_keep.mp h).1 hmem
    have hmiss' : ∀ x ∈ keep mate p pre, hit x = false := fun x hx => hpre x (mem_keep.mp hx).1
    have hcount := ih (by simp) ((hnodup.sublist hsub).filter _)
      ((mem_keep_iff ha hp _).mpr (mem_append_right pre hrest))
    rw [keep_append, againAfter_append hmiss' hnot] at hcount
    rw [visits_over hp hs, count_cons_of_ne hne, againAfter, if_neg hne, if_pos hp, keep_append]
    exact hcount
  | hon pre p rest hp hs ih =>
    have hne := ne_of_hit hmiss hp
    have hrest := mem_of_ne_of_mem (Ne.symm hne) hmem
    have hsub : (pre ++ rest).Sublist (pre ++ p :: rest) :=
      (sublist_cons_self p rest).append_left pre
    rw [visits_on hp hs, count_cons_of_ne hne, againAfter, if_neg hne, if_pos hp]
    refine ih (fun x hx => hpre x (mem_keep.mp hx).1) ?_ ((mem_keep_iff ha hp _).mpr hrest)
    rw [← keep_append]
    exact (hnodup.sublist hsub).filter _
  | hmiss pre p rest hp ih =>
    rw [visits_miss hp, againAfter]
    by_cases hpa : p = a
    · subst hpa
      have hnot := (nodup_cons.mp (nodup_append.mp hnodup).2.1).1
      have hpre' : p ∈ pre ++ [p] := mem_append_right pre mem_cons_self
      rw [if_pos rfl, count_cons_self, ← count_pre ha hmiss hpre' hnot]
      omega
    · rw [if_neg hpa, if_neg (by simp [hp]), count_cons_of_ne hpa]
      refine ih ?_ ?_ (mem_of_ne_of_mem (Ne.symm hpa) hmem)
      · intro x hx
        rcases mem_append.mp hx with hx | hx
        · exact hpre x hx
        · rw [mem_singleton.mp hx]
          exact hp
      · rwa [append_assoc, singleton_append]

end

end

end Xfront.Restart
