import Mathlib

/-!
# Boxes of integer points

Half-open boxes and what a list of them covers, the bounding box of a set of points, and lists of
pairwise disjoint sets.
-/

namespace Xfront

section
variable {α β : Type} {s t : Set α} {l m : List (Set α)}

theorem pairwise_disjoint_perm (h : l.Perm m) : l.Pairwise Disjoint ↔ m.Pairwise Disjoint :=
  h.pairwise_iff fun h => h.symm

theorem pairwise_disjoint_merge :
    (s :: t :: l).Pairwise Disjoint ↔ Disjoint s t ∧ ((s ∪ t) :: l).Pairwise Disjoint := by
  simp only [List.pairwise_cons, List.mem_cons, forall_eq_or_imp, Set.disjoint_union_left]
  constructor
  · rintro ⟨⟨hst, hs⟩, ht, hl⟩
    exact ⟨hst, fun u hu => ⟨hs u hu, ht u hu⟩, hl⟩
  · rintro ⟨hst, hu, hl⟩
    exact ⟨⟨hst, fun u h => (hu u h).1⟩, fun u h => (hu u h).2, hl⟩

theorem flag_merge {flag flag' : Bool} (h : flag' = true ↔ flag = true ∨ ¬ Disjoint s t) :
    (flag' = true ∨ ¬ ((s ∪ t) :: l).Pairwise Disjoint) ↔
      (flag = true ∨ ¬ (s :: t :: l).Pairwise Disjoint) := by
  rw [h, pairwise_disjoint_merge, not_and_or, or_assoc]

end

/-- The points with `x1 ≤ x < x2` and `y1 ≤ y < y2`. -/
structure Box where
  x1 : Int
  y1 : Int
  x2 : Int
  y2 : Int
  deriving DecidableEq

namespace Box

def points (b : Box) : Set (Int × Int) :=
  {p | b.x1 ≤ p.1 ∧ p.1 < b.x2 ∧ b.y1 ≤ p.2 ∧ p.2 < b.y2}

def Nonempty (b : Box) : Prop := b.x1 < b.x2 ∧ b.y1 < b.y2

instance (b : Box) : Decidable b.Nonempty := inferInstanceAs (Decidable (_ ∧ _))

theorem mem_points {b : Box} {p : Int × Int} :
    p ∈ b.points ↔ b.x1 ≤ p.1 ∧ p.1 < b.x2 ∧ b.y1 ≤ p.2 ∧ p.2 < b.y2 := Iff.rfl

theorem corner_mem {b : Box} (h : b.Nonempty) : (b.x1, b.y1) ∈ b.points :=
  ⟨le_rfl, h.1, le_rfl, h.2⟩

end Box

def covers (bs : List Box) : Set (Int × Int) := {p | ∃ b ∈ bs, p ∈ b.points}

theorem mem_covers {bs : List Box} {p : Int × Int} : p ∈ covers bs ↔ ∃ b ∈ bs, p ∈ b.points :=
  Iff.rfl

@[simp] theorem covers_nil : covers [] = ∅ := by
  ext p
  simp [mem_covers]

@[simp] theorem covers_cons (b : Box) (bs : List Box) :
    covers (b :: bs) = b.points ∪ covers bs := by
  ext p
  simp [mem_covers]

@[simp] theorem covers_append (as bs : List Box) : covers (as ++ bs) = covers as ∪ covers bs := by
  ext p
  simp [mem_covers, or_and_right, exists_or]

theorem covers_perm {as bs : List Box} (h : as.Perm bs) : covers as = covers bs := by
  ext p
  simp only [mem_covers, h.mem_iff]

theorem disjoint_covers {s : Set (Int × Int)} {bs : List Box} :
    Disjoint s (covers bs) ↔ ∀ b ∈ bs, Disjoint s b.points := by
  simp only [Set.disjoint_left, mem_covers]
  constructor
  · intro h b hb p hp hpb
    exact h hp ⟨b, hb, hpb⟩
  · rintro h p hp ⟨b, hb, hpb⟩
    exact h b hb hp hpb

/-- `e` is the smallest box around `s`, which is not empty. -/
structure Bounds (e : Box) (s : Set (Int × Int)) : Prop where
  inside : ∀ p ∈ s, p ∈ e.points
  left : ∃ p ∈ s, p.1 = e.x1
  top : ∃ p ∈ s, p.2 = e.y1
  right : ∃ p ∈ s, p.1 + 1 = e.x2
  bottom : ∃ p ∈ s, p.2 + 1 = e.y2

namespace Bounds
variable {e f : Box} {s t : Set (Int × Int)}

theorem box {b : Box} (h : b.Nonempty) : Bounds b b.points where
  inside _ hp := hp
  left := ⟨(b.x1, b.y1), Box.corner_mem h, rfl⟩
  top := ⟨(b.x1, b.y1), Box.corner_mem h, rfl⟩
  right := ⟨(b.x2 - 1, b.y1), by obtain ⟨hx, hy⟩ := h; rw [Box.mem_points]; omega, by omega⟩
  bottom := ⟨(b.x1, b.y2 - 1), by obtain ⟨hx, hy⟩ := h; rw [Box.mem_points]; omega, by omega⟩

theorem unique (h : Bounds e s) (h' : Bounds f s) : e = f := by
  obtain ⟨hin, ⟨p, hp, hpe⟩, ⟨q, hq, hqe⟩, ⟨r, hr, hre⟩, ⟨u, hu, hue⟩⟩ := h
  obtain ⟨hin', ⟨p', hp', hpe'⟩, ⟨q', hq', hqe'⟩, ⟨r', hr', hre'⟩, ⟨u', hu', hue'⟩⟩ := h'
  have := hin' p hp
  have := hin' q hq
  have := hin' r hr
  have := hin' u hu
  have := hin p' hp'
  have := hin q' hq'
  have := hin r' hr'
  have := hin u' hu'
  simp only [Box.mem_points] at *
  obtain ⟨a, b, c, d⟩ := e
  obtain ⟨a', b', c', d'⟩ := f
  simp only [Box.mk.injEq] at *
  omega

theorem nonempty (h : Bounds e s) : e.Nonempty := by
  obtain ⟨p, hp, _⟩ := h.left
  have := h.inside p hp
  rw [Box.mem_points] at this
  exact ⟨by omega, by omega⟩

theorem union (h : Bounds e s) (h' : Bounds f t) :
    Bounds ⟨min e.x1 f.x1, min e.y1 f.y1, max e.x2 f.x2, max e.y2 f.y2⟩ (s ∪ t) := by
  have pick : ∀ {P : Int × Int → Prop} (c : Prop) [Decidable c], (c → ∃ p ∈ s, P p) →
      (¬ c → ∃ p ∈ t, P p) → ∃ p ∈ s ∪ t, P p := by
    intro P c _ hs ht
    by_cases hc : c
    · obtain ⟨p, hp, hP⟩ := hs hc
      exact ⟨p, .inl hp, hP⟩
    · obtain ⟨p, hp, hP⟩ := ht hc
      exact ⟨p, .inr hp, hP⟩
  refine ⟨?_, ?_, ?_, ?_, ?_⟩
  · rintro p (hp | hp)
    · have := h.inside p hp
      rw [Box.mem_points] at this ⊢
      dsimp only
      omega
    · have := h'.inside p hp
      rw [Box.mem_points] at this ⊢
      dsimp only
      omega
  · refine pick (e.x1 ≤ f.x1) (fun hc => ?_) (fun hc => ?_)
    · exact (min_eq_left hc).symm ▸ h.left
    · exact (min_eq_right (by omega : f.x1 ≤ e.x1)).symm ▸ h'.left
  · refine pick (e.y1 ≤ f.y1) (fun hc => ?_) (fun hc => ?_)
    · exact (min_eq_left hc).symm ▸ h.top
    · exact (min_eq_right (by omega : f.y1 ≤ e.y1)).symm ▸ h'.top
  · refine pick (f.x2 ≤ e.x2) (fun hc => ?_) (fun hc => ?_)
    · exact (max_eq_left hc).symm ▸ h.right
    · exact (max_eq_right (by omega : e.x2 ≤ f.x2)).symm ▸ h'.right
  · refine pick (f.y2 ≤ e.y2) (fun hc => ?_) (fun hc => ?_)
    · exact (max_eq_left hc).symm ▸ h.bottom
    · exact (max_eq_right (by omega : e.y2 ≤ f.y2)).symm ▸ h'.bottom

theorem of_boxes {bs : List Box} (hne : ∀ b ∈ bs, b.Nonempty)
    (hin : ∀ b ∈ bs, e.x1 ≤ b.x1 ∧ b.x2 ≤ e.x2 ∧ e.y1 ≤ b.y1 ∧ b.y2 ≤ e.y2)
    (hl : ∃ b ∈ bs, b.x1 = e.x1) (ht : ∃ b ∈ bs, b.y1 = e.y1) (hr : ∃ b ∈ bs, b.x2 = e.x2)
    (hb : ∃ b ∈ bs, b.y2 = e.y2) : Bounds e (covers bs) where
  inside := by
    rintro p ⟨b, hb, hp⟩
    have := hin b hb
    rw [Box.mem_points] at hp ⊢
    omega
  left := by
    obtain ⟨b, hb, hx⟩ := hl
    exact ⟨_, ⟨b, hb, Box.corner_mem (hne b hb)⟩, hx⟩
  top := by
    obtain ⟨b, hb, hx⟩ := ht
    exact ⟨_, ⟨b, hb, Box.corner_mem (hne b hb)⟩, hx⟩
  right := by
    obtain ⟨b, hb, hx⟩ := hr
    obtain ⟨h₁, h₂⟩ := hne b hb
    refine ⟨(b.x2 - 1, b.y1), ⟨b, hb, ?_⟩, by omega⟩
    rw [Box.mem_points]
    omega
  bottom := by
    obtain ⟨b, hb, hx⟩ := hb
    obtain ⟨h₁, h₂⟩ := hne b hb
    refine ⟨(b.x1, b.y2 - 1), ⟨b, hb, ?_⟩, by omega⟩
    rw [Box.mem_points]
    omega

end Bounds

def total {α : Type} (l : List (Set α)) : Set α := {p | ∃ s ∈ l, p ∈ s}

/-- The parts have the points of `orig`, and the flag accounts for the meetings that
cannot be seen in them any more. -/
structure Accounts {α : Type} (flag : Bool) (parts orig : List (Set α)) : Prop where
  total : total parts = total orig
  flag : (flag = true ∨ ¬ parts.Pairwise Disjoint) ↔ ¬ orig.Pairwise Disjoint

namespace Accounts
variable {α : Type} {flag flag' : Bool} {s t : Set α} {l m orig : List (Set α)}

theorem refl (orig : List (Set α)) : Accounts false orig orig := ⟨rfl, by simp⟩

theorem perm (h : Accounts flag l orig) (hp : l.Perm m) : Accounts flag m orig := by
  refine ⟨?_, by rw [← pairwise_disjoint_perm hp, h.flag]⟩
  rw [← h.total]
  ext p
  simp only [Xfront.total, hp.mem_iff]

theorem merge (h : Accounts flag (s :: t :: l) orig)
    (hf : flag' = true ↔ flag = true ∨ ¬ Disjoint s t) : Accounts flag' ((s ∪ t) :: l) orig := by
  refine ⟨?_, (flag_merge hf).trans h.flag⟩
  rw [← h.total]
  ext p
  simp [Xfront.total, or_assoc]

theorem single (h : Accounts flag [s] orig) :
    s = Xfront.total orig ∧ (flag = true ↔ ¬ orig.Pairwise Disjoint) := by
  refine ⟨?_, by rw [← h.flag]; simp⟩
  rw [← h.total]
  ext p
  simp [Xfront.total]

end Accounts

theorem total_points (bs : List Box) : total (bs.map Box.points) = covers bs := by
  ext p
  simp [total, mem_covers]

end Xfront
