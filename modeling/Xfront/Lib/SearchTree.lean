import Mathlib

/-!
# Search trees

Binary trees that are searched and extended along a path chosen by a comparison with the elements on
the way.
-/

namespace Xfront

inductive Tree (α : Type) where
  | nil
  | node (left : Tree α) (a : α) (right : Tree α)

namespace Tree
variable {α : Type}

def elems : Tree α → List α
  | nil => []
  | node left a right => left.elems ++ a :: right.elems

@[simp] theorem mem_elems_node {left right : Tree α} {a b : α} :
    b ∈ (node left a right).elems ↔ b = a ∨ b ∈ left.elems ∨ b ∈ right.elems := by
  simp only [elems, List.mem_append, List.mem_cons]
  exact ⟨fun h => h.elim (fun h => .inr (.inl h)) (·.imp_right .inr),
    fun h => h.elim (fun h => .inr (.inl h)) (·.imp_right .inr)⟩

def find (side : α → Ordering) : Tree α → Option α
  | nil => none
  | node left a right =>
    match side a with
    | .lt => left.find side
    | .gt => right.find side
    | .eq => some a

def link (side : α → Ordering) (new : α) : Tree α → Tree α
  | nil => node nil new nil
  | node left a right =>
    match side a with
    | .lt => node (left.link side new) a right
    | .gt => node left a (right.link side new)
    | .eq => node left a right

variable {κ : Type} [LinearOrder κ] {key : α → κ} {k : κ} {side : α → Ordering} {t : Tree α}

def Ordered (key : α → κ) : Tree α → Prop
  | nil => True
  | node left a right => left.Ordered key ∧ right.Ordered key ∧
    (∀ b ∈ left.elems, key b < key a) ∧ ∀ b ∈ right.elems, key a < key b

/-- On this tree the comparison is that of `k` with the keys. -/
def Steers (key : α → κ) (k : κ) (side : α → Ordering) (t : Tree α) : Prop :=
  ∀ a ∈ t.elems, (side a).Compares k (key a)

variable {l r : Tree α} {a : α}

theorem Steers.left (h : Steers key k side (node l a r)) :
    Steers key k side l := fun b hb => h b (mem_elems_node.mpr (.inr (.inl hb)))

theorem Steers.right (h : Steers key k side (node l a r)) :
    Steers key k side r := fun b hb => h b (mem_elems_node.mpr (.inr (.inr hb)))

theorem Steers.root (h : Steers key k side (node l a r)) :
    (side a).Compares k (key a) := h a (mem_elems_node.mpr (.inl rfl))

theorem find_eq_some (ho : t.Ordered key) (hs : Steers key k side t) :
    t.find side = some a ↔ a ∈ t.elems ∧ key a = k := by
  induction t with
  | nil => simp [find, elems]
  | node l b r ihl ihr =>
    obtain ⟨hl, hr, hbl, hbr⟩ := ho
    have hroot := hs.root
    rw [find, mem_elems_node]
    cases hside : side b with
    | lt =>
      rw [hside] at hroot
      have hlt : k < key b := hroot
      rw [ihl hl hs.left]
      constructor
      · exact fun ⟨ha, hk⟩ => ⟨.inr (.inl ha), hk⟩
      · rintro ⟨rfl | ha | ha, hk⟩
        · exact absurd hlt (hk ▸ lt_irrefl _)
        · exact ⟨ha, hk⟩
        · exact absurd (hlt.trans (hbr a ha)) (hk ▸ lt_irrefl _)
    | gt =>
      rw [hside] at hroot
      have hgt : key b < k := hroot
      rw [ihr hr hs.right]
      constructor
      · exact fun ⟨ha, hk⟩ => ⟨.inr (.inr ha), hk⟩
      · rintro ⟨rfl | ha | ha, hk⟩
        · exact absurd hgt (hk ▸ lt_irrefl _)
        · exact absurd (lt_trans (hbl a ha) hgt) (hk ▸ lt_irrefl _)
        · exact ⟨ha, hk⟩
    | eq =>
      rw [hside] at hroot
      have heq : k = key b := hroot
      constructor
      · rintro ⟨⟩
        exact ⟨.inl rfl, heq.symm⟩
      · rintro ⟨rfl | ha | ha, hk⟩
        · rfl
        · exact absurd (hbl a ha) (hk.trans heq ▸ lt_irrefl _)
        · exact absurd (hbr a ha) (hk.trans heq ▸ lt_irrefl _)

theorem find_eq_none (ho : t.Ordered key) (hs : Steers key k side t) :
    t.find side = none ↔ ∀ a ∈ t.elems, key a ≠ k := by
  constructor
  · intro h a ha hk
    rw [(find_eq_some ho hs).mpr ⟨ha, hk⟩] at h
    cases h
  · intro h
    cases hf : t.find side with
    | none => rfl
    | some a =>
      obtain ⟨ha, hk⟩ := (find_eq_some ho hs).mp hf
      exact absurd hk (h a ha)

theorem Ordered.key_inj (ho : t.Ordered key) {b : α} (ha : a ∈ t.elems) (hb : b ∈ t.elems)
    (hk : key a = key b) : a = b := by
  have hs : Steers key (key a) (fun x => cmp (key a) (key x)) t := fun x _ => cmp_compares ..
  have h₁ := (find_eq_some ho hs).mpr ⟨ha, rfl⟩
  have h₂ := (find_eq_some ho hs).mpr ⟨hb, hk.symm⟩
  exact Option.some.inj (h₁.symm.trans h₂)

theorem mem_link {new b : α} (hf : t.find side = none) :
    b ∈ (t.link side new).elems ↔ b = new ∨ b ∈ t.elems := by
  induction t with
  | nil => simp [link, elems]
  | node l a r ihl ihr =>
    rw [find] at hf
    rw [link]
    cases hside : side a with
    | lt =>
      rw [hside] at hf
      rw [mem_elems_node, mem_elems_node, ihl hf, or_assoc, or_left_comm]
    | gt =>
      rw [hside] at hf
      rw [mem_elems_node, mem_elems_node, ihr hf, or_left_comm (b := b = new), or_left_comm]
    | eq =>
      rw [hside] at hf
      cases hf

theorem link_ordered {new : α} (ho : t.Ordered key) (hs : Steers key (key new) side t)
    (hf : t.find side = none) : (t.link side new).Ordered key := by
  induction t with
  | nil => exact ⟨trivial, trivial, nofun, nofun⟩
  | node l a r ihl ihr =>
    obtain ⟨hl, hr, hal, har⟩ := ho
    have hroot := hs.root
    rw [find] at hf
    rw [link]
    cases hside : side a with
    | lt =>
      rw [hside] at hf
      refine ⟨ihl hl hs.left hf, hr, fun b hb => ?_, har⟩
      rcases (mem_link hf).mp hb with rfl | hb
      · exact (show Ordering.Compares .lt (key b) (key a) from hside ▸ hroot)
      · exact hal b hb
    | gt =>
      rw [hside] at hf
      refine ⟨hl, ihr hr hs.right hf, hal, fun b hb => ?_⟩
      rcases (mem_link hf).mp hb with rfl | hb
      · exact (show Ordering.Compares .gt (key b) (key a) from hside ▸ hroot)
      · exact har b hb
    | eq =>
      rw [hside] at hf
      cases hf

end Tree

end Xfront
