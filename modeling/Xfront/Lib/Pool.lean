import Mathlib

/-!
# Recycled cells

Cells on a heap that owners hold through an address and pass on through a free list.
-/

namespace Xfront

open List Option Function

structure Pool (κ β : Type) where
  cell : Nat → Option β
  next : Nat
  owner : κ → Option Nat
  free : List Nat

namespace Pool
variable {κ β : Type}

structure WF (p : Pool κ β) : Prop where
  owned : ∀ {k a}, p.owner k = some a → ∃ x, p.cell a = some x
  inj : ∀ {k k' a}, p.owner k = some a → p.owner k' = some a → k = k'
  apart : ∀ {k a}, p.owner k = some a → a ∉ p.free
  nodup : p.free.Nodup
  alive : ∀ {a}, a ∈ p.free → ∃ x, p.cell a = some x
  fresh : ∀ {a}, p.next ≤ a → p.cell a = none

def empty : Pool κ β := ⟨fun _ => none, 0, fun _ => none, []⟩

theorem empty_wf : (empty : Pool κ β).WF :=
  ⟨fun h => (by cases h), fun h => (by cases h), fun h => (by cases h), nodup_nil,
    fun h => (by cases h), fun _ => rfl⟩

def content (p : Pool κ β) (k : κ) : Option β := (p.owner k).bind p.cell

def AllFree (p : Pool κ β) (P : β → Prop) : Prop := ∀ a ∈ p.free, ∀ x, p.cell a = some x → P x

theorem content_eq {p : Pool κ β} {k : κ} {a : Nat} (h : p.owner k = some a) :
    p.content k = p.cell a := by
  rw [content, h, bind_some]

theorem content_none {p : Pool κ β} {k : κ} (h : p.owner k = none) : p.content k = none := by
  rw [content, h, bind_none]

def put (p : Pool κ β) (a : Nat) (x : β) : Pool κ β :=
  { p with cell := update p.cell a (some x) }

section
variable {p : Pool κ β} {k k' : κ} {a : Nat} {x : β} {rest : List Nat} {P : β → Prop}

@[simp] theorem put_owner : (p.put a x).owner = p.owner := rfl
@[simp] theorem put_cell_self : (p.put a x).cell a = some x := update_self ..
@[simp] theorem put_free : (p.put a x).free = p.free := rfl

theorem WF.ne_of_owner (h : p.WF) (ho : p.owner k = some a) (hne : k' ≠ k) :
    p.owner k' ≠ some a := fun h' => hne (h.inj h' ho)

theorem WF.lt_next (h : p.WF) (hx : p.cell a = some x) : a < p.next := by
  by_contra hle
  rw [h.fresh (not_lt.mp hle)] at hx
  cases hx

theorem WF.next_not_free (h : p.WF) : p.next ∉ p.free := by
  intro hm
  obtain ⟨y, hy⟩ := h.alive hm
  rw [h.fresh (le_refl _)] at hy
  cases hy

theorem WF.put (h : p.WF) (hx : ∃ y, p.cell a = some y) : (p.put a x).WF := by
  have hsome : ∀ {b}, (∃ y, p.cell b = some y) → ∃ y, update p.cell a (some x) b = some y := by
    intro b hb
    by_cases hba : b = a
    · subst hba
      exact ⟨x, update_self ..⟩
    · rwa [update_of_ne hba]
  refine ⟨fun ho => hsome (h.owned ho), h.inj, h.apart, h.nodup, fun hm => hsome (h.alive hm), ?_⟩
  intro b hb
  obtain ⟨y, hy⟩ := hx
  have hlt : a < p.next := by
    by_contra hle
    rw [h.fresh (not_lt.mp hle)] at hy
    cases hy
  have hne : b ≠ a := by
    rintro rfl
    exact absurd hlt (not_lt.mpr hb)
  simp only [Pool.put, update_of_ne hne]
  exact h.fresh hb

theorem content_put_self (ho : p.owner k = some a) : (p.put a x).content k = some x := by
  rw [content_eq (p := p.put a x) ho]
  exact update_self ..

theorem content_put_of_ne (h : p.WF) (ho : p.owner k = some a) (hne : k' ≠ k) :
    (p.put a x).content k' = p.content k' := by
  have hne' := h.ne_of_owner ho hne
  simp only [content, Pool.put]
  cases ho' : p.owner k' with
  | none => rfl
  | some b =>
    have hb : b ≠ a := by
      rintro rfl
      exact hne' ho'
    simp only [bind_some, update_of_ne hb]

theorem AllFree.put (hf : p.AllFree P) (ha : a ∉ p.free) : (p.put a x).AllFree P := by
  intro b hb y hy
  have hne : b ≠ a := by
    rintro rfl
    exact ha hb
  simp only [Pool.put, update_of_ne hne] at hy
  exact hf b hb y hy

variable [DecidableEq κ]

def release (p : Pool κ β) (k : κ) (a : Nat) : Pool κ β :=
  { p with owner := update p.owner k none, free := a :: p.free }

def discard (p : Pool κ β) (k : κ) (a : Nat) : Pool κ β :=
  { p with owner := update p.owner k none, cell := update p.cell a none }

/-- `k` takes the first cell of the free list `a :: rest`. -/
def acquire (p : Pool κ β) (k : κ) (a : Nat) (rest : List Nat) : Pool κ β :=
  { p with owner := update p.owner k (some a), free := rest }

def alloc (p : Pool κ β) (k : κ) (x : β) : Pool κ β :=
  { p with cell := update p.cell p.next (some x), next := p.next + 1,
           owner := update p.owner k (some p.next) }

theorem owner_release_ne (hne : k' ≠ k) : (p.release k a).owner k' = p.owner k' :=
  update_of_ne hne ..

theorem WF.release (h : p.WF) (ho : p.owner k = some a) : (p.release k a).WF := by
  have hsome : ∀ {k' b}, (p.release k a).owner k' = some b → k' ≠ k ∧ p.owner k' = some b := by
    intro k' b hb
    by_cases hkk : k' = k
    · subst hkk
      simp only [Pool.release, update_self] at hb
      cases hb
    · exact ⟨hkk, by rwa [owner_release_ne hkk] at hb⟩
  refine ⟨fun hb => h.owned (hsome hb).2, fun hb hb' => h.inj (hsome hb).2 (hsome hb').2, ?_,
    nodup_cons.mpr ⟨h.apart ho, h.nodup⟩, ?_, h.fresh⟩
  · intro k' b hb hm
    obtain ⟨hkk, hb'⟩ := hsome hb
    rcases mem_cons.mp hm with rfl | hm
    · exact hkk (h.inj hb' ho)
    · exact h.apart hb' hm
  · intro b hm
    rcases mem_cons.mp hm with rfl | hm
    · exact h.owned ho
    · exact h.alive hm

theorem content_release_self : (p.release k a).content k = none := content_none (update_self ..)

theorem content_release_of_ne (hne : k' ≠ k) : (p.release k a).content k' = p.content k' := by
  simp only [content, owner_release_ne hne]
  rfl

theorem AllFree.release (hf : p.AllFree P) (hx : ∀ x, p.cell a = some x → P x) :
    (p.release k a).AllFree P := by
  intro b hb y hy
  rcases mem_cons.mp hb with rfl | hb
  · exact hx y hy
  · exact hf b hb y hy

theorem WF.discard (h : p.WF) (ho : p.owner k = some a) : (p.discard k a).WF := by
  have hsome : ∀ {k' b}, (p.discard k a).owner k' = some b → b ≠ a ∧ p.owner k' = some b := by
    intro k' b hb
    by_cases hkk : k' = k
    · subst hkk
      simp only [Pool.discard, update_self] at hb
      cases hb
    · simp only [Pool.discard, update_of_ne hkk] at hb
      refine ⟨?_, hb⟩
      rintro rfl
      exact hkk (h.inj hb ho)
  have hcell : ∀ {b}, b ≠ a → (p.discard k a).cell b = p.cell b := fun hne =>
    update_of_ne hne ..
  refine ⟨?_, fun hb hb' => h.inj (hsome hb).2 (hsome hb').2, fun hb => h.apart (hsome hb).2,
    h.nodup, ?_, ?_⟩
  · intro k' b hb
    rw [hcell (hsome hb).1]
    exact h.owned (hsome hb).2
  · intro b hm
    have hne : b ≠ a := by
      rintro rfl
      exact h.apart ho hm
    rw [hcell hne]
    exact h.alive hm
  · intro b hb
    by_cases hne : b = a
    · subst hne
      exact update_self ..
    · rw [hcell hne]
      exact h.fresh hb

theorem content_discard_self : (p.discard k a).content k = none := content_none (update_self ..)

theorem content_discard_of_ne (h : p.WF) (ho : p.owner k = some a) (hne : k' ≠ k) :
    (p.discard k a).content k' = p.content k' := by
  have hne' := h.ne_of_owner ho hne
  simp only [content, Pool.discard, update_of_ne hne]
  cases ho' : p.owner k' with
  | none => rfl
  | some b =>
    have hb : b ≠ a := by
      rintro rfl
      exact hne' ho'
    simp only [bind_some, update_of_ne hb]

theorem AllFree.discard (hf : p.AllFree P) : (p.discard k a).AllFree P := by
  intro b hb y hy
  by_cases hne : b = a
  · subst hne
    simp only [Pool.discard, update_self] at hy
    cases hy
  · simp only [Pool.discard, update_of_ne hne] at hy
    exact hf b hb y hy

theorem WF.acquire (h : p.WF) (hf : p.free = a :: rest) : (p.acquire k a rest).WF := by
  have hnd : a ∉ rest ∧ rest.Nodup := nodup_cons.mp (hf ▸ h.nodup)
  have ha : a ∈ p.free := hf ▸ mem_cons_self ..
  have hsub : ∀ {b}, b ∈ rest → b ∈ p.free := fun hb => hf ▸ mem_cons_of_mem _ hb
  have hsome : ∀ {k' b}, (p.acquire k a rest).owner k' = some b →
      (k' = k ∧ b = a) ∨ (k' ≠ k ∧ p.owner k' = some b) := by
    intro k' b hb
    by_cases hkk : k' = k
    · subst hkk
      simp only [Pool.acquire, update_self, some.injEq] at hb
      exact .inl ⟨rfl, hb.symm⟩
    · simp only [Pool.acquire, update_of_ne hkk] at hb
      exact .inr ⟨hkk, hb⟩
  refine ⟨?_, ?_, ?_, hnd.2, fun hm => h.alive (hsub hm), h.fresh⟩
  · intro k' b hb
    rcases hsome hb with ⟨_, rfl⟩ | ⟨_, hb⟩
    · exact h.alive ha
    · exact h.owned hb
  · intro k₁ k₂ b h1 h2
    rcases hsome h1 with ⟨rfl, rfl⟩ | ⟨_, h1'⟩ <;> rcases hsome h2 with ⟨rfl, hb⟩ | ⟨_, h2'⟩
    · rfl
    · exact absurd ha (h.apart h2')
    · exact absurd ha (h.apart (hb ▸ h1'))
    · exact h.inj h1' h2'
  · intro k' b hb hm
    rcases hsome hb with ⟨_, rfl⟩ | ⟨_, hb⟩
    · exact hnd.1 hm
    · exact h.apart hb (hsub hm)

theorem content_acquire_self : (p.acquire k a rest).content k = p.cell a := by
  rw [content_eq (a := a) (update_self ..)]
  rfl

theorem content_acquire_of_ne (hne : k' ≠ k) : (p.acquire k a rest).content k' = p.content k' := by
  simp only [content, Pool.acquire, update_of_ne hne]

theorem AllFree.acquire (hf : p.AllFree P) (hfree : p.free = a :: rest) :
    (p.acquire k a rest).AllFree P := fun b hb y hy =>
  hf b (hfree ▸ mem_cons_of_mem _ hb) y hy

theorem WF.alloc (h : p.WF) : (p.alloc k x).WF := by
  have hnone : p.cell p.next = none := h.fresh (le_refl _)
  have hcell : ∀ {b}, (∃ y, p.cell b = some y) → ∃ y, (p.alloc k x).cell b = some y := by
    rintro b ⟨y, hy⟩
    have hne : b ≠ p.next := ne_of_lt (h.lt_next hy)
    exact ⟨y, by simp only [Pool.alloc, update_of_ne hne, hy]⟩
  have hsome : ∀ {k' b}, (p.alloc k x).owner k' = some b →
      (k' = k ∧ b = p.next) ∨ (k' ≠ k ∧ p.owner k' = some b) := by
    intro k' b hb
    by_cases hkk : k' = k
    · subst hkk
      simp only [Pool.alloc, update_self, some.injEq] at hb
      exact .inl ⟨rfl, hb.symm⟩
    · simp only [Pool.alloc, update_of_ne hkk] at hb
      exact .inr ⟨hkk, hb⟩
  have hnew : ∀ {k'}, p.owner k' ≠ some p.next := by
    intro k' ho
    obtain ⟨y, hy⟩ := h.owned ho
    rw [hnone] at hy
    cases hy
  refine ⟨?_, ?_, ?_, h.nodup, fun hm => hcell (h.alive hm), ?_⟩
  · intro k' b hb
    rcases hsome hb with ⟨_, rfl⟩ | ⟨_, hb⟩
    · exact ⟨x, update_self ..⟩
    · exact hcell (h.owned hb)
  · intro k₁ k₂ b h1 h2
    rcases hsome h1 with ⟨rfl, rfl⟩ | ⟨_, h1'⟩ <;> rcases hsome h2 with ⟨rfl, hb⟩ | ⟨_, h2'⟩
    · rfl
    · exact absurd h2' hnew
    · exact absurd (hb ▸ h1') hnew
    · exact h.inj h1' h2'
  · intro k' b hb hm
    rcases hsome hb with ⟨_, rfl⟩ | ⟨_, hb⟩
    · exact h.next_not_free hm
    · exact h.apart hb hm
  · intro b hb
    have hle : p.next + 1 ≤ b := hb
    simp only [Pool.alloc, update_of_ne (show b ≠ p.next by omega)]
    exact h.fresh (by omega)

theorem content_alloc_self : (p.alloc k x).content k = some x := by
  rw [content_eq (a := p.next) (update_self ..)]
  exact update_self ..

theorem content_alloc_of_ne (h : p.WF) (hne : k' ≠ k) :
    (p.alloc k x).content k' = p.content k' := by
  simp only [content, Pool.alloc, update_of_ne hne]
  cases ho : p.owner k' with
  | none => rfl
  | some b =>
    obtain ⟨y, hy⟩ := h.owned ho
    have hb : b ≠ p.next := ne_of_lt (h.lt_next hy)
    simp only [bind_some, update_of_ne hb]

theorem AllFree.alloc (h : p.WF) (hf : p.AllFree P) : (p.alloc k x).AllFree P := by
  intro b hb y hy
  have hne : b ≠ p.next := by
    rintro rfl
    exact h.next_not_free hb
  simp only [Pool.alloc, update_of_ne hne] at hy
  exact hf b hb y hy

end
end Pool
end Xfront
