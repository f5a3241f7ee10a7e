import Xfront.Privates.Layout

/-!
# The private areas of objects

What reallocating and moving does to an area, and to which objects a fixup does it.
-/

namespace Xfront.Privates
open Nat

open List
open Bytes (Byte Block)
open Packing (Packed packed_bounds packed_apart packed_shift packed_congr packed_le)

section

variable {area : Block} {size bytes p n : Nat} {junk : Nat → Byte}

theorem realloc_size (h : size + bytes ≤ 2 ^ 31) :
    (reallocPrivates area size bytes junk).size = size + bytes :=
  mod_eq_of_lt (lt_of_le_of_lt h (by decide))

theorem realloc_slice (h : p + n ≤ size) (harea : size ≤ area.size) :
    (reallocPrivates area size bytes junk).slice p n = area.slice p n := by
  rw [reallocPrivates, Block.slice_clear_before h, Block.slice_resize (le_trans h harea)]

theorem realloc_new (hp : size ≤ p) (hn : p + n ≤ size + bytes) :
    (reallocPrivates area size bytes junk).slice p n = replicate n 0 :=
  Block.slice_clear_inside hp hn

theorem move_slice (h : p + n ≤ size) :
    (movePrivates area (size + bytes) bytes).slice (p + bytes) n = area.slice p n := by
  rw [movePrivates, Block.slice_clear_after (by omega), Nat.add_sub_cancel, Block.slice_moveUp h]

theorem move_new (h : p + n ≤ bytes) : (movePrivates area size bytes).slice p n = replicate n 0 :=
  Block.slice_clear_inside (zero_le _) (by omega)

end

def Object.shape (o : Object) : Object := { o with area := Block.zeroed 0 }

variable {type : PrivateType} {f : Object → Option Block} {objects : List Object}

theorem fixup_shape : (fixup type f objects).1.map Object.shape = objects.map Object.shape := by
  induction objects with
  | nil => rfl
  | cons o objects ih =>
    rw [fixup]
    split
    · split
      · rfl
      · rw [map_cons, map_cons, ih]
        rfl
    · rw [map_cons, map_cons, ih]

variable {o : Object}

theorem fixup_mem (ho : o ∈ (fixup type f objects).1) : ∃ o₀ ∈ objects, o = o₀ ∨
      ∃ area, o₀.type = type ∧ o₀.reached = true ∧ f o₀ = some area ∧ o = { o₀ with area } := by
  induction objects with
  | nil => cases ho
  | cons x objects ih =>
    rw [fixup] at ho
    split at ho
    · next hx =>
      split at ho
      · exact ⟨o, ho, .inl rfl⟩
      · next area harea =>
        rcases mem_cons.mp ho with rfl | ho
        · exact ⟨x, mem_cons_self, .inr ⟨area, hx.1, hx.2, harea, rfl⟩⟩
        · obtain ⟨o₀, ho₀, h⟩ := ih ho
          exact ⟨o₀, mem_cons_of_mem _ ho₀, h⟩
    · rcases mem_cons.mp ho with rfl | ho
      · exact ⟨o, mem_cons_self, .inl rfl⟩
      · obtain ⟨o₀, ho₀, h⟩ := ih ho
        exact ⟨o₀, mem_cons_of_mem _ ho₀, h⟩

theorem fixup_done (hok : (fixup type f objects).2 = true) (ho : o ∈ (fixup type f objects).1) :
    ∃ o₀ ∈ objects, if o₀.type = type ∧ o₀.reached = true
      then ∃ area, f o₀ = some area ∧ o = { o₀ with area } else o = o₀ := by
  induction objects with
  | nil => cases ho
  | cons x objects ih =>
    rw [fixup] at ho hok
    split at ho
    · next hx =>
      rw [if_pos hx] at hok
      split at ho
      · next hnone =>
        rw [hnone] at hok
        cases hok
      · next area harea =>
        rw [harea] at hok
        rcases mem_cons.mp ho with rfl | ho
        · exact ⟨x, mem_cons_self, by rw [if_pos hx]; exact ⟨area, harea, rfl⟩⟩
        · obtain ⟨o₀, ho₀, h⟩ := ih hok ho
          exact ⟨o₀, mem_cons_of_mem _ ho₀, h⟩
    · next hx =>
      rw [if_neg hx] at hok
      rcases mem_cons.mp ho with rfl | ho
      · exact ⟨o, mem_cons_self, by rw [if_neg hx]⟩
      · obtain ⟨o₀, ho₀, h⟩ := ih hok ho
        exact ⟨o₀, mem_cons_of_mem _ ho₀, h⟩

theorem fixup_some_ok {g : Object → Block} :
    (fixup type (fun o => some (g o)) objects).2 = true := by
  induction objects with
  | nil => rfl
  | cons o objects ih =>
    rw [fixup]
    split
    · exact ih
    · exact ih

structure Census (s : State) : Prop where
  ids : (s.objects.map Object.id).Nodup
  typed : ∀ o ∈ s.objects, o.type ≠ .xselinux
  screens : ∀ o ∈ s.objects, ∀ i ∈ o.screen, i < s.screens.length
  reached : ∀ o ∈ s.objects, o.reached = true → allocatedEarly o.type = true ∧
    (o.type = .colormap → ∃ i, o.screen = some i)
  counted : ∀ type, allocatedEarly type = false →
    (s.objects.filter (·.type = type)).length ≤ (s.globalKeys type).created
  onScreen : ∀ o ∈ s.objects, screenSpecificPrivate o.type = true → ∀ i ∈ o.screen,
    ∀ set ∈ screenSet s i o.type, set.created ≠ 0

variable {s : State} {objects' : List Object}

section
variable (h : objects'.map Object.shape = objects.map Object.shape)
include h

theorem mem_of_shape
    {o' : Object} (ho : o' ∈ objects') :
    ∃ o ∈ objects, o.shape = o'.shape :=
  mem_map.mp (h ▸ mem_map_of_mem ho)

theorem filter_of_shape
    (type : PrivateType) :
    (objects'.filter (·.type = type)).length = (objects.filter (·.type = type)).length := by
  have hcount : ∀ l : List Object, (l.filter (·.type = type)).length =
      ((l.map Object.shape).filter (·.type = type)).length := fun l => by
    rw [filter_map, length_map]
    rfl
  rw [hcount, h, ← hcount]

theorem ids_of_shape : objects'.map Object.id = objects.map Object.id := by
  have hids : ∀ l : List Object, l.map Object.id = (l.map Object.shape).map Object.id := fun l => by
    rw [map_map]
    rfl
  rw [hids, h, ← hids]

end

theorem census_congr (h : Census s) {s' : State}
    (hshape : s'.objects.map Object.shape = s.objects.map Object.shape)
    (hscreens : s'.screens.length = s.screens.length)
    (hcreated : ∀ type, (s'.globalKeys type).created = (s.globalKeys type).created)
    (hset : ∀ i type, ∀ set' ∈ screenSet s' i type, ∃ set ∈ screenSet s i type,
      set'.created = set.created) : Census s' := by
  have hback : ∀ o' ∈ s'.objects, ∃ o ∈ s.objects, o.type = o'.type ∧ o.screen = o'.screen ∧
      o.reached = o'.reached := by
    intro o' ho'
    obtain ⟨o, ho, heq⟩ := mem_of_shape hshape ho'
    have htype : o.shape.type = o'.shape.type := by rw [heq]
    have hscreen : o.shape.screen = o'.shape.screen := by rw [heq]
    have hreached : o.shape.reached = o'.shape.reached := by rw [heq]
    exact ⟨o, ho, htype, hscreen, hreached⟩
  refine ⟨?_, fun o' ho' => ?_, fun o' ho' i hi => ?_, fun o' ho' hr => ?_, fun type ht => ?_,
    fun o' ho' ht i hi set' hset' => ?_⟩
  · rw [ids_of_shape hshape]
    exact h.ids
  · obtain ⟨o, ho, ht, -, -⟩ := hback o' ho'
    exact ht ▸ h.typed o ho
  · obtain ⟨o, ho, -, hs, -⟩ := hback o' ho'
    rw [hscreens]
    exact h.screens o ho i (hs ▸ hi)
  · obtain ⟨o, ho, ht, hs, hreach⟩ := hback o' ho'
    rw [← ht, ← hs]
    exact h.reached o ho (hreach.trans hr)
  · rw [filter_of_shape hshape, hcreated]
    exact h.counted type ht
  · obtain ⟨o, ho, htype, hs, -⟩ := hback o' ho'
    obtain ⟨set, hmem, heq⟩ := hset i o'.type set' hset'
    rw [heq]
    rw [← htype] at hmem ht
    exact h.onScreen o ho ht i (hs ▸ hi) set hmem

theorem no_objects (h : Census s) (ht : allocatedEarly type = false)
    (hcreated : (s.globalKeys type).created = 0) : ∀ o ∈ s.objects, o.type ≠ type := by
  intro o ho heq
  have hmem : o ∈ s.objects.filter (·.type = type) := mem_filter.mpr ⟨ho, decide_eq_true heq⟩
  have hle := h.counted type ht
  rw [hcreated, le_zero, length_eq_zero_iff] at hle
  rw [hle] at hmem
  cases hmem

variable {base : PrivateType → Nat}

theorem early_not_screenSpecific (h : allocatedEarly type = true) :
    screenSpecificPrivate type = false := by
  cases type <;> first | rfl | cases h

theorem privatesSize_global (s : State) (screen : Option Nat)
    (h : screenSpecificPrivate type = false) :
    privatesSize s type screen = (s.globalKeys type).offset := by
  rw [privatesSize, h, if_neg Bool.false_ne_true]

theorem fixupOffset_eq (hlayout : Layout s base) (hcensus : Census s)
    (ho : o ∈ s.objects) (hreached : o.reached = true) :
    fixupOffset s o = (s.globalKeys o.type).offset := by
  rw [fixupOffset]
  split
  · next htype =>
    obtain ⟨i, hi⟩ := (hcensus.reached o ho hreached).2 htype
    have hlt := hcensus.screens o ho i hi
    have hset : screenSet s i .colormap = some (s.screens[i].screenSpecificPrivates .colormap) := by
      rw [screenSet, getElem?_eq_getElem hlt, Option.map_some]
    have hpacked := hlayout.screen i .colormap _ (by simp) hset
    rw [hlayout.plain i .colormap _ rfl hset] at hpacked
    rw [hi, Option.bind_some, hset, Option.map_some, Option.getD_some, htype]
    exact hpacked.symm
  · rfl

theorem global_le_privatesSize (hlayout : Layout s base) (hne : type ≠ .xselinux)
    (screen : Option Nat) : (s.globalKeys type).offset ≤ privatesSize s type screen := by
  rw [privatesSize]
  split
  · split
    · next set hset =>
      obtain ⟨i, -, hset⟩ := Option.bind_eq_some_iff.mp hset
      exact packed_le (hlayout.screen i type set hne hset)
    · exact le_refl _
  · exact le_refl _

theorem screen_privatesSize (hlayout : Layout s base) (hne : type ≠ .xselinux) {i : Nat}
    {set : KeySet} (hset : screenSet s i type = some set) :
    privatesSize s type (some i) = set.offset := by
  rw [privatesSize]
  split
  · rw [Option.bind_some, hset]
  · next hplain =>
    have hpacked := hlayout.screen i type set hne hset
    rw [hlayout.plain i type set (Bool.eq_false_iff.mpr hplain) hset] at hpacked
    exact hpacked

theorem mem_keysFor {k : Nat} : k ∈ keysFor s o ↔
    (xselinuxPrivate o.type = true ∧ k ∈ keysAt s (.global .xselinux)) ∨
      k ∈ keysAt s (.global o.type) ∨ ∃ i, o.screen = some i ∧ k ∈ keysAt s (.screen i o.type) := by
  rw [keysFor, mem_append, mem_append, or_assoc]
  refine or_congr ?_ (or_congr Iff.rfl ?_)
  · split
    · next h => exact ⟨fun hk => ⟨h, hk⟩, fun hk => hk.2⟩
    · next h => exact ⟨fun hk => (not_mem_nil hk).elim, fun hk => absurd hk.1 h⟩
  · cases hscreen : o.screen with
    | none => simp
    | some i => simp [keysAt]

end Xfront.Privates
