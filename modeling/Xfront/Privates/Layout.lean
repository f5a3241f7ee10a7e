import Xfront.Lib.Packing
import Xfront.Privates.Model

/-!
# Where the keys lie

In the private area of an object come first the shared keys, then the keys of its type and
then those of its screen, each group without gaps.
-/

namespace Xfront.Privates
open Nat

open List Option Function
open Packing (Packed packed_bounds packed_apart packed_shift packed_congr packed_le)

def neededSize (size : Nat) : Nat := ((if size = 0 then 8 else size) + 7) / 8 * 8

def Key.padded (key : Key) : Nat := neededSize key.size

variable {size : Nat}

theorem paddedSize_eq (h : neededSize size ≤ 2 ^ 31) : paddedSize size = neededSize size :=
  mod_eq_of_lt (lt_of_le_of_lt h (by decide))

theorem storage_le (key : Key) : key.storage ≤ key.padded := by
  rw [Key.storage, Key.padded, neededSize]
  split <;> omega

inductive Home where
  | global (type : PrivateType)
  | screen (i : Nat) (type : PrivateType)
  deriving DecidableEq

def Home.onScreen (type : PrivateType) : Home → Bool
  | .global _ => false
  | .screen _ type' => type' = type

def keysAt (s : State) : Home → List Nat
  | .global type => (s.globalKeys type).keys
  | .screen i type => ((screenSet s i type).map KeySet.keys).getD []

structure Listed (s : State) : Prop where
  once : ∀ h, (keysAt s h).Nodup
  apart : ∀ h h' k, k ∈ keysAt s h → k ∈ keysAt s h' → h = h'
  known : ∀ h k, k ∈ keysAt s h → (s.keys k).initialized = true

/-- Keys of the types are packed above `base`, those of the screens above these. -/
structure Layout (s : State) (base : PrivateType → Nat) : Prop where
  global : ∀ type, type ≠ .xselinux → Packed (fun k => (s.keys k).offset)
    (fun k => (s.keys k).padded) (base type) (s.globalKeys type).offset (s.globalKeys type).keys
  screen : ∀ i type set, type ≠ .xselinux → screenSet s i type = some set →
    Packed (fun k => (s.keys k).offset) (fun k => (s.keys k).padded)
      (s.globalKeys type).offset set.offset set.keys
  plain : ∀ i type set, screenSpecificPrivate type = false → screenSet s i type = some set →
    set.keys = []

/-- There is room for `bytes` more in the private areas of a type. -/
structure Roomy (s : State) (type : PrivateType) (bytes : Nat) : Prop where
  global : (s.globalKeys type).offset + bytes ≤ 2 ^ 31
  screen : ∀ i, ∀ set ∈ screenSet s i type, set.offset + bytes ≤ 2 ^ 31

variable {s : State} {type : PrivateType} {bytes : Nat} {base : PrivateType → Nat} {k : Nat}

theorem mem_keysAt_screen {i : Nat} : k ∈ keysAt s (.screen i type) ↔
    ∃ set, screenSet s i type = some set ∧ k ∈ set.keys := by
  rw [keysAt]
  cases screenSet s i type with
  | none => simp
  | some set => simp

theorem growKeys_append (l l' : List Nat) (keys : Nat → Key) :
    growKeys bytes (l ++ l') keys = growKeys bytes l' (growKeys bytes l keys) := by
  induction l generalizing keys with
  | nil => rfl
  | cons k l ih => exact ih _

theorem growKeys_foldl (type : PrivateType) (screens : List Screen) (keys : Nat → Key) :
    screens.foldl (fun keys pScreen =>
        growKeys bytes (pScreen.screenSpecificPrivates type).keys keys) keys =
      growKeys bytes (screens.flatMap fun pScreen => (pScreen.screenSpecificPrivates type).keys)
        keys := by
  induction screens generalizing keys with
  | nil => rfl
  | cons pScreen screens ih => rw [foldl_cons, ih, flatMap_cons, growKeys_append]

theorem growKeys_apply {l : List Nat} (hnd : l.Nodup) (keys : Nat → Key) (k : Nat) :
    growKeys bytes l keys k = if k ∈ l then growKey bytes (keys k) else keys k := by
  induction l generalizing keys with
  | nil => rfl
  | cons j l ih =>
    obtain ⟨hnot, hnd'⟩ := nodup_cons.mp hnd
    rw [growKeys, ih hnd']
    by_cases hk : k = j
    · rw [hk, if_neg hnot, update_self, if_pos mem_cons_self]
    · rw [update_of_ne hk]
      simp only [mem_cons, hk, false_or]

def screenKeys (s : State) (type : PrivateType) : List Nat :=
  s.screens.flatMap fun pScreen => (pScreen.screenSpecificPrivates type).keys

theorem mem_screenKeys : k ∈ screenKeys s type ↔ ∃ i, k ∈ keysAt s (.screen i type) := by
  rw [screenKeys, mem_flatMap]
  constructor
  · rintro ⟨pScreen, hmem, hk⟩
    obtain ⟨i, hi, rfl⟩ := getElem_of_mem hmem
    refine ⟨i, mem_keysAt_screen.mpr ⟨_, ?_, hk⟩⟩
    rw [screenSet, getElem?_eq_getElem hi, map_some]
  · rintro ⟨i, hk⟩
    obtain ⟨set, hset, hk⟩ := mem_keysAt_screen.mp hk
    obtain ⟨pScreen, hp, rfl⟩ := map_eq_some_iff.mp hset
    exact ⟨pScreen, mem_of_getElem? hp, hk⟩

theorem screenKeys_nodup (h : Listed s) (type : PrivateType) : (screenKeys s type).Nodup := by
  rw [screenKeys, nodup_flatMap]
  constructor
  · intro pScreen hmem
    obtain ⟨i, hi, rfl⟩ := getElem_of_mem hmem
    have honce := h.once (.screen i type)
    rwa [keysAt, screenSet, getElem?_eq_getElem hi] at honce
  · rw [pairwise_iff_getElem]
    intro i j hi hj hij k hk hk'
    have hi' : k ∈ keysAt s (.screen i type) := mem_keysAt_screen.mpr
      ⟨_, by rw [screenSet, getElem?_eq_getElem hi, map_some], hk⟩
    have hj' : k ∈ keysAt s (.screen j type) := mem_keysAt_screen.mpr
      ⟨_, by rw [screenSet, getElem?_eq_getElem hj, map_some], hk'⟩
    have heq := h.apart _ _ k hi' hj'
    cases heq
    exact lt_irrefl _ hij

theorem screenSet_grow (i : Nat) (type' : PrivateType) :
    screenSet (growScreenSpecificSet s type bytes) i type' =
      (screenSet s i type').map fun set => if type' = type then growOffset bytes set else set := by
  rw [growScreenSpecificSet, screenSet, screenSet, getElem?_map, Option.map_map, Option.map_map]
  congr 1
  funext pScreen
  rw [comp_apply, comp_apply, Screen.grow]
  dsimp only
  by_cases h : type' = type
  · rw [if_pos h, h, update_self]
  · rw [if_neg h, update_of_ne h]

theorem growScreenSpecificSet_keys (h : Listed s) (k : Nat) :
    (growScreenSpecificSet s type bytes).keys k =
      if k ∈ screenKeys s type then growKey bytes (s.keys k) else s.keys k := by
  rw [growScreenSpecificSet]
  rw [growKeys_foldl]
  exact growKeys_apply (screenKeys_nodup h type) s.keys k

theorem keysAt_growScreenSpecificSet (home : Home) :
    keysAt (growScreenSpecificSet s type bytes) home = keysAt s home := by
  cases home with
  | global type' => rfl
  | screen i type' =>
    rw [keysAt, keysAt, screenSet_grow, Option.map_map]
    congr 1
    congr 1
    funext set
    rw [comp_apply]
    split <;> rfl

theorem listed_congr (h : Listed s) {s' : State} (hkeys : ∀ home, keysAt s' home = keysAt s home)
    (hknown : ∀ k, (s'.keys k).initialized = (s.keys k).initialized) : Listed s' where
  once home := by
    rw [hkeys]
    exact h.once home
  apart home home' k hk hk' := by
    rw [hkeys] at hk hk'
    exact h.apart home home' k hk hk'
  known home k hk := by
    rw [hkeys] at hk
    rw [hknown]
    exact h.known home k hk

variable {key : Nat}

theorem listed_add (h : Listed s) {s' : State} {home : Home}
    (hnew : (s.keys key).initialized = false) (hinit : (s'.keys key).initialized = true)
    (hkeys : ∀ home', keysAt s' home' =
      if home' = home then key :: keysAt s home' else keysAt s home')
    (hknown : ∀ k, k ≠ key → (s'.keys k).initialized = (s.keys k).initialized) : Listed s' := by
  have hnot : ∀ home', key ∉ keysAt s home' := fun home' hk => by
    rw [h.known home' key hk] at hnew
    cases hnew
  have hmem : ∀ home' k, k ∈ keysAt s' home' → k = key ∧ home' = home ∨ k ∈ keysAt s home' := by
    intro home' k hk
    rw [hkeys] at hk
    split at hk
    · next heq =>
      rcases mem_cons.mp hk with hk | hk
      · exact .inl ⟨hk, heq⟩
      · exact .inr hk
    · exact .inr hk
  refine ⟨fun home' => ?_, fun home' home'' k hk hk' => ?_, fun home' k hk => ?_⟩
  · rw [hkeys]
    split
    · exact nodup_cons.mpr ⟨hnot home', h.once home'⟩
    · exact h.once home'
  · rcases hmem home' k hk with ⟨rfl, rfl⟩ | hk
    · rcases hmem home'' k hk' with ⟨-, rfl⟩ | hk'
      · rfl
      · exact absurd hk' (hnot home'')
    · rcases hmem home'' k hk' with ⟨rfl, -⟩ | hk'
      · exact absurd hk (hnot home')
      · exact h.apart home' home'' k hk hk'
  · rcases hmem home' k hk with ⟨rfl, -⟩ | hk'
    · exact hinit
    · rw [hknown k fun he => hnot home' (he ▸ hk')]
      exact h.known home' k hk'

theorem growKey_offset {key : Key} (h : key.offset + bytes < 2 ^ 32) :
    (growKey bytes key).offset = key.offset + bytes :=
  mod_eq_of_lt h

theorem growOffset_offset {set : KeySet} (h : set.offset + bytes ≤ 2 ^ 31) :
    (growOffset bytes set).offset = set.offset + bytes :=
  mod_eq_of_lt (lt_of_le_of_lt h (by decide))

def Concerns (s : State) (type : PrivateType) (k : Nat) : Prop :=
  k ∈ keysAt s (.global type) ∨ ∃ i, k ∈ keysAt s (.screen i type)

variable {type' : PrivateType}

theorem concerns_type (h : Listed s) (hk : Concerns s type k)
    (hk' : Concerns s type' k) : type = type' := by
  rcases hk with hk | ⟨i, hk⟩ <;> rcases hk' with hk' | ⟨j, hk'⟩
  · have heq := h.apart _ _ k hk hk'
    cases heq
    rfl
  · have heq := h.apart _ _ k hk hk'
    cases heq
  · have heq := h.apart _ _ k hk hk'
    cases heq
  · have heq := h.apart _ _ k hk hk'
    cases heq
    rfl

def growType (bytes : Nat) (s : State) (type : PrivateType) : State :=
  growScreenSpecificSet (growGlobalSet s type bytes) type bytes

theorem keysAt_growGlobalSet (home : Home) :
    keysAt (growGlobalSet s type bytes) home = keysAt s home := by
  cases home with
  | global type' =>
    rw [keysAt, keysAt, growGlobalSet]
    dsimp only
    by_cases h : type' = type
    · rw [h, update_self]
      rfl
    · rw [update_of_ne h]
  | screen i type' => rfl

theorem growGlobalSet_keys (h : Listed s) (k : Nat) : (growGlobalSet s type bytes).keys k =
      if k ∈ keysAt s (.global type) then growKey bytes (s.keys k) else s.keys k :=
  growKeys_apply (h.once (.global type)) s.keys k

theorem listed_growGlobalSet (h : Listed s) : Listed (growGlobalSet s type bytes) := by
  refine listed_congr h keysAt_growGlobalSet fun k => ?_
  rw [growGlobalSet_keys h]
  split <;> rfl

theorem listed_growScreenSpecificSet (h : Listed s) :
    Listed (growScreenSpecificSet s type bytes) := by
  refine listed_congr h keysAt_growScreenSpecificSet fun k => ?_
  rw [growScreenSpecificSet_keys h]
  split <;> rfl

theorem keysAt_growType (home : Home) : keysAt (growType bytes s type) home = keysAt s home := by
  rw [growType, keysAt_growScreenSpecificSet, keysAt_growGlobalSet]

theorem listed_growType (h : Listed s) : Listed (growType bytes s type) :=
  listed_growScreenSpecificSet (listed_growGlobalSet h)

theorem growType_keys (h : Listed s) (k : Nat) :
    (Concerns s type k → (growType bytes s type).keys k = growKey bytes (s.keys k)) ∧
      (¬ Concerns s type k → (growType bytes s type).keys k = s.keys k) := by
  rw [growType, growScreenSpecificSet_keys (listed_growGlobalSet h), growGlobalSet_keys h]
  have hscreen : k ∈ screenKeys (growGlobalSet s type bytes) type ↔
      ∃ i, k ∈ keysAt s (.screen i type) := mem_screenKeys
  constructor
  · rintro (hk | hk)
    · have hnot : k ∉ screenKeys (growGlobalSet s type bytes) type := fun hs => by
        obtain ⟨i, hi⟩ := hscreen.mp hs
        have heq := h.apart _ _ k hk hi
        cases heq
      rw [if_neg hnot, if_pos hk]
    · have hnot : k ∉ keysAt s (.global type) := fun hg => by
        obtain ⟨i, hi⟩ := hk
        have heq := h.apart _ _ k hg hi
        cases heq
      rw [if_pos (hscreen.mpr hk), if_neg hnot]
  · intro hk
    obtain ⟨hg, hs⟩ := not_or.mp hk
    rw [if_neg fun hn => hs (hscreen.mp hn), if_neg hg]

theorem growType_padded (h : Listed s) (k : Nat) :
    ((growType bytes s type).keys k).padded = (s.keys k).padded := by
  by_cases hk : Concerns s type k
  · rw [(growType_keys h k).1 hk]
    rfl
  · rw [(growType_keys h k).2 hk]

theorem growType_global (hroomy : Roomy s type bytes) (type' : PrivateType) :
    ((growType bytes s type).globalKeys type').offset =
      (s.globalKeys type').offset + if type' = type then bytes else 0 := by
  rw [growType, growScreenSpecificSet, growGlobalSet]
  dsimp only
  by_cases h : type' = type
  · rw [if_pos h, h, update_self, growOffset_offset hroomy.global]
  · rw [if_neg h, update_of_ne h]
    rfl

theorem growType_screenSet (i : Nat) (type' : PrivateType) :
    screenSet (growType bytes s type) i type' =
      (screenSet s i type').map fun set => if type' = type then growOffset bytes set else set :=
  screenSet_grow i type'

theorem screenSet_offset (hroomy : Roomy s type bytes) {i : Nat}
    {set : KeySet} (hset : screenSet s i type' = some set) :
    (if type' = type then growOffset bytes set else set).offset =
      set.offset + if type' = type then bytes else 0 := by
  split
  · next h => exact growOffset_offset (hroomy.screen i set (h ▸ hset))
  · rfl

theorem offset_le (hlayout : Layout s base) (hroomy : Roomy s type bytes) (htype : type ≠ .xselinux)
    (hk : Concerns s type k) : (s.keys k).offset + bytes ≤ 2 ^ 31 := by
  rcases hk with hk | ⟨i, hk⟩
  · have hb := packed_bounds (hlayout.global type htype) hk
    have hr := hroomy.global
    omega
  · obtain ⟨set, hset, hk⟩ := mem_keysAt_screen.mp hk
    have hb := packed_bounds (hlayout.screen i type set htype hset) hk
    have hr := hroomy.screen i set hset
    omega

theorem growType_offset (h : Listed s) (hlayout : Layout s base) (hroomy : Roomy s type bytes)
    (htype : type ≠ .xselinux) (hk : Concerns s type' k) : ((growType bytes s type).keys k).offset =
      (s.keys k).offset + if type' = type then bytes else 0 := by
  by_cases heq : type' = type
  · have hle := offset_le hlayout hroomy htype (heq ▸ hk)
    rw [if_pos heq, (growType_keys h k).1 (heq ▸ hk)]
    exact growKey_offset (by omega)
  · rw [if_neg heq, (growType_keys h k).2 fun hk' => heq (concerns_type h hk hk')]
    rfl

theorem layout_growType (h : Listed s) (hlayout : Layout s base) (hroomy : Roomy s type bytes)
    (htype : type ≠ .xselinux) :
    Layout (growType bytes s type) fun type' => base type' + if type' = type then bytes else 0 := by
  refine ⟨fun type' hne => ?_, fun i type' set hne hset => ?_, fun i type' set hplain hset => ?_⟩
  · have hkeys : ((growType bytes s type).globalKeys type').keys = (s.globalKeys type').keys :=
      keysAt_growType (.global type')
    rw [growType_global hroomy, hkeys]
    exact packed_shift (hlayout.global type' hne)
      (fun k hk => growType_offset h hlayout hroomy htype (.inl hk)) fun k _ => growType_padded h k
  · rw [growType_screenSet] at hset
    obtain ⟨set, hold, rfl⟩ := map_eq_some_iff.mp hset
    have hkeys : (if type' = type then growOffset bytes set else set).keys = set.keys := by
      split <;> rfl
    rw [growType_global hroomy, screenSet_offset hroomy hold, hkeys]
    refine packed_shift (hlayout.screen i type' set hne hold) (fun k hk => ?_) fun k _ =>
      growType_padded h k
    exact growType_offset h hlayout hroomy htype
      (.inr ⟨i, mem_keysAt_screen.mpr ⟨set, hold, hk⟩⟩)
  · rw [growType_screenSet] at hset
    obtain ⟨set, hold, rfl⟩ := map_eq_some_iff.mp hset
    have hkeys := hlayout.plain i type' set hplain hold
    split
    · exact hkeys
    · exact hkeys

def addKey (s : State) (key : Nat) (type : PrivateType) (size bytes : Nat) : State :=
  setupKey (growScreenSpecificSet
    { s with globalKeys := update s.globalKeys type (growOffset bytes (s.globalKeys type)) }
    type bytes) key type size (s.globalKeys type).offset

theorem keysAt_addKey (home : Home) : keysAt (addKey s key type size bytes) home =
      if home = .global type then key :: keysAt s home else keysAt s home := by
  cases home with
  | global type' =>
    rw [keysAt, keysAt, addKey, setupKey, growScreenSpecificSet]
    dsimp only
    by_cases h : type' = type
    · rw [if_pos (by rw [h]), h, update_self, update_self]
      rfl
    · rw [if_neg (by simpa using h), update_of_ne h, update_of_ne h]
  | screen i type' =>
    rw [if_neg (by simp)]
    have hkeys : keysAt (growScreenSpecificSet s type bytes) (.screen i type') =
        keysAt s (.screen i type') := keysAt_growScreenSpecificSet _
    exact hkeys

theorem addKey_keys (h : Listed s) (k : Nat) : (addKey s key type size bytes).keys k =
      if k = key then ⟨(s.globalKeys type).offset, size, true, type⟩
      else if k ∈ screenKeys s type then growKey bytes (s.keys k) else s.keys k := by
  rw [addKey, setupKey]
  dsimp only
  by_cases hk : k = key
  · rw [if_pos hk, hk, update_self]
  · rw [if_neg hk, update_of_ne hk, growScreenSpecificSet]
    rw [growKeys_foldl]
    exact growKeys_apply (screenKeys_nodup h type) s.keys k

theorem listed_addKey (h : Listed s)
    (hnew : (s.keys key).initialized = false) : Listed (addKey s key type size bytes) := by
  refine listed_add h hnew ?_ keysAt_addKey fun k hk => ?_
  · rw [addKey_keys h, if_pos rfl]
  · rw [addKey_keys h, if_neg hk]
    split <;> rfl

theorem addKey_global (hroomy : Roomy s type bytes) (type' : PrivateType) :
    ((addKey s key type size bytes).globalKeys type').offset =
      (s.globalKeys type').offset + if type' = type then bytes else 0 := by
  rw [addKey, setupKey, growScreenSpecificSet]
  dsimp only
  by_cases h : type' = type
  · rw [if_pos h, h, update_self, update_self]
    exact growOffset_offset hroomy.global
  · rw [if_neg h, update_of_ne h, update_of_ne h]
    rfl

theorem addKey_screenSet (i : Nat) (type' : PrivateType) :
    screenSet (addKey s key type size bytes) i type' =
      (screenSet s i type').map fun set => if type' = type then growOffset bytes set else set :=
  screenSet_grow (s := s) i type'

theorem addKey_offset (h : Listed s) (hlayout : Layout s base) (hroomy : Roomy s type bytes)
    (htype : type ≠ .xselinux) (size : Nat) (hnew : (s.keys key).initialized = false)
    (home : Home) (hk : k ∈ keysAt s home) : ((addKey s key type size bytes).keys k).offset =
        (s.keys k).offset + (if home.onScreen type then bytes else 0) ∧
      ((addKey s key type size bytes).keys k).size = (s.keys k).size := by
  have hne : k ≠ key := fun he => by
    rw [← he, h.known home k hk] at hnew
    cases hnew
  rw [addKey_keys h, if_neg hne]
  cases home with
  | global type' =>
    have hnot : k ∉ screenKeys s type := fun hn => by
      obtain ⟨i, hi⟩ := mem_screenKeys.mp hn
      have heq := h.apart _ _ k hk hi
      cases heq
    rw [if_neg hnot]
    exact ⟨rfl, rfl⟩
  | screen i type' =>
    by_cases heq : type' = type
    · subst heq
      have hle := offset_le hlayout hroomy htype (.inr ⟨i, hk⟩)
      rw [if_pos (mem_screenKeys.mpr ⟨i, hk⟩), Home.onScreen, if_pos (decide_eq_true rfl)]
      exact ⟨growKey_offset (by omega), rfl⟩
    · have hnot : k ∉ screenKeys s type := fun hn => by
        obtain ⟨j, hj⟩ := mem_screenKeys.mp hn
        have hsame := h.apart _ _ k hk hj
        cases hsame
        exact heq rfl
      rw [if_neg hnot, Home.onScreen, if_neg (by simpa using heq)]
      exact ⟨rfl, rfl⟩

theorem padded_congr {key key' : Key} (h : key'.size = key.size) : key'.padded = key.padded := by
  rw [Key.padded, Key.padded, h]

theorem layout_addKey (h : Listed s) (hlayout : Layout s base)
    (hroomy : Roomy s type (neededSize size)) (htype : type ≠ .xselinux)
    (hnew : (s.keys key).initialized = false) :
    Layout (addKey s key type size (neededSize size)) base := by
  refine ⟨fun type' hne => ?_, fun i type' set hne hset => ?_, fun i type' set hplain hset => ?_⟩
  · have hrest : Packed (fun k => ((addKey s key type size (neededSize size)).keys k).offset)
        (fun k => ((addKey s key type size (neededSize size)).keys k).padded) (base type')
        (s.globalKeys type').offset (s.globalKeys type').keys :=
      packed_congr (hlayout.global type' hne)
        (fun k hk => (addKey_offset h hlayout hroomy htype size hnew (.global type') hk).1)
        fun k hk => padded_congr (addKey_offset h hlayout hroomy htype size hnew (.global type') hk).2
    have hkeys : ((addKey s key type size (neededSize size)).globalKeys type').keys =
        if Home.global type' = .global type then key :: (s.globalKeys type').keys
        else (s.globalKeys type').keys := keysAt_addKey (.global type')
    rw [addKey_global hroomy, hkeys]
    by_cases heq : type' = type
    · subst heq
      have hkey : (addKey s key type' size (neededSize size)).keys key =
          ⟨(s.globalKeys type').offset, size, true, type'⟩ := (addKey_keys h key).trans (if_pos rfl)
      rw [if_pos rfl, if_pos rfl]
      refine ⟨?_, ?_⟩
      · dsimp only
        rw [hkey]
        rfl
      · dsimp only
        rw [hkey]
        exact hrest
    · rw [if_neg heq, if_neg (by simpa using heq)]
      exact hrest
  · rw [addKey_screenSet] at hset
    obtain ⟨set, hold, rfl⟩ := map_eq_some_iff.mp hset
    have hkeys : (if type' = type then growOffset (neededSize size) set else set).keys = set.keys := by
      split <;> rfl
    rw [addKey_global hroomy, screenSet_offset hroomy hold, hkeys]
    have hmem : ∀ k ∈ set.keys, k ∈ keysAt s (.screen i type') := fun k hk =>
      mem_keysAt_screen.mpr ⟨set, hold, hk⟩
    refine packed_shift (hlayout.screen i type' set hne hold) (fun k hk => ?_) fun k hk =>
      padded_congr (addKey_offset h hlayout hroomy htype size hnew _ (hmem k hk)).2
    have hoff := (addKey_offset h hlayout hroomy htype size hnew _ (hmem k hk)).1
    rw [hoff, Home.onScreen]
    simp only [decide_eq_true_eq]
  · rw [addKey_screenSet] at hset
    obtain ⟨set, hold, rfl⟩ := map_eq_some_iff.mp hset
    have hkeys := hlayout.plain i type' set hplain hold
    split
    · exact hkeys
    · exact hkeys

def addScreenKey (s : State) (screen : Nat) (pScreen : Screen) (key : Nat) (type : PrivateType)
    (size bytes : Nat) : State :=
  let set := pScreen.screenSpecificPrivates type
  let set' := { growOffset bytes set with keys := key :: set.keys }
  let screenSpecificPrivates := update pScreen.screenSpecificPrivates type set'
  { s with
    keys := update s.keys key ⟨set.offset, size, true, type⟩
    screens := s.screens.set screen { pScreen with screenSpecificPrivates } }

variable {screen : Nat} {pScreen : Screen}

theorem addScreenKey_screenSet (hscreen : s.screens[screen]? = some pScreen)
    (i : Nat) (type' : PrivateType) :
    screenSet (addScreenKey s screen pScreen key type size bytes) i type' =
      if i = screen ∧ type' = type then
        some { growOffset bytes (pScreen.screenSpecificPrivates type) with
          keys := key :: (pScreen.screenSpecificPrivates type).keys }
      else screenSet s i type' := by
  rw [addScreenKey, screenSet, screenSet, getElem?_set]
  by_cases hi : screen = i
  · subst hi
    obtain ⟨hlt, -⟩ := List.getElem?_eq_some_iff.mp hscreen
    rw [if_pos rfl, if_pos hlt, hscreen, map_some, map_some]
    by_cases ht : type' = type
    · rw [if_pos ⟨rfl, ht⟩, ht]
      dsimp only
      rw [update_self]
    · rw [if_neg fun hn => ht hn.2]
      dsimp only
      rw [update_of_ne ht]
  · rw [if_neg hi, if_neg fun hn => hi hn.1.symm]

theorem keysAt_addScreenKey (hscreen : s.screens[screen]? = some pScreen)
    (home : Home) : keysAt (addScreenKey s screen pScreen key type size bytes) home =
      if home = .screen screen type then key :: keysAt s home else keysAt s home := by
  cases home with
  | global type' =>
    rw [if_neg (by simp)]
    rfl
  | screen i type' =>
    rw [keysAt, addScreenKey_screenSet hscreen]
    by_cases h : i = screen ∧ type' = type
    · obtain ⟨rfl, rfl⟩ := h
      rw [if_pos ⟨rfl, rfl⟩, if_pos rfl, keysAt, screenSet, hscreen]
      rfl
    · rw [if_neg h, if_neg (by simpa using h), keysAt]

theorem addScreenKey_keys (hk : k ≠ key) :
    (addScreenKey s screen pScreen key type size bytes).keys k = s.keys k :=
  update_of_ne hk _ _

theorem addScreenKey_key : (addScreenKey s screen pScreen key type size bytes).keys key =
      ⟨(pScreen.screenSpecificPrivates type).offset, size, true, type⟩ :=
  update_self _ _ _

theorem listed_addScreenKey (h : Listed s) (hscreen : s.screens[screen]? = some pScreen)
    (hnew : (s.keys key).initialized = false) :
    Listed (addScreenKey s screen pScreen key type size bytes) := by
  refine listed_add h hnew ?_ (keysAt_addScreenKey hscreen) fun k hk => ?_
  · rw [addScreenKey_key]
  · rw [addScreenKey_keys hk]

theorem layout_addScreenKey (h : Listed s) (hlayout : Layout s base)
    (hscreen : s.screens[screen]? = some pScreen)
    (hroom : (pScreen.screenSpecificPrivates type).offset + neededSize size ≤ 2 ^ 31)
    (htype : screenSpecificPrivate type = true) (hnew : (s.keys key).initialized = false) :
    Layout (addScreenKey s screen pScreen key type size (neededSize size)) base := by
  have hsame : ∀ home, ∀ k ∈ keysAt s home,
      (addScreenKey s screen pScreen key type size (neededSize size)).keys k = s.keys k := by
    intro home k hk
    refine addScreenKey_keys fun he => ?_
    rw [← he, h.known home k hk] at hnew
    cases hnew
  refine ⟨fun type' hne => ?_, fun i type' set hne hset => ?_, fun i type' set hplain hset => ?_⟩
  · exact packed_congr (hlayout.global type' hne)
      (fun k hk => congrArg Key.offset (hsame (.global type') k hk))
      fun k hk => congrArg Key.padded (hsame (.global type') k hk)
  · rw [addScreenKey_screenSet hscreen] at hset
    split at hset
    · next hi =>
      obtain ⟨rfl, rfl⟩ := hi
      cases hset
      have hold : screenSet s i type' = some (pScreen.screenSpecificPrivates type') := by
        rw [screenSet, hscreen, map_some]
      have hmem : ∀ k ∈ (pScreen.screenSpecificPrivates type').keys, k ∈ keysAt s (.screen i type') :=
        fun k hk => mem_keysAt_screen.mpr ⟨_, hold, hk⟩
      have hrest := packed_congr (hlayout.screen i type' _ hne hold)
        (fun k hk => congrArg Key.offset (hsame _ k (hmem k hk)))
        fun k hk => congrArg Key.padded (hsame _ k (hmem k hk))
      refine ⟨?_, ?_⟩
      · dsimp only
        rw [addScreenKey_key, growOffset_offset hroom]
        rfl
      · dsimp only
        rw [addScreenKey_key]
        exact hrest
    · have hmem : ∀ k ∈ set.keys, k ∈ keysAt s (.screen i type') :=
        fun k hk => mem_keysAt_screen.mpr ⟨_, hset, hk⟩
      exact packed_congr (hlayout.screen i type' set hne hset)
        (fun k hk => congrArg Key.offset (hsame _ k (hmem k hk)))
        fun k hk => congrArg Key.padded (hsame _ k (hmem k hk))
  · rw [addScreenKey_screenSet hscreen] at hset
    split at hset
    · next hi =>
      rw [hi.2, htype] at hplain
      cases hplain
    · exact hlayout.plain i type' set hplain hset

end Xfront.Privates
