import Xfront.Privates.Stores

/-!
# New screens, objects and values

What the steps that register no key keep.
-/

namespace Xfront.Privates
open Nat Prod Keyed

open List Option Function
open Bytes (Byte Block)
open Packing (Packed packed_bounds packed_shift packed_congr packed_le)

variable {s : Tracked}

theorem filled_same {s' : Tracked} {o : Object} (h : Filled s o)
    (hkeys : s'.state.keys = s.state.keys)
    (hhome : ∀ home, keysAt s'.state home = keysAt s.state home)
    (hlast : s'.last o.id = s.last o.id) (hstarved : s'.starved = s.starved)
    (hsize : privatesSize s'.state o.type o.screen = privatesSize s.state o.type o.screen) :
    Filled s' o := by
  refine filled_frame h rfl rfl rfl hsize h.fits (hstarved ▸ h.exact) fun k hk => ?_
  rw [mem_keysFor] at hk
  simp only [hhome] at hk
  rw [hkeys, hlast]
  exact ⟨mem_keysFor.mpr hk, rfl, rfl, rfl⟩

theorem screenSet_addScreen (s : State) (isGPU : Bool) (i : Nat) (type : PrivateType) :
    screenSet (addScreen s isGPU) i type =
      if i = s.screens.length then some ⟨[], (s.globalKeys type).offset, 0⟩
      else screenSet s i type := by
  rw [screenSet, addScreen, screenSet]
  by_cases h : i = s.screens.length
  · rw [if_pos h, h, getElem?_concat_length]
    rfl
  · rw [if_neg h]
    by_cases hlt : i < s.screens.length
    · rw [getElem?_append_left hlt]
    · rw [getElem?_eq_none (by rw [length_append, length_singleton]; omega),
        getElem?_eq_none (by omega)]

theorem screenSet_none {s : State} {i : Nat} (h : s.screens.length ≤ i) (type : PrivateType) :
    screenSet s i type = none := by
  rw [screenSet, getElem?_eq_none h, map_none]

theorem keysAt_addScreen (s : State) (isGPU : Bool) (home : Home) :
    keysAt (addScreen s isGPU) home = keysAt s home := by
  cases home with
  | global type => rfl
  | screen i type =>
    rw [keysAt, keysAt, screenSet_addScreen]
    split
    · next h => rw [screenSet_none (le_of_eq h.symm)]; rfl
    · rfl

theorem inv_addScreen (h : Inv s) (isGPU : Bool) :
    Inv (s.after (.addScreen isGPU) (addScreen s.state isGPU) true) := by
  have hset := screenSet_addScreen s.state isGPU
  have hsize : ∀ o ∈ s.state.objects, privatesSize (addScreen s.state isGPU) o.type o.screen =
      privatesSize s.state o.type o.screen := by
    intro o ho
    have hbind : (o.screen.bind fun i => screenSet (addScreen s.state isGPU) i o.type) =
        o.screen.bind fun i => screenSet s.state i o.type := by
      cases hscreen : o.screen with
      | none => rfl
      | some i =>
        have hlt := h.census.screens o ho i hscreen
        rw [bind_some, bind_some, hset, if_neg (Nat.ne_of_lt hlt)]
    rw [privatesSize, privatesSize, hbind]
    rfl
  obtain ⟨shared, hlaid⟩ := h.laid
  refine ⟨listed_congr h.listed (keysAt_addScreen s.state isGPU) fun _ => rfl,
    ⟨shared, hlaid.front, hlaid.layout.global, fun i type set hne hmem => ?_,
      fun i type set hplain hmem => ?_⟩, fun type hne => ⟨(h.roomy type hne).global,
      fun i set hmem => ?_⟩, ?_, fun o ho => ?_, h.fresh⟩
  · have hmem : screenSet (addScreen s.state isGPU) i type = some set := hmem
    rw [hset] at hmem
    split at hmem
    · cases hmem
      exact rfl
    · exact hlaid.layout.screen i type set hne hmem
  · have hmem : screenSet (addScreen s.state isGPU) i type = some set := hmem
    rw [hset] at hmem
    split at hmem
    · cases hmem
      rfl
    · exact hlaid.layout.plain i type set hplain hmem
  · have hmem : screenSet (addScreen s.state isGPU) i type = some set := hmem
    rw [hset] at hmem
    split at hmem
    · cases hmem
      exact (h.roomy type hne).global
    · exact (h.roomy type hne).screen i set hmem
  · refine ⟨h.census.ids, h.census.typed, fun o ho i hi => ?_, h.census.reached,
      h.census.counted, fun o ho ht i hi set hmem => ?_⟩
    · have hlt := h.census.screens o ho i hi
      show i < (s.state.screens ++ _).length
      rw [length_append]
      omega
    · have hlt := h.census.screens o ho i hi
      have hmem : screenSet (addScreen s.state isGPU) i o.type = some set := hmem
      rw [hset, if_neg (Nat.ne_of_lt hlt)] at hmem
      exact h.census.onScreen o ho ht i hi set hmem
  · exact filled_same (h.filled o ho) rfl (keysAt_addScreen s.state isGPU) rfl rfl (hsize o ho)

variable {id : Nat} {state : State}

theorem inv_set (h : Inv s) {key : Nat} {val : List Byte}
    (hset : setPrivate s.state id key val = some state) :
    Inv (s.after (.set id key val) state true) := by
  rw [setPrivate] at hset
  split at hset
  · cases hset
  next o ho =>
  split at hset
  · cases hset
  next hinit =>
  split at hset
  · cases hset
  next hfor =>
  obtain ⟨hfor, hlength⟩ := not_or.mp hfor
  rw [not_not] at hfor hlength
  obtain ⟨area, harea, rfl⟩ := map_eq_some_iff.mp hset
  have hmem := mem_of_lookup ho
  have hid : o.id = id := key_of_lookup ho
  obtain ⟨shared, hlaid⟩ := h.laid
  have hfilled := h.filled o hmem
  have hstore : area = o.area.store (s.state.keys key).offset val := by
    rw [Block.write] at harea
    split at harea
    · cases harea
      rfl
    · cases harea
  -- the other objects keep what they have, and this one all but what is stored
  have hobject : ∀ x ∈ Keyed.update Object.id (fun o => { o with area }) id s.state.objects,
      x ∈ s.state.objects ∧ x.id ≠ id ∨ x = { o with area } := by
    intro x hx
    rcases mem_update h.census.ids hx with hx | ⟨y, hy, hyid, rfl⟩
    · exact .inl hx
    · right
      have hlook := lookup_of_mem h.census.ids hy
      rw [hyid, ho] at hlook
      cases hlook
      rfl
  have hshape : (Keyed.update Object.id (fun o => { o with area }) id s.state.objects).map
      Object.shape = s.state.objects.map Object.shape := by
    have hupdate : ∀ l : List Object, (Keyed.update Object.id (fun o => { o with area }) id l).map
        Object.shape = l.map Object.shape := by
      intro l
      induction l with
      | nil => rfl
      | cons x l ih =>
        rw [Keyed.update]
        split
        · rfl
        · rw [map_cons, map_cons, ih]
    exact hupdate _
  refine ⟨listed_congr h.listed (fun home => by cases home <;> rfl) fun _ => rfl,
    ⟨shared, hlaid.front, hlaid.layout.global, hlaid.layout.screen, hlaid.layout.plain⟩,
    fun type hne => ⟨(h.roomy type hne).global, (h.roomy type hne).screen⟩,
    census_congr h.census hshape rfl (fun _ => rfl) fun i type set hset => ⟨set, hset, rfl⟩,
    fun x hx => ?_, fun id' k hk => ?_⟩
  · rcases hobject x hx with ⟨hx, hne⟩ | rfl
    · refine filled_same (h.filled x hx) rfl (fun home => by cases home <;> rfl) ?_ rfl rfl
      exact update_of_ne hne _ _
    · refine ⟨?_, fun hs => ?_, fun k hk => ?_⟩
      · rw [hstore]
        exact hfilled.fits
      · rw [hstore]
        exact hfilled.exact hs
      · have hk' : k ∈ keysFor s.state o := hk
        rw [Tracked.value]
        dsimp only [Tracked.after]
        rw [hid, update_self, hstore]
        by_cases heq : k = key
        · subst heq
          rw [update_self, getD_some, ← hlength, Block.slice_store_self]
        · rw [update_of_ne heq, ← hid]
          have hold := hfilled.holds k hk'
          have hpad := storage_le (s.state.keys k)
          have hpad' := storage_le (s.state.keys key)
          rcases keys_apart hlaid (h.census.typed o hmem) hk' hfor heq with hle | hle
          · rw [Block.slice_store_before (by omega)]
            exact hold
          · rw [Block.slice_store_after (by omega)]
            exact hold
  · dsimp only [Tracked.after] at hk ⊢
    by_cases hid' : id' = id
    · rw [hid', update_self]
      have hne : k ≠ key := fun he => by
        rw [he] at hk
        simp [hk] at hinit
      rw [update_of_ne hne]
      exact h.fresh id k hk
    · rw [update_of_ne hid']
      exact h.fresh id' k hk

structure SameKeys (s s' : State) : Prop where
  keys : s'.keys = s.keys
  global : ∀ type, (s'.globalKeys type).keys = (s.globalKeys type).keys ∧
    (s'.globalKeys type).offset = (s.globalKeys type).offset
  screen : ∀ i type, (screenSet s' i type).map (fun set => (set.keys, set.offset)) =
    (screenSet s i type).map fun set => (set.keys, set.offset)

section

variable {s s' : State} (h : SameKeys s s')
include h

variable {type : PrivateType}

theorem sameKeys_screen {i : Nat} {set' : KeySet} (hset : screenSet s' i type = some set') :
    ∃ set, screenSet s i type = some set ∧ set'.keys = set.keys ∧ set'.offset = set.offset := by
  have hmap := h.screen i type
  rw [hset, map_some, eq_comm] at hmap
  obtain ⟨set, hold, heq⟩ := map_eq_some_iff.mp hmap
  exact ⟨set, hold, (congrArg fst heq).symm, (congrArg snd heq).symm⟩

theorem sameKeys_keysAt (home : Home) : keysAt s' home = keysAt s home := by
  cases home with
  | global type => exact (h.global type).1
  | screen i type =>
    have hmap := congrArg (Option.map fst) (h.screen i type)
    rw [Option.map_map, Option.map_map] at hmap
    exact congrArg (Option.getD · []) hmap

theorem sameKeys_privatesSize (type : PrivateType) (screen : Option Nat) :
    privatesSize s' type screen = privatesSize s type screen := by
  rw [privatesSize, privatesSize, (h.global type).2]
  split
  · cases screen with
    | none => rfl
    | some i =>
      rw [bind_some, bind_some]
      cases hset : screenSet s' i type with
      | none =>
        have hmap := h.screen i type
        rw [hset, map_none, eq_comm, map_eq_none_iff] at hmap
        rw [hmap]
      | some set' =>
        obtain ⟨set, hold, -, hoffset⟩ := sameKeys_screen h hset
        rw [hold]
        exact hoffset
  · rfl

theorem sameKeys_listed (hlisted : Listed s) : Listed s' :=
  listed_congr hlisted (sameKeys_keysAt h) fun k => by rw [h.keys]

theorem sameKeys_laid {shared : Nat} (hlaid : Laid s shared) : Laid s' shared := by
  refine ⟨?_, fun type hne => ?_, fun i type set' hne hset => ?_, fun i type set' hplain hset => ?_⟩
  · rw [h.keys, (h.global .xselinux).1]
    exact hlaid.front
  · rw [h.keys, (h.global type).1, (h.global type).2]
    exact hlaid.layout.global type hne
  · obtain ⟨set, hold, hkeys, hoffset⟩ := sameKeys_screen h hset
    rw [h.keys, (h.global type).2, hkeys, hoffset]
    exact hlaid.layout.screen i type set hne hold
  · obtain ⟨set, hold, hkeys, -⟩ := sameKeys_screen h hset
    rw [hkeys]
    exact hlaid.layout.plain i type set hplain hold

theorem sameKeys_roomy {bytes : Nat} (hroomy : Roomy s type bytes) : Roomy s' type bytes := by
  refine ⟨?_, fun i set' hset => ?_⟩
  · rw [(h.global type).2]
    exact hroomy.global
  · obtain ⟨set, hold, -, hoffset⟩ := sameKeys_screen h hset
    rw [hoffset]
    exact hroomy.screen i set hold

end

theorem createdGlobal_same (globalKeys : PrivateType → KeySet) (type type' : PrivateType) :
    (createdGlobal globalKeys type type').keys = (globalKeys type').keys ∧
      (createdGlobal globalKeys type type').offset = (globalKeys type').offset ∧
      (globalKeys type').created + (if type' = type then 1 else 0) ≤
        (createdGlobal globalKeys type type').created := by
  have hset : ∀ (g : PrivateType → KeySet) (t : PrivateType),
      (update g t (g t).create type').keys = (g type').keys ∧
        (update g t (g t).create type').offset = (g type').offset ∧
        (update g t (g t).create type').created =
          (g type').created + if type' = t then 1 else 0 := by
    intro g t
    by_cases ht : type' = t
    · rw [ht, update_self, if_pos rfl]
      exact ⟨rfl, rfl, rfl⟩
    · rw [update_of_ne ht, if_neg ht]
      exact ⟨rfl, rfl, rfl⟩
  rw [createdGlobal]
  obtain ⟨hkeys, hoffset, hcreated⟩ := hset globalKeys type
  split
  · obtain ⟨hkeys', hoffset', hcreated'⟩ :=
      hset (update globalKeys type (globalKeys type).create) .xselinux
    exact ⟨hkeys'.trans hkeys, hoffset'.trans hoffset, by omega⟩
  · exact ⟨hkeys, hoffset, by omega⟩

theorem screenSet_created (s : State) {s' : State} {screen : Option Nat}
    (hscreens : s'.screens = createdScreens s.screens type screen) (i : Nat)
    (type' : PrivateType) : screenSet s' i type' = (screenSet s i type').map fun set =>
      if screenSpecificPrivate type = true ∧ screen = some i ∧ type' = type then set.create
      else set := by
  rw [screenSet, screenSet, hscreens, Option.map_map]
  cases screen with
  | none =>
    rw [createdScreens]
    congr 1
    funext pScreen
    rw [comp_apply, if_neg (by simp)]
  | some j =>
    rw [createdScreens]
    split
    · next hs =>
      rw [getElem?_modify, Option.map_eq_map, Option.map_map]
      congr 1
      funext pScreen
      rw [comp_apply, comp_apply]
      by_cases hj : j = i
      · rw [if_pos hj, Screen.create]
        by_cases ht : type' = type
        · rw [if_pos ⟨hs, by rw [hj], ht⟩, ht]
          exact update_self _ _ _
        · rw [if_neg fun hn => ht hn.2.2]
          exact update_of_ne ht _ _
      · rw [if_neg hj, if_neg fun hn => hj (some.inj hn.2.1)]
    · next hs =>
      congr 1
      funext pScreen
      rw [comp_apply, if_neg fun hn => hs hn.1]

theorem inv_create (h : Inv s) {screen : Option Nat} {separate reached : Bool}
    (hcreate : createObject s.state id type screen separate reached = some state) :
    Inv (s.after (.create id type screen separate reached) state true) := by
  rw [createObject] at hcreate
  obtain ⟨hok, hcreate⟩ := ite_none_left_eq_some.mp hcreate
  simp only [not_or, Bool.not_eq_true, Bool.not_eq_false', isSome_eq_false_iff,
    isNone_iff_eq_none] at hok
  obtain ⟨hne, hknown, hfound, hfresh⟩ := hok
  have hglobal : state.globalKeys = createdGlobal s.state.globalKeys type := by
    cases hcreate
    rfl
  have hscreens : state.screens = createdScreens s.state.screens type screen := by
    cases hcreate
    rfl
  have hobjects : state.objects = ⟨id, type, screen, separate, reached,
      Block.zeroed (privatesSize s.state type screen)⟩ :: s.state.objects := by
    cases hcreate
    rfl
  have hkeys : state.keys = s.state.keys := by
    cases hcreate
    rfl
  have hset := screenSet_created s.state hscreens
  have hsame : SameKeys s.state state := by
    refine ⟨hkeys, fun type' => ?_, fun i type' => ?_⟩
    · rw [hglobal]
      exact ⟨(createdGlobal_same s.state.globalKeys type type').1,
        (createdGlobal_same s.state.globalKeys type type').2.1⟩
    · rw [hset, Option.map_map]
      congr 1
      funext set
      rw [comp_apply]
      split <;> rfl
  have hlength : state.screens.length = s.state.screens.length := by
    rw [hscreens]
    cases screen with
    | none => rfl
    | some i =>
      rw [createdScreens]
      split
      · exact length_modify _ _ _
      · rfl
  have hcase : ∀ o ∈ state.objects, o = ⟨id, type, screen, separate, reached,
      Block.zeroed (privatesSize s.state type screen)⟩ ∨ o ∈ s.state.objects := fun o ho => by
    rw [hobjects] at ho
    exact mem_cons.mp ho
  obtain ⟨shared, hlaid⟩ := h.laid
  refine ⟨sameKeys_listed hsame h.listed, ⟨shared, sameKeys_laid hsame hlaid⟩,
    fun type' hne' => sameKeys_roomy hsame (h.roomy type' hne'), ?_, fun o ho => ?_,
    fun id' key hk => ?_⟩
  · refine ⟨?_, fun o ho => ?_, fun o ho i hi => ?_, fun o ho hr => ?_, fun type' ht => ?_,
      fun o ho ht i hi set' hset' => ?_⟩
    · show (state.objects.map Object.id).Nodup
      rw [hobjects, map_cons]
      exact nodup_cons.mpr ⟨lookup_eq_none.mp hfresh, h.census.ids⟩
    · rcases hcase o ho with rfl | ho
      · exact hne
      · exact h.census.typed o ho
    · show i < state.screens.length
      rw [hlength]
      rcases hcase o ho with rfl | ho
      · have hi : screen = some i := hi
        rw [hi] at hknown
        exact of_decide_eq_true hknown
      · exact h.census.screens o ho i hi
    · rcases hcase o ho with rfl | ho
      · have hr : reached = true := hr
        rw [hr, Bool.true_and, Bool.not_eq_false', Bool.and_eq_true, Bool.and_eq_true,
          Bool.or_eq_true] at hfound
        refine ⟨hfound.1.2, fun hcolormap => ?_⟩
        have hcolormap : type = .colormap := hcolormap
        rcases hfound.2 with hbad | hany
        · exact absurd hcolormap (of_decide_eq_true hbad)
        · cases hscreen : screen with
          | none =>
            rw [hscreen] at hany
            cases hany
          | some i => exact ⟨i, rfl⟩
      · exact h.census.reached o ho hr
    · show (state.objects.filter (·.type = type')).length ≤ (state.globalKeys type').created
      have hcount := h.census.counted type' ht
      have hgrow := (createdGlobal_same s.state.globalKeys type type').2.2
      rw [hobjects, hglobal, filter_cons]
      by_cases heq : type' = type
      · rw [if_pos heq] at hgrow
        rw [if_pos (decide_eq_true heq.symm), length_cons]
        omega
      · rw [if_neg heq] at hgrow
        rw [if_neg (by simpa using Ne.symm heq)]
        omega
    · have hset' : screenSet state i o.type = some set' := hset'
      rw [hset] at hset'
      obtain ⟨set, hold, rfl⟩ := map_eq_some_iff.mp hset'
      rcases hcase o ho with rfl | ho
      · rw [if_pos ⟨ht, hi, rfl⟩]
        exact succ_ne_zero _
      · have hcreated := h.census.onScreen o ho ht i hi set hold
        split
        · exact succ_ne_zero _
        · exact hcreated
  · rcases hcase o ho with rfl | ho
    · have hsize := sameKeys_privatesSize hsame type screen
      refine ⟨le_of_eq hsize, fun _ => hsize.symm, fun k hk => ?_⟩
      rw [Block.slice_zeroed, Tracked.value]
      dsimp only [Tracked.after]
      rw [update_self, getD_none]
    · have hid : o.id ≠ id := fun he => by
        rw [lookup_eq_none, ← he] at hfresh
        exact hfresh (List.mem_map_of_mem ho)
      exact filled_same (h.filled o ho) hkeys (sameKeys_keysAt hsame)
        (update_of_ne hid _ _) rfl (sameKeys_privatesSize hsame o.type o.screen)
  · dsimp only [Tracked.after] at hk ⊢
    rw [hkeys] at hk
    by_cases hid : id' = id
    · rw [hid, update_self]
    · rw [update_of_ne hid]
      exact h.fresh id' key hk

theorem freedGlobal_same (globalKeys : PrivateType → KeySet) (type type' : PrivateType) :
    (freedGlobal globalKeys type type').keys = (globalKeys type').keys ∧
      (freedGlobal globalKeys type type').offset = (globalKeys type').offset ∧
      (type' ≠ .xselinux → (globalKeys type').created ≤
        (freedGlobal globalKeys type type').created + if type' = type then 1 else 0) := by
  have hset : ∀ (g : PrivateType → KeySet) (t : PrivateType),
      (update g t (g t).free type').keys = (g type').keys ∧
        (update g t (g t).free type').offset = (g type').offset ∧
        (update g t (g t).free type').created = (g type').created - if type' = t then 1 else 0 := by
    intro g t
    by_cases ht : type' = t
    · rw [ht, update_self, if_pos rfl]
      exact ⟨rfl, rfl, rfl⟩
    · rw [update_of_ne ht, if_neg ht]
      exact ⟨rfl, rfl, rfl⟩
  rw [freedGlobal]
  obtain ⟨hkeys, hoffset, hcreated⟩ := hset globalKeys type
  split
  · obtain ⟨hkeys', hoffset', hcreated'⟩ :=
      hset (update globalKeys type (globalKeys type).free) .xselinux
    refine ⟨hkeys'.trans hkeys, hoffset'.trans hoffset, fun hne => ?_⟩
    rw [hcreated', if_neg hne, hcreated]
    omega
  · refine ⟨hkeys, hoffset, fun _ => ?_⟩
    rw [hcreated]
    omega

theorem inv_free (h : Inv s) (hfree : freeObject s.state id = some state) :
    Inv (s.after (.free id) state true) := by
  obtain ⟨o, ho, hstate⟩ := map_eq_some_iff.mp hfree
  have hmem := mem_of_lookup ho
  have hobjects : state.objects = Keyed.erase Object.id s.state.objects id := by rw [← hstate]
  have hglobal : ∀ type, (state.globalKeys type).keys = (s.state.globalKeys type).keys ∧
      (state.globalKeys type).offset = (s.state.globalKeys type).offset ∧
      (type ≠ .xselinux → (s.state.globalKeys type).created ≤
        (state.globalKeys type).created + if type = o.type then 1 else 0) := by
    intro type
    rw [← hstate]
    split
    · exact ⟨rfl, rfl, fun _ => Nat.le_add_right _ _⟩
    · exact freedGlobal_same s.state.globalKeys o.type type
  have hsame : SameKeys s.state state := by
    refine ⟨by rw [← hstate], fun type => ⟨(hglobal type).1, (hglobal type).2.1⟩, fun i type => ?_⟩
    rw [← hstate]
    rfl
  have hsub : state.objects.Sublist s.state.objects := hobjects ▸ Keyed.erase_sublist
  have hsets : ∀ i type, screenSet state i type = screenSet s.state i type := fun i type => by
    rw [← hstate]
    rfl
  obtain ⟨shared, hlaid⟩ := h.laid
  refine ⟨sameKeys_listed hsame h.listed, ⟨shared, sameKeys_laid hsame hlaid⟩,
    fun type hne => sameKeys_roomy hsame (h.roomy type hne), ?_, fun x hx => ?_,
    fun id' key hk => h.fresh id' key (hsame.keys ▸ hk)⟩
  · refine ⟨(hsub.map _).nodup h.census.ids, fun x hx => h.census.typed x (hsub.subset hx),
      fun x hx i hi => ?_, fun x hx => h.census.reached x (hsub.subset hx), fun type ht => ?_,
      fun x hx ht i hi set hset => ?_⟩
    · show i < state.screens.length
      rw [← hstate]
      exact h.census.screens x (hsub.subset hx) i hi
    · show (state.objects.filter (·.type = type)).length ≤ (state.globalKeys type).created
      have hcount := h.census.counted type ht
      by_cases heq : type = o.type
      · have hne : type ≠ .xselinux := heq ▸ h.census.typed o hmem
        have hcreated := (hglobal type).2.2 hne
        rw [if_pos heq] at hcreated
        -- the erased object is one of those that were counted
        have hperm : s.state.objects.Perm (o :: state.objects) := hobjects ▸ perm_erase ho
        have hlen := (hperm.filter (·.type = type)).length_eq
        rw [filter_cons_of_pos (by simpa using heq.symm), length_cons] at hlen
        omega
      · have hcreated := (hglobal type).2.2
        rw [if_neg heq] at hcreated
        have hle := (hsub.filter (·.type = type)).length_le
        by_cases hne : type = .xselinux
        · subst hne
          have hnone : state.objects.filter (·.type = .xselinux) = [] :=
            filter_eq_nil_iff.mpr fun x hx => by
              simpa using h.census.typed x (hsub.subset hx)
          rw [hnone]
          exact zero_le _
        · have hc := hcreated hne
          omega
    · exact h.census.onScreen x (hsub.subset hx) ht i hi set (hsets i x.type ▸ hset)
  · exact filled_same (h.filled x (hsub.subset hx)) hsame.keys (sameKeys_keysAt hsame) rfl rfl
      (sameKeys_privatesSize hsame x.type x.screen)

end Xfront.Privates
