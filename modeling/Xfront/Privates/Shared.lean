import Xfront.Privates.Registering

/-!
# Registering a shared key

A shared key moves all that the objects of many types have up by its size. The types are
moved one after the other.
-/

open List Option Function

namespace Xfront.Privates

open Bytes (Byte Block)
open Packing (Packed packed_bounds packed_shift packed_congr packed_le)

variable {s : Tracked} {bytes : Nat} {d : PrivateType → Bool} {state : State}

def Holds (s : Tracked) (state : State) (o : Object) : Prop :=
  ∀ k ∈ keysFor state o, o.area.slice (state.keys k).offset (state.keys k).storage =
    (s.last o.id k).getD (replicate (state.keys k).storage 0)

/-- The areas of the shared types have room for the new key, those of the types `d` already
in front of all that they have. -/
structure Moving (s : Tracked) (bytes : Nat) (d : PrivateType → Bool) (state : State) : Prop where
  listed : Listed state
  first : (state.globalKeys .xselinux).keys = []
  layout : Layout state fun type => if d type then bytes else 0
  roomy : ∀ type, type ≠ .xselinux →
    Roomy state type (if xselinuxPrivate type && !d type then bytes else 0)
  census : Census state
  reached : ∀ type, xselinuxPrivate type = true → Reached state type
  known : ∀ k, (state.keys k).initialized = (s.state.keys k).initialized
  moved : ∀ o ∈ state.objects, xselinuxPrivate o.type = true → allocatedEarly o.type = true ∧
    o.area.size = (state.globalKeys o.type).offset + (if d o.type then 0 else bytes) ∧
    (d o.type = true → ∀ n ≤ bytes, o.area.slice 0 n = replicate n 0)
  kept : ∀ o ∈ state.objects, xselinuxPrivate o.type = false →
    privatesSize state o.type o.screen ≤ o.area.size ∧
      (s.starved = false → o.area.size = privatesSize state o.type o.screen)
  holds : ∀ o ∈ state.objects, Holds s state o

variable {type : PrivateType}

theorem growType_size {s : State} (h : Listed s) (k : Nat) :
    ((growType bytes s type).keys k).size = (s.keys k).size := by
  by_cases hk : Concerns s type k
  · rw [(growType_keys h k).1 hk]
    rfl
  · rw [(growType_keys h k).2 hk]

theorem growType_privatesSize {s : State} {type' : PrivateType} (hne : type' ≠ type)
    (hroomy : Roomy s type bytes) (screen : Option Nat) :
    privatesSize (growType bytes s type) type' screen = privatesSize s type' screen := by
  have hglobal := growType_global hroomy type'
  rw [if_neg hne, add_zero] at hglobal
  have hbind : (screen.bind fun i => screenSet (growType bytes s type) i type') =
      screen.bind fun i => screenSet s i type' := by
    cases screen with
    | none => rfl
    | some i =>
      rw [bind_some, bind_some, growType_screenSet]
      simp only [if_neg hne, Option.map_id_fun', id_eq]
  rw [privatesSize, privatesSize, hglobal, hbind]

theorem census_growType {s : State} (h : Census s) : Census (growType bytes s type) := by
  refine census_congr h rfl (length_map _) (fun type' => ?_) fun i type' set' hmem => ?_
  · rw [growType, growScreenSpecificSet, growGlobalSet]
    dsimp only
    by_cases heq : type' = type
    · rw [heq, update_self]
      rfl
    · rw [update_of_ne heq]
  · have hmem : screenSet (growType bytes s type) i type' = some set' := hmem
    rw [growType_screenSet] at hmem
    obtain ⟨set, hold, rfl⟩ := map_eq_some_iff.mp hmem
    refine ⟨set, hold, ?_⟩
    split <;> rfl

theorem concerns_of_keysFor (hfirst : (state.globalKeys .xselinux).keys = []) {o : Object} {k : Nat}
    (hk : k ∈ keysFor state o) : Concerns state o.type k := by
  rcases mem_keysFor.mp hk with ⟨-, hk⟩ | hk | ⟨i, -, hk⟩
  · rw [keysAt, hfirst] at hk
    cases hk
  · exact .inl hk
  · exact .inr ⟨i, hk⟩

theorem keysFor_growType {s : State} {o : Object} {k : Nat} :
    k ∈ keysFor (growType bytes s type) o ↔ k ∈ keysFor s o := by
  simp only [mem_keysFor, keysAt_growType]

theorem moving_step (h : Moving s bytes d state)
    (hx : xselinuxPrivate type = true) (hd : d type = false) :
    Moving s bytes (fun t => d t || decide (t = type)) (moveUpType bytes state type) := by
  have hne : type ≠ .xselinux := fun he => by
    rw [he] at hx
    cases hx
  have hroomy : Roomy state type bytes := by
    have hr := h.roomy type hne
    rwa [hx, hd, Bool.not_false, Bool.and_true, if_pos rfl] at hr
  have hlayout : Layout (growType bytes state type) fun t =>
      if (d t || decide (t = type)) = true then bytes else 0 := by
    have hl := layout_growType h.listed h.layout hroomy hne
    refine ⟨fun t ht => ?_, hl.screen, hl.plain⟩
    have hg := hl.global t ht
    by_cases heq : t = type
    · subst heq
      rw [hd, if_neg Bool.false_ne_true, if_pos rfl, zero_add] at hg
      rw [hd, Bool.false_or, if_pos (decide_eq_true rfl)]
      exact hg
    · rw [if_neg heq, add_zero] at hg
      rw [decide_eq_false heq, Bool.or_false]
      exact hg
  have hcensus : Census (growType bytes state type) := census_growType h.census
  have hglobal := growType_global hroomy
  have hfirst : ((growType bytes state type).globalKeys .xselinux).keys = [] :=
    (keysAt_growType (.global .xselinux)).trans h.first
  -- what is the same for both kinds of types: all but the objects
  have hrest : ∀ objects : List Object, objects.map Object.shape = state.objects.map Object.shape →
      (∀ o ∈ objects, ∃ o₀ ∈ state.objects, if o₀.type = type then
          o = { o₀ with
            area := movePrivates o₀.area ((state.globalKeys type).offset + bytes) bytes }
        else o = o₀) →
      Moving s bytes (fun t => d t || decide (t = type))
        { growType bytes state type with objects } := by
    intro objects hshape hobjects
    refine ⟨listed_objects (listed_growType h.listed) objects, hfirst,
      ⟨hlayout.global, hlayout.screen, hlayout.plain⟩, fun t ht => ⟨?_, fun i set hmem => ?_⟩,
      census_objects hcensus hshape, fun t ht => reached_objects (h.reached t ht) hshape,
      fun k => ?_, fun o ho hxo => ?_, fun o ho hxo => ?_, fun o ho k hk => ?_⟩
    · have hr := (h.roomy t ht).global
      show ((growType bytes state type).globalKeys t).offset + _ ≤ 2 ^ 31
      rw [hglobal]
      by_cases heq : t = type
      · subst heq
        have hrt := hroomy.global
        rw [if_pos rfl, decide_eq_true rfl, Bool.or_true, Bool.not_true, Bool.and_false,
          if_neg Bool.false_ne_true]
        exact hrt
      · rw [if_neg heq, decide_eq_false heq, Bool.or_false]
        exact hr
    · have hmem : screenSet (growType bytes state type) i t = some set := hmem
      rw [growType_screenSet] at hmem
      obtain ⟨set, hold, rfl⟩ := map_eq_some_iff.mp hmem
      rw [screenSet_offset hroomy hold]
      by_cases heq : t = type
      · subst heq
        rw [if_pos rfl, decide_eq_true rfl, Bool.or_true, Bool.not_true, Bool.and_false,
          if_neg Bool.false_ne_true]
        exact hroomy.screen i set hold
      · rw [if_neg heq, decide_eq_false heq, Bool.or_false]
        exact (h.roomy t ht).screen i set hold
    · rw [← h.known k]
      show ((growType bytes state type).keys k).initialized = _
      by_cases hc : Concerns state type k
      · rw [(growType_keys h.listed k).1 hc]
        rfl
      · rw [(growType_keys h.listed k).2 hc]
    · obtain ⟨o₀, ho₀, hcase⟩ := hobjects o ho
      have hg : ((growType bytes state type).globalKeys o.type).offset = _ := hglobal o.type
      split at hcase
      · next htype =>
        subst hcase
        obtain ⟨hearly, hsize, -⟩ := h.moved o₀ ho₀ hxo
        refine ⟨hearly, ?_, fun _ n hn => move_new (by omega)⟩
        show o₀.area.size = ((growType bytes state type).globalKeys o₀.type).offset + _
        rw [htype, hd] at hsize
        rw [htype, hglobal, if_pos rfl, hd, Bool.false_or, if_pos (decide_eq_true rfl), hsize]
        rfl
      · next htype =>
        subst hcase
        obtain ⟨hearly, hsize, hzero⟩ := h.moved o ho₀ hxo
        refine ⟨hearly, ?_, fun hdo n hn => hzero ?_ n hn⟩
        · show o.area.size = ((growType bytes state type).globalKeys o.type).offset + _
          rw [hglobal, if_neg htype, decide_eq_false htype, Bool.or_false]
          exact hsize
        · rw [decide_eq_false htype, Bool.or_false] at hdo
          exact hdo
    · obtain ⟨o₀, ho₀, hcase⟩ := hobjects o ho
      have htype : o₀.type ≠ type := fun htype => by
        rw [if_pos htype] at hcase
        rw [hcase] at hxo
        rw [htype, hx] at hxo
        cases hxo
      rw [if_neg htype] at hcase
      subst hcase
      have hsize := growType_privatesSize htype hroomy o.screen
      have hk := h.kept o ho₀ hxo
      rw [← hsize] at hk
      exact hk
    · obtain ⟨o₀, ho₀, hcase⟩ := hobjects o ho
      have hk : k ∈ keysFor (growType bytes state type) o := hk
      rw [keysFor_growType] at hk
      show o.area.slice ((growType bytes state type).keys k).offset
        ((growType bytes state type).keys k).storage = (s.last o.id k).getD
          (replicate ((growType bytes state type).keys k).storage 0)
      rw [storage_congr (growType_size h.listed k)]
      split at hcase
      · next htype =>
        subst hcase
        have hk₀ : k ∈ keysFor state o₀ := hk
        have hc := concerns_of_keysFor h.first hk₀
        obtain ⟨hearly, hsize, -⟩ := h.moved o₀ ho₀ (htype ▸ hx)
        have hin : (state.keys k).offset + (state.keys k).padded ≤
            (state.globalKeys type).offset := by
          rcases hc with hg | ⟨i, hs⟩
          · have hg : k ∈ (state.globalKeys o₀.type).keys := hg
            rw [htype] at hg
            exact (packed_bounds (h.layout.global type hne) hg).2
          · obtain ⟨set, hset, hs⟩ := mem_keysAt_screen.mp hs
            rw [h.layout.plain i o₀.type set (early_not_screenSpecific hearly) hset] at hs
            cases hs
        have hstore := storage_le (state.keys k)
        rw [growType_offset h.listed h.layout hroomy hne (htype ▸ hc), if_pos rfl]
        rw [move_slice (by omega)]
        exact h.holds o₀ ho₀ k hk₀
      · next htype =>
        subst hcase
        rw [growType_offset h.listed h.layout hroomy hne (concerns_of_keysFor h.first hk),
          if_neg htype]
        exact h.holds o ho₀ k hk
  rw [moveUpType]
  split
  · next hearly =>
    refine hrest _ fixup_shape fun o ho => ?_
    obtain ⟨o₀, ho₀, hcase⟩ := fixup_done fixup_some_ok ho
    refine ⟨o₀, ho₀, ?_⟩
    by_cases htype : o₀.type = type
    · have hr : o₀.reached = true := h.reached type hx hearly o₀ ho₀ htype
      rw [if_pos ⟨htype, hr⟩] at hcase
      obtain ⟨area, harea, rfl⟩ := hcase
      have hoffset : fixupOffset (growType bytes state type) o₀ = _ :=
        fixupOffset_eq hlayout hcensus ho₀ hr
      have harea : some (movePrivates o₀.area (fixupOffset (growType bytes state type) o₀) bytes) =
          some area := harea
      rw [hoffset, htype, hglobal, if_pos rfl] at harea
      rw [if_pos htype, some.inj harea]
    · rw [if_neg fun hn => htype hn.1] at hcase
      rw [if_neg htype]
      exact hcase
  · next hearly =>
    refine hrest state.objects rfl fun o ho => ⟨o, ho, ?_⟩
    rw [if_neg fun htype => ?_]
    have he := (h.moved o ho (htype ▸ hx)).1
    rw [htype] at he
    exact hearly he

theorem moving_all {types : List PrivateType} (hnd : types.Nodup) (h : Moving s bytes d state)
    (hd : ∀ t ∈ types, d t = false) :
    Moving s bytes (fun t => d t || (decide (t ∈ types) && xselinuxPrivate t))
      (moveUpShared bytes types state) := by
  induction types generalizing d state with
  | nil =>
    have heq : (fun t => d t || (decide (t ∈ ([] : List PrivateType)) && xselinuxPrivate t)) = d := by
      funext t
      simp
    rw [heq]
    exact h
  | cons type types ih =>
    obtain ⟨hnot, hnd'⟩ := nodup_cons.mp hnd
    have hd' : ∀ t ∈ types, d t = false := fun t ht => hd t (mem_cons_of_mem _ ht)
    rw [moveUpShared]
    by_cases hx : xselinuxPrivate type = true
    · rw [if_pos hx]
      have hstep := moving_step h hx (hd type mem_cons_self)
      have hall := ih hnd' hstep fun t ht => by
        rw [hd' t ht, Bool.false_or]
        exact decide_eq_false fun he => hnot (he ▸ ht)
      have heq : (fun t => (d t || decide (t = type)) || (decide (t ∈ types) && xselinuxPrivate t)) =
          fun t => d t || (decide (t ∈ type :: types) && xselinuxPrivate t) := by
        funext t
        by_cases ht : t = type
        · subst ht
          simp [hx]
        · simp [ht]
      rw [heq] at hall
      exact hall
    · rw [if_neg hx]
      have hall := ih hnd' h hd'
      have heq : (fun t => d t || (decide (t ∈ types) && xselinuxPrivate t)) =
          fun t => d t || (decide (t ∈ type :: types) && xselinuxPrivate t) := by
        funext t
        by_cases ht : t = type
        · subst ht
          simp [hx]
        · simp [ht]
      rw [heq] at hall
      exact hall

theorem mem_privateTypes (type : PrivateType) : type ∈ privateTypes := by
  cases type <;> decide

theorem moving_start (h : Inv s) (hfirst : (s.state.globalKeys .xselinux).keys = [])
    (hroomy : ∀ t, xselinuxPrivate t = true → Roomy s.state t bytes)
    (hreached : ∀ t, xselinuxPrivate t = true → Reached s.state t) {q : PrivateType → Prop}
    (hsound : ∀ t, q t → xselinuxPrivate t = true) (hall : ∀ t, xselinuxPrivate t = true → q t)
    {objects : List Object} (hroomed : Roomed s.state q bytes objects true) :
    Moving s bytes (fun _ => false) { s.state with objects } := by
  obtain ⟨shared, hlaid⟩ := h.laid
  have hzero : shared = 0 := by
    have hfront := hlaid.front
    rw [hfirst] at hfront
    exact hfront.symm
  subst hzero
  have hbase : (fun type => if xselinuxPrivate type then 0 else 0) = fun _ : PrivateType => 0 := by
    funext type
    exact ite_self 0
  have hlayout : Layout s.state fun _ => 0 := hbase ▸ hlaid.layout
  refine ⟨listed_objects h.listed objects, hfirst, ⟨hlayout.global, hlayout.screen, hlayout.plain⟩,
    fun t ht => ?_, census_objects h.census hroomed.shape,
    fun t ht => reached_objects (hreached t ht) hroomed.shape, fun _ => rfl, fun o ho hx => ?_,
    fun o ho hx => ?_, fun o ho k hk => ?_⟩
  · cases hx : xselinuxPrivate t with
    | false => exact ⟨(h.roomy t ht).global, (h.roomy t ht).screen⟩
    | true => exact ⟨(hroomy t hx).global, (hroomy t hx).screen⟩
  · obtain ⟨o₀, ho₀, hearly, junk, rfl⟩ := hroomed.done rfl o ho (hall _ hx)
    exact ⟨hearly, realloc_size (hroomy _ hx).global, fun hn => nomatch hn⟩
  · have hold := roomed_other hroomed ho fun hq => by
      rw [hsound _ hq] at hx
      cases hx
    exact ⟨(h.filled o hold).fits, (h.filled o hold).exact⟩
  · obtain ⟨o₀, ho₀, rfl | ⟨hq, hearly, junk, rfl⟩⟩ := hroomed.some o ho
    · exact (h.filled o ho₀).holds k hk
    · have hk : k ∈ keysFor s.state o₀ := hk
      have hin := key_inside hlaid (h.census.typed o₀ ho₀) hk
      rw [early_privatesSize hearly] at hin
      have hfits := (h.filled o₀ ho₀).fits
      rw [early_privatesSize hearly] at hfits
      have hstore := storage_le (s.state.keys k)
      have hslice : (reallocPrivates o₀.area (s.state.globalKeys o₀.type).offset bytes junk).slice
          (s.state.keys k).offset (s.state.keys k).storage =
            o₀.area.slice (s.state.keys k).offset (s.state.keys k).storage :=
        realloc_slice (by omega) hfits
      exact hslice.trans ((h.filled o₀ ho₀).holds k hk)

theorem inv_setupShared (h : Inv s) {key size : Nat} (hnew : (s.state.keys key).initialized = false)
    (hmoving : Moving s (neededSize size) xselinuxPrivate state) :
    Inv ⟨setupKey state key .xselinux size 0, s.last, s.starved⟩ := by
  have hglobal : ∀ type, type ≠ .xselinux →
      (setupKey state key .xselinux size 0).globalKeys type = state.globalKeys type :=
    fun type hne => update_of_ne hne _ _
  have hhome : ∀ home, keysAt (setupKey state key .xselinux size 0) home =
      if home = .global .xselinux then key :: keysAt state home else keysAt state home := by
    intro home
    cases home with
    | global type =>
      by_cases hne : type = .xselinux
      · subst hne
        rw [if_pos rfl, keysAt, keysAt, setupKey]
        dsimp only
        rw [update_self]
      · rw [if_neg (by simpa using hne), keysAt, hglobal type hne]
        rfl
    | screen i type =>
      rw [if_neg (by simp)]
      rfl
  have hnew' : (state.keys key).initialized = false := (hmoving.known key).trans hnew
  have hkey : (setupKey state key .xselinux size 0).keys key = ⟨0, size, true, .xselinux⟩ :=
    update_self _ _ _
  have hother : ∀ k, k ≠ key → (setupKey state key .xselinux size 0).keys k = state.keys k :=
    fun k hk => update_of_ne hk _ _
  have hlist : ∀ home, ∀ k ∈ keysAt state home,
      (setupKey state key .xselinux size 0).keys k = state.keys k := by
    intro home k hk
    refine hother k fun he => ?_
    rw [← he, hmoving.listed.known home k hk] at hnew'
    cases hnew'
  have hsize : ∀ type, type ≠ .xselinux → ∀ screen,
      privatesSize (setupKey state key .xselinux size 0) type screen =
        privatesSize state type screen := by
    intro type hne screen
    rw [privatesSize, privatesSize, hglobal type hne]
    rfl
  have hfront : ((setupKey state key .xselinux size 0).globalKeys .xselinux).keys = [key] := by
    have hx := hhome (.global .xselinux)
    rw [if_pos rfl, keysAt, keysAt, hmoving.first] at hx
    exact hx
  have hset : ∀ i type, screenSet (setupKey state key .xselinux size 0) i type =
      screenSet state i type := fun _ _ => rfl
  refine ⟨listed_add hmoving.listed hnew' (by rw [hkey]) hhome fun k hk => by rw [hother k hk],
    ⟨neededSize size, ?_, fun type hne => ?_, fun i type set hne hs => ?_,
      fun i type set hplain hs => hmoving.layout.plain i type set hplain hs⟩,
    fun type hne => ⟨?_, fun i set hs => ?_⟩, ?_, fun o ho => ?_, fun id k hk => ?_⟩
  · rw [hfront]
    refine ⟨?_, ?_⟩
    · dsimp only
      rw [hkey]
      exact zero_add _
    · dsimp only
      rw [hkey]
      exact rfl
  · rw [hglobal type hne]
    exact packed_congr (hmoving.layout.global type hne)
      (fun k hk => congrArg Key.offset (hlist (.global type) k hk))
      fun k hk => congrArg Key.padded (hlist (.global type) k hk)
  · rw [hglobal type hne]
    have hmem : ∀ k ∈ set.keys, k ∈ keysAt state (.screen i type) := fun k hk =>
      mem_keysAt_screen.mpr ⟨set, hs, hk⟩
    exact packed_congr (hmoving.layout.screen i type set hne hs)
      (fun k hk => congrArg Key.offset (hlist _ k (hmem k hk)))
      fun k hk => congrArg Key.padded (hlist _ k (hmem k hk))
  · have hr := (hmoving.roomy type hne).global
    show ((setupKey state key .xselinux size 0).globalKeys type).offset + 0 ≤ 2 ^ 31
    rw [hglobal type hne]
    omega
  · have hr := (hmoving.roomy type hne).screen i set hs
    omega
  · refine census_congr hmoving.census rfl rfl (fun type => ?_) fun i type set hs => ⟨set, hs, rfl⟩
    by_cases hne : type = .xselinux
    · rw [hne, setupKey]
      dsimp only
      rw [update_self]
    · rw [hglobal type hne]
  · have htyped := hmoving.census.typed o ho
    have hfor : ∀ k ∈ keysFor (setupKey state key .xselinux size 0) o,
        k = key ∧ xselinuxPrivate o.type = true ∨ k ∈ keysFor state o := by
      intro k hk
      rw [mem_keysFor] at hk ⊢
      simp only [hhome] at hk
      rcases hk with ⟨hx, hk⟩ | hk | ⟨i, hi, hk⟩
      · rw [if_pos trivial] at hk
        rcases mem_cons.mp hk with rfl | hk
        · exact .inl ⟨rfl, hx⟩
        · exact .inr (.inl ⟨hx, hk⟩)
      · rw [if_neg (by simpa using htyped)] at hk
        exact .inr (.inr (.inl hk))
      · rw [if_neg (by simp)] at hk
        exact .inr (.inr (.inr ⟨i, hi, hk⟩))
    have hfits : privatesSize state o.type o.screen ≤ o.area.size ∧
        (s.starved = false → o.area.size = privatesSize state o.type o.screen) := by
      cases hx : xselinuxPrivate o.type with
      | false => exact hmoving.kept o ho hx
      | true =>
        obtain ⟨hearly, harea, -⟩ := hmoving.moved o ho hx
        rw [if_pos hx, add_zero] at harea
        rw [early_privatesSize hearly]
        exact ⟨le_of_eq harea.symm, fun _ => harea⟩
    refine ⟨?_, fun hs => ?_, fun k hk => ?_⟩
    · rw [hsize o.type htyped]
      exact hfits.1
    · rw [hsize o.type htyped]
      exact hfits.2 hs
    · rw [Tracked.value]
      rcases hfor k hk with ⟨rfl, hx⟩ | hold
      · rw [hkey, h.fresh o.id k hnew, getD_none]
        exact (hmoving.moved o ho hx).2.2 hx _ (storage_le ⟨0, size, true, .xselinux⟩)
      · obtain ⟨home, hk⟩ := keysFor_listed hold
        rw [hlist home k hk]
        exact hmoving.holds o ho k hold
  · by_cases hk' : k = key
    · rw [hk']
      exact h.fresh id key hnew
    · have hk : ((setupKey state key .xselinux size 0).keys k).initialized = false := hk
      rw [hother k hk', hmoving.known] at hk
      exact h.fresh id k hk

theorem inv_register (h : Inv s) {key size : Nat} {memory : Memory}
    {ok : Bool} (hreg : registerPrivateKey s.state key type size memory = some (state, ok))
    (hkeeps : Keeps s (.register key type size memory)) :
    Inv ⟨state, s.last, s.starved || !ok⟩ := by
  obtain ⟨shared, hlaid⟩ := h.laid
  have hnodup : privateTypes.Nodup := by decide
  rw [registerPrivateKey] at hreg
  split at hreg
  · split at hreg
    · cases hreg
      rw [Bool.not_true, Bool.or_false]
      exact h
    · cases hreg
  next hnew =>
  rw [Bool.not_eq_true] at hnew
  have hkeeps := hkeeps hnew
  dsimp only at hreg
  split at hreg
  · next htype =>
    subst htype
    rw [if_pos rfl] at hkeeps
    obtain ⟨hfirst, hroom⟩ := hkeeps
    have hsmall : neededSize size ≤ 2 ^ 31 := by
      have hr := (hroom .screen rfl).1.global
      omega
    rw [paddedSize_eq hsmall] at hreg
    have hshared : ∀ {s' : State} {ok' : Bool}, makeRoomShared (neededSize size) memory privateTypes
        s.state = some (s', ok') → s' = { s.state with objects := s'.objects } ∧
          ∃ q : PrivateType → Prop, (∀ t, q t → xselinuxPrivate t = true) ∧
            (ok' = true → ∀ t, xselinuxPrivate t = true → q t) ∧
            Roomed s.state q (neededSize size) s'.objects ok' := by
      intro s' ok' hmake
      obtain ⟨hs', q, hsound, hall, hq⟩ := makeRoomShared_roomed hlaid h.census
        (fun t ht => (hroom t ht).2) hnodup (fun _ _ hn => hn)
        (roomed_none s.state (neededSize size)) hmake
      exact ⟨hs', q, fun t ht => (hsound t ht).resolve_left id,
        fun hok t ht => hall hok t (.inr ⟨mem_privateTypes t, ht⟩), hq⟩
    split at hreg
    · cases hreg
    · next s' hmake =>
      cases hreg
      obtain ⟨hs', q, hsound, -, hroomed⟩ := hshared hmake
      rw [hs', Bool.not_false, Bool.or_true]
      exact inv_starved h hroomed fun t ht => (hroom t (hsound t ht)).1
    · next s' hmake =>
      cases hreg
      obtain ⟨hs', q, hsound, hall, hroomed⟩ := hshared hmake
      have hstart := moving_start h hfirst (fun t ht => (hroom t ht).1) (fun t ht => (hroom t ht).2)
        hsound (hall rfl) hroomed
      rw [← hs'] at hstart
      have hmoving := moving_all hnodup hstart fun _ _ => rfl
      have heq : (fun t => false || (decide (t ∈ privateTypes) && xselinuxPrivate t)) =
          xselinuxPrivate := by
        funext t
        rw [decide_eq_true (mem_privateTypes t), Bool.true_and, Bool.false_or]
      rw [heq] at hmoving
      rw [Bool.not_true, Bool.or_false]
      exact inv_setupShared h hnew hmoving
  · next htype =>
    rw [if_neg htype] at hkeeps
    obtain ⟨hroomy, hreached⟩ := hkeeps
    have hsmall : neededSize size ≤ 2 ^ 31 := by
      have hr := hroomy.global
      omega
    rw [paddedSize_eq hsmall] at hreg
    have hmade : ∀ {s' : State} {ok' : Bool}, makeRoom s.state type (neededSize size) memory =
        some (s', ok') → s' = { s.state with objects := s'.objects } ∧
          Roomed s.state (fun t => False ∨ t = type) (neededSize size) s'.objects ok' :=
      fun hmake => makeRoom_roomed hlaid h.census hreached id
        (roomed_none s.state (neededSize size)) hmake
    split at hreg
    · cases hreg
    · next s' hmake =>
      cases hreg
      obtain ⟨hs', hroomed⟩ := hmade hmake
      rw [hs', Bool.not_false, Bool.or_true]
      refine inv_starved h hroomed fun t ht => ?_
      obtain rfl := ht.resolve_left id
      exact hroomy
    · next s' hmake =>
      cases hreg
      obtain ⟨hs', hroomed⟩ := hmade hmake
      rw [Bool.not_true, Bool.or_false]
      have hadd := inv_addKey h htype hnew hroomy hroomed
      rw [← hs'] at hadd
      exact hadd

theorem track_inv (h : Inv s) {action : Action} {s' : Tracked} {result : Bool}
    (hkeeps : Keeps s action) (hs : track s action = some (s', result)) : Inv s' := by
  obtain ⟨⟨state, result'⟩, hstep, heq⟩ := map_eq_some_iff.mp hs
  cases heq
  cases action with
  | register key type size memory => exact inv_register h hstep hkeeps
  | registerScreenSpecific screen key type size =>
    obtain ⟨state', hreg, heq⟩ := map_eq_some_iff.mp hstep
    cases heq
    exact inv_registerScreenSpecific h hreg hkeeps
  | addScreen isGPU =>
    cases hstep
    exact inv_addScreen h isGPU
  | create id type screen separate reached =>
    obtain ⟨state', hcreate, heq⟩ := map_eq_some_iff.mp hstep
    cases heq
    exact inv_create h hcreate
  | free id =>
    obtain ⟨state', hfree, heq⟩ := map_eq_some_iff.mp hstep
    cases heq
    exact inv_free h hfree
  | set id key val =>
    obtain ⟨state', hset, heq⟩ := map_eq_some_iff.mp hstep
    cases heq
    exact inv_set h hset

end Xfront.Privates

/-!
## Runs of registrations, objects and stores

Storage of different keys stays apart and keeps what is stored, as long as the fixups find
the objects that are there and the shared type has one key.
-/

namespace Xfront.Privates

open Bytes (Byte Block)
open Run (Guarded Always)

theorem inv_start : Inv trackedStart := by
  have hnone : ∀ home : Home, keysAt start home = [] := by
    intro home
    cases home <;> rfl
  have hlist : ∀ (home : Home) (k : Nat), k ∉ keysAt start home := by
    intro home k hk
    rw [hnone home] at hk
    cases hk
  refine ⟨⟨fun home => ?_, fun home _ k hk => absurd hk (hlist home k),
    fun home k hk => absurd hk (hlist home k)⟩, ⟨0, rfl, ?_⟩, fun _ _ => ⟨?_, ?_⟩, ?_, ?_,
    fun _ _ _ => rfl⟩
  · show (keysAt start home).Nodup
    rw [hnone home]
    exact nodup_nil
  · refine ⟨fun type _ => ?_, fun _ _ _ _ hset => (nomatch hset), fun _ _ _ _ hset => nomatch hset⟩
    show (if xselinuxPrivate type then 0 else 0) = 0
    exact ite_self 0
  · exact Nat.zero_le _
  · intro i set hset
    cases hset
  · exact ⟨nodup_nil, fun o ho => (nomatch ho), fun o ho => (nomatch ho),
      fun o ho => (nomatch ho), fun _ _ => Nat.zero_le _, fun o ho => (nomatch ho)⟩
  · intro o ho
    cases ho

/-- As long as every registration keeps to its conditions, storage stays sound. -/
theorem privates_run (actions : List Action) (hguarded : Guarded track Keeps trackedStart actions) :
    Always track (fun _ _ s' _ => Sound s') trackedStart actions := by
  refine Run.always_of_inv Inv (fun s action s' result hinv hkeeps hs => ?_) inv_start
    hguarded
  have hinv' := track_inv hinv hkeeps hs
  exact ⟨hinv', sound_of_inv hinv'⟩

def ample : Memory := ⟨fun _ => true, fun _ _ => 0⟩

def mixedActions : List Action :=
  [.register 0 .client 4 ample, .create 0 .client none true true, .set 0 0 [1, 2, 3, 4],
    .register 1 .xselinux 8 ample]

theorem mixedActions_guarded : Guarded track Keeps trackedStart mixedActions := by
  refine Run.guarded_cons (fun _ => ?_) rfl (Run.guarded_cons trivial rfl
    (Run.guarded_cons trivial rfl (Run.guarded_cons (fun _ => ?_) rfl trivial)))
  · exact ⟨⟨by decide, fun _ _ hset => (nomatch hset)⟩, fun _ _ ho => nomatch ho⟩
  · refine ⟨rfl, fun t ht => ⟨⟨?_, fun _ _ hset => (nomatch hset)⟩, fun _ o ho htype => ?_⟩⟩
    · cases t <;> decide
    · rw [mem_singleton.mp ho]

theorem privates_run_mixed : Always track (fun _ _ s' _ => Sound s') trackedStart mixedActions :=
  privates_run mixedActions mixedActions_guarded

def twiceShared : List Action :=
  [.register 0 .xselinux 1 ample, .register 1 .xselinux 1 ample,
    .create 0 .client none true true, .set 0 0 [1], .set 0 1 [2]]

theorem shared_keys_overlap : ((Run.exec track trackedStart twiceShared).bind fun r =>
        (Keyed.lookup Object.id r.1.state.objects 0).bind fun o => getPrivate r.1.state o 0) =
      some [2] ∧ ¬ Always track (fun _ _ s' _ => Sound s') trackedStart twiceShared := by
  refine ⟨by decide, fun h => ?_⟩
  have hlast := ((((h _ _ rfl).2 _ _ rfl).2 _ _ rfl).2 _ _ rfl).2 _ _ rfl
  exact absurd (hlast.1.apart _ mem_cons_self 0 (by decide) 1 (by decide) (by decide))
    (by decide)

end Xfront.Privates
