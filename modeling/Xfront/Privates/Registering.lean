import Xfront.Privates.Objects

/-!
# Registering keys

What a new key of a screen, of a type or of all shared types does to the keys and objects
that are there.
-/

namespace Xfront.Privates

open List Option Function
open Bytes (Byte Block)
open Packing (Packed packed_bounds packed_shift packed_congr packed_le)

variable {s : Tracked} {key size : Nat} {type : PrivateType} {screen : Nat}

theorem inv_addScreenKey (h : Inv s)
    {pScreen : Screen} (hscreen : s.state.screens[screen]? = some pScreen)
    (htype : screenSpecificPrivate type = true) (hnew : (s.state.keys key).initialized = false)
    (hcreated : (pScreen.screenSpecificPrivates type).created = 0)
    (hroom : (pScreen.screenSpecificPrivates type).offset + neededSize size ≤ 2 ^ 31) :
    Inv ⟨addScreenKey s.state screen pScreen key type size (neededSize size), s.last,
      s.starved⟩ := by
  obtain ⟨shared, hlaid⟩ := h.laid
  have hold : screenSet s.state screen type = some (pScreen.screenSpecificPrivates type) := by
    rw [screenSet, hscreen, map_some]
  have hset : ∀ i type', screenSet (addScreenKey s.state screen pScreen key type size
      (neededSize size)) i type' = if i = screen ∧ type' = type then
        some { growOffset (neededSize size) (pScreen.screenSpecificPrivates type) with
          keys := key :: (pScreen.screenSpecificPrivates type).keys }
      else screenSet s.state i type' := addScreenKey_screenSet hscreen
  have hkeys : ∀ home, ∀ k ∈ keysAt s.state home,
      (addScreenKey s.state screen pScreen key type size (neededSize size)).keys k =
        s.state.keys k := by
    intro home k hk
    refine addScreenKey_keys fun he => ?_
    rw [← he, h.listed.known home k hk] at hnew
    cases hnew
  refine ⟨listed_addScreenKey h.listed hscreen hnew, ⟨shared, ?_,
    layout_addScreenKey h.listed hlaid.layout hscreen hroom htype hnew⟩, fun type' hne => ?_, ?_,
    fun o ho => ?_, fun id k hk => ?_⟩
  · exact packed_congr hlaid.front
      (fun k hk => congrArg Key.offset (hkeys (.global .xselinux) k hk))
      fun k hk => congrArg Key.padded (hkeys (.global .xselinux) k hk)
  · refine ⟨(h.roomy type' hne).global, fun i set hmem => ?_⟩
    have hmem : screenSet (addScreenKey s.state screen pScreen key type size (neededSize size)) i
        type' = some set := hmem
    rw [hset] at hmem
    split at hmem
    · cases hmem
      exact le_trans (Nat.mod_le _ _) hroom
    · exact (h.roomy type' hne).screen i set hmem
  · refine census_congr h.census rfl (length_set) (fun _ => rfl) fun i type' set' hmem => ?_
    have hmem : screenSet (addScreenKey s.state screen pScreen key type size (neededSize size)) i
        type' = some set' := hmem
    rw [hset] at hmem
    split at hmem
    · next hi =>
      cases hmem
      rw [hi.1, hi.2]
      exact ⟨_, hold, rfl⟩
    · exact ⟨set', hmem, rfl⟩
  · have hother : ¬(o.screen = some screen ∧ o.type = type) := by
      rintro ⟨hs, rfl⟩
      exact h.census.onScreen o ho htype screen hs _ hold hcreated
    refine filled_frame (h.filled o ho) rfl rfl rfl ?_ (h.filled o ho).fits (h.filled o ho).exact
      fun k hk => ?_
    · rw [privatesSize, privatesSize]
      have hbind : (o.screen.bind fun i => screenSet (addScreenKey s.state screen pScreen key type
          size (neededSize size)) i o.type) = o.screen.bind fun i => screenSet s.state i o.type := by
        cases hs : o.screen with
        | none => rfl
        | some i =>
          rw [bind_some, bind_some, hset]
          refine if_neg fun hn => hother ⟨?_, hn.2⟩
          rw [hs, hn.1]
      rw [hbind]
      rfl
    · have hk' : k ∈ keysFor s.state o := by
        rw [mem_keysFor] at hk ⊢
        simp only [keysAt_addScreenKey hscreen] at hk
        refine hk.imp (fun hx => ⟨hx.1, ?_⟩) fun hk => hk.imp (fun hg => ?_) fun hk => ?_
        · have hx := hx.2
          rwa [if_neg (by simp)] at hx
        · rwa [if_neg (by simp)] at hg
        · obtain ⟨i, hi, hs⟩ := hk
          refine ⟨i, hi, ?_⟩
          rwa [if_neg fun heq => ?_] at hs
          cases heq
          exact hother ⟨hi, rfl⟩
      obtain ⟨home, hhome⟩ := keysFor_listed hk'
      rw [hkeys home k hhome]
      exact ⟨hk', rfl, rfl, rfl⟩
  · by_cases hk' : k = key
    · rw [hk']
      exact h.fresh id key hnew
    · have hk : ((addScreenKey s.state screen pScreen key type size (neededSize size)).keys
          k).initialized = false := hk
      rw [addScreenKey_keys hk'] at hk
      exact h.fresh id k hk

theorem inv_registerScreenSpecific (h : Inv s) {state : State}
    (hreg : registerScreenSpecificPrivateKey s.state screen key type size = some state)
    (hkeeps : Keeps s (.registerScreenSpecific screen key type size)) :
    Inv ⟨state, s.last, s.starved⟩ := by
  rw [registerScreenSpecificPrivateKey] at hreg
  split at hreg
  · cases hreg
  next htype =>
  split at hreg
  · split at hreg
    · cases hreg
      exact h
    · cases hreg
  next hnew =>
  rw [Bool.not_eq_true] at hnew
  split at hreg
  · cases hreg
  next pScreen hscreen =>
  have hroom := hkeeps hnew (pScreen.screenSpecificPrivates type)
    (by rw [screenSet, hscreen]; rfl)
  dsimp only at hreg
  split at hreg
  · cases hreg
  split at hreg
  · cases hreg
  next hcreated =>
  rw [not_not] at hcreated
  rw [paddedSize_eq (by omega)] at hreg
  cases hreg
  exact inv_addScreenKey h hscreen (by simpa using htype) hnew hcreated hroom

/-- The objects of the types `p` have been given more room, all of them if `ok`. -/
structure Roomed (s : State) (p : PrivateType → Prop) (bytes : Nat) (objects : List Object)
    (ok : Bool) : Prop where
  shape : objects.map Object.shape = s.objects.map Object.shape
  some : ∀ o ∈ objects, ∃ o₀ ∈ s.objects, o = o₀ ∨ p o₀.type ∧ allocatedEarly o₀.type = true ∧
    ∃ junk, o = { o₀ with
      area := reallocPrivates o₀.area (s.globalKeys o₀.type).offset bytes junk }
  done : ok = true → ∀ o ∈ objects, p o.type → ∃ o₀ ∈ s.objects,
    allocatedEarly o₀.type = true ∧ ∃ junk, o = { o₀ with
      area := reallocPrivates o₀.area (s.globalKeys o₀.type).offset bytes junk }

variable {bytes : Nat} {objects : List Object} {p : PrivateType → Prop} {ok : Bool} {o : Object}

theorem roomed_other {s : State} (h : Roomed s p bytes objects ok) (ho : o ∈ objects)
    (hp : ¬ p o.type) : o ∈ s.objects := by
  obtain ⟨o₀, ho₀, rfl | ⟨hbad, -, junk, rfl⟩⟩ := h.some o ho
  · exact ho₀
  · exact absurd hbad hp

section

variable {s : State} {type : PrivateType} {bytes : Nat} {memory : Memory} {shared : Nat}

theorem laid_objects (h : Laid s shared) (objects : List Object) : Laid { s with objects } shared :=
  ⟨h.front, h.layout.global, h.layout.screen, h.layout.plain⟩

theorem listed_objects (h : Listed s) (objects : List Object) : Listed { s with objects } :=
  listed_congr h (fun home => by cases home <;> rfl) fun _ => rfl

variable {objects : List Object}

theorem census_objects (h : Census s)
    (hshape : objects.map Object.shape = s.objects.map Object.shape) :
    Census { s with objects } :=
  census_congr h hshape rfl (fun _ => rfl) fun _ _ set hset => ⟨set, hset, rfl⟩

theorem reached_objects (h : Reached s type)
    (hshape : objects.map Object.shape = s.objects.map Object.shape) :
    Reached { s with objects } type := by
  intro hearly o' ho' htype'
  obtain ⟨o, ho, heq⟩ := mem_of_shape hshape ho'
  have htype : o.shape.type = o'.shape.type := by rw [heq]
  have hreached : o.shape.reached = o'.shape.reached := by rw [heq]
  exact hreached.symm.trans (h hearly o ho (htype.trans htype'))

variable {p : PrivateType → Prop} {s' : State} {ok : Bool}

theorem makeRoom_roomed (hlaid : Laid s shared) (hcensus : Census s)
    (hreached : Reached s type) (hp : ¬ p type) (h : Roomed s p bytes objects true)
    (hroom : makeRoom { s with objects } type bytes memory = some (s', ok)) :
    s' = { s with objects := s'.objects } ∧
      Roomed s (fun t => p t ∨ t = type) bytes s'.objects ok := by
  rw [makeRoom] at hroom
  split at hroom
  · next hearly =>
    rw [fixupRealloc] at hroom
    obtain ⟨hs', hok'⟩ := Prod.mk.inj (some.inj hroom)
    subst hs' hok'
    refine ⟨rfl, ?_⟩
    have hoffset : ∀ o ∈ objects, o.reached = true →
        fixupOffset { s with objects } o = (s.globalKeys o.type).offset := fun o ho hr =>
      fixupOffset_eq (laid_objects hlaid objects).layout (census_objects hcensus h.shape) ho hr
    refine ⟨fixup_shape.trans h.shape, fun o ho => ?_, fun hok o ho hpo => ?_⟩
    · obtain ⟨o₁, ho₁, rfl | ⟨area, htype, hr, harea, rfl⟩⟩ := fixup_mem ho
      · obtain ⟨o₀, ho₀, rfl | ⟨hp', hrest⟩⟩ := h.some o ho₁
        · exact ⟨o, ho₀, .inl rfl⟩
        · exact ⟨o₀, ho₀, .inr ⟨.inl hp', hrest⟩⟩
      · have hold := roomed_other h ho₁ (htype ▸ hp)
        rw [reallocFixup, hoffset o₁ ho₁ hr] at harea
        split at harea
        · cases harea
          exact ⟨o₁, hold, .inr ⟨.inr htype, htype ▸ hearly, _, rfl⟩⟩
        · cases harea
    · obtain ⟨o₁, ho₁, hrest⟩ := fixup_done hok ho
      by_cases htype : o₁.type = type
      · have hr : o₁.reached = true := reached_objects hreached h.shape hearly o₁ ho₁ htype
        rw [if_pos ⟨htype, hr⟩] at hrest
        obtain ⟨area, harea, rfl⟩ := hrest
        have hold := roomed_other h ho₁ (htype ▸ hp)
        rw [reallocFixup, hoffset o₁ ho₁ hr] at harea
        split at harea
        · cases harea
          exact ⟨o₁, hold, htype ▸ hearly, _, rfl⟩
        · cases harea
      · rw [if_neg fun hn => htype hn.1] at hrest
        subst hrest
        rcases hpo with hpo | hpo
        · exact h.done rfl o ho₁ hpo
        · exact absurd hpo htype
  · next hearly =>
    rw [Bool.not_eq_true] at hearly
    split at hroom
    · cases hroom
    next hcreated =>
    rw [not_not] at hcreated
    cases hroom
    have hnone := no_objects (census_objects hcensus h.shape) hearly hcreated
    refine ⟨rfl, h.shape, fun o ho => ?_, fun _ o ho hpo => ?_⟩
    · obtain ⟨o₀, ho₀, heq | ⟨hp', hrest⟩⟩ := h.some o ho
      · exact ⟨o₀, ho₀, .inl heq⟩
      · exact ⟨o₀, ho₀, .inr ⟨.inl hp', hrest⟩⟩
    · rcases hpo with hpo | hpo
      · exact h.done rfl o ho hpo
      · exact absurd hpo (hnone o ho)

theorem roomed_none (s : State) (bytes : Nat) : Roomed s (fun _ => False) bytes s.objects true :=
  ⟨rfl, fun o ho => ⟨o, ho, .inl rfl⟩, fun _ _ _ h => h.elim⟩

theorem makeRoomShared_roomed (hlaid : Laid s shared) (hcensus : Census s)
    (hreached : ∀ t, xselinuxPrivate t = true → Reached s t) {types : List PrivateType}
    (hnd : types.Nodup) (hp : ∀ t ∈ types, ¬ p t) (h : Roomed s p bytes objects true)
    (hroom : makeRoomShared bytes memory types { s with objects } = some (s', ok)) :
    s' = { s with objects := s'.objects } ∧
      ∃ q : PrivateType → Prop, (∀ t, q t → p t ∨ xselinuxPrivate t = true) ∧
        (ok = true → ∀ t, p t ∨ (t ∈ types ∧ xselinuxPrivate t = true) → q t) ∧
        Roomed s q bytes s'.objects ok := by
  induction types generalizing p objects with
  | nil =>
    cases hroom
    exact ⟨rfl, p, fun t ht => .inl ht, fun _ t ht => ht.elim id (fun hn => nomatch hn.1), h⟩
  | cons type types ih =>
    obtain ⟨hnot, hnd'⟩ := nodup_cons.mp hnd
    have hp' : ∀ t ∈ types, ¬ p t := fun t ht => hp t (mem_cons_of_mem _ ht)
    rw [makeRoomShared] at hroom
    split at hroom
    · next hx =>
      have htype := hp type mem_cons_self
      split at hroom
      · cases hroom
      · next s₁ hfirst =>
        cases hroom
        obtain ⟨hs, hroomed⟩ := makeRoom_roomed hlaid hcensus (hreached type hx) htype h hfirst
        refine ⟨hs, _, fun t ht => ?_, (fun hn => nomatch hn), hroomed⟩
        rcases ht with hpt | he
        · exact .inl hpt
        · exact .inr (he ▸ hx)
      · next s₁ hfirst =>
        obtain ⟨hs, hroomed⟩ := makeRoom_roomed hlaid hcensus (hreached type hx) htype h hfirst
        rw [hs] at hroom
        obtain ⟨hs', q, hsound, hall, hq⟩ := ih hnd' (fun t ht hn => hn.elim (hp' t ht) fun he =>
          hnot (he ▸ ht)) hroomed hroom
        refine ⟨hs', q, fun t ht => ?_, fun hok t ht => hall hok t ?_, hq⟩
        · rcases hsound t ht with (hpt | he) | hxt
          · exact .inl hpt
          · exact .inr (by rw [he, hx])
          · exact .inr hxt
        · rcases ht with hpt | ⟨hmem, hxt⟩
          · exact .inl (.inl hpt)
          · rcases mem_cons.mp hmem with he | hmem
            · exact .inl (.inr he)
            · exact .inr ⟨hmem, hxt⟩
    · next hx =>
      obtain ⟨hs', q, hsound, hall, hq⟩ := ih hnd' hp' h hroom
      refine ⟨hs', q, hsound, fun hok t ht => hall hok t ?_, hq⟩
      rcases ht with hpt | ⟨hmem, hxt⟩
      · exact .inl hpt
      · rcases mem_cons.mp hmem with he | hmem
        · exact absurd (he ▸ hxt) hx
        · exact .inr ⟨hmem, hxt⟩

end

theorem early_privatesSize {s : State} (h : allocatedEarly o.type = true) :
    privatesSize s o.type o.screen = (s.globalKeys o.type).offset :=
  privatesSize_global s o.screen (early_not_screenSpecific h)

theorem inv_starved (h : Inv s) (hroomed : Roomed s.state p bytes objects ok)
    (hroomy : ∀ t, p t → Roomy s.state t bytes) :
    Inv ⟨{ s.state with objects }, s.last, true⟩ := by
  obtain ⟨shared, hlaid⟩ := h.laid
  refine ⟨listed_objects h.listed objects, ⟨shared, laid_objects hlaid objects⟩,
    fun type hne => ⟨(h.roomy type hne).global, (h.roomy type hne).screen⟩,
    census_objects h.census hroomed.shape, fun o ho => ?_, h.fresh⟩
  obtain ⟨o₀, ho₀, rfl | ⟨hp, hearly, junk, rfl⟩⟩ := hroomed.some o ho
  · exact filled_frame (h.filled o ho₀) rfl rfl rfl rfl (h.filled o ho₀).fits
      (fun hn => nomatch hn) fun k hk => ⟨hk, rfl, rfl, rfl⟩
  · have hsize := early_privatesSize (s := s.state) hearly
    have hfits := (h.filled o₀ ho₀).fits
    have hbytes := (hroomy _ hp).global
    refine filled_frame (h.filled o₀ ho₀) rfl rfl rfl rfl ?_ (fun hn => nomatch hn) fun k hk => ?_
    · dsimp only at hbytes hsize ⊢
      rw [realloc_size hbytes, hsize]
      omega
    · have hin := key_inside hlaid (h.census.typed o₀ ho₀) hk
      have hstore := storage_le (s.state.keys k)
      refine ⟨hk, rfl, rfl, realloc_slice ?_ ?_⟩
      · dsimp only
        omega
      · omega

theorem storage_congr {key key' : Key} (h : key'.size = key.size) : key'.storage = key.storage := by
  rw [Key.storage, Key.storage, h]

theorem addKey_privatesSize {s : State} {type' : PrivateType}
    (hne : type' ≠ type) (hroomy : Roomy s type bytes) (screen : Option Nat) :
    privatesSize (addKey s key type size bytes) type' screen = privatesSize s type' screen := by
  have hglobal : ((addKey s key type size bytes).globalKeys type').offset = _ :=
    addKey_global hroomy type'
  rw [if_neg hne, add_zero] at hglobal
  have hbind : (screen.bind fun i => screenSet (addKey s key type size bytes) i type') =
      screen.bind fun i => screenSet s i type' := by
    cases screen with
    | none => rfl
    | some i =>
      rw [bind_some, bind_some, addKey_screenSet]
      simp only [if_neg hne, Option.map_id_fun', id_eq]
  rw [privatesSize, privatesSize, hglobal, hbind]

theorem inv_addKey (h : Inv s)
    (hne : type ≠ .xselinux) (hnew : (s.state.keys key).initialized = false)
    (hroomy : Roomy s.state type (neededSize size))
    (hroomed : Roomed s.state (fun t => False ∨ t = type) (neededSize size) objects true) :
    Inv ⟨addKey { s.state with objects } key type size (neededSize size), s.last, s.starved⟩ := by
  obtain ⟨shared, hlaid⟩ := h.laid
  have hlisted := listed_objects h.listed objects
  have hlaid' := laid_objects hlaid objects
  have hroomy' : Roomy { s.state with objects } type (neededSize size) :=
    ⟨hroomy.global, hroomy.screen⟩
  have hoffset : ∀ home, ∀ k ∈ keysAt s.state home,
      ((addKey { s.state with objects } key type size (neededSize size)).keys k).offset =
          (s.state.keys k).offset + (if home.onScreen type then neededSize size else 0) ∧
        ((addKey { s.state with objects } key type size (neededSize size)).keys k).size =
          (s.state.keys k).size := by
    intro home k hk
    refine addKey_offset hlisted hlaid'.layout hroomy' hne size hnew home ?_
    cases home <;> exact hk
  have hhome : ∀ home, keysAt (addKey { s.state with objects } key type size (neededSize size))
      home = if home = .global type then key :: keysAt s.state home else keysAt s.state home := by
    intro home
    rw [keysAt_addKey]
    cases home <;> rfl
  refine ⟨listed_addKey hlisted hnew, ⟨shared, ?_, layout_addKey hlisted hlaid'.layout hroomy' hne
    hnew⟩, fun type' hne' => ⟨?_, fun i set hmem => ?_⟩, ?_, fun o ho => ?_, fun id k hk => ?_⟩
  · have hfront : ((addKey { s.state with objects } key type size (neededSize size)).globalKeys
        .xselinux).keys = (s.state.globalKeys .xselinux).keys := by
      have hkeys := hhome (.global .xselinux)
      rw [if_neg (by simpa using Ne.symm hne)] at hkeys
      exact hkeys
    rw [hfront]
    exact packed_congr hlaid.front (fun k hk => (hoffset (.global .xselinux) k hk).1)
      fun k hk => padded_congr (hoffset (.global .xselinux) k hk).2
  · rw [addKey_global hroomy']
    have hold := (h.roomy type' hne').global
    split
    · next heq =>
      subst heq
      exact hroomy.global
    · exact hold
  · rw [addKey_screenSet] at hmem
    obtain ⟨set, hold, rfl⟩ := map_eq_some_iff.mp hmem
    rw [screenSet_offset hroomy' hold]
    split
    · next heq =>
      subst heq
      exact hroomy.screen i set hold
    · exact (h.roomy type' hne').screen i set hold
  · refine census_congr h.census hroomed.shape (length_map _) (fun type' => ?_)
      fun i type' set' hmem => ?_
    · rw [addKey, setupKey, growScreenSpecificSet]
      dsimp only
      by_cases heq : type' = type
      · rw [heq, update_self, update_self]
        rfl
      · rw [update_of_ne heq, update_of_ne heq]
    · have hmem : screenSet (addKey { s.state with objects } key type size (neededSize size)) i
          type' = some set' := hmem
      rw [addKey_screenSet] at hmem
      obtain ⟨set, hold, rfl⟩ := map_eq_some_iff.mp hmem
      refine ⟨set, hold, ?_⟩
      split <;> rfl
  · -- the keys of an object are those it had, and the new one if it is of the type
    have hfor : ∀ k ∈ keysFor (addKey { s.state with objects } key type size (neededSize size)) o,
        k = key ∧ o.type = type ∨ k ∈ keysFor s.state o := by
      intro k hk
      rw [mem_keysFor] at hk ⊢
      simp only [hhome] at hk
      rcases hk with ⟨hx, hk⟩ | hk | ⟨i, hi, hk⟩
      · rw [if_neg (by simpa using Ne.symm hne)] at hk
        exact .inr (.inl ⟨hx, hk⟩)
      · split at hk
        · next heq =>
          cases heq
          rcases mem_cons.mp hk with rfl | hk
          · exact .inl ⟨rfl, rfl⟩
          · exact .inr (.inr (.inl hk))
        · exact .inr (.inr (.inl hk))
      · rw [if_neg (by simp)] at hk
        exact .inr (.inr (.inr ⟨i, hi, hk⟩))
    by_cases htype : o.type = type
    · obtain ⟨o₀, ho₀, hearly, junk, rfl⟩ := hroomed.done rfl o ho (.inr htype)
      subst htype
      have hsize := early_privatesSize (s := s.state) hearly
      have hfits := (h.filled o₀ ho₀).fits
      have hbytes := hroomy.global
      have hsize' : privatesSize (addKey { s.state with objects } key o₀.type size
          (neededSize size)) o₀.type o₀.screen =
            (s.state.globalKeys o₀.type).offset + neededSize size := by
        rw [privatesSize_global _ _ (early_not_screenSpecific hearly), addKey_global hroomy',
          if_pos rfl]
      refine ⟨?_, fun _ => ?_, fun k hk => ?_⟩
      · dsimp only
        rw [hsize', realloc_size hbytes]
      · dsimp only
        rw [hsize', realloc_size hbytes]
      · dsimp only
        rcases hfor k hk with ⟨rfl, -⟩ | hold
        · have hkey : (addKey { s.state with objects } k o₀.type size (neededSize size)).keys k =
              ⟨(s.state.globalKeys o₀.type).offset, size, true, o₀.type⟩ :=
            (addKey_keys hlisted k).trans (if_pos rfl)
          have hstore := storage_le ⟨(s.state.globalKeys o₀.type).offset, size, true, o₀.type⟩
          rw [Tracked.value]
          rw [hkey, h.fresh o₀.id k hnew, getD_none]
          exact realloc_new (le_refl _) (Nat.add_le_add_left hstore _)
        · have hin := key_inside hlaid (h.census.typed o₀ ho₀) hold
          have hstore := storage_le (s.state.keys k)
          have hsame : ((addKey { s.state with objects } key o₀.type size (neededSize size)).keys
                k).offset = (s.state.keys k).offset ∧
              ((addKey { s.state with objects } key o₀.type size (neededSize size)).keys k).size =
                (s.state.keys k).size := by
            rcases mem_keysFor.mp hold with ⟨-, hk⟩ | hk | ⟨i, -, hk⟩
            · exact hoffset _ k hk
            · exact hoffset _ k hk
            · obtain ⟨set, hset, hk⟩ := mem_keysAt_screen.mp hk
              rw [hlaid.layout.plain i o₀.type set (early_not_screenSpecific hearly) hset] at hk
              cases hk
          rw [Tracked.value]
          rw [hsame.1, storage_congr hsame.2, realloc_slice (by omega) (by omega)]
          exact (h.filled o₀ ho₀).holds k hold
    · have hother : o ∈ s.state.objects := roomed_other hroomed ho fun hn => hn.elim id htype
      refine filled_frame (h.filled o hother) rfl rfl rfl
        (addKey_privatesSize htype hroomy' o.screen) (h.filled o hother).fits
        (h.filled o hother).exact fun k hk => ?_
      have hold : k ∈ keysFor s.state o := (hfor k hk).resolve_left fun hn => htype hn.2
      have hsame : ((addKey { s.state with objects } key type size (neededSize size)).keys
            k).offset = (s.state.keys k).offset ∧
          ((addKey { s.state with objects } key type size (neededSize size)).keys k).size =
            (s.state.keys k).size := by
        rcases mem_keysFor.mp hold with ⟨-, hk⟩ | hk | ⟨i, -, hk⟩
        · exact hoffset _ k hk
        · exact hoffset _ k hk
        · have hoff := hoffset _ k hk
          rwa [Home.onScreen, if_neg (by simpa using htype)] at hoff
      refine ⟨hold, storage_congr hsame.2, rfl, ?_⟩
      rw [hsame.1]
  · by_cases hk' : k = key
    · rw [hk']
      exact h.fresh id key hnew
    · have hk : ((addKey { s.state with objects } key type size (neededSize size)).keys
          k).initialized = false := hk
      rw [addKey_keys hlisted, if_neg hk'] at hk
      refine h.fresh id k ?_
      split at hk
      · exact hk
      · exact hk

end Xfront.Privates
