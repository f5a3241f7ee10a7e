import Xfront.Lib.Run
import Xfront.Glyphs.Sets

/-!
# Runs of requests on glyph sets

Every request keeps the accounts exact, as long as no accepted request adds an image
twice that the server has not seen.
-/

namespace Xfront.Glyphs
open Prod State

open List Option
open Probing (Slot entries)
open Run (exec Guarded)

def slotsOf (s : State) (g : Nat) : Nat := (heldBy s.sets).count g

/-- Every live glyph is in the global table of its format once and as the only one that
shows what it shows, is counted once for each slot, and is all that tables and slots
hold; the tables count their entries. -/
structure Exact (s : State) : Prop where
  once : ∀ g glyph, s.store.glyphs g = some glyph → (listed s.store glyph.fdepth).count g = 1
  live : ∀ f, ∀ g ∈ listed s.store f, ∃ glyph, s.store.glyphs g = some glyph ∧ glyph.fdepth = f
  distinct : ∀ f, Distinct s.store f
  refcnt : ∀ g glyph, s.store.glyphs g = some glyph → glyph.refcnt = slotsOf s g
  held : ∀ (p : Nat) set, s.sets[p]? = some (some set) → ∀ g ∈ set.held,
    (s.store.glyphs g).isSome = true
  ids : ∀ (p : Nat) set, s.sets[p]? = some (some set) → ((entries set.hash.table).map fst).Nodup
  global : ∀ f, (s.store.globalGlyphs f).tableEntries =
    (entries (s.store.globalGlyphs f).table).length
  table : ∀ (p : Nat) set, s.sets[p]? = some (some set) →
    set.hash.tableEntries = (entries set.hash.table).length
  present : ∀ (p : Nat) set, s.sets[p]? = some (some set) → set.held ≠ [] →
    (s.store.globalGlyphs set.fdepth).hashSet.isSome = true

structure Inv (s : State) : Prop where
  sets : SetsOk s (s.resources.map snd)
  ids : (s.resources.map fst).Nodup

section

variable {s : State} {p : Nat} {set : GlyphSet}

theorem mem_heldBy {sets : List (Option GlyphSet)} {g : Nat} :
    g ∈ heldBy sets ↔ ∃ (p : Nat) (set : GlyphSet), sets[p]? = some (some set) ∧ g ∈ set.held := by
  rw [heldBy, mem_flatMap]
  constructor
  · rintro ⟨o, ho, hg⟩
    cases o with
    | none => cases hg
    | some set =>
      obtain ⟨p, hp⟩ := mem_iff_getElem?.mp ho
      exact ⟨p, set, hp, hg⟩
  · rintro ⟨p, set, hp, hg⟩
    exact ⟨some set, mem_of_getElem? hp, hg⟩

variable {owners : List Nat}

theorem SetsOk.listed (h : SetsOk s owners) {g : Nat} {glyph : Glyph}
    (hg : s.store.glyphs g = some glyph) : g ∈ listed s.store glyph.fdepth := by
  obtain ⟨p, set, hp, hmem⟩ := mem_heldBy.mp (h.store.count g glyph hg).2
  have hl := (h.slots p set hp).listed g hmem
  obtain ⟨a, ha, haf⟩ := h.store.listed_glyph hl
  cases hg.symm.trans ha
  exact haf ▸ hl

theorem SetsOk.distinct (h : SetsOk s owners) (f : Nat) : Distinct s.store f := by
  intro g k a b ha hb haf hbf hab
  subst haf
  exact h.store.apart a.fdepth g k a b (h.listed ha) ha hb hbf hab

theorem Inv.exact (h : Inv s) : Exact s where
  once := fun g glyph hg => count_eq_one_of_mem (h.sets.store.once _) (h.sets.listed hg)
  live := fun _ _ hg => h.sets.store.listed_glyph hg
  distinct := h.sets.distinct
  refcnt := fun g glyph hg => (h.sets.store.count g glyph hg).1
  held := fun p set hp g hg => h.sets.store.live g (mem_heldBy.mpr ⟨p, set, hp, hg⟩)
  ids := fun p set hp => (h.sets.slots p set hp).ids
  global := fun f => (h.sets.store.hash f).count
  table := fun p set hp => (h.sets.slots p set hp).hash.count
  present := fun p set hp hne => by
    obtain ⟨others, ho⟩ := h.sets.opened hp
    exact ho.global_isSome (h.sets.slots p set hp) fun he => hne (by rw [GlyphSet.held, he]; rfl)

theorem init_inv : Inv init where
  sets :=
    { store :=
        { count := fun _ _ h => nomatch h
          live := fun _ h => nomatch h
          fresh := fun _ _ => rfl
          hash := fun _ => none_ok
          entry := fun _ _ h => nomatch h
          once := fun _ => nodup_nil
          apart := fun _ _ _ _ _ h => nomatch h }
      slots := fun _ _ h => nomatch h
      refs := fun _ _ h => nomatch h
      named := fun _ h => nomatch h }
  ids := nodup_nil

variable {xid : Nat}

theorem lookup_spec (h : s.lookup xid = some (p, set)) :
    s.sets[p]? = some (some set) ∧ (xid, p) ∈ s.resources := by
  obtain ⟨r, hr, hmap⟩ := bind_eq_some_iff.mp h
  obtain ⟨t, ht, he⟩ := map_eq_some_iff.mp hmap
  cases he
  have hid := find?_some hr
  refine ⟨join_eq_some_iff.mp ht, ?_⟩
  have hx : r.1 = xid := of_decide_eq_true hid
  rw [← hx]
  exact mem_of_find?_eq_some hr

theorem resources_perm {resources : List (Nat × Nat)}
    (hnd : (resources.map fst).Nodup) (hmem : (xid, p) ∈ resources) :
    resources.Perm ((xid, p) :: resources.filter (·.1 ≠ xid)) := by
  obtain ⟨front, back, rfl⟩ := append_of_mem hmem
  rw [map_append, map_cons] at hnd
  have hnd' := perm_middle.nodup_iff.mp hnd
  rw [← map_append, nodup_cons] at hnd'
  have hfilter : (front ++ (xid, p) :: back).filter (·.1 ≠ xid) = front ++ back := by
    rw [filter_append, filter_cons_of_neg (by simp), ← filter_append]
    refine filter_eq_self.mpr fun x hx => decide_eq_true fun he => ?_
    exact hnd'.1 (List.mem_map.mpr ⟨x, hx, he⟩)
  rw [hfilter]
  exact perm_middle

theorem SetsOk.perm {owners' : List Nat} (h : SetsOk s owners) (hp : owners.Perm owners') :
    SetsOk s owners' :=
  ⟨h.store, h.slots, fun p set hget =>
    ⟨(h.refs p set hget).1.trans (hp.count_eq p), hp.mem_iff.mp (h.refs p set hget).2⟩,
    fun q hq => h.named q (hp.mem_iff.mpr hq)⟩

theorem freeGlyphSetRequest_ok (h : Inv s) (xid : Nat) (memory : Bool) :
    ∃ r, freeGlyphSetRequest s xid memory = some r ∧ Inv r.1 := by
  unfold freeGlyphSetRequest
  cases hl : s.lookup xid with
  | none => exact ⟨_, rfl, h⟩
  | some x =>
    obtain ⟨p, set⟩ := x
    obtain ⟨hp, hmem⟩ := lookup_spec hl
    have hperm := resources_perm h.ids hmem
    have hsets : SetsOk { s with resources := s.resources.filter (·.1 ≠ xid) }
        (p :: (s.resources.filter (·.1 ≠ xid)).map snd) := by
      have hs := h.sets.perm (hperm.map snd)
      exact ⟨hs.store, hs.slots, hs.refs, hs.named⟩
    obtain ⟨s', hfree, hok, hres⟩ := freeGlyphSet_ok hsets memory
    dsimp only
    rw [freeResource, hfree, map_some]
    refine ⟨_, rfl, ?_, ?_⟩
    · rw [hres]
      exact hok
    · rw [hres]
      exact ((nodup_cons.mp ((hperm.map fst).nodup_iff.mp h.ids)).2)

theorem unused_of_any (h : ¬ (s.resources.any (·.1 = xid)) = true) : xid ∉ s.resources.map fst := by
  intro hmem
  obtain ⟨x, hx, he⟩ := List.mem_map.mp hmem
  exact h (List.any_eq_true.mpr ⟨x, hx, decide_eq_true he⟩)

theorem referenceGlyphSet_ok (h : Inv s) (xid existing : Nat) (resource memory : Bool) :
    ∃ r, referenceGlyphSet s xid existing resource memory = some r ∧ Inv r.1 := by
  unfold referenceGlyphSet
  by_cases hused : s.resources.any (·.1 = xid) = true
  · rw [if_pos hused]
    exact ⟨_, rfl, h⟩
  rw [if_neg hused]
  cases hl : s.lookup existing with
  | none => exact ⟨_, rfl, h⟩
  | some x =>
    obtain ⟨p, set⟩ := x
    obtain ⟨hp, hmem⟩ := lookup_spec hl
    have hcounted := h.sets.recount (p :: s.resources.map snd) hp
      (n := set.refcnt + 1) (by rw [count_cons_self, (h.sets.refs p set hp).1])
      mem_cons_self fun q hq => count_cons_of_ne (Ne.symm hq)
    dsimp only
    cases resource with
    | true =>
      rw [if_pos rfl]
      exact ⟨_, rfl, ⟨hcounted.store, hcounted.slots, hcounted.refs, hcounted.named⟩,
        nodup_cons.mpr ⟨unused_of_any hused, h.ids⟩⟩
    | false =>
      rw [if_neg Bool.false_ne_true]
      obtain ⟨s', hfree, hok, hres⟩ := freeGlyphSet_ok hcounted memory
      rw [hfree, map_some]
      refine ⟨_, rfl, ?_, ?_⟩
      · rw [hres]
        exact hok
      · rw [hres]
        exact h.ids

theorem allocateGlyphHash_ok {hash : GlyphHash} {memory : Bool}
    (h : allocateGlyphHash glyphHashSets.head? memory = some hash) :
    HashOk hash ∧ hash.hashSet.isSome = true ∧ entries hash.table = [] := by
  cases memory with
  | false => cases h
  | true =>
    cases h
    obtain ⟨hsizes, -⟩ := glyphHashSets_sizes (mem_cons_self : ⟨32, 43, 41⟩ ∈ glyphHashSets)
    refine ⟨⟨(congrArg List.length (Probing.new_entries 43)).symm, fun hn => (nomatch hn), ?_⟩, rfl,
      Probing.new_entries 43⟩
    rintro _ ⟨⟩
    exact ⟨mem_cons_self, length_replicate, Probing.new_ok hsizes, Nat.zero_le _⟩

theorem SetsOk.listed_iff {st : Store} (h : SetsOk s owners)
    (hok : StoreOk st (heldBy s.sets)) (hl : ∀ f g, g ∈ Glyphs.listed st f ↔ g ∈ Glyphs.listed s.store f) :
    SetsOk { s with store := st } owners :=
  ⟨hok, fun p set hp => (h.slots p set hp).listed_iff hl, h.refs, h.named⟩

theorem allocateGlyphSet_ok (h : SetsOk s owners) (fdepth depth : Nat) (supply : CreateSupply) :
    SetsOk { s with store := (allocateGlyphSet s.store fdepth depth supply).1 } owners ∧
      ∀ set, (allocateGlyphSet s.store fdepth depth supply).2 = some set → set.refcnt = 1 ∧
        HashOk set.hash ∧ set.hash.hashSet.isSome = true ∧ entries set.hash.table = [] := by
  have hset : ∀ set, ((allocateGlyphHash glyphHashSets.head? supply.table).map fun hash =>
      (⟨1, fdepth, depth, hash⟩ : GlyphSet)) = some set → set.refcnt = 1 ∧ HashOk set.hash ∧
        set.hash.hashSet.isSome = true ∧ entries set.hash.table = [] := by
    intro set hs
    obtain ⟨hash, hhash, rfl⟩ := map_eq_some_iff.mp hs
    exact ⟨rfl, allocateGlyphHash_ok hhash⟩
  unfold allocateGlyphSet
  by_cases hnull : (s.store.globalGlyphs fdepth).hashSet = none
  · dsimp only
    rw [if_pos hnull]
    cases hglobal : allocateGlyphHash glyphHashSets.head? supply.global with
    | none => exact ⟨h, fun set hs => nomatch hs⟩
    | some hash =>
      obtain ⟨hhash, -, hempty⟩ := allocateGlyphHash_ok hglobal
      have hperm : (entries hash.table).Perm (entries (s.store.globalGlyphs fdepth).table) := by
        rw [hempty, (h.store.hash fdepth).null hnull]
        exact List.Perm.refl _
      obtain ⟨hok, hl⟩ := h.store.retable hhash hperm
      rw [map_some]
      dsimp only
      split
      · exact ⟨h.listed_iff hok hl, hset⟩
      · exact ⟨h.listed_iff hok hl, fun set hs => nomatch hs⟩
  · dsimp only
    rw [if_neg hnull]
    dsimp only
    split
    · exact ⟨h, hset⟩
    · exact ⟨h, fun set hs => nomatch hs⟩

theorem SetsOk.append (h : SetsOk s owners) (hr : set.refcnt = 1)
    (hhash : HashOk set.hash) (hmade : set.hash.hashSet.isSome = true)
    (hempty : entries set.hash.table = []) :
    SetsOk { s with sets := s.sets ++ [some set] } (s.sets.length :: owners) := by
  have hnone : s.sets.length ∉ owners := fun hm => by
    obtain ⟨t, ht⟩ := h.named _ hm
    exact absurd (lt_of_getSet ht) (lt_irrefl _)
  have hheld : set.held = [] := by
    rw [GlyphSet.held, hempty]
    rfl
  have hread : ∀ (q : Nat) t, (s.sets ++ [some set])[q]? = some (some t) →
      q = s.sets.length ∧ t = set ∨ q ≠ s.sets.length ∧ s.sets[q]? = some (some t) := by
    intro q t hq
    rcases lt_trichotomy q s.sets.length with hlt | rfl | hgt
    · rw [getElem?_append_left hlt] at hq
      exact .inr ⟨hlt.ne, hq⟩
    · rw [getElem?_concat_length] at hq
      cases hq
      exact .inl ⟨rfl, rfl⟩
    · rw [getElem?_eq_none (by rw [length_append, length_singleton]; omega)] at hq
      cases hq
  have hstore : heldBy (s.sets ++ [some set]) = heldBy s.sets := by
    rw [heldBy, flatMap_append, flatMap_singleton, elim_some, hheld, append_nil]
    rfl
  refine ⟨hstore ▸ h.store, fun q t hq => ?_, fun q t hq => ?_, fun q hq => ?_⟩
  · rcases hread q t hq with ⟨-, rfl⟩ | ⟨-, hq⟩
    · refine ⟨hhash, hmade, by rw [hempty]; exact nodup_nil, fun g hg => ?_⟩
      rw [hheld] at hg
      cases hg
    · exact h.slots q t hq
  · rcases hread q t hq with ⟨rfl, rfl⟩ | ⟨hne, hq⟩
    · rw [count_cons_self, count_eq_zero.mpr hnone]
      exact ⟨hr, mem_cons_self⟩
    · rw [count_cons_of_ne (Ne.symm hne)]
      exact ⟨(h.refs q t hq).1, mem_cons_of_mem _ (h.refs q t hq).2⟩
  · rcases mem_cons.mp hq with rfl | hq
    · exact ⟨set, getElem?_concat_length⟩
    · obtain ⟨t, ht⟩ := h.named q hq
      exact ⟨t, (getElem?_append_left (lt_of_getSet ht)).trans ht⟩

theorem createGlyphSet_ok (h : Inv s) (xid fdepth depth : Nat) (supply : CreateSupply) :
    ∃ r, createGlyphSet s xid fdepth depth supply = some r ∧ Inv r.1 := by
  unfold createGlyphSet
  by_cases hused : s.resources.any (·.1 = xid) = true
  · rw [if_pos hused]
    exact ⟨_, rfl, h⟩
  rw [if_neg hused]
  obtain ⟨hsets, hset⟩ := allocateGlyphSet_ok h.sets fdepth depth supply
  generalize allocateGlyphSet s.store fdepth depth supply = made at hsets hset ⊢
  obtain ⟨st, r⟩ := made
  cases r with
  | none => exact ⟨_, rfl, hsets, h.ids⟩
  | some set =>
    obtain ⟨hr, hhash, hmade, hempty⟩ := hset set rfl
    have happ := hsets.append hr hhash hmade hempty
    have hfail : ∀ result : Result, ∃ r, ((freeGlyphSet { s with
        store := st
        sets := s.sets ++ [some set] } s.sets.length supply.resize).map fun s => (s, result)) =
          some r ∧ Inv r.1 := by
      intro result
      obtain ⟨s', hfree, hok, hres⟩ := freeGlyphSet_ok happ supply.resize
      rw [hfree, map_some]
      refine ⟨_, rfl, ?_, ?_⟩
      · rw [hres]
        exact hok
      · rw [hres]
        exact h.ids
    dsimp only
    split
    · exact hfail _
    · split
      · exact hfail _
      · exact ⟨_, rfl, ⟨happ.store, happ.slots, happ.refs, happ.named⟩,
          nodup_cons.mpr ⟨unused_of_any hused, h.ids⟩⟩

theorem freeGlyphs_ok (h : Inv s) (glyphset : Nat) (gids : List Nat) :
    ∃ r, freeGlyphs s glyphset gids = some r ∧ Inv r.1 := by
  unfold freeGlyphs
  cases hl : s.lookup glyphset with
  | none => exact ⟨_, rfl, h⟩
  | some x =>
    obtain ⟨p, set⟩ := x
    obtain ⟨hp, -⟩ := lookup_spec hl
    obtain ⟨others, ho⟩ := h.sets.opened hp
    obtain ⟨st, set', result, hdel, hok, hkeep, hslots, hf, hr⟩ :=
      deleteAll_ok gids ho.store (h.sets.slots p set hp)
    dsimp only
    rw [hdel, map_some]
    exact ⟨_, rfl, h.sets.update hp ho hok hslots (ho.keeps _ ho.rest hkeep hok) hr, h.ids⟩

theorem length_readImages (pixmapBytePad : Nat → Nat → Nat) (depth : Nat)
    (gis : List (Nat × GlyphInfo)) (bits : List (BitVec 8)) :
    (readImages pixmapBytePad depth gis bits).1.length ≤ gis.length := by
  induction gis generalizing bits with
  | nil => exact le_rfl
  | cons x gis ih =>
    rw [readImages]
    dsimp only
    split
    · exact Nat.zero_le _
    · split
      · exact Nat.zero_le _
      · exact Nat.succ_le_succ (ih _)

theorem isNew_iff {st : Store} {refs : List Nat} {f : Nat} {sha1 : Sha1} (h : StoreOk st refs) :
    isNew st f sha1 = true ↔ ∀ g ∈ listed st f, ∀ a, st.glyphs g = some a → a.sha1 ≠ sha1 := by
  rw [isNew, decide_eq_true_iff]
  refine forall_congr' fun g => forall_congr' fun hg => ?_
  obtain ⟨a, ha, -⟩ := h.listed_glyph hg
  rw [ha, map_some, Ne, some_inj]
  exact ⟨fun hne b hb => by cases hb; exact hne, fun hall => hall a rfl⟩

section

variable {others : List Nat} {st st' : Store} {set' : GlyphSet}

structure Working (s : State) (p : Nat) (set set' : GlyphSet) (others : List Nat)
    (st : Store) (refs : List Nat) : Prop where
  store : StoreOk st (refs ++ (set'.held ++ others))
  slots : SlotsOk st set'
  rest : OthersOk s p st
  refcnt : set'.refcnt = set.refcnt

theorem Working.close (h : Inv s) (hp : s.sets[p]? = some (some set))
    (ho : Opened s p set others) (hw : Working s p set set' others st []) :
    Inv (s.setSet p st set') :=
  ⟨h.sets.update hp ho hw.store hw.slots hw.rest hw.refcnt, h.ids⟩

theorem Working.bail {got : List (Nat × Nat)} (h : Inv s) (hp : s.sets[p]? = some (some set))
    (ho : Opened s p set others) (hw : Working s p set set' others st (got.map snd))
    (hf : ∀ x ∈ got, ∀ a, st.glyphs x.2 = some a → a.fdepth = set'.fdepth)
    (hset : got ≠ [] → (st.globalGlyphs set'.fdepth).hashSet.isSome = true) :
    ∃ st', Glyphs.bail st set'.fdepth got = some st' ∧ Inv (s.setSet p st' set') := by
  obtain ⟨st', hbail, hok, hkeep⟩ := bail_ok got hw.store hf hset
  refine ⟨st', hbail, Working.close h hp ho ⟨hok, ?_, ho.keeps _ hw.rest hkeep hok, hw.refcnt⟩⟩
  exact hw.slots.keeps hkeep fun g hg => hok.live g (mem_append_left others hg)

end

/-- What a request must not do to the accounts: be accepted with an image twice that the
server has no glyph of, come to a glyph without a picture while a glyph of hash zero is
listed, or make a glyph and fail while its format has no global table. -/
def AddFits (hashGlyph : Image → Sha1) (pixmapBytePad : Nat → Nat → Nat) (s : State)
    (stuff : AddGlyphsReq) : Prop :=
  match s.lookup stuff.glyphset with
  | none => True
  | some (_, set) =>
    let nglyphs := stuff.glyphs.length
    let images := readImages pixmapBytePad set.depth stuff.glyphs stuff.bits
    let hash := s.store.globalGlyphs set.fdepth
    let new := isNew s.store set.fdepth
    let stop := reach hashGlyph stuff.supply new 0 images.1
    let accepted := stop = .done ∧ images.2 = true ∧
      Resizes set.hash nglyphs stuff.supply.resizeSet ∧
      Resizes hash nglyphs stuff.supply.resizeGlobal
    ((2 ^ 32 - 1) / sizeofGlyphNewRec < nglyphs ∨ 256 < nglyphs ∧ stuff.supply.array = false) ∨
    (accepted → (newHashes hashGlyph new images.1).Nodup) ∧ (stop = .unpictured → new 0 = true) ∧
      (hash.hashSet = none → accepted ∨ images.1 = [] ∨ stuff.supply.hash 0 = false ∨
        stuff.supply.glyph 0 = false)

variable {pixmapBytePad : Nat → Nat → Nat}

theorem addGlyphs_ok {hashGlyph : Image → Sha1}
    {stuff : AddGlyphsReq} (h : Inv s) (hfits : AddFits hashGlyph pixmapBytePad s stuff) :
    ∃ r, addGlyphs hashGlyph pixmapBytePad s stuff = some r ∧ Inv r.1 := by
  unfold addGlyphs
  unfold AddFits at hfits
  cases hl : s.lookup stuff.glyphset with
  | none => exact ⟨_, rfl, h⟩
  | some x =>
    obtain ⟨p, set⟩ := x
    rw [hl] at hfits
    dsimp only at hfits ⊢
    by_cases harray : (2 ^ 32 - 1) / sizeofGlyphNewRec < stuff.glyphs.length ∨
        256 < stuff.glyphs.length ∧ stuff.supply.array = false
    · rw [if_pos harray]
      exact ⟨_, rfl, h⟩
    rw [if_neg harray]
    obtain ⟨hnodup, hzero, hnull⟩ := hfits.resolve_left harray
    have hlen := length_readImages pixmapBytePad set.depth stuff.glyphs stuff.bits
    generalize readImages pixmapBytePad set.depth stuff.glyphs stuff.bits = read
      at hnodup hzero hnull hlen ⊢
    obtain ⟨images, complete⟩ := read
    dsimp only at hnodup hzero hnull hlen ⊢
    obtain ⟨hp, -⟩ := lookup_spec hl
    obtain ⟨others, ho⟩ := h.sets.opened hp
    obtain ⟨st, got, hcollect, hc⟩ := collect_ok ho.store (fun _ => rfl) hzero
    have hlisted : ∀ f g, g ∈ listed st f ↔ g ∈ listed s.store f := fun f g => by
      rw [hc.grows.listed f]
    have hw : Working s p set set others st (got.map snd) :=
      ⟨hc.ok, (h.sets.slots p set hp).listed_iff hlisted, ho.rest.listed hlisted, rfl⟩
    rw [hcollect, bind_some]
    dsimp only
    -- a request that fails has a table to look its glyphs up in
    have htable : ¬ (reach hashGlyph stuff.supply (isNew s.store set.fdepth) 0 images = .done ∧
        complete = true ∧ Resizes set.hash stuff.glyphs.length stuff.supply.resizeSet ∧
        Resizes (s.store.globalGlyphs set.fdepth) stuff.glyphs.length stuff.supply.resizeGlobal) →
        got ≠ [] → (st.globalGlyphs set.fdepth).hashSet.isSome = true := by
      intro hnot hne
      rw [hc.grows.globals, isSome_iff_ne_none]
      intro hn
      obtain ⟨x, rest, rfl, hhash, hglyph⟩ := hc.first hne
      have hnew : isNew s.store set.fdepth (hashGlyph x.2) = true := by
        rw [isNew, listed, (h.sets.store.hash set.fdepth).null hn]
        rfl
      rcases (hnull hn).resolve_left hnot with hi | hi | hi
      · cases hi
      · rw [hhash] at hi
        cases hi
      · rw [hglyph hnew] at hi
        cases hi
    by_cases hdone : reach hashGlyph stuff.supply (isNew s.store set.fdepth) 0 images = .done ∧
        complete = true
    · obtain ⟨hdone, rfl⟩ := hdone
      rw [hdone, if_pos (by rfl)]
      have hchange : stuff.glyphs.length < 2 ^ 31 := by
        rw [not_or, not_lt, sizeofGlyphNewRec] at harray
        omega
      obtain ⟨st₁, set₁, ok, hresize, hok, hr⟩ := resizeGlyphSet_ok hw.store hw.slots hchange
        stuff.supply
      rw [hc.grows.globals] at hok
      have hheld : set₁.held.Perm set.held := hr.held.map snd
      have hw₁ : Working s p set set₁ others st₁ (got.map snd) :=
        ⟨hr.store.perm ((hheld.symm.append_right others).append_left _), hr.slots,
          hw.rest.listed hr.listed, hr.refcnt⟩
      have hf₁ : ∀ x ∈ got, ∀ a, st₁.glyphs x.2 = some a → a.fdepth = set₁.fdepth := by
        rw [hr.glyphs, hr.fdepth]
        exact hc.fdepth
      rw [hresize, bind_some]
      dsimp only
      cases ok with
      | false =>
        have hnot := fun hacc => Bool.false_ne_true (hok.mpr hacc)
        obtain ⟨st₂, hbail, hinv⟩ := hw₁.bail h hp ho hf₁ fun hne =>
          hr.fdepth ▸ hr.hashSet (.inr (htable (fun hacc => hnot hacc.2.2) hne))
        rw [if_neg Bool.false_ne_true, hbail]
        exact ⟨_, rfl, hinv⟩
      | true =>
        rw [if_pos rfl]
        have hd : Distinct st₁ set₁.fdepth := by
          have hd := hc.distinct hdone (h.sets.distinct set.fdepth)
            (hnodup ⟨hdone, rfl, hok.mp rfl⟩) fun k a ha hfa hmem => by
              exact (isNew_iff h.sets.store).mp (mem_filter.mp hmem).2 k
                (hfa ▸ h.sets.listed ha) a ha rfl
          rw [hr.fdepth]
          unfold Distinct
          rw [hr.glyphs]
          exact hd
        obtain ⟨hroom, hroom'⟩ := hr.room rfl
        have hle := hc.length.trans hlen
        obtain ⟨st₂, set₂, hadd, hok₂, hkeep, hslots, hf, hrefcnt⟩ := addAll_ok
          (hw₁.store.perm (perm_append_comm_assoc _ _ _)) hr.slots hf₁
          (hr.fdepth ▸ hr.hashSet (.inl rfl)) (by rw [hr.fdepth]; omega) (by omega) hd
        rw [hadd]
        refine ⟨_, rfl, Working.close h hp ho ⟨hok₂, hslots, ?_, hrefcnt.trans hr.refcnt⟩⟩
        exact ho.keeps _ hw₁.rest hkeep hok₂
    · obtain ⟨st₂, hbail, hinv⟩ := hw.bail h hp ho hc.fdepth
        (htable fun hacc => hdone ⟨hacc.1, hacc.2.1⟩)
      rw [if_neg (by rwa [Bool.and_eq_true, decide_eq_true_iff]), hbail]
      exact ⟨_, rfl, hinv⟩

end

def Fits (hashGlyph : Image → Sha1) (pixmapBytePad : Nat → Nat → Nat) (s : State) :
    Request → Prop
  | .add stuff => AddFits hashGlyph pixmapBytePad s stuff
  | _ => True

instance (hashGlyph : Image → Sha1) (pixmapBytePad : Nat → Nat → Nat) (s : State)
    (request : Request) : Decidable (Fits hashGlyph pixmapBytePad s request) := by
  cases request with
  | add stuff =>
    dsimp only [Fits, AddFits]
    cases s.lookup stuff.glyphset <;> (dsimp only; infer_instance)
  | _ => exact instDecidableTrue

theorem step_ok {hashGlyph : Image → Sha1} {s : State}
    (h : Inv s) {request : Request} (hfits : Fits hashGlyph pixmapBytePad s request) :
    ∃ r, step hashGlyph pixmapBytePad s request = some r ∧ Inv r.1 := by
  cases request with
  | create xid fdepth depth supply => exact createGlyphSet_ok h xid fdepth depth supply
  | reference xid existing resource memory =>
    exact referenceGlyphSet_ok h xid existing resource memory
  | add stuff => exact addGlyphs_ok h hfits
  | free glyphset gids => exact freeGlyphs_ok h glyphset gids
  | freeSet xid memory => exact freeGlyphSetRequest_ok h xid memory

theorem glyphs_run (hashGlyph : Image → Sha1) (pixmapBytePad : Nat → Nat → Nat)
    (requests : List Request)
    (hg : Guarded (step hashGlyph pixmapBytePad) (Fits hashGlyph pixmapBytePad) State.init requests) :
    ∃ s results, exec (step hashGlyph pixmapBytePad) State.init requests = some (s, results) ∧
      Exact s := by
  have hstep : ∀ s request, Inv s → Fits hashGlyph pixmapBytePad s request →
      ∃ s' result, step hashGlyph pixmapBytePad s request = some (s', result) ∧ Inv s' := by
    intro s request hinv hfits
    obtain ⟨r, hr, hinv'⟩ := step_ok hinv hfits
    exact ⟨r.1, r.2, hr, hinv'⟩
  obtain ⟨s, results, hexec, hinv⟩ := Run.exec_invariant hstep init_inv hg
  exact ⟨s, results, hexec, hinv.exact⟩

def hashWidth (image : Image) : Sha1 := image.1.width.setWidth 160

def bytePad (width depth : Nat) : Nat := (width * depth + 31) / 32 * 4

def given : AddSupply := ⟨true, fun _ => true, fun _ => true, fun _ => true, true, true⟩

def square (width : BitVec 16) : GlyphInfo := ⟨width, 1, 0, 0, width, 0⟩

def granted : CreateSupply := ⟨true, true, true, true, true, true⟩

def shared : List Request :=
  [.create 10 2 8 granted, .create 11 2 8 granted,
    .add ⟨10, [(1, square 4), (2, square 8)], replicate 12 0, given⟩,
    .add ⟨11, [(1, square 8), (1, square 4)], replicate 12 0, given⟩,
    .add ⟨11, [(5, square 12)], [], given⟩, .reference 12 10 true true, .freeSet 10 true,
    .free 11 [1, 7], .freeSet 12 true, .freeSet 11 true]

theorem glyphs_run_shared :
    Guarded (step hashWidth bytePad) (Fits hashWidth bytePad) State.init shared ∧
      ∃ s results, exec (step hashWidth bytePad) State.init shared = some (s, results) ∧ Exact s :=
  have hg : Guarded (step hashWidth bytePad) (Fits hashWidth bytePad) init shared := by
    decide +kernel
  ⟨hg, glyphs_run _ _ _ hg⟩

def twice : List Request :=
  [.create 10 2 8 granted, .add ⟨10, [(1, square 4), (2, square 4)], replicate 8 0, given⟩]

/-- The second glyph goes as its image is there already, and takes the entry of the
first with it. -/
theorem twice_unlists : ∃ s results,
    exec (step hashWidth bytePad) State.init twice = some (s, results) ∧ ¬ Exact s := by
  have hrun : (exec (step hashWidth bytePad) init twice).map (fun r =>
      ((r.1.store.glyphs 0).map Glyph.fdepth, listed r.1.store 2)) = some (some 2, []) := by
    decide +kernel
  obtain ⟨⟨s, results⟩, hexec, he⟩ := map_eq_some_iff.mp hrun
  obtain ⟨hglyph, hlisted⟩ := mk.inj he
  obtain ⟨glyph, hg, hf⟩ := map_eq_some_iff.mp hglyph
  refine ⟨s, results, hexec, fun hexact => ?_⟩
  have honce := hexact.once 0 glyph hg
  rw [hf, hlisted] at honce
  cases honce

/-- A format without a global table while one of its sets is there: the request that
fails looks its glyph up in no table. -/
example : exec (step hashWidth bytePad) init [.create 10 2 8 granted,
    .create 11 2 8 granted, .freeSet 11 true, .add ⟨10, [(1, square 4)], replicate 8 0, given⟩] =
    none := by decide +kernel

end Xfront.Glyphs
