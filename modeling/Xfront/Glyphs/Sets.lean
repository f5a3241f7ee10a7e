import Xfront.Glyphs.Loops

/-!
# The sets and who refers to them

`SetsOk` says what the sets of a state owe to a list of their owners, one for each
resource that names a set.
-/

namespace Xfront.Glyphs
open Prod

open List Option Function
open Probing (Slot entries)

section

variable {st : Store} {refs : List Nat} {f : Nat} {set : GlyphSet} {hash : GlyphHash}

theorem StoreOk.retable (h : StoreOk st refs) (hok : HashOk hash)
    (hperm : (entries hash.table).Perm (entries (st.globalGlyphs f).table)) :
    StoreOk (st.setGlobal f hash) refs ∧
      ∀ f' g, g ∈ listed (st.setGlobal f hash) f' ↔ g ∈ listed st f' := by
  have hentries : ∀ f', (entries ((st.setGlobal f hash).globalGlyphs f').table).Perm
      (entries (st.globalGlyphs f').table) := by
    intro f'
    by_cases hf : f' = f
    · subst hf
      simpa only [Store.setGlobal, update_self] using hperm
    · simp only [Store.setGlobal, update_of_ne hf]
      exact List.Perm.refl _
  have hlisted : ∀ f' g, g ∈ listed (st.setGlobal f hash) f' ↔ g ∈ listed st f' := fun f' g =>
    ((hentries f').map snd).mem_iff
  refine ⟨⟨h.count, h.live, h.fresh, fun f' => ?_, fun f' x hx => h.entry f' x
    ((hentries f').mem_iff.mp hx), fun f' => ((hentries f').map snd).nodup_iff.mpr (h.once f'),
    fun f' k l a b hk => h.apart f' k l a b ((hlisted f' k).mp hk)⟩, hlisted⟩
  by_cases hf : f' = f
  · subst hf
    simpa only [Store.setGlobal, update_self] using hok
  · simpa only [Store.setGlobal, update_of_ne hf] using h.hash f'

theorem StoreOk.apart_entries (h : StoreOk st refs) (f : Nat) :
    Apart st.glyphs true (entries (st.globalGlyphs f).table) := by
  have honce : (entries (st.globalGlyphs f).table).Pairwise fun x y => x.2 ≠ y.2 :=
    pairwise_map.mp (h.once f)
  refine honce.imp_of_mem fun {x y} hx hy hne _ => ?_
  obtain ⟨a, ha, -, -⟩ := h.entry f x hx
  obtain ⟨b, hb, hbf, -⟩ := h.entry f y hy
  exact ⟨rfl, a, b, ha, hb, fun hab =>
    hne (h.apart f x.2 y.2 a b (mem_listed.mpr ⟨x.1, hx⟩) ha hb hbf hab)⟩

theorem SlotsOk.apart_entries (h : SlotsOk st set) :
    Apart st.glyphs false (entries set.hash.table) :=
  (pairwise_map.mp h.ids).imp fun hne he => absurd he hne

theorem room_of_resize {hash' : GlyphHash} {change : Nat}
    (hcount : hash.tableEntries = hash'.tableEntries)
    (hsets : hash'.hashSet = findGlyphHashSet (hash.tableEntries + change))
    (hset : hash'.hashSet.isSome = true) : change ≤ hash'.room := by
  obtain ⟨hashSet, hs⟩ := isSome_iff_exists.mp hset
  have hle := (findGlyphHashSet_some (hsets.symm.trans hs)).2
  rw [GlyphHash.room, hs, elim_some]
  omega

def Resizes (hash : GlyphHash) (change : Nat) (memory : Bool) : Prop :=
  findGlyphHashSet (hash.tableEntries + change) = hash.hashSet ∨
    (findGlyphHashSet (hash.tableEntries + change)).isSome = true ∧ memory = true

instance (hash : GlyphHash) (change : Nat) (memory : Bool) :
    Decidable (Resizes hash change memory) :=
  inferInstanceAs (Decidable (_ ∨ _))

theorem resize_ok_iff {glyphs : Nat → Option Glyph} {hash' : GlyphHash} {change : Nat}
    {global memory ok : Bool} (hok : HashOk hash) (hc : change < 2 ^ 31)
    (h : resizeGlyphHash glyphs hash change global memory = some (hash', ok)) :
    ok = true ↔ Resizes hash change memory := by
  unfold resizeGlyphHash at h
  unfold Resizes
  rw [hok.sum_mod hc] at h
  by_cases heq : findGlyphHashSet (hash.tableEntries + change) = hash.hashSet
  · rw [if_pos heq] at h
    cases h
    exact ⟨fun _ => .inl heq, fun _ => rfl⟩
  · rw [if_neg heq] at h
    rw [or_iff_right heq]
    cases hs : findGlyphHashSet (hash.tableEntries + change) with
    | none =>
      rw [hs] at h
      cases h
      simp
    | some hashSet =>
      rw [hs] at h
      cases memory with
      | false =>
        cases h
        simp
      | true =>
        obtain ⟨table, -, he⟩ := map_eq_some_iff.mp h
        cases he
        simp

/-- What `ResizeGlyphSet` leaves, with room for `n` more entries when it succeeds. -/
structure Resized (st st' : Store) (set set' : GlyphSet) (n : Nat) (ok : Bool)
    (refs : List Nat) : Prop where
  store : StoreOk st' refs
  listed : ∀ f g, g ∈ listed st' f ↔ g ∈ listed st f
  glyphs : st'.glyphs = st.glyphs
  slots : SlotsOk st' set'
  held : (entries set'.hash.table).Perm (entries set.hash.table)
  fdepth : set'.fdepth = set.fdepth
  refcnt : set'.refcnt = set.refcnt
  hashSet : ok = true ∨ (st.globalGlyphs set.fdepth).hashSet.isSome = true →
    (st'.globalGlyphs set.fdepth).hashSet.isSome = true
  room : ok = true → n ≤ (st'.globalGlyphs set.fdepth).room ∧ n ≤ set'.hash.room

theorem SlotsOk.retable {st' : Store} (h : SlotsOk st set) (hok : HashOk hash)
    (hmade : hash.hashSet.isSome = true)
    (hperm : (entries hash.table).Perm (entries set.hash.table))
    (hl : ∀ f g, g ∈ Glyphs.listed st' f ↔ g ∈ Glyphs.listed st f) :
    SlotsOk st' { set with hash } where
  hash := hok
  made := hmade
  ids := (hperm.map fst).nodup_iff.mpr h.ids
  listed := fun g hg => (hl _ g).mpr (h.listed g ((hperm.map snd).mem_iff.mp hg))

theorem resizeGlyphSet_ok (h : StoreOk st refs) (hslots : SlotsOk st set) {n : Nat}
    (hc : n < 2 ^ 31) (supply : AddSupply) :
    ∃ st' set' ok, resizeGlyphSet st set n supply = some (st', set', ok) ∧
      (ok = true ↔ Resizes set.hash n supply.resizeSet ∧
        Resizes (st.globalGlyphs set.fdepth) n supply.resizeGlobal) ∧
      Resized st st' set set' n ok refs := by
  obtain ⟨hash, ok, hresize, hhash, hperm, hmade, hset⟩ :=
    hslots.hash.resize hslots.apart_entries hc supply.resizeSet
  have hiff := resize_ok_iff hslots.hash hc hresize
  rw [resizeGlyphSet, hresize, bind_some]
  dsimp only
  cases ok with
  | false =>
    rw [if_neg Bool.false_ne_true]
    refine ⟨_, _, false, rfl, ⟨fun hf => (nomatch hf), fun hr => hiff.mpr hr.1⟩, h, fun _ _ => Iff.rfl,
      rfl, hslots.retable hhash (hmade hslots.made) hperm fun _ _ => Iff.rfl, hperm, rfl, rfl,
      fun ho => ho.resolve_left Bool.false_ne_true, fun hf => nomatch hf⟩
  | true =>
    rw [if_pos rfl]
    obtain ⟨global, ok', hresize', hglobal, hperm', hmade', hset'⟩ :=
      (h.hash set.fdepth).resize (h.apart_entries set.fdepth) hc supply.resizeGlobal
    have hiff' := resize_ok_iff (h.hash set.fdepth) hc hresize'
    obtain ⟨hstore, hlisted⟩ := h.retable (f := set.fdepth) hglobal hperm'
    have hself : (st.setGlobal set.fdepth global).globalGlyphs set.fdepth = global := update_self ..
    have hcount : set.hash.tableEntries = hash.tableEntries :=
      hslots.hash.count.trans (hperm.length_eq.symm.trans hhash.count.symm)
    have hcount' : (st.globalGlyphs set.fdepth).tableEntries = global.tableEntries :=
      (h.hash set.fdepth).count.trans (hperm'.length_eq.symm.trans hglobal.count.symm)
    have hsome : hash.hashSet.isSome = true := hmade hslots.made
    -- a set's table is no larger than the global one, which has all its glyphs
    have hsome' : ok' = true → global.hashSet.isSome = true := by
      intro hok'
      by_cases hnull : (st.globalGlyphs set.fdepth).hashSet.isSome = true
      · exact hmade' hnull
      · have htable := (h.hash set.fdepth).null (not_isSome_iff_eq_none.mp hnull)
        have hzero : (st.globalGlyphs set.fdepth).tableEntries = 0 := by
          rw [(h.hash set.fdepth).count, htable]
          rfl
        rw [hset' hok', hzero]
        exact findGlyphHashSet_mono (hset rfl ▸ hsome) (by omega)
    rw [hresize', map_some]
    refine ⟨_, _, ok', rfl, ⟨fun hok' => ⟨hiff.mp rfl, hiff'.mp hok'⟩, fun hr => hiff'.mpr hr.2⟩,
      hstore, hlisted, rfl, hslots.retable hhash hsome hperm hlisted, hperm, rfl, rfl, ?_, ?_⟩
    · rw [hself]
      exact fun ho => ho.elim hsome' hmade'
    · rw [hself]
      exact fun hok' => ⟨room_of_resize hcount' (hset' hok') (hsome' hok'),
        room_of_resize hcount (hset rfl) hsome⟩

end

def heldBy (sets : List (Option GlyphSet)) : List Nat :=
  sets.flatMap fun set => set.elim [] GlyphSet.held

structure SetsOk (s : State) (owners : List Nat) : Prop where
  store : StoreOk s.store (heldBy s.sets)
  slots : ∀ (p : Nat) set, s.sets[p]? = some (some set) → SlotsOk s.store set
  refs : ∀ (p : Nat) set, s.sets[p]? = some (some set) → set.refcnt = owners.count p ∧ p ∈ owners
  named : ∀ p ∈ owners, ∃ set, s.sets[p]? = some (some set)

section

variable {s : State} {owners : List Nat} {p : Nat} {set : GlyphSet}

theorem exists_others {sets : List (Option GlyphSet)} (hp : p < sets.length) :
    ∃ others, (∀ set, (heldBy (sets.set p set)).Perm (set.elim [] GlyphSet.held ++ others)) ∧
      ∀ (q : Nat) set, q ≠ p → sets[q]? = some (some set) → ∀ g ∈ set.held, g ∈ others := by
  refine ⟨heldBy (sets.take p) ++ heldBy (sets.drop (p + 1)), fun set => ?_,
    fun q set hq hget g hg => ?_⟩
  · rw [set_eq_take_append_cons_drop, if_pos hp, heldBy, flatMap_append, flatMap_cons]
    exact (perm_append_comm_assoc _ _ _)
  · have hmem : some set ∈ sets.take p ∨ some set ∈ sets.drop (p + 1) := by
      rcases lt_or_gt_of_ne hq with hlt | hgt
      · refine .inl (mem_iff_getElem?.mpr ⟨q, ?_⟩)
        rw [getElem?_take, if_pos hlt, hget]
      · refine .inr (mem_iff_getElem?.mpr ⟨q - (p + 1), ?_⟩)
        rw [getElem?_drop, Nat.add_sub_cancel' hgt, hget]
    rcases hmem with hm | hm
    · exact mem_append_left _ (mem_flatMap.mpr ⟨some set, hm, hg⟩)
    · exact mem_append_right _ (mem_flatMap.mpr ⟨some set, hm, hg⟩)

def OthersOk (s : State) (p : Nat) (st : Store) : Prop :=
  ∀ (q : Nat) set, q ≠ p → s.sets[q]? = some (some set) → SlotsOk st set

theorem lt_of_getSet {sets : List (Option GlyphSet)} {o : Option GlyphSet}
    (h : sets[p]? = some o) : p < sets.length := (List.getElem?_eq_some_iff.mp h).1

structure Opened (s : State) (p : Nat) (set : GlyphSet) (others : List Nat) : Prop where
  store : StoreOk s.store (set.held ++ others)
  perm : ∀ set', (heldBy (s.sets.set p set')).Perm (set'.elim [] GlyphSet.held ++ others)
  inOthers : ∀ (q : Nat) set', q ≠ p → s.sets[q]? = some (some set') → ∀ g ∈ set'.held, g ∈ others
  rest : OthersOk s p s.store

theorem SetsOk.opened (h : SetsOk s owners) (hget : s.sets[p]? = some (some set)) :
    ∃ others, Opened s p set others := by
  obtain ⟨others, hperm, hin⟩ := exists_others (lt_of_getSet hget)
  have hself := hperm (some set)
  have hset : s.sets.set p (some set) = s.sets := by
    obtain ⟨hp, he⟩ := List.getElem?_eq_some_iff.mp hget
    rw [← he, set_getElem_self]
  rw [hset] at hself
  exact ⟨others, h.store.perm hself, hperm, hin, fun q set' _ hq => h.slots q set' hq⟩

variable {others : List Nat} {st st' : Store}

theorem Opened.keeps {n : Nat}
    (h : Opened s p set others) (refs : List Nat) (ho : OthersOk s p st) (hk : Keeps n st st')
    (hok : StoreOk st' (refs ++ others)) : OthersOk s p st' := fun q set' hq hget =>
  (ho q set' hq hget).keeps hk fun g hg =>
    hok.live g (mem_append_right refs (h.inOthers q set' hq hget g hg))

theorem OthersOk.listed (ho : OthersOk s p st)
    (hl : ∀ f g, g ∈ listed st' f ↔ g ∈ listed st f) : OthersOk s p st' := fun q set' hq hget =>
  let h := ho q set' hq hget
  { h with listed := fun g hg => (hl _ g).mpr (h.listed g hg) }

theorem SlotsOk.listed_iff (h : SlotsOk st set)
    (hl : ∀ f g, g ∈ Glyphs.listed st' f ↔ g ∈ Glyphs.listed st f) : SlotsOk st' set :=
  { h with listed := fun g hg => (hl _ g).mpr (h.listed g hg) }

theorem SetsOk.close {owners' : List Nat} {set' : GlyphSet}
    (h : SetsOk s owners) (hget : s.sets[p]? = some (some set)) (ho : Opened s p set others)
    (hstore : StoreOk st' (set'.held ++ others)) (hslots : SlotsOk st' set')
    (hrest : OthersOk s p st') (hn : set'.refcnt = owners'.count p) (hmem : p ∈ owners')
    (hother : ∀ q, q ≠ p → owners'.count q = owners.count q) :
    SetsOk (s.setSet p st' set') owners' := by
  have hp := lt_of_getSet hget
  have hmem' : ∀ q, q ≠ p → (q ∈ owners' ↔ q ∈ owners) := by
    intro q hq
    rw [← count_pos_iff, ← count_pos_iff, hother q hq]
  have hread : ∀ (q : Nat) t, (s.sets.set p (some set'))[q]? = some (some t) →
      q = p ∧ t = set' ∨ q ≠ p ∧ s.sets[q]? = some (some t) := by
    intro q t hq
    by_cases hqp : q = p
    · subst hqp
      rw [getElem?_set_self hp] at hq
      cases hq
      exact .inl ⟨rfl, rfl⟩
    · rw [getElem?_set_ne (Ne.symm hqp)] at hq
      exact .inr ⟨hqp, hq⟩
  refine ⟨hstore.perm (ho.perm (some set')).symm, fun q t hq => ?_, fun q t hq => ?_,
    fun q hq => ?_⟩
  · rcases hread q t hq with ⟨-, rfl⟩ | ⟨hqp, hq⟩
    · exact hslots
    · exact hrest q t hqp hq
  · rcases hread q t hq with ⟨rfl, rfl⟩ | ⟨hqp, hq⟩
    · exact ⟨hn, hmem⟩
    · rw [hother q hqp, hmem' q hqp]
      exact h.refs q t hq
  · by_cases hqp : q = p
    · subst hqp
      exact ⟨set', getElem?_set_self hp⟩
    · obtain ⟨t, ht⟩ := h.named q ((hmem' q hqp).mp hq)
      exact ⟨t, (getElem?_set_ne (Ne.symm hqp)).trans ht⟩

theorem SetsOk.update {set' : GlyphSet} (h : SetsOk s owners)
    (hget : s.sets[p]? = some (some set)) (ho : Opened s p set others)
    (hstore : StoreOk st' (set'.held ++ others)) (hslots : SlotsOk st' set')
    (hrest : OthersOk s p st') (hr : set'.refcnt = set.refcnt) :
    SetsOk (s.setSet p st' set') owners :=
  h.close hget ho hstore hslots hrest (hr.trans (h.refs p set hget).1) (h.refs p set hget).2
    fun _ _ => rfl

theorem SetsOk.recount {n : Nat} (h : SetsOk s owners) (owners' : List Nat)
    (hget : s.sets[p]? = some (some set)) (hn : n = owners'.count p) (hmem : p ∈ owners')
    (hother : ∀ q, q ≠ p → owners'.count q = owners.count q) :
    SetsOk { s with sets := s.sets.set p (some { set with refcnt := n }) } owners' := by
  obtain ⟨others, ho⟩ := h.opened hget
  have hslots := h.slots p set hget
  have hslots' : SlotsOk s.store { set with refcnt := n } :=
    ⟨hslots.hash, hslots.made, hslots.ids, hslots.listed⟩
  exact h.close hget ho ho.store hslots' ho.rest hn hmem hother

theorem SetsOk.drop (h : SetsOk s (p :: owners))
    (hget : s.sets[p]? = some (some set)) (ho : Opened s p set others) (hlast : p ∉ owners)
    (hstore : StoreOk st' others) (hrest : OthersOk s p st') :
    SetsOk { s with
      store := st'
      sets := s.sets.set p none } owners := by
  have hp := lt_of_getSet hget
  have hread : ∀ (q : Nat) t, (s.sets.set p none)[q]? = some (some t) →
      q ≠ p ∧ s.sets[q]? = some (some t) := by
    intro q t hq
    by_cases hqp : q = p
    · subst hqp
      rw [getElem?_set_self hp] at hq
      cases hq
    · rw [getElem?_set_ne (Ne.symm hqp)] at hq
      exact ⟨hqp, hq⟩
  refine ⟨hstore.perm (ho.perm none).symm, fun q t hq => ?_, fun q t hq => ?_, fun q hq => ?_⟩
  · obtain ⟨hqp, hq⟩ := hread q t hq
    exact hrest q t hqp hq
  · obtain ⟨hqp, hq⟩ := hread q t hq
    obtain ⟨hc, hm⟩ := h.refs q t hq
    exact ⟨hc.trans (count_cons_of_ne (Ne.symm hqp)), (mem_cons.mp hm).resolve_left hqp⟩
  · have hqp : q ≠ p := fun he => hlast (he ▸ hq)
    obtain ⟨t, ht⟩ := h.named q (mem_cons_of_mem p hq)
    exact ⟨t, (getElem?_set_ne (Ne.symm hqp)).trans ht⟩

theorem Opened.global_isSome (ho : Opened s p set others)
    (hslots : SlotsOk s.store set) (hne : entries set.hash.table ≠ []) :
    (s.store.globalGlyphs set.fdepth).hashSet.isSome = true := by
  obtain ⟨x, hx⟩ := exists_mem_of_ne_nil _ hne
  exact ho.store.hashSet_isSome (hslots.listed x.2 (List.mem_map.mpr ⟨x, hx, rfl⟩))

theorem freeGlyphSet_ok (h : SetsOk s (p :: owners)) (memory : Bool) :
    ∃ s', freeGlyphSet s p memory = some s' ∧ SetsOk s' owners ∧ s'.resources = s.resources := by
  obtain ⟨set, hget⟩ := h.named p mem_cons_self
  have hcount := (h.refs p set hget).1
  rw [count_cons_self] at hcount
  rw [freeGlyphSet, hget, join_some, bind_some]
  by_cases hmem : p ∈ owners
  · have hpos := count_pos_iff.mpr hmem
    rw [if_pos (by omega)]
    exact ⟨_, rfl, h.recount _ hget (by omega) hmem fun q hq =>
      (count_cons_of_ne (Ne.symm hq)).symm, rfl⟩
  have hzero := count_eq_zero.mpr hmem
  rw [if_neg (by omega)]
  obtain ⟨others, ho⟩ := h.opened hget
  have hslots := h.slots p set hget
  obtain ⟨st₁, hbail, hok₁, hkeep⟩ := bail_ok (entries set.hash.table) (f := set.fdepth)
    ho.store (fun x hx a ha => by
      obtain ⟨b, hb, hbf⟩ := ho.store.listed_glyph (hslots.listed x.2 (List.mem_map.mpr ⟨x, hx, rfl⟩))
      cases ha.symm.trans hb
      exact hbf) (ho.global_isSome hslots)
  have hrest₁ : OthersOk s p st₁ := ho.keeps [] ho.rest hkeep hok₁
  rw [freeSlots_eq, hbail, bind_some]
  dsimp only
  have hhash := hok₁.hash set.fdepth
  by_cases hempty : (st₁.globalGlyphs set.fdepth).tableEntries = 0
  · rw [if_pos hempty, map_some]
    have hnil : entries (st₁.globalGlyphs set.fdepth).table = [] :=
      eq_nil_of_length_eq_zero (hhash.count.symm.trans hempty)
    have hnone : HashOk { st₁.globalGlyphs set.fdepth with
        table := []
        hashSet := none } := ⟨hempty, fun _ => rfl, fun _ hs => nomatch hs⟩
    obtain ⟨hok₂, hl⟩ := hok₁.retable (f := set.fdepth) hnone
      (by rw [hnil]; exact List.Perm.refl _)
    exact ⟨_, rfl, h.drop hget ho hmem hok₂ (hrest₁.listed hl), rfl⟩
  · rw [if_neg hempty]
    obtain ⟨hash', ok, hresize, hhash', hperm, -, -⟩ :=
      hhash.resize (hok₁.apart_entries set.fdepth) (Nat.two_pow_pos 31) memory
    rw [hresize, map_some, map_some]
    obtain ⟨hok₂, hl⟩ := hok₁.retable hhash' hperm
    exact ⟨_, rfl, h.drop hget ho hmem hok₂ (hrest₁.listed hl), rfl⟩

end

end Xfront.Glyphs
