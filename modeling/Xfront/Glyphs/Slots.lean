import Xfront.Glyphs.Accounts

/-!
# The slots of a glyph set

Every slot of a set holds a glyph of the global table of the set's format and is one
reference of it.
-/

namespace Xfront.Glyphs
open Nat Prod

open List Option Function
open Probing (Slot entries)

def GlyphSet.held (set : GlyphSet) : List Nat := (entries set.hash.table).map snd

structure SlotsOk (st : Store) (set : GlyphSet) : Prop where
  hash : HashOk set.hash
  made : set.hash.hashSet.isSome = true
  ids : ((entries set.hash.table).map fst).Nodup
  listed : ∀ g ∈ set.held, g ∈ listed st set.fdepth

def Distinct (st : Store) (f : Nat) : Prop :=
  ∀ g h a b, st.glyphs g = some a → st.glyphs h = some b → a.fdepth = f → b.fdepth = f →
    a.sha1 = b.sha1 → g = h

section

variable {st st' : Store} {refs : List Nat} {f g n : Nat} {glyph : Glyph} {set : GlyphSet}

theorem SlotsOk.keeps (h : SlotsOk st set) (hk : Keeps n st st')
    (hlive : ∀ g ∈ set.held, (st'.glyphs g).isSome = true) : SlotsOk st' set :=
  { h with listed := fun g hg => hk.listed _ g (h.listed g hg) (hlive g hg) }

theorem Distinct.keeps (h : Distinct st f) (hk : Keeps n st st') : Distinct st' f := by
  intro k l a b ha hb haf hbf hab
  obtain ⟨a', ha', has, haf'⟩ := hk.glyph k a ha
  obtain ⟨b', hb', hbs, hbf'⟩ := hk.glyph l b hb
  exact h k l a' b' ha' hb' (haf'.trans haf) (hbf'.trans hbf) (has.trans (hab.trans hbs.symm))

open Store

theorem listGlyph_ok (h : StoreOk st refs) (hg : st.glyphs g = some glyph)
    (hset : (st.globalGlyphs glyph.fdepth).hashSet.isSome = true)
    (hroom : 0 < (st.globalGlyphs glyph.fdepth).room) (hd : Distinct st glyph.fdepth) :
    ∃ st', listGlyph st glyph.fdepth g = some (st', g) ∧ StoreOk st' refs ∧ Keeps 1 st st' ∧
      st'.glyphs = st.glyphs ∧ g ∈ listed st' glyph.fdepth := by
  obtain ⟨gr, hashSet, hs, hfind, hfound⟩ := h.lookup hg hset
  rw [listGlyph, hg, bind_some]
  dsimp only
  rw [hfind, map_some]
  rcases hfound with ⟨hgr, hlisted, hat⟩ | ⟨hfree, hat, hnone⟩
  · rw [hat]
    exact ⟨st, rfl, h, ⟨(Keeps.refl st).glyph, (Keeps.refl st).listed, (Keeps.refl st).hashSet,
      fun _ => le_succ _⟩, rfl, hlisted⟩
  rw [hat]
  refine ⟨_, rfl, ?_⟩
  obtain ⟨hok, hperm⟩ := (h.hash glyph.fdepth).store hs hfree hroom g
  have hmem : ∀ f x, x ∈ entries ((st.setGlobal glyph.fdepth ((st.globalGlyphs glyph.fdepth).store
      gr (signature glyph.sha1) g)).globalGlyphs f).table ↔
      x ∈ entries (st.globalGlyphs f).table ∨ f = glyph.fdepth ∧ x = (signature glyph.sha1, g) := by
    intro f x
    by_cases hf : f = glyph.fdepth
    · subst hf
      simp only [setGlobal, update_self]
      rw [hperm.mem_iff, mem_cons]
      simp only [true_and, or_comm]
    · simp only [setGlobal, update_of_ne hf, hf, false_and, or_false]
  have hnot : g ∉ listed st glyph.fdepth := fun hl => hnone g hl glyph hg rfl
  have hlisted : ∀ f k, k ∈ listed (st.setGlobal glyph.fdepth ((st.globalGlyphs glyph.fdepth).store
      gr (signature glyph.sha1) g)) f ↔ k ∈ listed st f ∨ f = glyph.fdepth ∧ k = g := by
    intro f k
    rw [mem_listed, mem_listed]
    constructor
    · rintro ⟨s, hx⟩
      rcases (hmem f _).mp hx with hx | ⟨hf, he⟩
      · exact .inl ⟨s, hx⟩
      · cases he
        exact .inr ⟨hf, rfl⟩
    · rintro (⟨s, hx⟩ | ⟨hf, rfl⟩)
      · exact ⟨s, (hmem f _).mpr (.inl hx)⟩
      · exact ⟨_, (hmem f _).mpr (.inr ⟨hf, rfl⟩)⟩
  refine ⟨⟨h.count, h.live, h.fresh, fun f => ?_, fun f x hx => ?_, fun f => ?_,
    fun f k l a b hk ha hb hf hab => ?_⟩, ⟨fun k b hb => ⟨b, hb, rfl, rfl⟩, fun f k hk _ => ?_,
    fun f hf => ?_, fun f => ?_⟩, rfl, ?_⟩
  · by_cases hf : f = glyph.fdepth
    · subst hf
      simpa only [setGlobal, update_self] using hok
    · simpa only [setGlobal, update_of_ne hf] using h.hash f
  · rcases (hmem f x).mp hx with hx | ⟨rfl, rfl⟩
    · exact h.entry f x hx
    · exact ⟨glyph, hg, rfl, rfl⟩
  · by_cases hf : f = glyph.fdepth
    · subst hf
      have hnd : (g :: listed st glyph.fdepth).Nodup := nodup_cons.mpr ⟨hnot, h.once glyph.fdepth⟩
      simpa only [listed, setGlobal, update_self] using
        (hperm.map snd).nodup_iff.mpr hnd
    · simpa only [listed, setGlobal, update_of_ne hf] using h.once f
  · rcases (hlisted f k).mp hk with hk | ⟨rfl, rfl⟩
    · exact h.apart f k l a b hk ha hb hf hab
    · cases hg.symm.trans ha
      exact hd k l glyph b hg hb rfl hf hab
  · exact (hlisted f k).mpr (.inl hk)
  · by_cases hfg : f = glyph.fdepth
    · subst hfg
      simp only [setGlobal, update_self]
      exact hf
    · simpa only [setGlobal, update_of_ne hfg] using hf
  · by_cases hf : f = glyph.fdepth
    · subst hf
      simp only [setGlobal, update_self, GlyphHash.room, GlyphHash.store,
        GlyphHash.put, hs, elim_some]
      omega
    · simp only [setGlobal, update_of_ne hf]
      exact le_succ _
  · exact (hlisted _ _).mpr (.inr ⟨rfl, rfl⟩)

/-- What is said of a set after a call on it: how its references changed, and that it
is the set it was. -/
structure SlotsStep (st' : Store) (set set' : GlyphSet) (n : Nat) : Prop where
  slots : SlotsOk st' set'
  fdepth : set'.fdepth = set.fdepth
  refcnt : set'.refcnt = set.refcnt
  room : set.hash.room ≤ set'.hash.room + n

theorem SlotsOk.id_lookup (h : SlotsOk st set) (id : Nat) :
    ∃ gr hashSet, set.hash.hashSet = some hashSet ∧
      findGlyphRef st.glyphs set.hash id none = some gr ∧
      ((∃ old, set.hash.table[gr]? = some (.used id old) ∧ old ∈ set.held ∧
          set.hash.glyphAt gr = some old) ∨
        Probing.Free set.hash.table hashSet.rehash id gr ∧ set.hash.glyphAt gr = none ∧
          id ∉ (entries set.hash.table).map fst) := by
  obtain ⟨gr, hashSet, hs, hfind, hfound⟩ := h.hash.id_lookup st.glyphs h.made id
  refine ⟨gr, hashSet, hs, hfind, hfound.imp_left ?_⟩
  rintro ⟨old, hgr, hmem, hat⟩
  exact ⟨old, hgr, List.mem_map.mpr ⟨_, hmem, rfl⟩, hat⟩

theorem addGlyph_ok {others : List Nat} (id : Nat) (h : StoreOk st (set.held ++ others))
    (hslots : SlotsOk st set) (hg : st.glyphs g = some glyph) (hf : glyph.fdepth = set.fdepth)
    (hset : (st.globalGlyphs set.fdepth).hashSet.isSome = true)
    (hroom : 0 < (st.globalGlyphs set.fdepth).room) (hroom' : 0 < set.hash.room)
    (hd : Distinct st set.fdepth) :
    ∃ st' set', addGlyph st set g id = some (st', set') ∧ StoreOk st' (set'.held ++ others) ∧
      Keeps 1 st st' ∧ SlotsStep st' set set' 1 ∧ g ∈ set'.held := by
  rw [← hf] at hset hroom hd
  obtain ⟨st₁, hlist, hok₁, hkeep₁, hglyphs, hlisted⟩ := listGlyph_ok h hg hset hroom hd
  rw [hf] at hlist hlisted
  obtain ⟨gr, hashSet, hs, hfind, hfound⟩ := hslots.id_lookup id
  have hg₁ : st₁.glyphs g = some glyph := hglyphs ▸ hg
  have hslots₁ : SlotsOk st₁ set := hslots.keeps hkeep₁ fun k hk =>
    hok₁.live k (mem_append_left others hk)
  have hcount := (hok₁.count g glyph hg₁).1
  obtain ⟨hok₂, hkeep₂⟩ := hok₁.recount (g :: (set.held ++ others)) (n := glyph.refcnt + 1)
    hg₁ (by rw [count_cons_self, hcount]) mem_cons_self
    fun k hk => count_cons_of_ne (Ne.symm hk)
  rw [addGlyph, hlist, bind_some]
  dsimp only
  rw [hglyphs, hfind, bind_some, hg, bind_some]
  rcases hfound with ⟨old, hgr, hold, hat⟩ | ⟨hfree, hat, hid⟩
  · rw [hat]
    obtain ⟨hput, rest, hperm, hperm'⟩ := hslots.hash.put hgr g
    have hheld : set.held.Perm (old :: rest.map snd) := hperm.map snd
    have hok₂' := hok₂.perm (((hheld.append_right others).cons g).trans (List.Perm.swap old g _))
    obtain ⟨b, hb, hbf⟩ := hok₁.listed_glyph (hslots₁.listed old hold)
    obtain ⟨b₂, hb₂⟩ := isSome_iff_exists.mp (hok₂'.live old mem_cons_self)
    have hbf₂ : b₂.fdepth = set.fdepth := by
      obtain ⟨b', hb', -, hbf'⟩ := hkeep₂.glyph old b₂ hb₂
      cases hb.symm.trans hb'
      exact hbf'.symm.trans hbf
    obtain ⟨st₃, hfree₃, hok₃, hkeep₃⟩ := freeGlyph_ok hok₂' hb₂
      (.inr (hkeep₂.hashSet _ (hkeep₁.hashSet _ (by rw [hbf₂, ← hf]; exact hset))))
    rw [hbf₂] at hfree₃
    have hheld' : GlyphSet.held { set with hash := set.hash.put gr id g } |>.Perm
        (g :: rest.map snd) := hperm'.map snd
    have hok' := hok₃.perm (hheld'.append_right others).symm
    have hkeep := hkeep₁.trans (hkeep₂.trans hkeep₃)
    refine ⟨st₃, _, ?_, hok', hkeep, ⟨⟨hput, hslots.made, ?_, fun k hk => ?_⟩, rfl, rfl, ?_⟩, ?_⟩
    · show Option.map _ _ = _
      rw [hfree₃, map_some]
    · exact ((hperm'.map fst).trans (hperm.map fst).symm).nodup_iff.mpr hslots.ids
    · have hlive := hok'.live k (mem_append_left others hk)
      rcases mem_cons.mp (hheld'.mem_iff.mp hk) with rfl | hk
      · exact (hkeep₂.trans hkeep₃).listed _ k hlisted hlive
      · exact hkeep.listed _ k
          (hslots.listed k (hheld.mem_iff.mpr (mem_cons_of_mem old hk))) hlive
    · exact le_succ _
    · exact hheld'.mem_iff.mpr mem_cons_self
  · rw [hat]
    obtain ⟨hstore, hperm⟩ := hslots.hash.store hs hfree hroom' g
    have hheld : GlyphSet.held { set with hash := set.hash.store gr id g } |>.Perm (g :: set.held) :=
      hperm.map snd
    have hok' := hok₂.perm (hheld.append_right others).symm
    have hkeep := hkeep₁.trans hkeep₂
    refine ⟨_, _, rfl, hok', hkeep, ⟨⟨hstore, hslots.made, ?_, fun k hk => ?_⟩, rfl, rfl, ?_⟩, ?_⟩
    · exact (hperm.map fst).nodup_iff.mpr (nodup_cons.mpr ⟨hid, hslots.ids⟩)
    · have hlive := hok'.live k (mem_append_left others hk)
      rcases mem_cons.mp (hheld.mem_iff.mp hk) with rfl | hk
      · exact hkeep₂.listed _ k hlisted hlive
      · exact hkeep.listed _ k (hslots.listed k hk) hlive
    · simp only [GlyphHash.room, GlyphHash.store, GlyphHash.put, hs, elim_some]
      omega
    · exact hheld.mem_iff.mpr mem_cons_self

theorem deleteGlyph_ok {others : List Nat} (h : StoreOk st (set.held ++ others))
    (hslots : SlotsOk st set) (id : Nat) :
    ∃ st' set' found, deleteGlyph st set id = some (st', set', found) ∧
      StoreOk st' (set'.held ++ others) ∧ Keeps 0 st st' ∧ SlotsStep st' set set' 0 := by
  obtain ⟨gr, hashSet, hs, hfind, hfound⟩ := hslots.id_lookup id
  rw [deleteGlyph, hfind, bind_some]
  rcases hfound with ⟨g, hgr, hmem, hat⟩ | ⟨hfree, hat, hid⟩
  · rw [hat]
    obtain ⟨hdel, hperm⟩ := hslots.hash.delete hgr
    have hheld : set.held.Perm
        (g :: GlyphSet.held { set with hash := set.hash.delete gr }) := hperm.map snd
    obtain ⟨b, hb, hbf⟩ := h.listed_glyph (hslots.listed g hmem)
    obtain ⟨st', hfree', hok', hkeep⟩ := freeGlyph_ok (h.perm (hheld.append_right others)) hb
      (.inr (hbf ▸ h.hashSet_isSome (hslots.listed g hmem)))
    rw [hbf] at hfree'
    refine ⟨st', _, true, ?_, hok', hkeep, ⟨⟨hdel, hslots.made, ?_, fun k hk => ?_⟩, rfl, rfl, ?_⟩⟩
    · show Option.map _ _ = _
      rw [hfree', map_some]
    · exact (nodup_cons.mp ((hperm.map fst).nodup_iff.mp hslots.ids)).2
    · exact hkeep.listed _ k (hslots.listed k (hheld.mem_iff.mpr (mem_cons_of_mem g hk)))
        (hok'.live k (mem_append_left others hk))
    · simp only [GlyphHash.room, GlyphHash.delete, hs, elim_some]
      omega
  · rw [hat]
    exact ⟨st, set, false, rfl, h, Keeps.refl st, hslots, rfl, rfl, le_rfl⟩

end

end Xfront.Glyphs
