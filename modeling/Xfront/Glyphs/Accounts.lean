import Xfront.Glyphs.Tables

/-!
# Counting references

`StoreOk` says what the store owes to a list of references, one for every slot and every temporary
reference: a glyph is there as long as it is referenced and its count is the number of its
references.
-/

namespace Xfront.Glyphs
open Prod Store

open List Option Function
open Probing (Slot entries)

def listed (st : Store) (f : Nat) : List Nat := (entries (st.globalGlyphs f).table).map snd

structure StoreOk (st : Store) (refs : List Nat) : Prop where
  count : ∀ g glyph, st.glyphs g = some glyph → glyph.refcnt = refs.count g ∧ g ∈ refs
  live : ∀ g ∈ refs, (st.glyphs g).isSome = true
  fresh : ∀ g, st.allocated ≤ g → st.glyphs g = none
  hash : ∀ f, HashOk (st.globalGlyphs f)
  entry : ∀ f, ∀ x ∈ entries (st.globalGlyphs f).table, ∃ glyph, st.glyphs x.2 = some glyph ∧
    glyph.fdepth = f ∧ x.1 = signature glyph.sha1
  once : ∀ f, (listed st f).Nodup
  apart : ∀ f g h a b, g ∈ listed st f → st.glyphs g = some a → st.glyphs h = some b →
    b.fdepth = f → a.sha1 = b.sha1 → g = h

/-- What a call that makes no glyph keeps; it takes up room for `n` entries at most. -/
structure Keeps (n : Nat) (st st' : Store) : Prop where
  glyph : ∀ g b, st'.glyphs g = some b → ∃ a, st.glyphs g = some a ∧ a.sha1 = b.sha1 ∧
    a.fdepth = b.fdepth
  listed : ∀ f g, g ∈ listed st f → (st'.glyphs g).isSome = true → g ∈ listed st' f
  hashSet : ∀ f, (st.globalGlyphs f).hashSet.isSome = true →
    (st'.globalGlyphs f).hashSet.isSome = true
  room : ∀ f, (st.globalGlyphs f).room ≤ (st'.globalGlyphs f).room + n

section

variable {st st' : Store} {refs : List Nat} {f g : Nat} {glyph : Glyph}

theorem Keeps.refl (st : Store) : Keeps 0 st st :=
  ⟨fun _ b h => ⟨b, h, rfl, rfl⟩, fun _ _ h _ => h, fun _ h => h, fun _ => le_rfl⟩

theorem Keeps.trans {st'' : Store} {m n : Nat} (h : Keeps m st st') (h' : Keeps n st' st'') :
    Keeps (m + n) st st'' where
  glyph := fun g c hc => by
    obtain ⟨b, hb, hs, hf⟩ := h'.glyph g c hc
    obtain ⟨a, ha, hs', hf'⟩ := h.glyph g b hb
    exact ⟨a, ha, hs'.trans hs, hf'.trans hf⟩
  listed := fun f g hg hlive => by
    obtain ⟨c, hc⟩ := isSome_iff_exists.mp hlive
    obtain ⟨b, hb, -, -⟩ := h'.glyph g c hc
    exact h'.listed f g (h.listed f g hg (by rw [hb]; rfl)) hlive
  hashSet := fun f hf => h'.hashSet f (h.hashSet f hf)
  room := fun f => by
    have h1 := h.room f
    have h2 := h'.room f
    omega

theorem StoreOk.perm {refs' : List Nat} (h : StoreOk st refs) (hp : refs.Perm refs') :
    StoreOk st refs' :=
  { h with
    count := fun g glyph hg => by
      obtain ⟨hc, hm⟩ := h.count g glyph hg
      exact ⟨hc.trans (hp.count_eq g), hp.mem_iff.mp hm⟩
    live := fun g hg => h.live g (hp.mem_iff.mpr hg) }

theorem mem_listed : g ∈ listed st f ↔ ∃ s, (s, g) ∈ entries (st.globalGlyphs f).table := by
  rw [listed, List.mem_map]
  constructor
  · rintro ⟨⟨s, g⟩, hx, rfl⟩
    exact ⟨s, hx⟩
  · rintro ⟨s, hx⟩
    exact ⟨_, hx, rfl⟩

theorem StoreOk.listed_glyph (h : StoreOk st refs) (hg : g ∈ listed st f) :
    ∃ glyph, st.glyphs g = some glyph ∧ glyph.fdepth = f := by
  obtain ⟨s, hx⟩ := mem_listed.mp hg
  obtain ⟨glyph, hglyph, hf, -⟩ := h.entry f _ hx
  exact ⟨glyph, hglyph, hf⟩

theorem StoreOk.hashSet_isSome (h : StoreOk st refs) (hg : g ∈ listed st f) :
    (st.globalGlyphs f).hashSet.isSome = true := by
  rw [isSome_iff_ne_none]
  intro hnull
  rw [listed, (h.hash f).null hnull] at hg
  cases hg

theorem setGlyph_self (glyph : Option Glyph) : (st.setGlyph g glyph).glyphs g = glyph :=
  update_self ..

theorem setGlyph_of_ne {k : Nat} (hk : k ≠ g) (glyph : Option Glyph) :
    (st.setGlyph g glyph).glyphs k = st.glyphs k := update_of_ne hk ..

theorem StoreOk.recount (h : StoreOk st refs) (refs' : List Nat) {n : Nat}
    (hg : st.glyphs g = some glyph) (hn : n = refs'.count g) (hmem : g ∈ refs')
    (hother : ∀ k, k ≠ g → refs'.count k = refs.count k) :
    StoreOk (st.setGlyph g (some { glyph with refcnt := n })) refs' ∧
      Keeps 0 st (st.setGlyph g (some { glyph with refcnt := n })) := by
  have hget : ∀ k b, (st.setGlyph g (some { glyph with refcnt := n })).glyphs k = some b →
      ∃ a, st.glyphs k = some a ∧ a.sha1 = b.sha1 ∧ a.fdepth = b.fdepth := by
    intro k b hb
    by_cases hk : k = g
    · subst hk
      rw [setGlyph_self] at hb
      cases hb
      exact ⟨glyph, hg, rfl, rfl⟩
    · rw [setGlyph_of_ne hk] at hb
      exact ⟨b, hb, rfl, rfl⟩
  have hmem' : ∀ k, k ≠ g → (k ∈ refs' ↔ k ∈ refs) := by
    intro k hk
    rw [← count_pos_iff, ← count_pos_iff, hother k hk]
  refine ⟨⟨fun k b hb => ?_, fun k hk => ?_, fun k hk => ?_, h.hash, fun f x hx => ?_, h.once,
    fun f k l a b hk ha hb hf hab => ?_⟩, hget, fun f k hk _ => hk, fun f hf => hf, fun _ => le_rfl⟩
  · by_cases hk : k = g
    · subst hk
      rw [setGlyph_self] at hb
      cases hb
      exact ⟨hn, hmem⟩
    · rw [setGlyph_of_ne hk] at hb
      rw [hother k hk, hmem' k hk]
      exact h.count k b hb
  · by_cases hkg : k = g
    · subst hkg
      rw [setGlyph_self]
      rfl
    · rw [setGlyph_of_ne hkg]
      exact h.live k ((hmem' k hkg).mp hk)
  · have hkg : k ≠ g := by
      rintro rfl
      rw [h.fresh k hk] at hg
      cases hg
    rw [setGlyph_of_ne hkg]
    exact h.fresh k hk
  · obtain ⟨b, hb, hf, hs⟩ := h.entry f x hx
    by_cases hk : x.2 = g
    · rw [hk] at hb ⊢
      rw [setGlyph_self]
      cases hg.symm.trans hb
      exact ⟨_, rfl, hf, hs⟩
    · exact ⟨b, by rw [setGlyph_of_ne hk, hb], hf, hs⟩
  · obtain ⟨a', ha', has, -⟩ := hget k a ha
    obtain ⟨b', hb', hbs, hbf⟩ := hget l b hb
    exact h.apart f k l a' b' hk ha' hb' (hbf.trans hf) (has.trans (hab.trans hbs.symm))

theorem StoreOk.drop {hash : GlyphHash} (h : StoreOk st (g :: refs))
    (hg : st.glyphs g = some glyph) (hmem : g ∉ refs) (hok : HashOk hash)
    (hset : hash.hashSet = (st.globalGlyphs glyph.fdepth).hashSet)
    (hroom : (st.globalGlyphs glyph.fdepth).room ≤ hash.room)
    (hentries : ∀ x, x ∈ entries hash.table ↔
      x ∈ entries (st.globalGlyphs glyph.fdepth).table ∧ x.2 ≠ g)
    (honce : ((entries hash.table).map snd).Nodup) :
    StoreOk ((st.setGlobal glyph.fdepth hash).setGlyph g none) refs ∧
      Keeps 0 st ((st.setGlobal glyph.fdepth hash).setGlyph g none) := by
  have hget : ∀ k b, ((st.setGlobal glyph.fdepth hash).setGlyph g none).glyphs k = some b →
      k ≠ g ∧ st.glyphs k = some b := by
    intro k b hb
    by_cases hk : k = g
    · subst hk
      rw [setGlyph_self] at hb
      cases hb
    · rw [setGlyph_of_ne hk] at hb
      exact ⟨hk, hb⟩
  have hmem_entries : ∀ f x,
      x ∈ entries (((st.setGlobal glyph.fdepth hash).setGlyph g none).globalGlyphs f).table ↔
        x ∈ entries (st.globalGlyphs f).table ∧ x.2 ≠ g := by
    intro f x
    by_cases hf : f = glyph.fdepth
    · subst hf
      simp only [setGlyph, setGlobal, update_self]
      exact hentries x
    · simp only [setGlyph, setGlobal, update_of_ne hf]
      refine ⟨fun hx => ⟨hx, ?_⟩, fun hx => hx.1⟩
      rintro rfl
      obtain ⟨b, hb, hbf, -⟩ := h.entry f x hx
      cases hg.symm.trans hb
      exact hf hbf.symm
  have hlisted : ∀ f k, k ∈ listed ((st.setGlobal glyph.fdepth hash).setGlyph g none) f ↔
      k ∈ listed st f ∧ k ≠ g := by
    intro f k
    rw [mem_listed, mem_listed]
    exact ⟨fun ⟨s, hs⟩ => ⟨⟨s, ((hmem_entries f _).mp hs).1⟩, ((hmem_entries f _).mp hs).2⟩,
      fun ⟨⟨s, hs⟩, hk⟩ => ⟨s, (hmem_entries f _).mpr ⟨hs, hk⟩⟩⟩
  refine ⟨⟨fun k b hb => ?_, fun k hk => ?_, fun k hk => ?_, fun f => ?_, fun f x hx => ?_,
    fun f => ?_, fun f k l a b hk ha hb hf hab => ?_⟩, fun k b hb => ?_, fun f k hk hlive => ?_,
    fun f hf => ?_, fun f => ?_⟩
  · obtain ⟨hk, hb⟩ := hget k b hb
    obtain ⟨hc, hm⟩ := h.count k b hb
    exact ⟨hc.trans (count_cons_of_ne (Ne.symm hk)), (mem_cons.mp hm).resolve_left hk⟩
  · have hkg : k ≠ g := fun he => hmem (he ▸ hk)
    rw [setGlyph_of_ne hkg]
    exact h.live k (mem_cons_of_mem g hk)
  · by_cases hkg : k = g
    · rw [hkg, setGlyph_self]
    · rw [setGlyph_of_ne hkg]
      exact h.fresh k hk
  · by_cases hf : f = glyph.fdepth
    · subst hf
      simpa only [setGlyph, setGlobal, update_self] using hok
    · simpa only [setGlyph, setGlobal, update_of_ne hf] using h.hash f
  · obtain ⟨hx, hk⟩ := (hmem_entries f x).mp hx
    obtain ⟨b, hb, hf, hs⟩ := h.entry f x hx
    exact ⟨b, (setGlyph_of_ne hk none).trans hb, hf, hs⟩
  · by_cases hf : f = glyph.fdepth
    · subst hf
      simpa only [listed, setGlyph, setGlobal, update_self] using honce
    · simpa only [listed, setGlyph, setGlobal, update_of_ne hf] using h.once f
  · exact h.apart f k l a b ((hlisted f k).mp hk).1 (hget k a ha).2 (hget l b hb).2 hf hab
  · exact ⟨b, (hget k b hb).2, rfl, rfl⟩
  · obtain ⟨b, hb⟩ := isSome_iff_exists.mp hlive
    exact (hlisted f k).mpr ⟨hk, (hget k b hb).1⟩
  · by_cases hfg : f = glyph.fdepth
    · subst hfg
      simp only [setGlyph, setGlobal, update_self, hset]
      exact hf
    · simpa only [setGlyph, setGlobal, update_of_ne hfg] using hf
  · by_cases hf : f = glyph.fdepth
    · subst hf
      simpa only [setGlyph, setGlobal, update_self, add_zero] using hroom
    · simp only [setGlyph, setGlobal, update_of_ne hf, add_zero, le_refl]

theorem sameGlyph_some {glyphs : Nat → Option Glyph} {sha1 : Sha1} {k : Nat} :
    sameGlyph glyphs (some sha1) k = true ↔ ∃ b, glyphs k = some b ∧ b.sha1 = sha1 := by
  rw [sameGlyph, decide_eq_true_iff, map_eq_some_iff]

theorem setGlobal_self (st : Store) (f : Nat) : st.setGlobal f (st.globalGlyphs f) = st := by
  rw [setGlobal, update_eq_self]

theorem StoreOk.lookup (h : StoreOk st refs) (hg : st.glyphs g = some glyph)
    (hset : (st.globalGlyphs glyph.fdepth).hashSet.isSome = true) :
    ∃ gr hashSet, (st.globalGlyphs glyph.fdepth).hashSet = some hashSet ∧
      findGlyphRef st.glyphs (st.globalGlyphs glyph.fdepth) (signature glyph.sha1)
        (some glyph.sha1) = some gr ∧
      ((st.globalGlyphs glyph.fdepth).table[gr]? = some (.used (signature glyph.sha1) g) ∧
          g ∈ listed st glyph.fdepth ∧ (st.globalGlyphs glyph.fdepth).glyphAt gr = some g ∨
        Probing.Free (st.globalGlyphs glyph.fdepth).table hashSet.rehash (signature glyph.sha1) gr ∧
          (st.globalGlyphs glyph.fdepth).glyphAt gr = none ∧
          ∀ k ∈ listed st glyph.fdepth, ∀ b, st.glyphs k = some b → b.sha1 ≠ glyph.sha1) := by
  obtain ⟨gr, hashSet, hs, hfind, hfound⟩ := (h.hash glyph.fdepth).lookup st.glyphs
    hset (signature glyph.sha1) (some glyph.sha1)
  refine ⟨gr, hashSet, hs, hfind, ?_⟩
  rcases hfound with ⟨k, hk, hmem, hat, hsame⟩ | ⟨hfree, hat, hnone⟩
  · obtain ⟨b, hb, hsha⟩ := sameGlyph_some.mp hsame
    have hlisted := mem_listed.mpr ⟨_, hmem⟩
    have he := h.apart glyph.fdepth k g b glyph hlisted hb hg rfl hsha
    subst he
    exact .inl ⟨hk, hlisted, hat⟩
  · refine .inr ⟨hfree, hat, fun k hk b hb hsha => ?_⟩
    obtain ⟨s, hx⟩ := mem_listed.mp hk
    obtain ⟨b', hb', -, hsig⟩ := h.entry _ _ hx
    cases hb.symm.trans hb'
    have hf := hnone _ hx (hsig.trans (congrArg signature hsha))
    rw [sameGlyph_some.mpr ⟨b, hb, hsha⟩] at hf
    cases hf

theorem freeGlyph_ok (h : StoreOk st (g :: refs)) (hg : st.glyphs g = some glyph)
    (hset : g ∈ refs ∨ (st.globalGlyphs glyph.fdepth).hashSet.isSome = true) :
    ∃ st', freeGlyph st g glyph.fdepth = some st' ∧ StoreOk st' refs ∧ Keeps 0 st st' := by
  have hcount := (h.count g glyph hg).1
  rw [count_cons_self] at hcount
  rw [freeGlyph, hg, bind_some, if_neg (by omega)]
  by_cases hmem : g ∈ refs
  · have hpos := count_pos_iff.mpr hmem
    rw [if_neg (by omega)]
    exact ⟨_, rfl, h.recount _ hg (by omega) hmem fun k hk =>
      (count_cons_of_ne (Ne.symm hk)).symm⟩
  · have hzero := count_eq_zero.mpr hmem
    rw [if_pos (by omega)]
    obtain ⟨gr, hashSet, hs, hfind, hfound⟩ := h.lookup hg (hset.resolve_left hmem)
    have hok := h.hash glyph.fdepth
    dsimp only
    rw [hfind, map_some]
    refine ⟨_, rfl, ?_⟩
    rcases hfound with ⟨hgr, hlisted, hat⟩ | ⟨hfree, hat, hnone⟩
    · rw [hat, isSome_some, if_pos rfl]
      obtain ⟨hok', hperm⟩ := hok.delete hgr
      have honce := (hperm.map snd).nodup_iff.mp (h.once glyph.fdepth)
      rw [map_cons, nodup_cons] at honce
      refine h.drop hg hmem hok' rfl ?_ (fun x => ?_) honce.2
      · simp only [GlyphHash.room, GlyphHash.delete, hs, elim_some]
        omega
      · rw [hperm.mem_iff, mem_cons]
        constructor
        · intro hx
          refine ⟨.inr hx, fun he => honce.1 (he ▸ List.mem_map.mpr ⟨x, hx, rfl⟩)⟩
        · rintro ⟨rfl | hx, hne⟩
          · exact absurd rfl hne
          · exact hx
    · rw [hat, isSome_none, if_neg Bool.false_ne_true]
      have hnot : g ∉ listed st glyph.fdepth := fun hl => hnone g hl glyph hg rfl
      have hdrop := h.drop hg hmem hok rfl le_rfl (fun x => ?_) (h.once glyph.fdepth)
      · rwa [setGlobal_self] at hdrop
      · refine ⟨fun hx => ⟨hx, ?_⟩, fun hx => hx.1⟩
        rintro rfl
        exact hnot (mem_listed.mpr ⟨_, hx⟩)

end

end Xfront.Glyphs
