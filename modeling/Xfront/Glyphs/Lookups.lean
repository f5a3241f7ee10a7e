import Xfront.Glyphs.Runs

/-!
# A glyph set as a map

What `FindGlyph` finds after any calls on a glyph set. Only the references from the
set's own slots are counted here; between the calls the store may change in every way
that leaves these alone.
-/

namespace Xfront.Glyphs
open Nat Prod

open List Option Function
open Probing (Slot entries)
open Run (exec Guarded)

def findGlyph (st : Store) (glyphSet : GlyphSet) (id : Nat) : Option (Option Nat) :=
  (findGlyphRef st.glyphs glyphSet.hash id none).map glyphSet.hash.glyphAt

def listedAs (st : Store) (f g : Nat) : Nat :=
  ((listed st f).find? fun k =>
    (st.glyphs k).map Glyph.sha1 = (st.glyphs g).map Glyph.sha1).getD g

structure Listing (st : Store) (f : Nat) : Prop where
  hash : HashOk (st.globalGlyphs f)
  entry : ∀ x ∈ entries (st.globalGlyphs f).table, ∃ glyph, st.glyphs x.2 = some glyph ∧
    x.1 = signature glyph.sha1
  once : (entries (st.globalGlyphs f).table).Nodup
  unique : ∀ x ∈ entries (st.globalGlyphs f).table, ∀ y ∈ entries (st.globalGlyphs f).table,
    (st.glyphs x.2).map Glyph.sha1 = (st.glyphs y.2).map Glyph.sha1 → x = y

/-- The glyphs that `refs` refer to are there and count these references. -/
structure Backed (st : Store) (f : Nat) (refs : List Nat) : Prop extends Listing st f where
  made : (st.globalGlyphs f).hashSet.isSome = true
  count : ∀ g glyph, st.glyphs g = some glyph → refs.count g ≤ glyph.refcnt
  live : ∀ g ∈ refs, (st.glyphs g).isSome = true

section

variable {st : Store} {f g : Nat} {glyph : Glyph} {refs refs' : List Nat}

theorem Listing.apart (h : Listing st f) :
    Apart st.glyphs true (entries (st.globalGlyphs f).table) := by
  refine List.Pairwise.imp_of_mem (fun {x y} hx hy hne _ => ?_) h.once
  obtain ⟨a, ha, -⟩ := h.entry x hx
  obtain ⟨b, hb, -⟩ := h.entry y hy
  exact ⟨rfl, a, b, ha, hb, fun hab => hne (h.unique x hx y hy (by rw [ha, hb, map_some,
    map_some, hab]))⟩

theorem Listing.listedAs_eq (h : Listing st f) (hg : st.glyphs g = some glyph) {k : Nat}
    (hk : (signature glyph.sha1, k) ∈ entries (st.globalGlyphs f).table)
    (hsame : sameGlyph st.glyphs (some glyph.sha1) k = true) : listedAs st f g = k := by
  obtain ⟨b, hb, hsha⟩ := sameGlyph_some.mp hsame
  have hlisted : k ∈ listed st f := mem_listed.mpr ⟨_, hk⟩
  have hk' : (st.glyphs k).map Glyph.sha1 = (st.glyphs g).map Glyph.sha1 := by
    rw [hb, hg, map_some, map_some, hsha]
  unfold listedAs
  cases hfind : (listed st f).find? fun k =>
      (st.glyphs k).map Glyph.sha1 = (st.glyphs g).map Glyph.sha1 with
  | none => exact absurd (decide_eq_true hk') (find?_eq_none.mp hfind k hlisted)
  | some k' =>
    have hsame' : (st.glyphs k').map Glyph.sha1 = (st.glyphs g).map Glyph.sha1 := by
      have htrue := find?_some hfind
      exact of_decide_eq_true htrue
    obtain ⟨s, hs⟩ := mem_listed.mp (mem_of_find?_eq_some hfind)
    exact congrArg snd (h.unique _ hs _ hk (hsame'.trans hk'.symm))

theorem Listing.listedAs_self (h : Listing st f) (hg : st.glyphs g = some glyph)
    (hnone : ∀ x ∈ entries (st.globalGlyphs f).table, x.1 = signature glyph.sha1 →
      sameGlyph st.glyphs (some glyph.sha1) x.2 = false) : listedAs st f g = g := by
  unfold listedAs
  rw [find?_eq_none.mpr, getD_none]
  intro k hk
  rw [decide_eq_true_eq]
  intro hsame
  obtain ⟨s, hx⟩ := mem_listed.mp hk
  obtain ⟨b, hb, hs⟩ := h.entry _ hx
  rw [hb, hg] at hsame
  have hsha : b.sha1 = glyph.sha1 := some.inj hsame
  have hfalse := hnone _ hx (hs.trans (congrArg signature hsha))
  rw [sameGlyph_some.mpr ⟨b, hb, hsha⟩] at hfalse
  cases hfalse

theorem Backed.recount (h : Backed st f refs) (refs' : List Nat) (hg : st.glyphs g = some glyph)
    {n : Nat} (hn : refs'.count g ≤ n) (hother : ∀ k, k ≠ g → refs'.count k ≤ refs.count k) :
    Backed (st.setGlyph g (some { glyph with refcnt := n })) f refs' := by
  have hget : ∀ k b, st.glyphs k = some b → ∃ a,
      (st.setGlyph g (some { glyph with refcnt := n })).glyphs k = some a ∧ a.sha1 = b.sha1 := by
    intro k b hb
    by_cases hk : k = g
    · subst hk
      cases hg.symm.trans hb
      exact ⟨_, setGlyph_self .., rfl⟩
    · exact ⟨b, (setGlyph_of_ne hk _).trans hb, rfl⟩
  have hsame : ∀ x ∈ entries (st.globalGlyphs f).table, ((st.setGlyph g (some { glyph with
      refcnt := n })).glyphs x.2).map Glyph.sha1 = (st.glyphs x.2).map Glyph.sha1 := by
    intro x hx
    obtain ⟨b, hb, -⟩ := h.entry x hx
    obtain ⟨a, ha, hsha⟩ := hget x.2 b hb
    rw [ha, hb, map_some, map_some, hsha]
  refine ⟨⟨h.hash, fun x hx => ?_, h.once, fun x hx y hy hxy => ?_⟩, h.made, fun k a ha => ?_,
    fun k hk => ?_⟩
  · obtain ⟨b, hb, hs⟩ := h.entry x hx
    obtain ⟨a, ha, hsha⟩ := hget x.2 b hb
    exact ⟨a, ha, by rw [hs, hsha]⟩
  · exact h.unique x hx y hy (((hsame x hx).symm.trans hxy).trans (hsame y hy))
  · by_cases hkg : k = g
    · subst hkg
      rw [setGlyph_self] at ha
      cases ha
      exact hn
    · rw [setGlyph_of_ne hkg] at ha
      exact (hother k hkg).trans (h.count k a ha)
  · by_cases hkg : k = g
    · subst hkg
      rw [setGlyph_self]
      rfl
    · rw [setGlyph_of_ne hkg]
      have hpos := count_pos_iff.mpr hk
      have hle := hother k hkg
      exact h.live k (count_pos_iff.mp (by omega))

theorem Backed.perm (h : Backed st f refs) (hp : refs.Perm refs') : Backed st f refs' := { h with
    count := fun g glyph hg => (hp.count_eq g) ▸ h.count g glyph hg
    live := fun g hg => h.live g (hp.mem_iff.mpr hg) }

theorem Backed.drop {hash : GlyphHash} (h : Backed st f (g :: refs)) (hmem : g ∉ refs)
    (hok : HashOk hash) (hset : hash.hashSet = (st.globalGlyphs f).hashSet)
    (hsub : ∀ x ∈ entries hash.table, x ∈ entries (st.globalGlyphs f).table ∧ x.2 ≠ g)
    (honce : (entries hash.table).Nodup) :
    Backed ((st.setGlobal f hash).setGlyph g none) f refs := by
  have hself : ((st.setGlobal f hash).setGlyph g none).globalGlyphs f = hash := update_self ..
  have hget : ∀ k, k ≠ g → ((st.setGlobal f hash).setGlyph g none).glyphs k = st.glyphs k :=
    fun k hk => setGlyph_of_ne hk none
  refine ⟨⟨?_, ?_, ?_, ?_⟩, ?_, fun k a ha => ?_, fun k hk => ?_⟩
  · rw [hself]
    exact hok
  · rw [hself]
    intro x hx
    obtain ⟨hx', hne⟩ := hsub x hx
    rw [hget _ hne]
    exact h.entry x hx'
  · rw [hself]
    exact honce
  · rw [hself]
    intro x hx y hy hxy
    obtain ⟨hx', hne⟩ := hsub x hx
    obtain ⟨hy', hne'⟩ := hsub y hy
    rw [hget _ hne, hget _ hne'] at hxy
    exact h.unique x hx' y hy' hxy
  · rw [hself, hset]
    exact h.made
  · have hkg : k ≠ g := by
      rintro rfl
      rw [setGlyph_self] at ha
      cases ha
    rw [hget k hkg] at ha
    have hle := h.count k a ha
    rwa [count_cons_of_ne (Ne.symm hkg)] at hle
  · have hkg : k ≠ g := fun he => hmem (he ▸ hk)
    rw [hget k hkg]
    exact h.live k (mem_cons_of_mem g hk)

open GlyphHash

theorem freeGlyph_backed (h : Backed st f (g :: refs)) :
    ∃ st', freeGlyph st g f = some st' ∧ Backed st' f refs ∧
      (st.globalGlyphs f).room ≤ (st'.globalGlyphs f).room := by
  obtain ⟨glyph, hg⟩ := isSome_iff_exists.mp (h.live g mem_cons_self)
  have hcount := h.count g glyph hg
  rw [count_cons_self] at hcount
  rw [freeGlyph, hg, bind_some, if_neg (by omega)]
  by_cases hlast : glyph.refcnt - 1 = 0
  · rw [if_pos hlast]
    have hmem : g ∉ refs := count_eq_zero.mp (by omega)
    obtain ⟨gr, hashSet, hs, hfind, hfound⟩ := h.hash.lookup st.glyphs h.made
      (signature glyph.sha1) (some glyph.sha1)
    dsimp only
    rw [hfind, map_some]
    refine ⟨_, rfl, ?_⟩
    rcases hfound with ⟨k, hgr, hk, hat, hsame⟩ | ⟨-, hat, hnone⟩
    · rw [hat, isSome_some, if_pos rfl]
      obtain ⟨hok, hperm⟩ := h.hash.delete hgr
      have honce := nodup_cons.mp (hperm.nodup_iff.mp h.once)
      obtain ⟨b, hb, hsha⟩ := sameGlyph_some.mp hsame
      refine ⟨h.drop hmem hok rfl (fun x hx => ?_) honce.2, ?_⟩
      · have hx' := hperm.mem_iff.mpr (mem_cons_of_mem _ hx)
        refine ⟨hx', fun hxg => honce.1 ?_⟩
        have he := h.unique x hx' _ hk (by rw [hxg, hg, hb, map_some, map_some, hsha])
        exact he ▸ hx
      · show _ ≤ ((update st.globalGlyphs f _) f).room
        rw [update_self]
        simp only [room, delete, hs, elim_some]
        omega
    · rw [hat, isSome_none, if_neg Bool.false_ne_true]
      have hdrop := h.drop hmem h.hash rfl (fun x hx => ⟨hx, fun hxg => ?_⟩) h.once
      · rw [setGlobal_self] at hdrop
        exact ⟨hdrop, le_rfl⟩
      · obtain ⟨b, hb, hsig⟩ := h.entry x hx
        rw [hxg, hg] at hb
        cases hb
        have hfalse := hnone x hx hsig
        rw [hxg, sameGlyph_some.mpr ⟨glyph, hg, rfl⟩] at hfalse
        cases hfalse
  · rw [if_neg hlast]
    refine ⟨_, rfl, h.recount refs hg (by omega) fun k hk => ?_, le_rfl⟩
    rw [count_cons_of_ne (Ne.symm hk)]

theorem listGlyph_backed (h : Backed st f refs) (hg : st.glyphs g = some glyph)
    (hroom : 0 < (st.globalGlyphs f).room) :
    ∃ st', listGlyph st f g = some (st', listedAs st f g) ∧ Backed st' f refs ∧
      st'.glyphs = st.glyphs ∧ (st.glyphs (listedAs st f g)).isSome = true ∧
      (st.globalGlyphs f).room ≤ (st'.globalGlyphs f).room + 1 := by
  obtain ⟨gr, hashSet, hs, hfind, hfound⟩ := h.hash.lookup st.glyphs h.made
    (signature glyph.sha1) (some glyph.sha1)
  rw [listGlyph, hg, bind_some]
  dsimp only
  rw [hfind, map_some]
  rcases hfound with ⟨k, hgr, hk, hat, hsame⟩ | ⟨hfree, hat, hnone⟩
  · rw [hat, h.listedAs_eq hg hk hsame]
    obtain ⟨b, hb, -⟩ := sameGlyph_some.mp hsame
    exact ⟨st, rfl, h, rfl, isSome_of_eq_some hb, le_succ _⟩
  rw [hat, h.listedAs_self hg hnone]
  obtain ⟨hok, hperm⟩ := h.hash.store hs hfree hroom g
  have hself : ∀ hash, (st.setGlobal f hash).globalGlyphs f = hash := fun hash =>
    update_self ..
  have hnew : ∀ x ∈ entries (st.globalGlyphs f).table,
      (st.glyphs x.2).map Glyph.sha1 ≠ (st.glyphs g).map Glyph.sha1 := by
    intro x hx hxg
    obtain ⟨b, hb, hsig⟩ := h.entry x hx
    rw [hb, hg] at hxg
    have hsha : b.sha1 = glyph.sha1 := some.inj hxg
    have hfalse := hnone x hx (hsig.trans (congrArg signature hsha))
    rw [sameGlyph_some.mpr ⟨b, hb, hsha⟩] at hfalse
    cases hfalse
  refine ⟨_, rfl, ⟨⟨?_, ?_, ?_, ?_⟩, ?_, h.count, h.live⟩, rfl, isSome_of_eq_some hg, ?_⟩
  · rw [hself]
    exact hok
  · rw [hself]
    intro x hx
    rcases mem_cons.mp (hperm.mem_iff.mp hx) with rfl | hx
    · exact ⟨glyph, hg, rfl⟩
    · exact h.entry x hx
  · rw [hself]
    exact hperm.nodup_iff.mpr (nodup_cons.mpr ⟨fun hx => hnew _ hx rfl, h.once⟩)
  · rw [hself]
    intro x hx y hy hxy
    rcases mem_cons.mp (hperm.mem_iff.mp hx) with rfl | hx
    · rcases mem_cons.mp (hperm.mem_iff.mp hy) with rfl | hy
      · rfl
      · exact absurd hxy.symm (hnew y hy)
    · rcases mem_cons.mp (hperm.mem_iff.mp hy) with rfl | hy
      · exact absurd hxy (hnew x hx)
      · exact h.unique x hx y hy hxy
  · rw [hself]
    exact h.made
  · rw [hself]
    simp only [room, store, put, hs, elim_some]
    omega

theorem Backed.retable {hash : GlyphHash} (h : Backed st f refs) (hok : HashOk hash)
    (hmade : hash.hashSet.isSome = true)
    (hperm : (entries hash.table).Perm (entries (st.globalGlyphs f).table)) :
    Backed (st.setGlobal f hash) f refs := by
  have hself : (st.setGlobal f hash).globalGlyphs f = hash := update_self ..
  refine ⟨⟨?_, ?_, ?_, ?_⟩, ?_, h.count, h.live⟩
  · rw [hself]
    exact hok
  · rw [hself]
    exact fun x hx => h.entry x (hperm.mem_iff.mp hx)
  · rw [hself]
    exact hperm.nodup_iff.mpr h.once
  · rw [hself]
    exact fun x hx y hy => h.unique x (hperm.mem_iff.mp hx) y (hperm.mem_iff.mp hy)
  · rw [hself]
    exact hmade

end

structure Mapped (set : GlyphSet) (added : BitVec 32 → Option Nat) : Prop where
  hash : HashOk set.hash
  made : set.hash.hashSet.isSome = true
  ids : ((entries set.hash.table).map fst).Nodup
  slot : ∀ (id : BitVec 32) g, (id.toNat, g) ∈ entries set.hash.table ↔ added id = some g

section

variable {st : Store} {set : GlyphSet} {added : BitVec 32 → Option Nat} {id : BitVec 32}
  {hash : GlyphHash} {rest : List (Nat × Nat)} {g : Nat}

theorem Mapped.findGlyph (h : Mapped set added) (st : Store) (id : BitVec 32) :
    findGlyph st set id.toNat = some (added id) := by
  obtain ⟨gr, hashSet, hs, hfind, hfound⟩ := h.hash.id_lookup st.glyphs h.made id.toNat
  rw [Glyphs.findGlyph, hfind, map_some]
  rcases hfound with ⟨g, hgr, hg, hat⟩ | ⟨hfree, hat, hnone⟩
  · rw [hat, (h.slot id g).mp hg]
  · cases hid : added id with
    | none => rw [hat]
    | some g => exact absurd (List.mem_map.mpr ⟨_, (h.slot id g).mpr hid, rfl⟩) hnone

theorem mem_rest {l : List (Nat × Nat)} {id old : Nat} (hperm : l.Perm ((id, old) :: rest))
    (hids : (l.map fst).Nodup) (x : Nat × Nat) : x ∈ rest ↔ x ∈ l ∧ x.1 ≠ id := by
  have hids' := (hperm.map fst).nodup_iff.mp hids
  rw [map_cons, nodup_cons] at hids'
  rw [hperm.mem_iff, mem_cons]
  constructor
  · exact fun hx => ⟨.inr hx, fun he => hids'.1 (he ▸ List.mem_map.mpr ⟨x, hx, rfl⟩)⟩
  · rintro ⟨rfl | hx, hne⟩
    · exact absurd rfl hne
    · exact hx

section
variable (h : Mapped set added)
include h

theorem Mapped.fill (hok : HashOk hash) (hmade : hash.hashSet.isSome = true)
    (hrest : ∀ x, x ∈ rest ↔ x ∈ entries set.hash.table ∧ x.1 ≠ id.toNat)
    (hids : (rest.map fst).Nodup) (hperm : (entries hash.table).Perm ((id.toNat, g) :: rest)) :
    Mapped { set with hash } (update added id (some g)) := by
  have hnot : id.toNat ∉ rest.map fst := by
    intro hm
    obtain ⟨x, hx, he⟩ := List.mem_map.mp hm
    exact ((hrest x).mp hx).2 he
  refine ⟨hok, hmade, (hperm.map fst).nodup_iff.mpr (nodup_cons.mpr ⟨hnot, hids⟩), fun id' g' => ?_⟩
  rw [hperm.mem_iff, mem_cons, hrest, h.slot, mk.injEq, update_apply]
  by_cases hid : id' = id
  · subst hid
    simp [eq_comm]
  · have hne : id'.toNat ≠ id.toNat := fun he => hid (BitVec.eq_of_toNat_eq he)
    simp [hid, hne]

theorem Mapped.empty (hok : HashOk hash) (hmade : hash.hashSet.isSome = true)
    (hrest : ∀ x, x ∈ entries hash.table ↔ x ∈ entries set.hash.table ∧ x.1 ≠ id.toNat)
    (hids : ((entries hash.table).map fst).Nodup) :
    Mapped { set with hash } (update added id none) := by
  refine ⟨hok, hmade, hids, fun id' g' => ?_⟩
  rw [hrest, h.slot, update_apply]
  by_cases hid : id' = id
  · subst hid
    simp
  · have hne : id'.toNat ≠ id.toNat := fun he => hid (BitVec.eq_of_toNat_eq he)
    simp [hid, hne]

theorem Mapped.absent (hid : id.toNat ∉ (entries set.hash.table).map fst) : added id = none := by
  cases hadded : added id with
  | none => rfl
  | some g => exact absurd (List.mem_map.mpr ⟨_, (h.slot id g).mpr hadded, rfl⟩) hid

theorem Mapped.resize (hok : HashOk hash) (hmade : hash.hashSet.isSome = true)
    (hperm : (entries hash.table).Perm (entries set.hash.table)) :
    Mapped { set with hash } added :=
  ⟨hok, hmade, (hperm.map fst).nodup_iff.mpr h.ids, fun id g => by
    rw [hperm.mem_iff, h.slot]⟩

theorem addGlyph_maps (hb : Backed st set.fdepth set.held)
    (hg : (st.glyphs g).isSome = true) (hroom : 0 < (st.globalGlyphs set.fdepth).room)
    (hroom' : 0 < set.hash.room) (id : BitVec 32) :
    ∃ st' set', addGlyph st set g id.toNat = some (st', set') ∧
      Mapped set' (update added id (some (listedAs st set.fdepth g))) ∧
      Backed st' set'.fdepth set'.held ∧ set'.fdepth = set.fdepth ∧
      (st.globalGlyphs set.fdepth).room ≤ (st'.globalGlyphs set.fdepth).room + 1 ∧
      set.hash.room ≤ set'.hash.room + 1 := by
  obtain ⟨glyph, hglyph⟩ := isSome_iff_exists.mp hg
  obtain ⟨st₁, hlist, hb₁, hglyphs, hlive, hle₁⟩ := listGlyph_backed hb hglyph hroom
  obtain ⟨listed, hlisted⟩ := isSome_iff_exists.mp hlive
  obtain ⟨gr, hashSet, hs, hfind, hfound⟩ := h.hash.id_lookup st₁.glyphs h.made id.toNat
  rw [addGlyph, hlist, bind_some]
  dsimp only
  generalize listedAs st set.fdepth g = k at hlive hlisted ⊢
  rw [← hglyphs] at hlisted
  have hb₂ := hb₁.recount (k :: set.held) hlisted (n := listed.refcnt + 1)
    (by rw [count_cons_self]; exact succ_le_succ (hb₁.count k listed hlisted))
    fun j hj => (count_cons_of_ne (Ne.symm hj)).le
  rw [hfind, bind_some, hlisted, bind_some]
  rcases hfound with ⟨old, hgr, hold, hat⟩ | ⟨hfree, hat, hid⟩
  · rw [hat]
    obtain ⟨hput, rest, hperm, hperm'⟩ := h.hash.put hgr k
    have hheld : set.held.Perm (old :: rest.map snd) := hperm.map snd
    have hheld' : GlyphSet.held { set with hash := set.hash.put gr id.toNat k } |>.Perm
        (k :: rest.map snd) := hperm'.map snd
    obtain ⟨st₃, hfree₃, hb₃, hle₃⟩ := freeGlyph_backed
      (hb₂.perm ((hheld.cons k).trans (List.Perm.swap old k _)))
    refine ⟨st₃, _, ?_, h.fill hput h.made (mem_rest hperm h.ids) ?_ hperm', hb₃.perm hheld'.symm,
      rfl, ?_, le_succ _⟩
    · show Option.map _ _ = _
      rw [hfree₃, map_some]
    · exact (nodup_cons.mp ((hperm.map fst).nodup_iff.mp h.ids)).2
    · exact hle₁.trans (succ_le_succ hle₃)
  · rw [hat]
    obtain ⟨hstore, hperm⟩ := h.hash.store hs hfree hroom' k
    have hheld : GlyphSet.held { set with hash := set.hash.store gr id.toNat k } |>.Perm
        (k :: set.held) := hperm.map snd
    refine ⟨_, _, rfl, h.fill hstore h.made (fun x => ⟨fun hx => ⟨hx, fun he => hid ?_⟩,
      fun hx => hx.1⟩) h.ids hperm, hb₂.perm hheld.symm, rfl, hle₁, ?_⟩
    · exact he ▸ List.mem_map.mpr ⟨x, hx, rfl⟩
    · simp only [GlyphHash.room, GlyphHash.store, GlyphHash.put, hs, elim_some]
      omega

theorem deleteGlyph_maps (hb : Backed st set.fdepth set.held)
    (id : BitVec 32) :
    ∃ st' set', deleteGlyph st set id.toNat = some (st', set', (added id).isSome) ∧
      Mapped set' (update added id none) ∧ Backed st' set'.fdepth set'.held ∧
      set'.fdepth = set.fdepth ∧
      (st.globalGlyphs set.fdepth).room ≤ (st'.globalGlyphs set.fdepth).room ∧
      set.hash.room ≤ set'.hash.room := by
  obtain ⟨gr, hashSet, hs, hfind, hfound⟩ := h.hash.id_lookup st.glyphs h.made id.toNat
  rw [deleteGlyph, hfind, bind_some]
  rcases hfound with ⟨g, hgr, hg, hat⟩ | ⟨hfree, hat, hid⟩
  · rw [hat, (h.slot id g).mp hg]
    obtain ⟨hdel, hperm⟩ := h.hash.delete hgr
    have hheld : set.held.Perm
        (g :: GlyphSet.held { set with hash := set.hash.delete gr }) := hperm.map snd
    obtain ⟨st', hfree', hb', hle⟩ := freeGlyph_backed (hb.perm hheld)
    refine ⟨st', _, ?_, h.empty hdel h.made (mem_rest hperm h.ids) ?_, hb', rfl, hle, ?_⟩
    · show Option.map _ _ = _
      rw [hfree', map_some, isSome_some]
    · exact (nodup_cons.mp ((hperm.map fst).nodup_iff.mp h.ids)).2
    · simp only [GlyphHash.room, GlyphHash.delete, hs, elim_some]
      omega
  · rw [hat, h.absent hid]
    have hsame : update added id none = added := by
      rw [← h.absent hid, update_eq_self]
    rw [hsame]
    exact ⟨st, set, rfl, h, hb, rfl, le_rfl, le_rfl⟩

theorem resizeGlyphSet_maps (hb : Backed st set.fdepth set.held)
    {change : Nat} (hc : change < 2 ^ 31) (supply : AddSupply) :
    ∃ st' set' ok, resizeGlyphSet st set change supply = some (st', set', ok) ∧
      Mapped set' added ∧ Backed st' set'.fdepth set'.held ∧ set'.fdepth = set.fdepth ∧
      (ok = true → change ≤ (st'.globalGlyphs set.fdepth).room ∧ change ≤ set'.hash.room) := by
  have hapart : Apart st.glyphs false (entries set.hash.table) :=
    (pairwise_map.mp h.ids).imp fun hne he => absurd he hne
  obtain ⟨hash, ok, hresize, hhash, hperm, hmade, hset⟩ := h.hash.resize hapart hc supply.resizeSet
  have hmapped := h.resize hhash (hmade h.made) hperm
  have hheld : set.held.Perm (GlyphSet.held { set with hash }) := (hperm.map snd).symm
  rw [resizeGlyphSet, hresize, bind_some]
  dsimp only
  cases ok with
  | false =>
    rw [if_neg Bool.false_ne_true]
    exact ⟨_, _, false, rfl, hmapped, hb.perm hheld, rfl, by simp⟩
  | true =>
    rw [if_pos rfl]
    obtain ⟨global, ok', hresize', hglobal, hperm', hmade', hset'⟩ :=
      hb.hash.resize hb.apart hc supply.resizeGlobal
    rw [hresize', map_some]
    have hself : (st.setGlobal set.fdepth global).globalGlyphs set.fdepth = global := update_self ..
    have hcount : set.hash.tableEntries = hash.tableEntries :=
      h.hash.count.trans (hperm.length_eq.symm.trans hhash.count.symm)
    have hcount' : (st.globalGlyphs set.fdepth).tableEntries = global.tableEntries :=
      hb.hash.count.trans (hperm'.length_eq.symm.trans hglobal.count.symm)
    refine ⟨_, _, ok', rfl, hmapped, (hb.retable hglobal (hmade' hb.made) hperm').perm hheld, rfl,
      fun hok' => ?_⟩
    rw [hself]
    exact ⟨room_of_resize hcount' (hset' hok') (hmade' hb.made),
      room_of_resize hcount (hset rfl) (hmade h.made)⟩

end

end

/-- A set that calls are made on: how many glyphs the last resize still covers, and
what the set is a map from ids to. -/
structure Session where
  store : Store
  set : GlyphSet
  covered : Nat
  added : BitVec 32 → Option Nat

inductive Call where
  | addGlyph (g : Nat) (id : BitVec 32)
  | deleteGlyph (id : BitVec 32)
  | resizeGlyphSet (change : Nat) (supply : AddSupply)
  -- what other sets and requests do to the store in between
  | elsewhere (store : Store)

def Session.call (s : Session) : Call → Option (Session × Bool)
  | .addGlyph g id =>
    (addGlyph s.store s.set g id.toNat).map fun (store, set) =>
      ({ store
         set
         covered := s.covered - 1
         added := update s.added id (some (listedAs s.store s.set.fdepth g)) }, true)
  | .deleteGlyph id =>
    (deleteGlyph s.store s.set id.toNat).map fun (store, set, found) =>
      ({ s with
         store
         set
         added := update s.added id none }, found)
  | .resizeGlyphSet change supply =>
    (resizeGlyphSet s.store s.set change supply).map fun (store, set, ok) =>
      ({ s with
         store
         set
         covered := if ok then change else 0 }, ok)
  | .elsewhere store =>
    some ({ s with
      store
      covered := 0 }, true)

/-- A glyph is added under a resize that covers it, and no resize is for more glyphs
than `RenderAddGlyphs` lets through. -/
def Session.Allowed (s : Session) : Call → Prop
  | .addGlyph g _ => 0 < s.covered ∧ (s.store.glyphs g).isSome = true
  | .deleteGlyph _ => True
  | .resizeGlyphSet change _ => change ≤ (2 ^ 32 - 1) / sizeofGlyphNewRec
  | .elsewhere store => Backed store s.set.fdepth s.set.held

structure Session.Ok (s : Session) : Prop where
  mapped : Mapped s.set s.added
  backed : Backed s.store s.set.fdepth s.set.held
  global : s.covered ≤ (s.store.globalGlyphs s.set.fdepth).room
  room : s.covered ≤ s.set.hash.room

/-- Every search ends, an id finds what was added under it, and it is there and in one
slot only. -/
structure Session.AsMap (s : Session) : Prop where
  ends : ∀ (signature : BitVec 32) sha1,
    (findGlyphRef s.store.glyphs s.set.hash signature.toNat sha1).isSome = true ∧
    (findGlyphRef s.store.glyphs (s.store.globalGlyphs s.set.fdepth) signature.toNat
      sha1).isSome = true
  find : ∀ id : BitVec 32, findGlyph s.store s.set id.toNat = some (s.added id)
  live : ∀ id g, s.added id = some g → (s.store.glyphs g).isSome = true
  once : ((entries s.set.hash.table).map fst).Nodup

section

variable {s : Session}

theorem Session.Ok.asMap (h : s.Ok) : s.AsMap where
  ends := fun signature sha1 => by
    obtain ⟨gr, -, -, hfind, -⟩ := h.mapped.hash.lookup s.store.glyphs h.mapped.made signature.toNat
      sha1
    obtain ⟨gr', -, -, hfind', -⟩ := h.backed.hash.lookup s.store.glyphs h.backed.made
      signature.toNat sha1
    exact ⟨isSome_of_eq_some hfind, isSome_of_eq_some hfind'⟩
  find := h.mapped.findGlyph s.store
  live := fun id g hg => h.backed.live g (List.mem_map.mpr ⟨_, (h.mapped.slot id g).mpr hg, rfl⟩)
  once := h.mapped.ids

theorem Session.Ok.call (h : s.Ok) {c : Call} (hc : s.Allowed c) :
    ∃ s' o, s.call c = some (s', o) ∧ s'.Ok := by
  cases c with
  | addGlyph g id =>
    obtain ⟨hpos, hg⟩ := hc
    have hglobal := h.global
    have hroom := h.room
    obtain ⟨store, set, hadd, hmapped, hbacked, hf, hle, hle'⟩ :=
      addGlyph_maps h.mapped h.backed hg (by omega) (by omega) id
    rw [Session.call, hadd, map_some]
    refine ⟨_, _, rfl, hmapped, hbacked, ?_, ?_⟩
    · show s.covered - 1 ≤ (store.globalGlyphs set.fdepth).room
      rw [hf]
      omega
    · show s.covered - 1 ≤ set.hash.room
      omega
  | deleteGlyph id =>
    obtain ⟨store, set, hdel, hmapped, hbacked, hf, hle, hle'⟩ :=
      deleteGlyph_maps h.mapped h.backed id
    rw [Session.call, hdel, map_some]
    refine ⟨_, _, rfl, hmapped, hbacked, ?_, h.room.trans hle'⟩
    show s.covered ≤ (store.globalGlyphs set.fdepth).room
    rw [hf]
    exact h.global.trans hle
  | resizeGlyphSet change supply =>
    have hlt : change < 2 ^ 31 := by
      have hle : change ≤ (2 ^ 32 - 1) / sizeofGlyphNewRec := hc
      rw [sizeofGlyphNewRec] at hle
      omega
    obtain ⟨store, set, ok, hresize, hmapped, hbacked, hf, hroom⟩ :=
      resizeGlyphSet_maps h.mapped h.backed hlt supply
    rw [Session.call, hresize, map_some]
    cases ok with
    | false => exact ⟨_, _, rfl, hmapped, hbacked, zero_le _, zero_le _⟩
    | true =>
      refine ⟨_, _, rfl, hmapped, hbacked, ?_, (hroom rfl).2⟩
      show change ≤ (store.globalGlyphs set.fdepth).room
      rw [hf]
      exact (hroom rfl).1
  | elsewhere store => exact ⟨_, _, rfl, h.mapped, hc, zero_le _, zero_le _⟩

theorem allocateGlyphSet_session {st st' : Store} {fdepth depth : Nat} {supply : CreateSupply}
    {set : GlyphSet} (hst : Listing st fdepth)
    (h : allocateGlyphSet st fdepth depth supply = (st', some set)) :
    (⟨st', set, 0, fun _ => none⟩ : Session).Ok := by
  have hset : ∀ st₀, Listing st₀ fdepth → (st₀.globalGlyphs fdepth).hashSet.isSome = true →
      (if supply.set = true then (st₀, (allocateGlyphHash glyphHashSets.head? supply.table).map
        fun hash => (⟨1, fdepth, depth, hash⟩ : GlyphSet)) else (st₀, none)) = (st', some set) →
      (⟨st', set, 0, fun _ => none⟩ : Session).Ok := by
    intro st₀ hst₀ hmade he
    by_cases hs : supply.set = true
    · rw [if_pos hs, mk.injEq, map_eq_some_iff] at he
      obtain ⟨rfl, hash, hhash, rfl⟩ := he
      obtain ⟨hok, hsome, hempty⟩ := allocateGlyphHash_ok hhash
      have hheld : GlyphSet.held ⟨1, fdepth, depth, hash⟩ = [] := congrArg (List.map snd) hempty
      refine ⟨⟨hok, hsome, ?_, fun id g => ?_⟩, ⟨hst₀, hmade, ?_, ?_⟩, zero_le _, zero_le _⟩
      · rw [hempty]
        exact nodup_nil
      · rw [hempty]
        exact ⟨fun hm => (nomatch hm), fun hm => nomatch hm⟩
      · rw [hheld]
        exact fun _ _ _ => zero_le _
      · rw [hheld]
        exact fun _ hm => nomatch hm
    · rw [if_neg hs] at he
      cases he
  unfold allocateGlyphSet at h
  by_cases hnull : (st.globalGlyphs fdepth).hashSet = none
  · rw [if_pos hnull] at h
    cases hglobal : allocateGlyphHash glyphHashSets.head? supply.global with
    | none =>
      rw [hglobal] at h
      cases h
    | some hash =>
      rw [hglobal] at h
      obtain ⟨hok, hsome, hempty⟩ := allocateGlyphHash_ok hglobal
      have hself : (st.setGlobal fdepth hash).globalGlyphs fdepth = hash := update_self ..
      refine hset _ ⟨?_, ?_, ?_, ?_⟩ (by rw [hself]; exact hsome) h
      · rw [hself]
        exact hok
      · rw [hself, hempty]
        exact fun _ hm => nomatch hm
      · rw [hself, hempty]
        exact nodup_nil
      · rw [hself, hempty]
        exact fun _ hm => nomatch hm
  · rw [if_neg hnull] at h
    exact hset st hst (isSome_iff_ne_none.mpr hnull) h

end

/-- Whatever calls are made on a set, it is a map from ids to the glyphs that show what
was added under them. -/
theorem glyphSet_run {st st' : Store} {fdepth depth : Nat} {supply : CreateSupply}
    {set : GlyphSet} (hst : Listing st fdepth)
    (h : allocateGlyphSet st fdepth depth supply = (st', some set)) (calls : List Call)
    (hg : Guarded Session.call Session.Allowed ⟨st', set, 0, fun _ => none⟩ calls) :
    ∃ s os, exec Session.call ⟨st', set, 0, fun _ => none⟩ calls = some (s, os) ∧ s.AsMap := by
  obtain ⟨s, os, hexec, hok⟩ := Run.exec_invariant (fun _ _ hok hc => hok.call hc)
    (allocateGlyphSet_session hst h) hg
  exact ⟨s, os, hexec, hok.asMap⟩

def twins : Store := (allocateGlyph (allocateGlyph Store.init 2 7).1 2 7).1

theorem twins_listing : Listing twins 2 :=
  ⟨none_ok, fun _ hm => (nomatch hm), nodup_nil, fun _ hm => nomatch hm⟩

def twinSession : Session :=
  let hash := ⟨Probing.new 43, some ⟨32, 43, 41⟩, 0⟩
  ⟨twins.setGlobal 2 hash, ⟨1, 2, 8, hash⟩, 0, fun _ => none⟩

def addTwins : List Call := [.resizeGlyphSet 2 given, .addGlyph 0 1, .addGlyph 1 2]

theorem addTwins_allowed : Guarded Session.call Session.Allowed twinSession addTwins := by
  refine Run.guarded_cons ?_ rfl (Run.guarded_cons ?_ rfl (Run.guarded_cons ?_ rfl trivial))
  · exact (by decide : 2 ≤ (2 ^ 32 - 1) / sizeofGlyphNewRec)
  · exact ⟨by decide, rfl⟩
  · exact ⟨by decide, rfl⟩

theorem glyphSet_run_twins :
    allocateGlyphSet twins 2 8 granted = (twinSession.store, some twinSession.set) ∧
    ∃ s os, exec Session.call twinSession addTwins = some (s, os) ∧ s.AsMap := by
  have hmade : allocateGlyphSet twins 2 8 granted = (twinSession.store, some twinSession.set) := rfl
  exact ⟨hmade, glyphSet_run twins_listing hmade addTwins addTwins_allowed⟩

def lastAdded (calls : List Call) : BitVec 32 → Option Nat :=
  calls.foldl (fun added c =>
    match c with
    | .addGlyph g id => update added id (some g)
    | .deleteGlyph id => update added id none
    | _ => added) fun _ => none

/-- The second of two glyphs that show the same is not the one that is found. -/
theorem find_not_lastAdded :
    allocateGlyphSet twins 2 8 granted = (twinSession.store, some twinSession.set) ∧
    Guarded Session.call Session.Allowed twinSession addTwins ∧
    ∃ s os, exec Session.call twinSession addTwins = some (s, os) ∧
      findGlyph s.store s.set (2 : BitVec 32).toNat ≠ some (lastAdded addTwins 2) := by
  have hrun : (exec Session.call twinSession addTwins).map (fun r =>
      findGlyph r.1.store r.1.set (2 : BitVec 32).toNat) = some (some (some 0)) := by
    decide +kernel
  obtain ⟨⟨s, os⟩, hexec, hfind⟩ := map_eq_some_iff.mp hrun
  refine ⟨rfl, addTwins_allowed, s, os, hexec, ?_⟩
  rw [show findGlyph s.store s.set (2 : BitVec 32).toNat = some (some 0) from hfind]
  decide

end Xfront.Glyphs
