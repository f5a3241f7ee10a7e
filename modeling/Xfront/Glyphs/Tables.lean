import Xfront.Glyphs.Model

/-!
# One table of glyphs

A table counts its entries and has room for more of them than its hash set allows, so that every
search ends.
-/

namespace Xfront.Glyphs
open Nat

open List Option
open Probing (Slot entries Sizes Found Free Match)

set_option maxRecDepth 100000 in
theorem glyphHashSets_noFactor : ∀ hashSet ∈ glyphHashSets,
    Probing.noFactor hashSet.size 12200 3 = true := by
  simp only [glyphHashSets, forall_mem_cons, not_mem_nil, false_imp_iff, implies_true, and_true]
  and_intros <;> decide +kernel

variable {hashSet : GlyphHashSet}

theorem glyphHashSets_sizes (h : hashSet ∈ glyphHashSets) :
    Sizes hashSet.size hashSet.rehash ∧ hashSet.entries < hashSet.size := by
  have hall : ∀ hashSet ∈ glyphHashSets, hashSet.entries < hashSet.size ∧ 2 ≤ hashSet.size ∧
      hashSet.size % 2 = 1 ∧ 0 < hashSet.rehash ∧ hashSet.rehash ≤ hashSet.size := by
    decide
  obtain ⟨hroom, htwo, hodd, hpos, hle⟩ := hall hashSet h
  exact ⟨⟨Probing.prime_of_noFactor htwo hodd (glyphHashSets_noFactor hashSet h), hpos, hle⟩, hroom⟩

theorem findGlyphHashSet_some {filled : Nat} (h : findGlyphHashSet filled = some hashSet) :
    hashSet ∈ glyphHashSets ∧ filled ≤ hashSet.entries := by
  have hle := find?_some h
  exact ⟨mem_of_find?_eq_some h, of_decide_eq_true hle⟩

structure HashOk (hash : GlyphHash) : Prop where
  count : hash.tableEntries = (entries hash.table).length
  null : hash.hashSet = none → hash.table = []
  sets : ∀ hashSet ∈ hash.hashSet, hashSet ∈ glyphHashSets ∧ hash.table.length = hashSet.size ∧
    Probing.Ok hash.table hashSet.rehash ∧ hash.tableEntries ≤ hashSet.entries

section

variable {hash : GlyphHash} {glyphs : Nat → Option Glyph} {sha1 : Option Sha1} {sig gr g : Nat}

theorem none_ok : HashOk GlyphHash.none where
  count := rfl
  null := fun _ => rfl
  sets := fun _ h => nomatch h

def GlyphHash.room (hash : GlyphHash) : Nat :=
  hash.hashSet.elim 0 fun hashSet => hashSet.entries - hash.tableEntries

theorem HashOk.find (h : HashOk hash) (glyphs : Nat → Option Glyph) (hset : hash.hashSet.isSome = true) (sig : Nat)
    (sha1 : Option Sha1) : ∃ gr hashSet, hash.hashSet = some hashSet ∧
      findGlyphRef glyphs hash sig sha1 = some gr ∧
      Found hash.table hashSet.rehash sig (sameGlyph glyphs sha1) gr := by
  obtain ⟨hashSet, hs⟩ := isSome_iff_exists.mp hset
  obtain ⟨hmem, hlen, hok, hle⟩ := h.sets hashSet hs
  have hroom := (glyphHashSets_sizes hmem).2
  have hcount := h.count
  obtain ⟨gr, hfind, hfound⟩ := Probing.find_found hok (Probing.exists_free (by omega)) sig
    (sameGlyph glyphs sha1)
  refine ⟨gr, hashSet, hs, ?_, hfound⟩
  rw [findGlyphRef, hs, bind_some, hfind]

theorem glyphAt_match (h : hash.table[gr]? = some (.used sig g)) : hash.glyphAt gr = some g := by
  rw [GlyphHash.glyphAt, h]

theorem glyphAt_free {rehash : Nat} (h : Free hash.table rehash sig gr) :
    hash.glyphAt gr = none := by
  unfold GlyphHash.glyphAt
  rcases h.slot with hs | hs
  all_goals rw [hs]

section
variable (h : HashOk hash)
include h

theorem HashOk.lookup (glyphs : Nat → Option Glyph) (hset : hash.hashSet.isSome = true) (sig : Nat)
    (sha1 : Option Sha1) : ∃ gr hashSet, hash.hashSet = some hashSet ∧
      findGlyphRef glyphs hash sig sha1 = some gr ∧
      ((∃ g, hash.table[gr]? = some (.used sig g) ∧ (sig, g) ∈ entries hash.table ∧
        hash.glyphAt gr = some g ∧ sameGlyph glyphs sha1 g = true) ∨
      (Free hash.table hashSet.rehash sig gr ∧ hash.glyphAt gr = none ∧
        ∀ x ∈ entries hash.table, x.1 = sig → sameGlyph glyphs sha1 x.2 = false)) := by
  obtain ⟨gr, hashSet, hs, hfind, hfound⟩ := h.find glyphs hset sig sha1
  refine ⟨gr, hashSet, hs, hfind, ?_⟩
  rcases hfound with ⟨g, hg, hsame⟩ | ⟨hfree, hnone⟩
  · exact .inl ⟨g, hg, Probing.mem_entries.mpr ⟨gr, hg⟩, glyphAt_match hg, hsame⟩
  · exact .inr ⟨hfree, glyphAt_free hfree, Probing.not_match_iff.mp hnone⟩

theorem HashOk.id_lookup (glyphs : Nat → Option Glyph)
    (hset : hash.hashSet.isSome = true) (id : Nat) :
    ∃ gr hashSet, hash.hashSet = some hashSet ∧ findGlyphRef glyphs hash id none = some gr ∧
      ((∃ old, hash.table[gr]? = some (.used id old) ∧ (id, old) ∈ entries hash.table ∧
          hash.glyphAt gr = some old) ∨
        Free hash.table hashSet.rehash id gr ∧ hash.glyphAt gr = none ∧
          id ∉ (entries hash.table).map Prod.fst) := by
  obtain ⟨gr, hashSet, hs, hfind, hfound⟩ := h.lookup glyphs hset id none
  refine ⟨gr, hashSet, hs, hfind, ?_⟩
  rcases hfound with ⟨old, hgr, hmem, hat, -⟩ | ⟨hfree, hat, hnone⟩
  · exact .inl ⟨old, hgr, hmem, hat⟩
  · refine .inr ⟨hfree, hat, fun hmem => ?_⟩
    obtain ⟨x, hx, he⟩ := List.mem_map.mp hmem
    cases hnone x hx he

theorem HashOk.store (hs : hash.hashSet = some hashSet)
    (hfree : Free hash.table hashSet.rehash sig gr) (hroom : 0 < hash.room) (g : Nat) :
    HashOk (hash.store gr sig g) ∧
      (entries (hash.store gr sig g).table).Perm ((sig, g) :: entries hash.table) := by
  have hperm := hfree.entries_set g
  obtain ⟨hmem, hlen, hok, hle⟩ := h.sets hashSet hs
  refine ⟨⟨?_, fun hn => ?_, fun hashSet' hs' => ?_⟩, hperm⟩
  · exact (congrArg (· + 1) h.count).trans hperm.length_eq.symm
  · exact absurd (hs.symm.trans hn) (fun he => nomatch he)
  · cases hs.symm.trans hs'
    refine ⟨hmem, (length_set ..).trans hlen, hok.store hfree g, ?_⟩
    rw [GlyphHash.room, hs] at hroom
    exact succ_le_of_lt (Nat.lt_of_sub_pos hroom)

theorem HashOk.put {old : Nat} (hgr : hash.table[gr]? = some (.used sig old))
    (g : Nat) : HashOk (hash.put gr sig g) ∧ ∃ rest,
      (entries hash.table).Perm ((sig, old) :: rest) ∧
      (entries (hash.put gr sig g).table).Perm ((sig, g) :: rest) := by
  obtain ⟨rest, hold, hnew⟩ := Probing.entries_set hgr (.used sig g)
  refine ⟨⟨?_, fun hn => ?_, fun hashSet hs => ?_⟩, rest, hold, hnew⟩
  · exact h.count.trans (hold.length_eq.trans hnew.length_eq.symm)
  · rw [h.null hn] at hgr
    cases hgr
  · obtain ⟨hmem, hlen, hok, hle⟩ := h.sets hashSet hs
    exact ⟨hmem, (length_set ..).trans hlen, hok.replace hgr g, hle⟩

theorem HashOk.delete (hgr : hash.table[gr]? = some (.used sig g)) : HashOk (hash.delete gr) ∧
      (entries hash.table).Perm ((sig, g) :: entries (hash.delete gr).table) := by
  have hperm := Probing.entries_delete hgr
  have hcount := h.count
  rw [hperm.length_eq, length_cons] at hcount
  refine ⟨⟨?_, fun hn => ?_, fun hashSet hs => ?_⟩, hperm⟩
  · show hash.tableEntries - 1 = _
    rw [hcount]
    rfl
  · rw [h.null hn] at hgr
    cases hgr
  · obtain ⟨hmem, hlen, hok, hle⟩ := h.sets hashSet hs
    exact ⟨hmem, (length_set ..).trans hlen, hok.delete, by
      show hash.tableEntries - 1 ≤ _
      omega⟩

theorem HashOk.sum_mod {change : Nat} (hc : change < 2 ^ 31) :
    (hash.tableEntries + change) % 2 ^ 32 = hash.tableEntries + change := by
  have hle : hash.tableEntries ≤ 2 ^ 29 := by
    cases hs : hash.hashSet with
    | none =>
      rw [h.count, h.null hs]
      exact zero_le _
    | some hashSet =>
      obtain ⟨hmem, -, -, hle⟩ := h.sets hashSet hs
      have hall : ∀ hashSet ∈ glyphHashSets, hashSet.entries ≤ 2 ^ 29 := by decide
      exact hle.trans (hall hashSet hmem)
  exact mod_eq_of_lt (by omega)

end

def Apart (glyphs : Nat → Option Glyph) (global : Bool) (l : List (Nat × Nat)) : Prop :=
  l.Pairwise fun x y => x.1 = y.1 → global = true ∧ ∃ a b, glyphs x.2 = some a ∧
    glyphs y.2 = some b ∧ a.sha1 ≠ b.sha1

theorem HashOk.resize (h : HashOk hash) {global : Bool}
    (hapart : Apart glyphs global (entries hash.table)) {change : Nat} (hc : change < 2 ^ 31)
    (memory : Bool) :
    ∃ hash' ok, resizeGlyphHash glyphs hash change global memory = some (hash', ok) ∧
      HashOk hash' ∧ (entries hash'.table).Perm (entries hash.table) ∧
      (hash.hashSet.isSome = true → hash'.hashSet.isSome = true) ∧
      (ok = true → hash'.hashSet = findGlyphHashSet (hash.tableEntries + change)) := by
  unfold resizeGlyphHash
  rw [h.sum_mod hc]
  by_cases heq : findGlyphHashSet (hash.tableEntries + change) = hash.hashSet
  · rw [if_pos heq]
    exact ⟨hash, true, rfl, h, List.Perm.refl _, id, fun _ => heq.symm⟩
  rw [if_neg heq]
  cases hs : findGlyphHashSet (hash.tableEntries + change) with
  | none =>
    refine ⟨hash, false, ?_, h, List.Perm.refl _, id, by simp⟩
    rfl
  | some hashSet =>
    cases memory with
    | false => exact ⟨hash, false, rfl, h, List.Perm.refl _, id, by simp⟩
    | true =>
      obtain ⟨hmem, hroom⟩ := findGlyphHashSet_some hs
      obtain ⟨hsizes, hlt⟩ := glyphHashSets_sizes hmem
      have hcount := h.count
      have hpair : (entries hash.table ++ entries (Probing.new hashSet.size : List (Slot Nat))).Pairwise
          fun x y => x.1 = y.1 →
            sameGlyph glyphs (if global = true then (glyphs x.2).map Glyph.sha1 else none) y.2 =
              false ∧
            sameGlyph glyphs (if global = true then (glyphs y.2).map Glyph.sha1 else none) x.2 =
              false := by
        rw [Probing.new_entries, append_nil]
        refine hapart.imp fun {x y} hxy he => ?_
        obtain ⟨rfl, a, b, ha, hb, hne⟩ := hxy he
        simp [sameGlyph, ha, hb, hne, hne.symm]
      have hspace : (entries (Probing.new hashSet.size : List (Slot Nat))).length +
          (entries hash.table).length < (Probing.new hashSet.size : List (Slot Nat)).length := by
        rw [Probing.new_entries, Probing.new, length_replicate, length_nil]
        omega
      obtain ⟨table, hmove, hok, hlen, hperm⟩ :=
        Probing.moveInto_spec (fun glyph => sameGlyph glyphs
          (if global = true then (glyphs glyph).map Glyph.sha1 else none)) (Probing.new_ok hsizes)
          hspace hpair
      rw [Probing.new_entries, append_nil] at hperm
      rw [Probing.new, length_replicate] at hlen
      refine ⟨⟨table, some hashSet, (entries hash.table).length⟩, true, ?_,
        ⟨hperm.length_eq.symm, by simp, ?_⟩, hperm, fun _ => rfl, fun _ => rfl⟩
      · simp only [allocateGlyphHash, bind_some, if_true, hmove, map_some]
      · rintro _ ⟨⟩
        refine ⟨hmem, hlen, hok, ?_⟩
        show (entries hash.table).length ≤ _
        omega

theorem findGlyphHashSet_mono {m n : Nat} (h : (findGlyphHashSet n).isSome = true) (hmn : m ≤ n) :
    (findGlyphHashSet m).isSome = true := by
  rw [findGlyphHashSet, find?_isSome] at h ⊢
  obtain ⟨hashSet, hmem, hle⟩ := h
  exact ⟨hashSet, hmem, decide_eq_true (le_trans hmn (of_decide_eq_true hle))⟩

end

end Xfront.Glyphs
