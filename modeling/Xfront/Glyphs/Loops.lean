import Xfront.Glyphs.Requests
import Xfront.Glyphs.Slots

/-!
# The loops of the requests

What `RenderAddGlyphs` collects, what it does with it when it goes through and when it
fails, and the loops that free.
-/

namespace Xfront.Glyphs
open Nat Prod

open List Option
open Probing (Slot entries)

section

variable {st st' : Store} {refs others : List Nat} {f g n : Nat} {glyph : Glyph} {set : GlyphSet}

theorem bail_ok (got : List (Nat × Nat)) (h : StoreOk st (got.map snd ++ refs))
    (hf : ∀ x ∈ got, ∀ a, st.glyphs x.2 = some a → a.fdepth = f)
    (hset : got ≠ [] → (st.globalGlyphs f).hashSet.isSome = true) :
    ∃ st', bail st f got = some st' ∧ StoreOk st' refs ∧ Keeps 0 st st' := by
  induction got generalizing st with
  | nil => exact ⟨st, rfl, h, Keeps.refl st⟩
  | cons x got ih =>
    obtain ⟨a, ha⟩ := isSome_iff_exists.mp (h.live x.2 mem_cons_self)
    have hfa := hf x mem_cons_self a ha
    have hset' := hset (cons_ne_nil _ _)
    obtain ⟨st₁, hfree, hok, hkeep⟩ := freeGlyph_ok h ha (.inr (hfa ▸ hset'))
    obtain ⟨st₂, hbail, hok', hkeep'⟩ := ih hok
      (fun y hy b hb => by
        obtain ⟨b', hb', -, hbf⟩ := hkeep.glyph y.2 b hb
        exact hbf.symm.trans (hf y (mem_cons_of_mem x hy) b' hb'))
      fun _ => hkeep.hashSet f hset'
    refine ⟨st₂, ?_, hok', hkeep.trans hkeep'⟩
    rw [hfa] at hfree
    rw [bail, hfree, bind_some, hbail]

theorem freeSlots_eq (table : List (Slot Nat)) :
    freeSlots st f table = bail st f (entries table) := by
  induction table generalizing st with
  | nil => rfl
  | cons slot table ih =>
    cases slot with
    | empty => exact ih
    | deleted => exact ih
    | used s g =>
      show (freeGlyph st g f).bind _ = (freeGlyph st g f).bind _
      congr 1
      funext st
      exact ih

theorem deleteAll_ok (gids : List Nat) (h : StoreOk st (set.held ++ others))
    (hslots : SlotsOk st set) :
    ∃ st' set' result, deleteAll st set gids = some (st', set', result) ∧
      StoreOk st' (set'.held ++ others) ∧ Keeps 0 st st' ∧ SlotsOk st' set' ∧
      set'.fdepth = set.fdepth ∧ set'.refcnt = set.refcnt := by
  induction gids generalizing st set with
  | nil => exact ⟨st, set, _, rfl, h, Keeps.refl st, hslots, rfl, rfl⟩
  | cons id gids ih =>
    obtain ⟨st₁, set₁, found, hdel, hok, hkeep, hstep⟩ := deleteGlyph_ok h hslots id
    rw [deleteAll, hdel, bind_some]
    cases found with
    | false => exact ⟨st₁, set₁, _, rfl, hok, hkeep, hstep.slots, hstep.fdepth, hstep.refcnt⟩
    | true =>
      obtain ⟨st₂, set₂, result, hall, hok', hkeep', hslots', hf, hr⟩ := ih hok hstep.slots
      exact ⟨st₂, set₂, result, hall, hok', hkeep.trans hkeep', hslots', hf.trans hstep.fdepth,
        hr.trans hstep.refcnt⟩

theorem addAll_ok {got : List (Nat × Nat)}
    (h : StoreOk st (set.held ++ (got.map snd ++ others))) (hslots : SlotsOk st set)
    (hf : ∀ x ∈ got, ∀ a, st.glyphs x.2 = some a → a.fdepth = set.fdepth)
    (hset : (st.globalGlyphs set.fdepth).hashSet.isSome = true)
    (hroom : got.length ≤ (st.globalGlyphs set.fdepth).room)
    (hroom' : got.length ≤ set.hash.room) (hd : Distinct st set.fdepth) :
    ∃ st' set', addAll st set got = some (st', set') ∧ StoreOk st' (set'.held ++ others) ∧
      Keeps got.length st st' ∧ SlotsOk st' set' ∧ set'.fdepth = set.fdepth ∧
      set'.refcnt = set.refcnt := by
  induction got generalizing st set with
  | nil => exact ⟨st, set, rfl, h, Keeps.refl st, hslots, rfl, rfl⟩
  | cons x got ih =>
    obtain ⟨id, g⟩ := x
    rw [length_cons] at hroom hroom'
    obtain ⟨a, ha⟩ := isSome_iff_exists.mp
      (h.live g (mem_append_right _ mem_cons_self))
    obtain ⟨st₁, set₁, hadd, hok₁, hkeep₁, hstep, hheld⟩ := addGlyph_ok id h hslots ha
      (hf _ mem_cons_self a ha) hset (by omega) (by omega) hd
    have hperm : (set₁.held ++ (List.map snd ((id, g) :: got) ++ others)).Perm
        (g :: (set₁.held ++ (got.map snd ++ others))) := perm_middle
    have hok₁' := hok₁.perm hperm
    obtain ⟨a₁, ha₁⟩ := isSome_iff_exists.mp (hok₁'.live g mem_cons_self)
    have hfa₁ : a₁.fdepth = set₁.fdepth := by
      obtain ⟨a', ha', -, hfa⟩ := hkeep₁.glyph g a₁ ha₁
      rw [hstep.fdepth, ← hfa]
      exact hf _ mem_cons_self a' ha'
    obtain ⟨st₂, hfree, hok₂, hkeep₂⟩ := freeGlyph_ok hok₁' ha₁
      (.inl (mem_append_left _ hheld))
    rw [hfa₁] at hfree
    have hkeep := hkeep₁.trans hkeep₂
    have hslots₂ : SlotsOk st₂ set₁ := hstep.slots.keeps hkeep₂ fun k hk =>
      hok₂.live k (mem_append_left _ hk)
    have hroom₂ := hkeep.room set.fdepth
    have hroom₂' := hstep.room
    obtain ⟨st₃, set₃, hall, hok₃, hkeep₃, hslots₃, hf₃, hr₃⟩ := ih hok₂ hslots₂
      (fun y hy b hb => by
        obtain ⟨b', hb', -, hbf⟩ := hkeep.glyph y.2 b hb
        rw [hstep.fdepth, ← hbf]
        exact hf y (mem_cons_of_mem _ hy) b' hb')
      (hstep.fdepth ▸ hkeep.hashSet _ hset) (by rw [hstep.fdepth]; omega) (by omega)
      (hstep.fdepth ▸ hd.keeps hkeep)
    refine ⟨st₃, set₃, ?_, hok₃, ?_, hslots₃, hf₃.trans hstep.fdepth, hr₃.trans hstep.refcnt⟩
    · rw [addAll, hadd, bind_some]
      dsimp only
      rw [hfree, bind_some, hall]
    · have hkeep' := hkeep.trans hkeep₃
      rwa [add_zero, add_comm] at hkeep'

def isNew (st : Store) (f : Nat) (sha1 : Sha1) : Bool :=
  decide (∀ g ∈ listed st f, (st.glyphs g).map Glyph.sha1 ≠ some sha1)

inductive Stop where
  | done
  | stopped
  | unpictured
  deriving DecidableEq

section

variable (hashGlyph : Image → Sha1)

/-- How far the first loop of `RenderAddGlyphs` comes: through, to a failure before a
glyph is made, or to a glyph without a picture. -/
def reach (supply : AddSupply) (new : Sha1 → Bool) : Nat → List (Nat × Image) → Stop
  | _, [] => .done
  | i, x :: images =>
    if supply.hash i then
      if new (hashGlyph x.2) then
        if supply.glyph i then
          if supply.picture i then reach supply new (i + 1) images else .unpictured
        else .stopped
      else reach supply new (i + 1) images
    else .stopped

def newHashes (new : Sha1 → Bool) (images : List (Nat × Image)) : List Sha1 :=
  (images.map fun x => hashGlyph x.2).filter new

end

structure Grows (st st' : Store) : Prop where
  globals : st'.globalGlyphs = st.globalGlyphs
  old : ∀ g a, st.glyphs g = some a → ∃ b, st'.glyphs g = some b ∧ b.sha1 = a.sha1 ∧
    b.fdepth = a.fdepth

theorem Grows.listed (h : Grows st st') (f : Nat) : listed st' f = listed st f := by
  rw [Glyphs.listed, h.globals]
  rfl

theorem Grows.trans {st'' : Store} (h : Grows st st') (h' : Grows st' st'') : Grows st st'' where
  globals := h'.globals.trans h.globals
  old := fun g a ha => by
    obtain ⟨b, hb, hs, hf⟩ := h.old g a ha
    obtain ⟨c, hc, hs', hf'⟩ := h'.old g b hb
    exact ⟨c, hc, hs'.trans hs, hf'.trans hf⟩

theorem Grows.isNew (h : Grows st st') (hok : StoreOk st refs) (f : Nat) (sha1 : Sha1) :
    isNew st' f sha1 = isNew st f sha1 := by
  rw [Glyphs.isNew, Glyphs.isNew, decide_eq_decide, h.listed]
  refine forall_congr' fun g => forall_congr' fun hg => ?_
  obtain ⟨a, ha, -⟩ := hok.listed_glyph hg
  obtain ⟨b, hb, hs, -⟩ := h.old g a ha
  rw [ha, hb, map_some, map_some, hs]

theorem findGlyphByHash_ok (h : StoreOk st refs) (sha1 : Sha1) (f : Nat) :
    ∃ r, findGlyphByHash st sha1 f = some r ∧
      (∀ g ∈ r, isNew st f sha1 = false ∧ g ∈ listed st f) ∧ (r = none → isNew st f sha1 = true) := by
  unfold findGlyphByHash
  by_cases hnull : (st.globalGlyphs f).hashSet = none
  · rw [if_pos hnull]
    refine ⟨none, rfl, by simp, fun _ => decide_eq_true fun g hg => ?_⟩
    rw [listed, (h.hash f).null hnull] at hg
    cases hg
  rw [if_neg hnull]
  obtain ⟨gr, hashSet, hs, hfind, hfound⟩ := (h.hash f).lookup st.glyphs
    (isSome_iff_ne_none.mpr hnull) (signature sha1) (some sha1)
  rw [hfind, map_some]
  refine ⟨_, rfl, ?_⟩
  rcases hfound with ⟨g, hgr, hmem, hat, hsame⟩ | ⟨hfree, hat, hnone⟩
  · rw [hat]
    obtain ⟨b, hb, hsha⟩ := sameGlyph_some.mp hsame
    refine ⟨?_, by simp⟩
    rintro g' ⟨⟩
    refine ⟨decide_eq_false fun hall => ?_, mem_listed.mpr ⟨_, hmem⟩⟩
    exact hall g (mem_listed.mpr ⟨_, hmem⟩) (by rw [hb, map_some, hsha])
  · rw [hat]
    refine ⟨by simp, fun _ => decide_eq_true fun g hg he => ?_⟩
    obtain ⟨s, hx⟩ := mem_listed.mp hg
    obtain ⟨b, hb, -, hsig⟩ := h.entry f _ hx
    rw [hb, map_some, some_inj] at he
    have hf := hnone _ hx (hsig.trans (congrArg signature he))
    rw [sameGlyph_some.mpr ⟨b, hb, he⟩] at hf
    cases hf

variable {sha1 : Sha1}

theorem allocateGlyph_ok (h : StoreOk st refs) (hnew : isNew st f sha1 = true) :
    StoreOk (allocateGlyph st f sha1).1 (st.allocated :: refs) ∧
      Grows st (allocateGlyph st f sha1).1 ∧
      (allocateGlyph st f sha1).1.glyphs st.allocated = some ⟨1, sha1, f⟩ ∧
      ∀ k, k ≠ st.allocated → (allocateGlyph st f sha1).1.glyphs k = st.glyphs k := by
  have hself : (allocateGlyph st f sha1).1.glyphs st.allocated = some ⟨1, sha1, f⟩ :=
    setGlyph_self ..
  have hother : ∀ k, k ≠ st.allocated →
      (allocateGlyph st f sha1).1.glyphs k = st.glyphs k := fun k hk => setGlyph_of_ne hk ..
  have hunused : st.glyphs st.allocated = none := h.fresh _ le_rfl
  have hnotref : st.allocated ∉ refs := fun hm => by
    have hl := h.live _ hm
    rw [hunused] at hl
    cases hl
  have hgrow : Grows st (allocateGlyph st f sha1).1 := by
    refine ⟨rfl, fun k a ha => ⟨a, ?_, rfl, rfl⟩⟩
    rw [hother k fun he => ?_, ha]
    rw [he, hunused] at ha
    cases ha
  refine ⟨⟨fun k b hb => ?_, fun k hk => ?_, fun k hk => ?_, h.hash, fun f' x hx => ?_, h.once,
    fun f' k l a b hk ha hb hf hab => ?_⟩, hgrow, hself, hother⟩
  · by_cases hk : k = st.allocated
    · subst hk
      cases hself.symm.trans hb
      rw [count_cons_self, count_eq_zero.mpr hnotref]
      exact ⟨rfl, mem_cons_self⟩
    · rw [hother k hk] at hb
      obtain ⟨hc, hm⟩ := h.count k b hb
      exact ⟨hc.trans (count_cons_of_ne (Ne.symm hk)).symm, mem_cons_of_mem _ hm⟩
  · by_cases hka : k = st.allocated
    · rw [hka, hself]
      rfl
    · rw [hother k hka]
      exact h.live k ((mem_cons.mp hk).resolve_left hka)
  · have hk' : st.allocated + 1 ≤ k := hk
    rw [hother k (by omega)]
    exact h.fresh k (by omega)
  · obtain ⟨b, hb, hfb, hs⟩ := h.entry f' x hx
    obtain ⟨b', hb', hs', hf'⟩ := hgrow.old x.2 b hb
    exact ⟨b', hb', hf'.trans hfb, hs.trans (congrArg signature hs'.symm)⟩
  · have hlive : ∀ k ∈ listed st f', k ≠ st.allocated := by
      rintro k hk rfl
      obtain ⟨a, ha, -⟩ := h.listed_glyph hk
      cases hunused.symm.trans ha
    have hk' : k ∈ listed st f' := hk
    rw [hother k (hlive k hk')] at ha
    by_cases hl : l = st.allocated
    · subst hl
      cases hself.symm.trans hb
      subst hf
      refine absurd ?_ (of_decide_eq_true hnew k hk')
      rw [ha, map_some, hab]
    · rw [hother l hl] at hb
      exact h.apart f' k l a b hk' ha hb hf hab

theorem Distinct.allocate (hd : Distinct st f)
    (hself : st'.glyphs g = some ⟨1, sha1, f⟩) (hother : ∀ k, k ≠ g → st'.glyphs k = st.glyphs k)
    (hnew : ∀ k b, st.glyphs k = some b → b.fdepth = f → b.sha1 ≠ sha1) : Distinct st' f := by
  intro k l a b ha hb haf hbf hab
  by_cases hk : k = g
  · by_cases hl : l = g
    · exact hk.trans hl.symm
    · rw [hk] at ha
      cases hself.symm.trans ha
      rw [hother l hl] at hb
      exact absurd hab.symm (hnew l b hb hbf)
  · rw [hother k hk] at ha
    by_cases hl : l = g
    · rw [hl] at hb
      cases hself.symm.trans hb
      exact absurd hab (hnew k a ha haf)
    · rw [hother l hl] at hb
      exact hd k l a b ha hb haf hbf hab

theorem StoreOk.reference (h : StoreOk st refs) (hg : st.glyphs g = some glyph) :
    StoreOk (st.setGlyph g (some { glyph with refcnt := glyph.refcnt + 1 })) (g :: refs) ∧
      Grows st (st.setGlyph g (some { glyph with refcnt := glyph.refcnt + 1 })) := by
  refine ⟨(h.recount _ hg ?_ mem_cons_self fun k hk => count_cons_of_ne (Ne.symm hk)).1,
    rfl, fun k a ha => ?_⟩
  · rw [count_cons_self, (h.count g glyph hg).1]
  · by_cases hk : k = g
    · subst hk
      cases hg.symm.trans ha
      exact ⟨_, setGlyph_self _, rfl, rfl⟩
    · exact ⟨a, (setGlyph_of_ne hk _).trans ha, rfl, rfl⟩

/-- What the first loop of `RenderAddGlyphs` leaves: `got` are the references it took. -/
structure Collected (hashGlyph : Image → Sha1) (supply : AddSupply) (new : Sha1 → Bool)
    (f i : Nat) (images : List (Nat × Image)) (st st' : Store) (refs : List Nat)
    (got : List (Nat × Nat)) : Prop where
  ok : StoreOk st' (got.map snd ++ refs)
  grows : Grows st st'
  fdepth : ∀ x ∈ got, ∀ a, st'.glyphs x.2 = some a → a.fdepth = f
  length : got.length ≤ images.length
  first : got ≠ [] → ∃ x rest, images = x :: rest ∧ supply.hash i = true ∧
    (new (hashGlyph x.2) = true → supply.glyph i = true)
  distinct : reach hashGlyph supply new i images = .done → Distinct st f →
    (newHashes hashGlyph new images).Nodup →
    (∀ k a, st.glyphs k = some a → a.fdepth = f →
      a.sha1 ∉ newHashes hashGlyph new images) → Distinct st' f

variable {supply : AddSupply} {new : Sha1 → Bool} {i : Nat} {images : List (Nat × Image)}

theorem collected_nil {hashGlyph : Image → Sha1} (h : StoreOk st refs) :
    Collected hashGlyph supply new f i images st st refs [] where
  ok := h
  grows := ⟨rfl, fun _ a ha => ⟨a, ha, rfl, rfl⟩⟩
  fdepth := fun _ hx => nomatch hx
  length := zero_le _
  first := fun hn => absurd rfl hn
  distinct := fun _ hd _ _ => hd

theorem collect_ok {hashGlyph : Image → Sha1} (h : StoreOk st refs)
    (hnew : ∀ sha1, new sha1 = isNew st f sha1)
    (hzero : reach hashGlyph supply new i images = .unpictured → isNew st f 0 = true) :
    ∃ st' got, collect hashGlyph supply f i st images =
        some (st', got, decide (reach hashGlyph supply new i images = .done)) ∧
      Collected hashGlyph supply new f i images st st' refs got := by
  induction images generalizing st refs i with
  | nil => exact ⟨st, [], rfl, collected_nil h⟩
  | cons x images ih =>
    obtain ⟨id, image⟩ := x
    rw [collect]
    by_cases hhash : supply.hash i = true
    · rw [if_pos hhash]
      obtain ⟨r, hfind, hfound, hnone⟩ := findGlyphByHash_ok h (hashGlyph image) f
      rw [hfind, bind_some]
      cases r with
      | some g =>
        obtain ⟨hold, hlisted⟩ := hfound g rfl
        have hnot : ¬ new (hashGlyph image) = true := by
          rw [hnew, hold]
          exact Bool.false_ne_true
        have hreach : reach hashGlyph supply new i ((id, image) :: images) =
            reach hashGlyph supply new (i + 1) images := by
          rw [reach, if_pos hhash, if_neg hnot]
        rw [hreach] at hzero ⊢
        dsimp only
        obtain ⟨a, ha, hfa⟩ := h.listed_glyph hlisted
        obtain ⟨hok₁, hgrow₁⟩ := h.reference ha
        obtain ⟨st₂, got, hcollect, hc⟩ := ih hok₁
          (fun sha1 => (hnew sha1).trans (hgrow₁.isNew h f sha1).symm)
          fun hz => (hgrow₁.isNew h f 0).trans (hzero hz)
        rw [ha, bind_some, hcollect, map_some]
        refine ⟨st₂, (id, g) :: got, rfl, hc.ok.perm perm_middle, hgrow₁.trans hc.grows, ?_,
          succ_le_succ hc.length, fun _ => ⟨_, _, rfl, hhash, fun hn => absurd hn hnot⟩, ?_⟩
        · intro y hy b hb
          rcases mem_cons.mp hy with rfl | hy
          · obtain ⟨b', hb', -, hfb⟩ := (hgrow₁.trans hc.grows).old g a ha
            cases hb.symm.trans hb'
            exact hfb.trans hfa
          · exact hc.fdepth y hy b hb
        · have hnewHashes : newHashes hashGlyph new ((id, image) :: images) =
              newHashes hashGlyph new images := by
            rw [newHashes, map_cons, filter_cons_of_neg hnot]
            rfl
          rw [hreach, hnewHashes]
          intro hdone hd hnd hapart
          have hget : ∀ k b, (st.setGlyph g (some { a with refcnt := a.refcnt + 1 })).glyphs k =
              some b → ∃ b', st.glyphs k = some b' ∧ b'.sha1 = b.sha1 ∧ b'.fdepth = b.fdepth := by
            intro k b hb
            by_cases hk : k = g
            · subst hk
              rw [setGlyph_self] at hb
              cases hb
              exact ⟨a, ha, rfl, rfl⟩
            · rw [setGlyph_of_ne hk] at hb
              exact ⟨b, hb, rfl, rfl⟩
          refine hc.distinct hdone (fun k l b c hb hc' hbf hcf hbc => ?_) hnd fun k b hb hbf => ?_
          · obtain ⟨b', hb', hbs, hbf'⟩ := hget k b hb
            obtain ⟨c', hc'', hcs, hcf'⟩ := hget l c hc'
            exact hd k l b' c' hb' hc'' (hbf'.trans hbf) (hcf'.trans hcf)
              (hbs.trans (hbc.trans hcs.symm))
          · obtain ⟨b', hb', hbs, hbf'⟩ := hget k b hb
            rw [← hbs]
            exact hapart k b' hb' (hbf'.trans hbf)
      | none =>
        have hisnew := hnone rfl
        have hyes : new (hashGlyph image) = true := by rw [hnew, hisnew]
        by_cases hglyph : supply.glyph i = true
        · by_cases hpicture : supply.picture i = true
          · have hreach : reach hashGlyph supply new i ((id, image) :: images) =
                reach hashGlyph supply new (i + 1) images := by
              rw [reach, if_pos hhash, if_pos hyes, if_pos hglyph, if_pos hpicture]
            rw [hreach] at hzero ⊢
            obtain ⟨hok₁, hgrow₁, hself, hother⟩ := allocateGlyph_ok h hisnew
            obtain ⟨st₂, got, hcollect, hc⟩ := ih hok₁
              (fun sha1 => (hnew sha1).trans (hgrow₁.isNew h f sha1).symm)
              fun hz => (hgrow₁.isNew h f 0).trans (hzero hz)
            dsimp only
            rw [if_pos hglyph, if_pos hpicture, hcollect, map_some]
            refine ⟨st₂, (id, st.allocated) :: got, rfl, hc.ok.perm perm_middle,
              hgrow₁.trans hc.grows, ?_, succ_le_succ hc.length,
              fun _ => ⟨_, _, rfl, hhash, fun _ => hglyph⟩, ?_⟩
            · intro y hy b hb
              rcases mem_cons.mp hy with rfl | hy
              · obtain ⟨b', hb', -, hfb⟩ := hc.grows.old _ _ hself
                cases hb.symm.trans hb'
                exact hfb
              · exact hc.fdepth y hy b hb
            · have hnewHashes : newHashes hashGlyph new ((id, image) :: images) =
                  hashGlyph image :: newHashes hashGlyph new images := by
                rw [newHashes, map_cons, filter_cons_of_pos hyes]
                rfl
              rw [hreach, hnewHashes]
              intro hdone hd hnd hapart
              obtain ⟨hhead, htail⟩ := nodup_cons.mp hnd
              exact hc.distinct hdone (hd.allocate hself hother
                fun k b hb hbf he => hapart k b hb hbf (he ▸ mem_cons_self)) htail
                fun k b hb hbf => by
                  by_cases hk : k = st.allocated
                  · subst hk
                    cases hself.symm.trans hb
                    exact hhead
                  · rw [hother k hk] at hb
                    exact fun hm => hapart k b hb hbf (mem_cons_of_mem _ hm)
          · have hreach : reach hashGlyph supply new i ((id, image) :: images) = .unpictured := by
              rw [reach, if_pos hhash, if_pos hyes, if_pos hglyph, if_neg hpicture]
            obtain ⟨hok₁, hgrow₁, hself, hother⟩ := allocateGlyph_ok h (hzero hreach)
            rw [hreach]
            rw [if_pos hglyph, if_neg hpicture]
            refine ⟨_, [(0, st.allocated)], rfl, hok₁, hgrow₁, ?_, succ_le_succ (zero_le _),
              fun _ => ⟨_, _, rfl, hhash, fun _ => hglyph⟩, fun hdone => ?_⟩
            · intro y hy b hb
              rw [mem_singleton.mp hy, hself] at hb
              cases hb
              rfl
            · rw [hreach] at hdone
              cases hdone
        · have hreach : reach hashGlyph supply new i ((id, image) :: images) = .stopped := by
            rw [reach, if_pos hhash, if_pos hyes, if_neg hglyph]
          rw [hreach]
          rw [if_neg hglyph]
          exact ⟨st, [], rfl, collected_nil h⟩
    · have hreach : reach hashGlyph supply new i ((id, image) :: images) = .stopped := by
        rw [reach, if_neg hhash]
      rw [if_neg hhash, hreach]
      exact ⟨st, [], rfl, collected_nil h⟩

end

end Xfront.Glyphs
