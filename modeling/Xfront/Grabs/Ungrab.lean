import Xfront.Grabs.Effect

/-!
# Ungrabbing is set difference

The pending changes of the loop are those of the single visits, and they change one grab of the list
each.
-/

namespace Xfront.Grabs
open List Option GrabRec
open Resource (XID Limits)

variable {L : Limits} {isMaster : Nat → Bool} {m g : GrabRec} {o : Outcome}
  {outcome : XID → Outcome} {gs : List GrabRec}

section Keyed
variable {α β κ : Type} [DecidableEq κ] {key : β → κ} {r : α → κ} {f : α → List β} {l : List α}

theorem filter_flatMap_key (hkey : ∀ a ∈ l, ∀ b ∈ f a, key b = r a) (h : (l.map r).Nodup)
    {a : α} (ha : a ∈ l) : (l.flatMap f).filter (fun b => key b = r a) = f a := by
  induction l with
  | nil => cases ha
  | cons c l ih =>
    rw [map_cons, nodup_cons] at h
    have hc := hkey c mem_cons_self
    have hl := fun b hb => hkey b (mem_cons_of_mem _ hb)
    rw [flatMap_cons, filter_append]
    rcases mem_cons.mp ha with rfl | ha
    · have hself : (f a).filter (fun b => key b = r a) = f a :=
        filter_eq_self.mpr fun b hb => decide_eq_true (hc b hb)
      have hrest : (l.flatMap f).filter (fun b => key b = r a) = [] := by
        refine filter_eq_nil_iff.mpr fun b hb => ?_
        obtain ⟨c, hcl, hbc⟩ := mem_flatMap.mp hb
        intro he
        rw [decide_eq_true_eq, hl c hcl b hbc] at he
        exact h.1 (he ▸ List.mem_map_of_mem hcl)
      rw [hself, hrest, append_nil]
    · have hnone : (f c).filter (fun b => key b = r a) = [] := by
        refine filter_eq_nil_iff.mpr fun b hb he => ?_
        rw [decide_eq_true_eq, hc b hb] at he
        exact h.1 (he ▸ List.mem_map_of_mem ha)
      rw [hnone, nil_append]
      exact ih hl h.2 ha

end Keyed

def effectOf (L : Limits) (isMaster : Nat → Bool) (m : GrabRec) (outcome : XID → Outcome)
    (g : GrabRec) : Pending :=
  (visitGrab L isMaster m g (outcome g.resource) {}).getD {}

variable {p : Pending}

theorem visitGrabs_failed (gs : List GrabRec) (h : p.ok = false) :
    visitGrabs L isMaster m outcome gs p = some p := by
  cases gs with
  | nil => rfl
  | cons g gs => rw [visitGrabs, if_neg (by simp [h])]

theorem visitGrabs_effects {p' : Pending} (hp : p.ok = true) (hok : p'.ok = true)
    (h : visitGrabs L isMaster m outcome gs p = some p') :
    (∀ g ∈ gs, visitGrab L isMaster m g (outcome g.resource) {} =
        some (effectOf L isMaster m outcome g) ∧ (effectOf L isMaster m outcome g).ok = true) ∧
    p'.deletes = p.deletes ++ gs.flatMap (fun g => (effectOf L isMaster m outcome g).deletes) ∧
    p'.adds = p.adds ++ gs.flatMap (fun g => (effectOf L isMaster m outcome g).adds) ∧
    p'.updates = p.updates ++ gs.flatMap (fun g => (effectOf L isMaster m outcome g).updates) := by
  induction gs generalizing p with
  | nil =>
    cases h
    simp
  | cons g gs ih =>
    rw [visitGrabs, if_pos hp, visitGrab_append hp] at h
    obtain ⟨p₁, hvisit, hrest⟩ := bind_eq_some_iff.mp h
    obtain ⟨q, hq, rfl⟩ := map_eq_some_iff.mp hvisit
    have hqok : (p.append q).ok = true := by
      by_contra hc
      rw [visitGrabs_failed gs (Bool.of_not_eq_true hc)] at hrest
      cases hrest
      exact hc hok
    have he : effectOf L isMaster m outcome g = q := by rw [effectOf, hq, getD_some]
    obtain ⟨hall, hd, ha, hu⟩ := ih hqok hrest
    refine ⟨forall_mem_cons.mpr ⟨⟨by rw [hq, he], by rw [he]; exact hqok⟩, hall⟩, ?_, ?_, ?_⟩
    · rw [hd, flatMap_cons, he, ← append_assoc]
      rfl
    · rw [ha, flatMap_cons, he, ← append_assoc]
      rfl
    · rw [hu, flatMap_cons, he, ← append_assoc]
      rfl

@[simp] theorem applyUpdate_resource (g : GrabRec) (u : XID × Field × DetailMask) :
    (applyUpdate g u).resource = g.resource := by
  rw [applyUpdate]
  split
  · rfl
  · split <;> rfl

theorem foldl_applyUpdate_resource (g : GrabRec) (us : List (XID × Field × DetailMask)) :
    (us.foldl applyUpdate g).resource = g.resource := by
  induction us generalizing g with
  | nil => rfl
  | cons u us ih => rw [foldl_cons, ih, applyUpdate_resource]

theorem foldl_applyUpdate_filter (g : GrabRec) (us : List (XID × Field × DetailMask)) :
    us.foldl applyUpdate g = (us.filter fun u => u.1 = g.resource).foldl applyUpdate g := by
  induction us generalizing g with
  | nil => rfl
  | cons u us ih =>
    rw [foldl_cons, ih, applyUpdate_resource]
    by_cases hu : u.1 = g.resource
    · rw [filter_cons_of_pos (by simpa using hu), foldl_cons]
    · have hkeep : applyUpdate g u = g := by rw [applyUpdate, if_pos (Ne.symm hu)]
      rw [hkeep, filter_cons_of_neg (by simpa using hu)]

def kept (g : GrabRec) (q : Pending) : List GrabRec :=
  if q.deletes = [] then [q.updates.foldl applyUpdate g] else []

variable {effect : GrabRec → Pending}

theorem commit_eq (hnodup : (gs.map resource).Nodup)
    (heff : ∀ g ∈ gs, Effect L isMaster m g (outcome g.resource) (effect g))
    (hd : p.deletes = gs.flatMap fun g => (effect g).deletes)
    (ha : p.adds = gs.flatMap fun g => (effect g).adds)
    (hu : p.updates = gs.flatMap fun g => (effect g).updates) :
    commit p gs = (gs.flatMap fun g => (effect g).adds).reverse ++
      gs.flatMap fun g => kept g (effect g) := by
  have hdeleted : ∀ g ∈ gs, g.resource ∉ p.deletes ↔ (effect g).deletes = [] := by
    intro g hg
    rw [hd]
    constructor
    · intro hno
      refine ((heff g hg).deletes).resolve_right fun he => hno ?_
      exact mem_flatMap.mpr ⟨g, hg, by rw [he]; exact mem_singleton_self _⟩
    · intro he hmem
      obtain ⟨g', hg', hin⟩ := mem_flatMap.mp hmem
      rcases (heff g' hg').deletes with h | h
      · rw [h] at hin
        cases hin
      · rw [h, mem_singleton] at hin
        rw [inj_on_of_nodup_map hnodup hg hg' hin, h] at he
        cases he
  have hupdated : ∀ g ∈ gs, p.updates.foldl applyUpdate g =
      (effect g).updates.foldl applyUpdate g := by
    intro g hg
    rw [foldl_applyUpdate_filter, hu, filter_flatMap_key (fun g' hg' => (heff g' hg').updates)
      hnodup hg]
  rw [commit, freeGrabs, ha]
  refine congrArg (List.append _) ?_
  clear ha hd hu heff hnodup
  induction gs with
  | nil => rfl
  | cons g gs ih =>
    have ih := ih (fun g' hg' => hdeleted g' (mem_cons_of_mem _ hg'))
      fun g' hg' => hupdated g' (mem_cons_of_mem _ hg')
    rw [flatMap_cons, kept]
    by_cases he : (effect g).deletes = []
    · have hin := (hdeleted g mem_cons_self).mpr he
      rw [filter_cons_of_pos (by simpa using hin), map_cons, ih, if_pos he,
        hupdated g mem_cons_self]
      rfl
    · have hout := fun hin => he ((hdeleted g mem_cons_self).mp hin)
      rw [filter_cons_of_neg (by simpa using hout), ih, if_neg he]
      rfl

def Changes (L : Limits) (isMaster : Nat → Bool) (m g : GrabRec) : Bool :=
  affects L isMaster m g && !grabSupersedesSecond m g

def Splits (L : Limits) (isMaster : Nat → Bool) (m g : GrabRec) : Bool :=
  Changes L isMaster m g && g.detail.exact = anyKey &&
    g.modifiersDetail.exact = anyModifier m.grabtype && m.detail.exact ≠ anyKey &&
    m.modifiersDetail.exact ≠ anyModifier m.grabtype

def Outcome.Enough (o : Outcome) (L : Limits) (isMaster : Nat → Bool) (m g : GrabRec) : Prop :=
  (Changes L isMaster m g = true → o.update = true) ∧
  (Splits L isMaster m g = true →
    o.grab = true ∧ o.modifiers = true ∧ o.optional = true ∧ o.resource = true)

theorem update_enough (resource : XID) (field : Field) (detailMask : Option DetailMask) (k : Nat)
    (allocated : Bool) :
    (Pending.update {} resource field (deleteDetailFromMask detailMask k allocated)).ok =
        allocated ∧
      (Pending.update {} resource field (deleteDetailFromMask detailMask k allocated)).adds = [] := by
  cases allocated <;> exact ⟨rfl, rfl⟩

theorem splitGrab_cases (m g : GrabRec) (o : Outcome) :
    (g.grabtype = .xi2 ∧ o.grab = true ∧ splitGrab m g o {} = none) ∨
    (¬ (g.grabtype = .xi2 ∧ o.grab = true) ∧ ∃ q, splitGrab m g o {} = some q ∧
      (q.ok = true ↔ o.update = true ∧ o.grab = true ∧ o.modifiers = true ∧ o.optional = true ∧
        o.resource = true) ∧ ∀ n ∈ q.adds, n.resource = o.id) := by
  have hp := update_enough g.resource .detail g.detail.pMask m.detail.exact o.update
  rw [splitGrab, createGrab]
  generalize Pending.update {} g.resource .detail
    (deleteDetailFromMask g.detail.pMask m.detail.exact o.update) = p at hp ⊢
  obtain ⟨hok, hadds⟩ := hp
  cases hgrab : o.grab with
  | false => exact .inr ⟨by simp, _, rfl, by simp, by simp [hadds]⟩
  | true =>
    by_cases hxi : g.grabtype = .xi2
    · refine .inl ⟨hxi, rfl, ?_⟩
      simp [hxi, castMask]
    · refine .inr ⟨by simp [hxi], ?_⟩
      simp only [not_true, if_false, if_neg hxi, map_some]
      cases o.modifiers with
      | false => exact ⟨_, rfl, by simp [deleteDetailFromMask], by simp [deleteDetailFromMask, hadds]⟩
      | true =>
        cases o.optional with
        | false => exact ⟨_, rfl, by simp [deleteDetailFromMask],
            by simp [deleteDetailFromMask, hadds]⟩
        | true =>
          cases o.resource with
          | false => exact ⟨_, rfl, by simp [deleteDetailFromMask],
              by simp [deleteDetailFromMask, hadds]⟩
          | true => exact ⟨_, rfl, by simp [deleteDetailFromMask, hok],
              by simp [deleteDetailFromMask, hadds]⟩

theorem visitGrab_cases (hm : m.Plain) :
    (Splits L isMaster m g = true ∧ g.grabtype = .xi2 ∧ o.grab = true ∧
      visitGrab L isMaster m g o {} = none) ∨
    (¬ (Splits L isMaster m g = true ∧ g.grabtype = .xi2 ∧ o.grab = true) ∧
      ∃ q, visitGrab L isMaster m g o {} = some q ∧
        (q.ok = true ↔ o.Enough L isMaster m g) ∧ ∀ n ∈ q.adds, n.resource = o.id) := by
  rw [visitGrab, Outcome.Enough, Splits, Changes]
  split
  · next hno =>
    rw [Bool.of_not_eq_true hno]
    exact .inr ⟨by simp, _, rfl, by simp, by simp⟩
  next haff =>
  rw [not_not.mp haff]
  split
  · next hsup =>
    rw [hsup]
    exact .inr ⟨by simp, _, rfl, by simp, by simp⟩
  next hsup =>
  rw [Bool.of_not_eq_true hsup]
  have hu := fun r f d k => update_enough r f d k o.update
  split
  · next hany => exact .inr ⟨by simp [hany], _, rfl, by simp [hu, hany], by simp [hu]⟩
  next hany₁ =>
  split
  · next hany => exact .inr ⟨by simp [hany], _, rfl, by simp [hu, hany], by simp [hu]⟩
  next hany₂ =>
  split
  · next hexact =>
    obtain ⟨ht, hover⟩ := affects_spec (not_not.mp ‹¬¬affects L isMaster m g = true›)
    rw [supersedes_iff] at hsup
    have hboth := any_of_overlaps hm ht hover hsup hany₁ hany₂
    simpa [hboth, hexact] using splitGrab_cases m g o
  split
  · next hany => exact .inr ⟨by simp [hany], _, rfl, by simp [hu, hany], by simp [hu]⟩
  · next hne hany =>
    have hmod : m.modifiersDetail.exact = anyModifier m.grabtype := by
      by_contra hmod
      exact hne ⟨hany, hmod⟩
    exact .inr ⟨by simp [hmod], _, rfl, by simp [hu, hmod], by simp [hu]⟩

def SplitsXI2 (L : Limits) (isMaster : Nat → Bool) (m : GrabRec) (outcome : XID → Outcome)
    (gs : List GrabRec) : Prop :=
  ∃ before g after, gs = before ++ g :: after ∧
    (∀ b ∈ before, (outcome b.resource).Enough L isMaster m b) ∧
    Splits L isMaster m g = true ∧ g.grabtype = .xi2 ∧ (outcome g.resource).grab = true

theorem splitsXI2_cons (h : ¬ (Splits L isMaster m g = true ∧ g.grabtype = .xi2 ∧
    (outcome g.resource).grab = true)) : SplitsXI2 L isMaster m outcome (g :: gs) ↔
      (outcome g.resource).Enough L isMaster m g ∧ SplitsXI2 L isMaster m outcome gs := by
  constructor
  · rintro ⟨before, x, after, he, hbefore, hx⟩
    cases before with
    | nil =>
      cases he
      exact absurd hx h
    | cons b before =>
      cases he
      rw [forall_mem_cons] at hbefore
      exact ⟨hbefore.1, before, x, after, rfl, hbefore.2, hx⟩
  · rintro ⟨hg, before, x, after, rfl, hbefore, hx⟩
    exact ⟨g :: before, x, after, rfl, forall_mem_cons.mpr ⟨hg, hbefore⟩, hx⟩

theorem visitGrabs_crash (hm : m.Plain) (hp : p.ok = true) :
    visitGrabs L isMaster m outcome gs p = none ↔ SplitsXI2 L isMaster m outcome gs := by
  induction gs generalizing p with
  | nil =>
    refine iff_of_false nofun ?_
    rintro ⟨before, x, after, he, _⟩
    exact absurd he (by simp)
  | cons g gs ih =>
    rw [visitGrabs, if_pos hp, visitGrab_append hp]
    rcases visitGrab_cases (L := L) (m := m) (g := g) (o := outcome g.resource) hm with
      ⟨hs, hxi, hgrab, hnone⟩ | ⟨hno, q, hq, hok, _⟩
    · rw [hnone]
      exact iff_of_true rfl ⟨[], g, gs, rfl, by simp, hs, hxi, hgrab⟩
    · rw [hq, map_some, bind_some, splitsXI2_cons hno, ← hok]
      by_cases hqok : q.ok = true
      · rw [ih (p := p.append q) hqok, and_iff_right hqok]
      · have hf : (p.append q).ok = false := Bool.of_not_eq_true hqok
        rw [visitGrabs_failed gs hf]
        exact iff_of_false nofun fun h => hqok h.1

theorem visitGrabs_ids (hm : m.Plain) {p' : Pending} (hp : p.ok = true)
    (h : visitGrabs L isMaster m outcome gs p = some p') :
    ∀ n ∈ p'.adds, n ∈ p.adds ∨ ∃ g ∈ gs, n.resource = (outcome g.resource).id := by
  induction gs generalizing p with
  | nil =>
    cases h
    exact fun n hn => .inl hn
  | cons g gs ih =>
    rw [visitGrabs, if_pos hp, visitGrab_append hp] at h
    rcases visitGrab_cases (L := L) (m := m) (g := g) (o := outcome g.resource) hm with
      ⟨_, _, _, hnone⟩ | ⟨_, q, hq, _, hids⟩
    · rw [hnone] at h
      cases h
    · rw [hq, map_some, bind_some] at h
      have hfirst : ∀ n ∈ (p.append q).adds, n ∈ p.adds ∨
          ∃ g' ∈ g :: gs, n.resource = (outcome g'.resource).id := fun n hn =>
        (mem_append.mp hn).imp_right fun hn => ⟨g, mem_cons_self, hids n hn⟩
      by_cases hqok : q.ok = true
      · intro n hn
        rcases ih (p := p.append q) hqok h n hn with hn | ⟨g', hg', he⟩
        · exact hfirst n hn
        · exact .inr ⟨g', mem_cons_of_mem _ hg', he⟩
      · rw [visitGrabs_failed gs (p := p.append q) (Bool.of_not_eq_true hqok)] at h
        cases h
        exact hfirst

structure Fresh (L : Limits) (outcome : XID → Outcome) (gs : List GrabRec) : Prop where
  unused : ∀ g ∈ gs, (outcome g.resource).id ∉ gs.map resource
  distinct : (gs.map fun g => (outcome g.resource).id).Nodup
  client : ∀ g ∈ gs, L.clientIdForXID (outcome g.resource).id = L.clientIdForXID g.resource

/-- The grab is one of the minuend's client with its grab type, event type and device. -/
def Concerns (L : Limits) (isMaster : Nat → Bool) (m g : GrabRec) : Bool :=
  L.clientIdForXID g.resource = L.clientIdForXID m.resource &&
    GrabRec.SameKind isMaster g m (g.grabtype = .core)

def Covered (L : Limits) (isMaster : Nat → Bool) (m : GrabRec) (gs : List GrabRec)
    (x : Nat × Nat) : Prop :=
  ∃ g ∈ gs, Concerns L isMaster m g = true ∧ g.Covers x

structure SetDifference (L : Limits) (isMaster : Nat → Bool) (m : GrabRec)
    (gs gs' : List GrabRec) : Prop where
  covered : ∀ x, Covered L isMaster m gs' x ↔ Covered L isMaster m gs x ∧ ¬ m.Covers x
  others : gs'.filter (fun g => !Concerns L isMaster m g) =
    gs.filter fun g => !Concerns L isMaster m g
  splitFrom : ∀ n ∈ gs', ∃ g ∈ gs, n.SplitFrom g ∧
    L.clientIdForXID n.resource = L.clientIdForXID g.resource

theorem concerns_of_affects (h : affects L isMaster m g = true) :
    Concerns L isMaster m g = true := by
  rw [affects, Bool.and_eq_true, matches_iff] at h
  rw [Concerns, Bool.and_eq_true]
  exact ⟨h.1, h.2.1⟩

theorem GrabRec.SplitFrom.concerns {n : GrabRec} (h : n.SplitFrom g)
    (hc : L.clientIdForXID n.resource = L.clientIdForXID g.resource) :
    Concerns L isMaster m n = Concerns L isMaster m g := by
  rw [Concerns, Concerns, GrabRec.SameKind, GrabRec.SameKind, devicesMatch, devicesMatch, hc,
    h.grabtype, h.type, h.device, h.modifierDevice]

theorem Concerns.affects_of_meet (hm : m.Plain) (hc : Concerns L isMaster m g = true)
    {x : Nat × Nat} (hg : g.Covers x) (hx : m.Covers x) : affects L isMaster m g = true := by
  rw [Concerns, Bool.and_eq_true] at hc
  rw [affects, Bool.and_eq_true, matches_iff]
  have ht : g.grabtype = m.grabtype := by
    have hk := hc.2
    rw [GrabRec.SameKind] at hk
    simp only [Bool.and_eq_true, decide_eq_true_eq] at hk
    exact hk.1.1
  exact ⟨hc.1, hc.2, hm.overlaps ht hx hg⟩

theorem Effect.resource {q : Pending} (h : Effect L isMaster m g o q) {n : GrabRec}
    (hn : n ∈ remains g q) : n.resource = g.resource ∨ n.resource = o.id := by
  rcases mem_append.mp hn with hn | hn
  · have hmem := List.mem_map_of_mem (f := GrabRec.resource) hn
    rcases h.ids with he | he
    · rw [he] at hmem
      cases hmem
    · rw [he, mem_singleton] at hmem
      exact .inr hmem
  · split at hn
    · rw [mem_singleton.mp hn, foldl_applyUpdate_resource]
      exact .inl rfl
    · cases hn

theorem kept_idle (g : GrabRec) : kept g {} = [g] := rfl

theorem kept_others (heff : ∀ g ∈ gs, Effect L isMaster m g (outcome g.resource) (effect g))
    (hconcerns : ∀ g ∈ gs, ∀ n ∈ kept g (effect g),
      Concerns L isMaster m n = Concerns L isMaster m g) :
    (gs.flatMap fun g => kept g (effect g)).filter (fun g => !Concerns L isMaster m g) =
      gs.filter fun g => !Concerns L isMaster m g := by
  induction gs with
  | nil => rfl
  | cons g gs ih =>
    rw [flatMap_cons, filter_append, ih (fun g' hg' => heff g' (mem_cons_of_mem _ hg'))
      fun g' hg' => hconcerns g' (mem_cons_of_mem _ hg')]
    cases hc : Concerns L isMaster m g with
    | true =>
      have hnone : (kept g (effect g)).filter (fun g => !Concerns L isMaster m g) = [] := by
        refine filter_eq_nil_iff.mpr fun n hn => ?_
        rw [hconcerns g mem_cons_self n hn, hc]
        exact Bool.false_ne_true
      rw [hnone, nil_append, filter_cons_of_neg (by simp [hc])]
    | false =>
      have hidle : affects L isMaster m g = false := by
        by_contra ha
        rw [concerns_of_affects (Bool.of_not_eq_false ha)] at hc
        cases hc
      have hone : [g].filter (fun g => !Concerns L isMaster m g) = [g] := by simp [hc]
      rw [(heff g mem_cons_self).idle hidle, kept_idle, hone, filter_cons_of_pos (by simp [hc])]
      rfl

theorem map_flatMap_sublist {α β κ : Type} {r : β → κ} {f : α → List β} {k : α → κ} {l : List α}
    (h : ∀ a ∈ l, (f a).map r = [] ∨ (f a).map r = [k a]) :
    ((l.flatMap f).map r).Sublist (l.map k) := by
  induction l with
  | nil => exact .slnil
  | cons a l ih =>
    have ih := ih fun b hb => h b (mem_cons_of_mem _ hb)
    rw [flatMap_cons, map_append, map_cons]
    rcases h a mem_cons_self with he | he
    · rw [he]
      exact ih.cons _
    · rw [he]
      exact ih.cons_cons _

structure Committed (L : Limits) (isMaster : Nat → Bool) (m : GrabRec) (outcome : XID → Outcome)
    (gs gs' : List GrabRec) : Prop extends SetDifference L isMaster m gs gs' where
  nodup : (gs'.map resource).Nodup
  ids : ∀ n ∈ gs', n.resource ∈ gs.map resource ∨ ∃ g ∈ gs, n.resource = (outcome g.resource).id

theorem commit_nodup (hnodup : (gs.map resource).Nodup) (hfresh : Fresh L outcome gs)
    (heff : ∀ g ∈ gs, Effect L isMaster m g (outcome g.resource) (effect g)) :
    (((gs.flatMap fun g => (effect g).adds).reverse ++
      gs.flatMap fun g => kept g (effect g)).map resource).Nodup := by
  have hadds := map_flatMap_sublist (f := fun g => (effect g).adds)
    (k := fun g => (outcome g.resource).id) fun g hg => (heff g hg).ids
  have hkept := map_flatMap_sublist (l := gs) (f := fun g => kept g (effect g))
    (k := resource) (r := resource) fun g _ => by
      rw [kept]
      split
      · exact .inr (by rw [map_singleton, foldl_applyUpdate_resource])
      · exact .inl rfl
  rw [map_append, nodup_append]
  refine ⟨?_, hnodup.sublist hkept, fun a ha b hb he => ?_⟩
  · rw [map_reverse, nodup_reverse]
    exact hfresh.distinct.sublist hadds
  · rw [map_reverse, mem_reverse] at ha
    obtain ⟨g, hg, hid⟩ := List.mem_map.mp (hadds.subset ha)
    refine hfresh.unused g hg ?_
    rw [hid, he]
    exact hkept.subset hb

theorem commit_spec (hm : m.Plain) (hnodup : (gs.map resource).Nodup) (hfresh : Fresh L outcome gs)
    (h : visitGrabs L isMaster m outcome gs {} = some p) (hok : p.ok = true) :
    Committed L isMaster m outcome gs (commit p gs) := by
  obtain ⟨hall, hd, ha, hu⟩ := visitGrabs_effects rfl hok h
  have heff : ∀ g ∈ gs, Effect L isMaster m g (outcome g.resource)
      (effectOf L isMaster m outcome g) := fun g hg =>
    visitGrab_effect hm (hall g hg).1 (hall g hg).2
  have hcommit := commit_eq hnodup heff (by simpa using hd) (by simpa using ha) (by simpa using hu)
  have hmem : ∀ n, n ∈ commit p gs ↔ ∃ g ∈ gs, n ∈ remains g (effectOf L isMaster m outcome g) := by
    intro n
    rw [hcommit, mem_append, mem_reverse, mem_flatMap, mem_flatMap, ← exists_or]
    refine exists_congr fun g => ?_
    rw [← and_or_left, remains, mem_append]
    rfl
  have hclient : ∀ g ∈ gs, ∀ n ∈ remains g (effectOf L isMaster m outcome g),
      L.clientIdForXID n.resource = L.clientIdForXID g.resource := fun g hg n hn => by
    rcases (heff g hg).resource hn with he | he
    · rw [he]
    · rw [he, hfresh.client g hg]
  have hconcerns : ∀ g ∈ gs, ∀ n ∈ remains g (effectOf L isMaster m outcome g),
      Concerns L isMaster m n = Concerns L isMaster m g := fun g hg n hn =>
    ((heff g hg).splitFrom n hn).concerns (hclient g hg n hn)
  refine ⟨⟨fun x => ?_, ?_, fun n hn => ?_⟩, ?_, fun n hn => ?_⟩
  · constructor
    · rintro ⟨n, hn, hc, hx⟩
      obtain ⟨g, hg, hr⟩ := (hmem n).mp hn
      obtain ⟨hgx, hno⟩ := ((heff g hg).covers x).mp ⟨n, hr, hx⟩
      rw [hconcerns g hg n hr] at hc
      exact ⟨⟨g, hg, hc, hgx⟩, fun hmx => hno (Concerns.affects_of_meet hm hc hgx hmx) hmx⟩
    · rintro ⟨⟨g, hg, hc, hgx⟩, hmx⟩
      obtain ⟨n, hr, hx⟩ := ((heff g hg).covers x).mpr ⟨hgx, fun _ => hmx⟩
      exact ⟨n, (hmem n).mpr ⟨g, hg, hr⟩, by rw [hconcerns g hg n hr, hc], hx⟩
  · have hadds : ((gs.flatMap fun g => (effectOf L isMaster m outcome g).adds).reverse).filter
        (fun g => !Concerns L isMaster m g) = [] := by
      refine filter_eq_nil_iff.mpr fun n hn => ?_
      obtain ⟨g, hg, hin⟩ := mem_flatMap.mp (mem_reverse.mp hn)
      have haff : affects L isMaster m g = true := by
        by_contra hno
        rw [(heff g hg).idle (Bool.of_not_eq_true hno)] at hin
        cases hin
      rw [hconcerns g hg n (mem_append_left _ hin), concerns_of_affects haff]
      exact Bool.false_ne_true
    rw [hcommit, filter_append, hadds, nil_append]
    exact kept_others heff fun g hg n hn => hconcerns g hg n (mem_append_right _ hn)
  · obtain ⟨g, hg, hr⟩ := (hmem n).mp hn
    exact ⟨g, hg, (heff g hg).splitFrom n hr, hclient g hg n hr⟩
  · rw [hcommit]
    exact commit_nodup hnodup hfresh heff
  · obtain ⟨g, hg, hr⟩ := (hmem n).mp hn
    rcases (heff g hg).resource hr with he | he
    · rw [he]
      exact .inl (List.mem_map_of_mem hg)
    · exact .inr ⟨g, hg, he⟩

theorem deletePassiveGrabFromList_cases (isMaster : Nat → Bool) (hm : m.Plain) (hnodup : (gs.map resource).Nodup)
    (hfresh : Fresh L outcome gs) (arrays : Bool) :
    ((arrays = true ∧ SplitsXI2 L isMaster m outcome gs) ∧
      deletePassiveGrabFromList L isMaster m arrays outcome gs = none) ∨
    (¬ (arrays = true ∧ SplitsXI2 L isMaster m outcome gs) ∧
      ∃ ok gs', deletePassiveGrabFromList L isMaster m arrays outcome gs = some (ok, gs') ∧
        (ok = true → Committed L isMaster m outcome gs gs') ∧ (ok = false → gs' = gs)) := by
  rw [deletePassiveGrabFromList]
  split
  · next hnil =>
    refine .inr ⟨?_, true, gs, rfl, fun _ => ?_, nofun⟩
    · rintro ⟨_, before, x, after, he, _⟩
      rw [hnil] at he
      exact absurd he (by simp)
    · rw [hnil]
      exact ⟨⟨fun x => by simp [Covered], rfl, by simp⟩, .nil, by simp⟩
  split
  · next harrays => exact .inr ⟨fun h => harrays h.1, false, gs, rfl, nofun, fun _ => rfl⟩
  next harrays =>
  have hcrash : visitGrabs L isMaster m outcome gs {} = none ↔ _ := visitGrabs_crash hm rfl
  cases hvisit : visitGrabs L isMaster m outcome gs {} with
  | none => exact .inl ⟨⟨not_not.mp harrays, hcrash.mp hvisit⟩, rfl⟩
  | some p =>
    refine .inr ⟨fun h => ?_, ?_⟩
    · rw [hcrash.mpr h.2] at hvisit
      cases hvisit
    rw [map_some]
    split
    · refine ⟨false, _, rfl, nofun, fun _ => ?_⟩
      refine filter_eq_self.mpr fun g hg => decide_eq_true fun hin => ?_
      obtain ⟨n, hn, he⟩ := List.mem_map.mp hin
      rcases visitGrabs_ids hm rfl hvisit n hn with hn | ⟨g', hg', hid⟩
      · cases hn
      · exact hfresh.unused g' hg' (hid ▸ he ▸ List.mem_map_of_mem hg)
    · next hok =>
      exact ⟨true, _, rfl, fun _ => commit_spec hm hnodup hfresh hvisit (not_not.mp hok), nofun⟩

/-- The function returns; with `TRUE` the minuend is taken away, with `FALSE` nothing has
changed. -/
def Ungrabs (L : Limits) (isMaster : Nat → Bool) (m : GrabRec) (arrays : Bool)
    (outcome : XID → Outcome) (gs : List GrabRec) : Prop :=
  ∃ ok gs', deletePassiveGrabFromList L isMaster m arrays outcome gs = some (ok, gs') ∧
    (ok = true → SetDifference L isMaster m gs gs') ∧ (ok = false → gs' = gs)

/-- Ungrabbing is set difference unless it comes to a split of an XI2 grab, which crashes. -/
theorem ungrab_difference {arrays : Bool} (hm : m.Plain)
    (hnodup : (gs.map GrabRec.resource).Nodup) (hfresh : Fresh L outcome gs) :
    Ungrabs L isMaster m arrays outcome gs ↔
      ¬ (arrays = true ∧ SplitsXI2 L isMaster m outcome gs) := by
  rcases deletePassiveGrabFromList_cases isMaster hm hnodup hfresh arrays with
    ⟨hsplits, hnone⟩ | ⟨hno, ok, gs', hsome, htrue, hfalse⟩
  · refine iff_of_false ?_ (not_not.mpr hsplits)
    rintro ⟨ok, gs', he, _⟩
    rw [hnone] at he
    cases he
  · exact iff_of_true ⟨ok, gs', hsome, fun hok => (htrue hok).toSetDifference, hfalse⟩ hno

def limits : Limits := ⟨64, Resource.allowed_64⟩

def keyGrab (c : Nat) (grabtype : Touch.InputLevel) (detail modifiers : Nat) : GrabRec := {
  resource := limits.clientAsMask c ||| Resource.serverBit
  device := 3
  window := 9
  ownerEvents := 1
  keyboardMode := 1
  pointerMode := 1
  grabtype := grabtype
  type := 2
  modifiersDetail := ⟨modifiers, none⟩
  modifierDevice := 3
  detail := ⟨detail, none⟩
  confineTo := 0
  cursor := 0
  eventMask := if grabtype = .xi2 then 0 else 3
  deviceMask := 0
  xi2mask := if grabtype = .xi2 then 4 else 0 }

def plenty (bit : XID) : XID → Outcome := fun id => ⟨true, true, id ||| bit, true, true, true⟩

theorem keyGrab_plain (c : Nat) (grabtype : Touch.InputLevel) (detail modifiers : Nat)
    (hd : detail < 256) (hm : modifiers = anyModifier grabtype ∨ modifiers < 256) :
    (keyGrab c grabtype detail modifiers).Plain :=
  ⟨⟨fun _ => rfl, .inr hd⟩, ⟨fun _ => rfl, hm⟩⟩

/-- One key is taken from an XI2 grab of any key with any modifiers. -/
theorem ungrab_difference_xi2 : ¬ Ungrabs limits (fun _ => false) (keyGrab 1 .xi2 38 0) true
      (plenty 1) [keyGrab 1 .xi2 anyKey (anyModifier .xi2)] := by
  rintro ⟨ok, gs', h, _⟩
  have hnone : deletePassiveGrabFromList limits (fun _ => false) (keyGrab 1 .xi2 38 0) true
      (plenty 1)
      [keyGrab 1 .xi2 anyKey (anyModifier .xi2)] = none := by decide +kernel
  rw [hnone] at h
  cases h

/-- The same with a core grab. -/
theorem ungrab_difference_core : Ungrabs limits (fun _ => false) (keyGrab 1 .core 38 0) true
      (plenty 1) [keyGrab 1 .core anyKey (anyModifier .core)] := by
  refine (ungrab_difference (keyGrab_plain 1 .core 38 0 (by decide) (by decide)) (by decide +kernel)
    ⟨by decide +kernel, by decide +kernel, by decide +kernel⟩).mpr ?_
  rintro ⟨_, before, g, after, he, _, _, hxi, _⟩
  have hg : g ∈ [keyGrab 1 .core anyKey (anyModifier .core)] :=
    he ▸ mem_append_right before mem_cons_self
  rw [mem_singleton.mp hg] at hxi
  cases hxi

end Xfront.Grabs
