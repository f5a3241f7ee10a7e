import Xfront.Grabs.Cover

/-!
# What is left of one grab

When grabs are deleted each grab of the list is visited. What the visit adds to the pending
changes depends on that grab only, and what these leave of it covers what it covered less
what the minuend covers.
-/

namespace Xfront.Grabs
open List Option
open Resource (XID Limits)

variable {L : Limits} {isMaster : Nat → Bool} {m g : GrabRec} {o : Outcome}

def Pending.append (p q : Pending) : Pending :=
  ⟨p.deletes ++ q.deletes, p.adds ++ q.adds, p.updates ++ q.updates, q.ok⟩

variable {p : Pending}

open Pending

theorem Pending.update_append (hp : p.ok = true) (resource : XID) (field : Field)
    (mask : Option DetailMask) :
    p.update resource field mask = p.append (update {} resource field mask) := by
  cases mask <;> simp [update, Pending.append, hp]

theorem splitGrab_append (hp : p.ok = true) :
    splitGrab m g o p = (splitGrab m g o {}).map p.append := by
  rw [splitGrab, splitGrab, Option.map_map]
  refine congrArg (Option.map · _) (funext fun newGrab => ?_)
  rw [update_append hp, Function.comp]
  cases newGrab with
  | none => rfl
  | some newGrab =>
    dsimp only
    split
    · rfl
    · split
      · rfl
      · split
        · rfl
        · simp [Pending.append, append_assoc]

theorem visitGrab_append (hp : p.ok = true) :
    visitGrab L isMaster m g o p = (visitGrab L isMaster m g o {}).map p.append := by
  rw [visitGrab, visitGrab]
  have hkeep : p.append {} = p := by
    simp [Pending.append, ← hp]
  repeat' split
  · rw [map_some, hkeep]
  · simp [Pending.append, hp]
  · rw [map_some, update_append hp]
  · rw [map_some, update_append hp]
  · exact splitGrab_append hp
  · rw [map_some, update_append hp]
  · rw [map_some, update_append hp]

structure GrabRec.SplitFrom (n g : GrabRec) : Prop where
  device : n.device = g.device
  modifierDevice : n.modifierDevice = g.modifierDevice
  window : n.window = g.window
  grabtype : n.grabtype = g.grabtype
  type : n.type = g.type
  ownerEvents : n.ownerEvents = g.ownerEvents
  modes : n.keyboardMode = g.keyboardMode ∧ n.pointerMode = g.pointerMode
  confineTo : n.confineTo = g.confineTo
  cursor : n.cursor = g.cursor
  mask : if g.grabtype = .xi2 then n.xi2mask = g.xi2mask else n.eventMask = g.eventMask
  covers : ∀ x, n.Covers x → g.Covers x

theorem GrabRec.SplitFrom.refl (g : GrabRec) : g.SplitFrom g :=
  ⟨rfl, rfl, rfl, rfl, rfl, rfl, ⟨rfl, rfl⟩, rfl, rfl, by split <;> rfl, fun _ h => h⟩

def GrabRec.withDetail (g : GrabRec) (mask : DetailMask) : GrabRec :=
  { g with detail := ⟨g.detail.exact, some mask⟩ }

def GrabRec.withModifiers (g : GrabRec) (mask : DetailMask) : GrabRec :=
  { g with modifiersDetail := ⟨g.modifiersDetail.exact, some mask⟩ }

theorem applyUpdate_detail (g : GrabRec) (mask : DetailMask) :
    applyUpdate g (g.resource, .detail, mask) = g.withDetail mask := by
  rw [applyUpdate, if_neg (by simp)]
  rfl

theorem applyUpdate_modifiers (g : GrabRec) (mask : DetailMask) :
    applyUpdate g (g.resource, .modifiersDetail, mask) = g.withModifiers mask := by
  rw [applyUpdate, if_neg (by simp)]
  rfl

def DetailAround (any : Nat) (d p : DetailRec) : Prop :=
  d.exact = any ∧ p.exact ≠ any ∧ p.exact < 256 ∧ d.Covers any p.exact

variable {mask : DetailMask}

open DetailRec

theorem withDetail_covers (h : DetailAround anyKey g.detail m.detail)
    (hmask : deleteDetailFromMask g.detail.pMask m.detail.exact true = some mask) (x : Nat × Nat) :
    (g.withDetail mask).Covers x ↔ g.Covers x ∧ ¬ m.detail.Covers anyKey x.1 := by
  obtain ⟨hg, hm, hlt, _⟩ := h
  rw [GrabRec.Covers, GrabRec.Covers, GrabRec.withDetail, covers_deleted hg hlt hmask,
    covers_exact hm]
  tauto

theorem withModifiers_covers
    (h : DetailAround (anyModifier g.grabtype) g.modifiersDetail m.modifiersDetail)
    (hmask : deleteDetailFromMask g.modifiersDetail.pMask m.modifiersDetail.exact true = some mask)
    (x : Nat × Nat) : (g.withModifiers mask).Covers x ↔
      g.Covers x ∧ ¬ m.modifiersDetail.Covers (anyModifier g.grabtype) x.2 := by
  obtain ⟨hg, hm, hlt, _⟩ := h
  rw [GrabRec.Covers, GrabRec.Covers, GrabRec.withModifiers, covers_deleted hg hlt hmask,
    covers_exact hm]
  tauto

theorem withDetail_splitFrom
    (h : ∀ x, (g.withDetail mask).Covers x → g.Covers x) : (g.withDetail mask).SplitFrom g :=
  ⟨rfl, rfl, rfl, rfl, rfl, rfl, ⟨rfl, rfl⟩, rfl, rfl, by split <;> rfl, h⟩

theorem withModifiers_splitFrom (h : ∀ x, (g.withModifiers mask).Covers x → g.Covers x) :
    (g.withModifiers mask).SplitFrom g :=
  ⟨rfl, rfl, rfl, rfl, rfl, rfl, ⟨rfl, rfl⟩, rfl, rfl, by split <;> rfl, h⟩

def remains (g : GrabRec) (q : Pending) : List GrabRec :=
  q.adds ++ if q.deletes = [] then [q.updates.foldl applyUpdate g] else []

structure Effect (L : Limits) (isMaster : Nat → Bool) (m g : GrabRec) (o : Outcome) (q : Pending) :
    Prop where
  deletes : q.deletes = [] ∨ q.deletes = [g.resource]
  updates : ∀ u ∈ q.updates, u.1 = g.resource
  ids : q.adds.map GrabRec.resource = [] ∨ q.adds.map GrabRec.resource = [o.id]
  idle : affects L isMaster m g = false → q = {}
  splitFrom : ∀ n ∈ remains g q, n.SplitFrom g
  covers : ∀ x, (∃ n ∈ remains g q, n.Covers x) ↔
    g.Covers x ∧ (affects L isMaster m g = true → ¬ m.Covers x)

theorem affects_spec (h : affects L isMaster m g = true) :
    g.grabtype = m.grabtype ∧ GrabRec.Overlaps g m := by
  rw [affects, Bool.and_eq_true, GrabRec.matches_iff, GrabRec.SameKind] at h
  obtain ⟨_, hkind, hover⟩ := h
  simp only [Bool.and_eq_true, decide_eq_true_eq] at hkind
  exact ⟨hkind.1.1, hover⟩

theorem update_ok {resource : XID} {field : Field} {detailMask : Option DetailMask} {k : Nat}
    {allocated : Bool}
    (h : (update {} resource field (deleteDetailFromMask detailMask k allocated)).ok = true) :
    ∃ mask, deleteDetailFromMask detailMask k true = some mask ∧
      update {} resource field (deleteDetailFromMask detailMask k allocated) =
        { updates := [(resource, field, mask)] } := by
  cases allocated with
  | false => cases h
  | true => exact ⟨_, rfl, rfl⟩

theorem effect_keep (h : affects L isMaster m g = false) : Effect L isMaster m g o {} := by
  refine ⟨.inl rfl, nofun, .inl rfl, fun _ => rfl, ?_, fun x => ?_⟩
  · intro n hn
    rw [mem_singleton.mp hn]
    exact .refl g
  · rw [h]
    simp [remains]

theorem effect_delete (h : affects L isMaster m g = true) (hall : ∀ x, g.Covers x → m.Covers x) :
    Effect L isMaster m g o { deletes := [g.resource] } := by
  have hremains : remains g { deletes := [g.resource] } = [] := by simp [remains]
  refine ⟨.inr rfl, nofun, .inl rfl, fun hno => ?_, ?_, fun x => ?_⟩
  · rw [h] at hno
    cases hno
  · rw [hremains]
    exact fun n hn => absurd hn not_mem_nil
  · rw [hremains]
    have hx := hall x
    simp only [not_mem_nil, false_and, exists_false, h, true_imp_iff, false_iff, not_and, not_not]
    exact hx

theorem effect_update (h : affects L isMaster m g = true) {field : Field}
    {g' : GrabRec} (hg : applyUpdate g (g.resource, field, mask) = g') (hfrom : g'.SplitFrom g)
    (hcovers : ∀ x, g'.Covers x ↔ g.Covers x ∧ ¬ m.Covers x) :
    Effect L isMaster m g o { updates := [(g.resource, field, mask)] } := by
  have hremains : remains g { updates := [(g.resource, field, mask)] } = [g'] := by
    rw [remains, if_pos rfl, foldl_cons, foldl_nil, hg]
    rfl
  refine ⟨.inl rfl, ?_, .inl rfl, fun hno => ?_, ?_, fun x => ?_⟩
  · intro u hu
    rw [mem_singleton.mp hu]
  · rw [h] at hno
    cases hno
  · intro n hn
    rw [hremains, mem_singleton] at hn
    rw [hn]
    exact hfrom
  · rw [hremains]
    simp [h, hcovers]

theorem effect_detail (hm : m.Plain) (h : affects L isMaster m g = true)
    (hd : DetailAround anyKey g.detail m.detail)
    (hsup : detailSupersedesSecond m.modifiersDetail g.modifiersDetail (anyModifier m.grabtype) =
      true) (hmask : deleteDetailFromMask g.detail.pMask m.detail.exact true = some mask) :
    Effect L isMaster m g o { updates := [(g.resource, .detail, mask)] } := by
  have hcov := withDetail_covers hd hmask
  refine effect_update h (applyUpdate_detail g mask) (withDetail_splitFrom fun x hx =>
    ((hcov x).mp hx).1) fun x => ?_
  rw [hcov, and_congr_right_iff]
  intro hx
  have hmods := hm.modifiers.covers_of_supersedes hsup ((affects_spec h).1 ▸ hx.2)
  exact not_congr (and_iff_left hmods).symm

theorem effect_modifiers (hm : m.Plain) (h : affects L isMaster m g = true)
    (hd : DetailAround (anyModifier m.grabtype) g.modifiersDetail m.modifiersDetail)
    (hsup : detailSupersedesSecond m.detail g.detail anyKey = true)
    (hmask : deleteDetailFromMask g.modifiersDetail.pMask m.modifiersDetail.exact true =
      some mask) :
    Effect L isMaster m g o { updates := [(g.resource, .modifiersDetail, mask)] } := by
  have ht := (affects_spec h).1
  have hcov := withModifiers_covers (ht ▸ hd) hmask
  refine effect_update h (applyUpdate_modifiers g mask) (withModifiers_splitFrom fun x hx =>
    ((hcov x).mp hx).1) fun x => ?_
  rw [hcov, and_congr_right_iff]
  intro hx
  have hdetail := hm.detail.covers_of_supersedes hsup hx.1
  rw [GrabRec.Covers, ht]
  exact not_congr (and_iff_right hdetail).symm

def splitOff (m g : GrabRec) (id : XID) (mods : DetailMask) : GrabRec :=
  { g with
    resource := id
    deviceMask := 0
    xi2mask := xi2maskNew
    detail := ⟨m.detail.exact, none⟩
    modifiersDetail := ⟨anyModifier m.grabtype, some mods⟩ }

variable {q : Pending}

theorem splitGrab_ok (hlt : m.detail.exact < 256)
    (hq : splitGrab m g o {} = some q) (hok : q.ok = true) :
    ∃ mask mods, deleteDetailFromMask g.detail.pMask m.detail.exact true = some mask ∧
      deleteDetailFromMask g.modifiersDetail.pMask m.modifiersDetail.exact true = some mods ∧
      g.grabtype ≠ .xi2 ∧
      q = { adds := [splitOff m g o.id mods], updates := [(g.resource, .detail, mask)] } := by
  rw [splitGrab, createGrab] at hq
  cases hgrab : o.grab with
  | false =>
    rw [hgrab] at hq
    cases hq
    cases hok
  | true =>
    rw [hgrab] at hq
    have hxi : g.grabtype ≠ .xi2 := fun hxi => by simp [hxi, GrabRec.castMask] at hq
    have hcore : g.grabtype = .core ∨ g.grabtype = .xi := by
      cases hg : g.grabtype with
      | core => exact .inl rfl
      | xi => exact .inr rfl
      | xi2 => exact absurd hg hxi
    rw [if_neg (by simp), if_neg hxi, if_pos hcore, map_some] at hq
    cases hmods : deleteDetailFromMask g.modifiersDetail.pMask m.modifiersDetail.exact
        o.modifiers with
    | none =>
      rw [hmods] at hq
      cases hq
      cases hok
    | some mods =>
      rw [hmods] at hq
      dsimp only at hq
      have hq := some.inj hq
      have htrue : deleteDetailFromMask g.modifiersDetail.pMask m.modifiersDetail.exact true =
          some mods := by
        cases hm : o.modifiers with
        | false =>
          rw [hm] at hmods
          cases hmods
        | true => rwa [hm] at hmods
      split at hq
      · rw [← hq] at hok
        cases hok
      split at hq
      · rw [← hq] at hok
        cases hok
      rw [← hq] at hok ⊢
      obtain ⟨mask, hmask, he⟩ := update_ok hok
      refine ⟨mask, mods, hmask, htrue, hxi, ?_⟩
      rw [he, splitOff, GrabRec.castMask]
      simp [Nat.mod_eq_of_lt hlt]

theorem splitOff_splitFrom {id : XID} {mods : DetailMask} (hxi : g.grabtype ≠ .xi2)
    (h : ∀ x, (splitOff m g id mods).Covers x → g.Covers x) : (splitOff m g id mods).SplitFrom g :=
  ⟨rfl, rfl, rfl, rfl, rfl, rfl, ⟨rfl, rfl⟩, rfl, rfl, by rw [if_neg hxi]; rfl, h⟩

theorem splitOff_covers (ht : g.grabtype = m.grabtype) (hd : DetailAround anyKey g.detail m.detail)
    (hmod : DetailAround (anyModifier m.grabtype) g.modifiersDetail m.modifiersDetail)
    {mods : DetailMask}
    (hmods : deleteDetailFromMask g.modifiersDetail.pMask m.modifiersDetail.exact true = some mods)
    (id : XID) (x : Nat × Nat) : (splitOff m g id mods).Covers x ↔
      (g.Covers x ∧ m.detail.Covers anyKey x.1) ∧
        ¬ m.modifiersDetail.Covers (anyModifier m.grabtype) x.2 := by
  have hx := covers_deleted hmod.1 hmod.2.2.1 hmods (x := x.2)
  rw [hmod.1] at hx
  have hk : (⟨m.detail.exact, none⟩ : DetailRec).Covers anyKey x.1 ↔ x.1 = m.detail.exact :=
    covers_exact (d := ⟨m.detail.exact, none⟩) hd.2.1
  rw [GrabRec.Covers, GrabRec.Covers, splitOff, hk, covers_exact hd.2.1,
    covers_exact hmod.2.1, ht, hx]
  constructor
  · rintro ⟨he, hm⟩
    exact ⟨⟨⟨he ▸ hd.2.2.2, hm.1⟩, he⟩, hm.2⟩
  · exact fun ⟨⟨h, he⟩, hne⟩ => ⟨he, h.2, hne⟩

theorem effect_split (h : affects L isMaster m g = true)
    (hd : DetailAround anyKey g.detail m.detail)
    (hmod : DetailAround (anyModifier m.grabtype) g.modifiersDetail m.modifiersDetail)
    (hq : splitGrab m g o {} = some q) (hok : q.ok = true) : Effect L isMaster m g o q := by
  obtain ⟨ht, _⟩ := affects_spec h
  obtain ⟨mask, mods, hmask, hmods, hxi, rfl⟩ := splitGrab_ok hd.2.2.1 hq hok
  have hcov := withDetail_covers hd hmask
  have hnew := splitOff_covers ht hd hmod hmods o.id
  have hremains : remains g
      { adds := [splitOff m g o.id mods], updates := [(g.resource, .detail, mask)] } =
        [splitOff m g o.id mods, g.withDetail mask] := by
    rw [remains, if_pos rfl, foldl_cons, foldl_nil, applyUpdate_detail]
    rfl
  refine ⟨.inl rfl, ?_, .inr rfl, fun hno => ?_, ?_, fun x => ?_⟩
  · intro u hu
    rw [mem_singleton.mp hu]
  · rw [h] at hno
    cases hno
  · intro n hn
    rw [hremains] at hn
    rcases mem_pair.mp hn with rfl | rfl
    · exact splitOff_splitFrom hxi fun x hx => ((hnew x).mp hx).1.1
    · exact withDetail_splitFrom fun x hx => ((hcov x).mp hx).1
  · rw [hremains]
    simp only [mem_pair, exists_eq_or_imp, exists_eq_left, h, true_imp_iff]
    have hm : m.Covers x ↔ m.detail.Covers anyKey x.1 ∧
        m.modifiersDetail.Covers (anyModifier m.grabtype) x.2 := Iff.rfl
    rw [hnew, hcov, hm]
    tauto

theorem around_of_not_supersedes {any : Nat} {d p : DetailRec} (h : p.Plain any)
    (hover : detailSupersedesSecond d p any = true ∨ detailSupersedesSecond p d any = true)
    (hn : ¬ detailSupersedesSecond p d any = true) : DetailAround any d p :=
  h.around (hover.resolve_right hn) (Bool.of_not_eq_true hn)

theorem exact_superseded {any : Nat} {d p : DetailRec} (h : p.Plain any)
    (hover : detailSupersedesSecond d p any = true ∨ detailSupersedesSecond p d any = true)
    (hd : d.exact ≠ any) : detailSupersedesSecond p d any = true := by
  by_contra hn
  exact hd (around_of_not_supersedes h hover hn).1

theorem any_of_overlaps (hm : m.Plain) (ht : g.grabtype = m.grabtype) (hover : GrabRec.Overlaps g m)
    (hsup : ¬ (detailSupersedesSecond m.detail g.detail anyKey = true ∧
      detailSupersedesSecond m.modifiersDetail g.modifiersDetail (anyModifier m.grabtype) = true))
    (h₁ : ¬ (g.detail.exact = anyKey ∧ g.modifiersDetail.exact ≠ anyModifier m.grabtype))
    (h₂ : ¬ (g.modifiersDetail.exact = anyModifier m.grabtype ∧ g.detail.exact ≠ anyKey)) :
    g.detail.exact = anyKey ∧ g.modifiersDetail.exact = anyModifier m.grabtype := by
  by_contra hno
  rw [GrabRec.Overlaps, ht] at hover
  exact hsup ⟨exact_superseded hm.detail hover.1 (by tauto),
    exact_superseded hm.modifiers hover.2 (by tauto)⟩

theorem visitGrab_effect (hm : m.Plain)
    (h : visitGrab L isMaster m g o {} = some q) (hok : q.ok = true) :
    Effect L isMaster m g o q := by
  rw [visitGrab] at h
  split at h
  · next hno =>
    cases h
    exact effect_keep (Bool.of_not_eq_true hno)
  next haff =>
  have haff : affects L isMaster m g = true := not_not.mp haff
  obtain ⟨ht, hoverD, hoverM⟩ := affects_spec haff
  rw [ht] at hoverM
  split at h
  · next hsup =>
    cases h
    exact effect_delete haff fun x hx => hm.covers_of_supersedes ht hsup hx
  next hsup =>
  rw [GrabRec.supersedes_iff] at hsup
  have hexactD := exact_superseded hm.detail hoverD
  have hexactM := exact_superseded hm.modifiers hoverM
  split at h
  · next hany =>
    cases h
    obtain ⟨mask, hmask, he⟩ := update_ok hok
    have hM := hexactM hany.2
    rw [he]
    exact effect_detail hm haff (around_of_not_supersedes hm.detail hoverD
      fun hD => hsup ⟨hD, hM⟩) hM hmask
  next hany₁ =>
  split at h
  · next hany =>
    cases h
    obtain ⟨mask, hmask, he⟩ := update_ok hok
    have hD := hexactD hany.2
    rw [he]
    exact effect_modifiers hm haff (around_of_not_supersedes hm.modifiers hoverM
      fun hM => hsup ⟨hD, hM⟩) hD hmask
  next hany₂ =>
  have hboth := any_of_overlaps hm ht ⟨hoverD, ht ▸ hoverM⟩ hsup hany₁ hany₂
  split at h
  · next hexact =>
    refine effect_split haff (around_of_not_supersedes hm.detail hoverD fun hD => ?_)
      (around_of_not_supersedes hm.modifiers hoverM fun hM => ?_) h hok
    · exact hexact.1 (((supersedes_exact hexact.1).mp hD).symm.trans hboth.1)
    · exact hexact.2 (((supersedes_exact hexact.2).mp hM).symm.trans hboth.2)
  next hexact =>
  split at h
  · next hkey =>
    cases h
    obtain ⟨mask, hmask, he⟩ := update_ok hok
    have hD := supersedes_any (d := g.detail) hkey (hm.detail.unmasked hkey)
    rw [he]
    exact effect_modifiers hm haff (around_of_not_supersedes hm.modifiers hoverM
      fun hM => hsup ⟨hD, hM⟩) hD hmask
  · next hkey =>
    cases h
    obtain ⟨mask, hmask, he⟩ := update_ok hok
    have hany : m.modifiersDetail.exact = anyModifier m.grabtype := by
      by_contra hne
      exact hexact ⟨hkey, hne⟩
    have hM := supersedes_any (d := g.modifiersDetail) hany (hm.modifiers.unmasked hany)
    rw [he]
    exact effect_detail hm haff (around_of_not_supersedes hm.detail hoverD
      fun hD => hsup ⟨hD, hM⟩) hM hmask

end Xfront.Grabs
