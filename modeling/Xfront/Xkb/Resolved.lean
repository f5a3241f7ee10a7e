import Xfront.Xkb.Model

/-!
# Resolved keyboard descriptions

A description is resolved when every copy of a virtual modifier's binding is up to date.
-/

namespace Xfront.Xkb

open List Function

def XkbDescRec.vmods (xkb : XkbDescRec) (i : Fin 16) : BitVec 8 :=
  match xkb.server with
  | none => 0
  | some server => server.vmods i

def XkbDescRec.Bound (xkb : XkbDescRec) (vmods : BitVec 16) (b : Nat) : Prop :=
  ∃ i : Fin 16, vmods.getLsbD i = true ∧ (xkb.vmods i).getLsbD b = true

theorem getLsbD_foldl_or {ι : Type} (l : List ι) (p : ι → Bool) (f : ι → BitVec 8)
    (mask : BitVec 8) (b : Nat) :
    (l.foldl (fun mask i => if p i then mask ||| f i else mask) mask).getLsbD b = true ↔
      mask.getLsbD b = true ∨ ∃ i ∈ l, p i = true ∧ (f i).getLsbD b = true := by
  induction l generalizing mask with
  | nil => simp
  | cons i l ih =>
    rw [foldl_cons, ih]
    cases hp : p i <;> simp [hp, or_assoc]

theorem getLsbD_virtualModsToReal (xkb : XkbDescRec) (vmods : BitVec 16) (b : Nat) :
    (xkb.virtualModsToReal vmods).getLsbD b = true ↔ xkb.Bound vmods b := by
  cases hs : xkb.server with
  | none => simp [XkbDescRec.virtualModsToReal, XkbDescRec.Bound, XkbDescRec.vmods, hs]
  | some server =>
    simp only [XkbDescRec.virtualModsToReal, XkbDescRec.Bound, XkbDescRec.vmods, hs]
    split
    · next hzero => simp [hzero]
    · rw [getLsbD_foldl_or]
      simp

variable {xkb : XkbDescRec}

theorem virtualModsToReal_ne_zero {vmods : BitVec 16} :
    xkb.virtualModsToReal vmods ≠ 0 ↔ ∃ b, xkb.Bound vmods b := by
  constructor
  · intro hne
    by_contra hnone
    refine hne (BitVec.eq_of_getLsbD_eq fun b _ => ?_)
    rw [Bool.eq_iff_iff, getLsbD_virtualModsToReal]
    simpa using fun hb => hnone ⟨b, hb⟩
  · rintro ⟨b, hb⟩ hzero
    rw [← getLsbD_virtualModsToReal, hzero] at hb
    simp at hb

def XkbDescRec.ModsResolved (xkb : XkbDescRec) (m : XkbModsRec) : Prop :=
  ∀ b, m.mask.getLsbD b = true ↔ m.realMods.getLsbD b = true ∨ xkb.Bound m.vmods b

theorem modsResolved_iff {m : XkbModsRec} :
    xkb.ModsResolved m ↔ m.mask = m.realMods ||| xkb.virtualModsToReal m.vmods := by
  constructor
  · intro h
    refine BitVec.eq_of_getLsbD_eq fun b _ => ?_
    rw [Bool.eq_iff_iff, h b, BitVec.getLsbD_or, Bool.or_eq_true, getLsbD_virtualModsToReal]
  · intro h b
    rw [h, BitVec.getLsbD_or, Bool.or_eq_true, getLsbD_virtualModsToReal]

structure XkbDescRec.EntryResolved (xkb : XkbDescRec) (e : XkbKTMapEntryRec) : Prop where
  mods : xkb.ModsResolved e.mods
  active : e.mods.vmods ≠ 0 → (e.active = true ↔ ∃ b, xkb.Bound e.mods.vmods b)

structure XkbDescRec.TypeResolved (xkb : XkbDescRec) (t : XkbKeyTypeRec) : Prop where
  mods : xkb.ModsResolved t.mods
  entries : ∀ e ∈ t.map, xkb.EntryResolved e

structure XkbDescRec.ActionResolved (xkb : XkbDescRec) (act : XkbAction) : Prop where
  mods : act.isMods = true → xkb.ModsResolved act.modsMods
  iso : act.type = saISOLock → xkb.ModsResolved act.isoMods

def XkbDescRec.KeyAction (xkb : XkbDescRec) (act : XkbAction) : Prop :=
  ∃ server, xkb.server = some server ∧ ∃ slot ∈ xkb.actionSlots, server.acts[slot.2]? = some act

structure XkbDescRec.Resolved (xkb : XkbDescRec) : Prop where
  types : ∀ map, xkb.map = some map → ∀ t ∈ map.types, xkb.TypeResolved t
  actions : ∀ act, xkb.KeyAction act → xkb.ActionResolved act
  internal : xkb.ModsResolved xkb.ctrls.internal
  ignoreLock : xkb.ModsResolved xkb.ctrls.ignoreLock
  indicators : ∀ maps, xkb.indicators = some maps → ∀ i, xkb.ModsResolved (maps i)
  compat : ∀ groups, xkb.compat = some groups → ∀ i, xkb.ModsResolved (groups i)

def XkbDescRec.rebind (xkb : XkbDescRec) (vmods : Fin 16 → BitVec 8) : XkbDescRec :=
  { xkb with server := xkb.server.map fun server => { server with vmods := vmods } }

def Settled (old new : XkbDescRec) (m : XkbModsRec) : Prop :=
  m.realMods ||| new.virtualModsToReal m.vmods = m.realMods ||| old.virtualModsToReal m.vmods

/-- Nothing that the function passes over depends on the new bindings: everything but the types
without a client map, the entries of a type that has none of the changed modifiers, and the
`ISOLock` actions when the first virtual modifier is not changed. -/
structure Reaches (old new : XkbDescRec) (changed : BitVec 16) : Prop where
  objects : new.map = none → Settled old new new.ctrls.internal ∧
    Settled old new new.ctrls.ignoreLock ∧
    (∀ maps, new.indicators = some maps → ∀ i, Settled old new (maps i)) ∧
    ∀ groups, new.compat = some groups → ∀ i, Settled old new (groups i)
  entries : ∀ map, new.map = some map → ∀ t ∈ map.types, t.mods.vmods &&& changed = 0 →
    ∀ e ∈ t.map, Settled old new e.mods ∧ (e.mods.vmods ≠ 0 →
      (new.virtualModsToReal e.mods.vmods = 0 ↔ old.virtualModsToReal e.mods.vmods = 0))
  isoLocks : changed.getLsbD 0 = false → ∀ act, new.KeyAction act → act.type = saISOLock →
    Settled old new act.isoMods

/-- The bindings differ only where `changed` says so. -/
def Rebound (old new : XkbDescRec) (changed : BitVec 16) : Prop :=
  ∀ i : Fin 16, new.vmods i ≠ old.vmods i → changed.getLsbD i = true

theorem virtualModsToReal_congr {old new : XkbDescRec} {changed vmods : BitVec 16}
    (h : Rebound old new changed) (hv : vmods &&& changed = 0) :
    new.virtualModsToReal vmods = old.virtualModsToReal vmods := by
  have hsame : ∀ i : Fin 16, vmods.getLsbD i = true → new.vmods i = old.vmods i := by
    intro i hi
    by_contra hne
    have hbit : (vmods &&& changed).getLsbD i = true := by
      rw [BitVec.getLsbD_and, hi, h i hne]
      rfl
    rw [hv] at hbit
    simp at hbit
  refine BitVec.eq_of_getLsbD_eq fun b _ => ?_
  rw [Bool.eq_iff_iff, getLsbD_virtualModsToReal, getLsbD_virtualModsToReal]
  constructor
  · rintro ⟨i, hi, hb⟩
    exact ⟨i, hi, hsame i hi ▸ hb⟩
  · rintro ⟨i, hi, hb⟩
    exact ⟨i, hi, (hsame i hi).symm ▸ hb⟩

section

variable {old new : XkbDescRec} {changed : BitVec 16} {m : XkbModsRec}

theorem resolved_iff_settled (hm : old.ModsResolved m) :
    new.ModsResolved m ↔ Settled old new m := by
  rw [modsResolved_iff] at hm ⊢
  rw [Settled, hm, eq_comm]

theorem resolved_of_disjoint (h : Rebound old new changed)
    (hm : old.ModsResolved m) (hv : m.vmods &&& changed = 0) : new.ModsResolved m := by
  rw [resolved_iff_settled hm, Settled, virtualModsToReal_congr h hv]

theorem resolveMods_resolved (xkb : XkbDescRec) (m : XkbModsRec) :
    xkb.ModsResolved (xkb.resolveMods m) := modsResolved_iff.mpr rfl

theorem refreshMods_resolved (h : Rebound old new changed)
    (hm : old.ModsResolved m) : new.ModsResolved (new.refreshMods changed m) := by
  rw [XkbDescRec.refreshMods]
  split
  · exact resolveMods_resolved new m
  · next hv =>
    rw [BitVec.and_comm, not_not] at hv
    exact resolved_of_disjoint h hm hv

variable {e : XkbKTMapEntryRec}

theorem updateEntry_resolved (h : Rebound old new changed)
    (he : old.EntryResolved e) : new.EntryResolved (new.updateEntry e) := by
  rw [XkbDescRec.updateEntry]
  split
  · refine ⟨resolveMods_resolved new e.mods, fun _ => ?_⟩
    rw [decide_eq_true_eq]
    exact virtualModsToReal_ne_zero
  · next hv =>
    rw [not_not] at hv
    refine ⟨resolved_of_disjoint h he.mods (by simp [hv]), fun hne => ?_⟩
    exact absurd hv hne

theorem entry_resolved_iff (he : old.EntryResolved e) :
    new.EntryResolved e ↔ Settled old new e.mods ∧ (e.mods.vmods ≠ 0 →
      (new.virtualModsToReal e.mods.vmods = 0 ↔ old.virtualModsToReal e.mods.vmods = 0)) := by
  rw [← resolved_iff_settled he.mods]
  constructor
  · intro hnew
    refine ⟨hnew.mods, fun hv => ?_⟩
    have hactive := (hnew.active hv).symm.trans (he.active hv)
    rw [← virtualModsToReal_ne_zero, ← virtualModsToReal_ne_zero] at hactive
    exact not_iff_not.mp hactive
  · rintro ⟨hmods, hsame⟩
    refine ⟨hmods, fun hv => (he.active hv).trans ?_⟩
    rw [← virtualModsToReal_ne_zero, ← virtualModsToReal_ne_zero]
    exact not_iff_not.mpr (hsame hv).symm

theorem refreshType_resolved_iff {t : XkbKeyTypeRec} (h : Rebound old new changed)
    (ht : old.TypeResolved t) : new.TypeResolved (new.refreshType changed t) ↔
      (t.mods.vmods &&& changed = 0 → ∀ e ∈ t.map, new.EntryResolved e) := by
  rw [XkbDescRec.refreshType]
  split
  · next hv =>
    have hne : t.mods.vmods ≠ 0 := by
      intro hzero
      exact hv (by simp [hzero])
    refine iff_of_true ⟨resolveMods_resolved new t.mods, ?_⟩ (absurd · hv)
    simp only [XkbDescRec.updateKeyTypeVirtualMods, if_pos hne]
    intro e he
    obtain ⟨e₀, he₀, rfl⟩ := mem_map.mp he
    exact updateEntry_resolved h (ht.entries e₀ he₀)
  · next hv =>
    rw [not_not] at hv
    exact ⟨fun hnew _ => hnew.entries, fun hall => ⟨resolved_of_disjoint h ht.mods hv, hall hv⟩⟩

theorem withMask_withMask (act : XkbAction) (mask mask' : BitVec 8) :
    (act.withMask mask).withMask mask' = act.withMask mask' := by
  simp only [XkbAction.withMask, update_idem]

variable {act : XkbAction}

theorem isMods_ne_isoLock (h : act.isMods = true) : act.type ≠ saISOLock := by
  intro hiso
  rw [XkbAction.isMods, hiso] at h
  exact absurd h (by decide)

theorem isoLock_test (vmods changed : BitVec 16) :
    (if vmods ≠ 0 then 1 else 0) &&& changed ≠ 0 ↔ vmods ≠ 0 ∧ changed.getLsbD 0 = true := by
  by_cases hv : vmods = 0
  · simp [hv]
  · simp only [hv, ne_eq, not_false_eq_true, if_true, true_and]
    constructor
    · intro hne
      by_contra hbit
      refine hne (BitVec.eq_of_getLsbD_eq fun b _ => ?_)
      rw [BitVec.getLsbD_and]
      cases b with
      | zero => simpa using hbit
      | succ b => simp
    · intro hbit hzero
      have hand : ((1 : BitVec 16) &&& changed).getLsbD 0 = false := by
        rw [hzero]
        rfl
      rw [BitVec.getLsbD_and, hbit] at hand
      exact absurd hand (by decide)

variable {xkb : XkbDescRec}

theorem updateActionVirtualMods_mods (h : act.isMods = true) :
    (xkb.updateActionVirtualMods act changed).1 = if act.modsMods.vmods &&& changed ≠ 0 then
        act.withMask (act.modsMods.realMods ||| xkb.virtualModsToReal act.modsMods.vmods)
      else act := by
  rw [XkbDescRec.updateActionVirtualMods, if_pos h]
  split <;> rfl

theorem updateActionVirtualMods_iso (h : act.type = saISOLock) :
    (xkb.updateActionVirtualMods act changed).1 =
      if act.isoMods.vmods ≠ 0 ∧ changed.getLsbD 0 = true then
        act.withMask (act.isoMods.realMods ||| xkb.virtualModsToReal act.isoMods.vmods)
      else act := by
  rw [XkbDescRec.updateActionVirtualMods, if_neg (fun hm => isMods_ne_isoLock hm h), if_pos h]
  simp only [isoLock_test]
  split <;> rfl

theorem refreshAction_eq :
    (xkb.refreshAction changed act).1 = (xkb.updateActionVirtualMods act changed).1 := by
  rw [XkbDescRec.refreshAction]
  split
  · rfl
  · next hno =>
    rw [not_not] at hno
    have hm : act.isMods = false := by
      rw [XkbAction.isMods, hno]
      rfl
    have hiso : act.type ≠ saISOLock := by
      rw [hno]
      decide
    rw [XkbDescRec.updateActionVirtualMods, hm, if_neg hiso]
    rfl

theorem refreshAction_resolved_iff (h : Rebound old new changed) (ha : old.ActionResolved act) :
    new.ActionResolved (new.refreshAction changed act).1 ↔
      (changed.getLsbD 0 = false → act.type = saISOLock → new.ModsResolved act.isoMods) := by
  rw [refreshAction_eq]
  by_cases hm : act.isMods = true
  · have hiso := isMods_ne_isoLock hm
    refine iff_of_true ?_ fun _ => (absurd · hiso)
    rw [updateActionVirtualMods_mods hm]
    split
    · exact ⟨fun _ => resolveMods_resolved new act.modsMods, (absurd · hiso)⟩
    · next hv =>
      rw [not_not] at hv
      exact ⟨fun _ => resolved_of_disjoint h (ha.mods hm) hv, (absurd · hiso)⟩
  · by_cases hiso : act.type = saISOLock
    · rw [updateActionVirtualMods_iso hiso]
      split
      · next hv =>
        refine iff_of_true ⟨(absurd · hm), fun _ => resolveMods_resolved new act.isoMods⟩ ?_
        intro hbit
        rw [hv.2] at hbit
        cases hbit
      · next hv =>
        constructor
        · intro hnew _ _
          exact hnew.iso hiso
        · intro hall
          refine ⟨(absurd · hm), fun _ => ?_⟩
          by_cases hbit : changed.getLsbD 0 = true
          · have hzero : act.isoMods.vmods = 0 := by
              by_contra hne
              exact hv ⟨hne, hbit⟩
            exact resolved_of_disjoint h (ha.iso hiso) (by simp [hzero])
          · exact hall (by simpa using hbit) hiso
    · have hsame : (new.updateActionVirtualMods act changed).1 = act := by
        rw [XkbDescRec.updateActionVirtualMods, if_neg hm, if_neg hiso]
      rw [hsame]
      exact iff_of_true ⟨(absurd · hm), (absurd · hiso)⟩ fun _ => (absurd · hiso)

theorem refreshAction_idem (xkb : XkbDescRec) (changed : BitVec 16) (act : XkbAction) :
    (xkb.refreshAction changed (xkb.refreshAction changed act).1).1 =
      (xkb.refreshAction changed act).1 := by
  simp only [refreshAction_eq]
  by_cases hm : act.isMods = true
  · rw [updateActionVirtualMods_mods hm]
    split
    · rw [updateActionVirtualMods_mods (by exact hm), if_pos (by assumption), withMask_withMask]
      rfl
    · rw [updateActionVirtualMods_mods hm, if_neg (by assumption)]
  · by_cases hiso : act.type = saISOLock
    · rw [updateActionVirtualMods_iso hiso]
      split
      · rw [updateActionVirtualMods_iso (by exact hiso), if_pos (by assumption), withMask_withMask]
        rfl
      · rw [updateActionVirtualMods_iso hiso, if_neg (by assumption)]
    · simp only [XkbDescRec.updateActionVirtualMods, if_neg hm, if_neg hiso]

end

theorem getElem?_foldl_modify {α : Type} (f : α → α) (hf : ∀ a, f (f a) = f a) (js : List Nat)
    (l : List α) (j : Nat) :
    (js.foldl (fun l j => l.modify j f) l)[j]? = if j ∈ js then l[j]?.map f else l[j]? := by
  induction js generalizing l with
  | nil => simp
  | cons k js ih =>
    rw [foldl_cons, ih, getElem?_modify]
    by_cases hk : k = j
    · subst hk
      by_cases hin : k ∈ js <;> simp [hin, comp_def, hf]
    · have hj : j ∈ k :: js ↔ j ∈ js := by simp [Ne.symm hk]
      simp [hk, hj]

variable {a b : XkbDescRec}

theorem bound_congr (h : a.vmods = b.vmods) : a.Bound = b.Bound := by
  funext vmods bit
  simp only [XkbDescRec.Bound, h]

theorem modsResolved_congr (h : a.vmods = b.vmods) : a.ModsResolved = b.ModsResolved := by
  funext m
  simp only [XkbDescRec.ModsResolved, bound_congr h]

theorem entryResolved_congr (h : a.vmods = b.vmods) (he : a.EntryResolved e) : b.EntryResolved e :=
  ⟨modsResolved_congr h ▸ he.mods, bound_congr h ▸ he.active⟩

theorem typeResolved_congr (h : a.vmods = b.vmods) {t : XkbKeyTypeRec} :
    a.TypeResolved t ↔ b.TypeResolved t :=
  ⟨fun ht => ⟨modsResolved_congr h ▸ ht.mods, fun e he => entryResolved_congr h (ht.entries e he)⟩,
    fun ht => ⟨modsResolved_congr h ▸ ht.mods,
      fun e he => entryResolved_congr h.symm (ht.entries e he)⟩⟩

variable {act : XkbAction}

theorem actionResolved_congr (h : a.vmods = b.vmods) :
    a.ActionResolved act ↔ b.ActionResolved act :=
  ⟨fun ha => ⟨modsResolved_congr h ▸ ha.mods, modsResolved_congr h ▸ ha.iso⟩,
    fun ha => ⟨modsResolved_congr h ▸ ha.mods, modsResolved_congr h ▸ ha.iso⟩⟩

theorem not_keyAction (h : xkb.map = none) : ¬ xkb.KeyAction act := by
  rintro ⟨server, hserver, slot, hslot, -⟩
  simp [XkbDescRec.actionSlots, hserver, h] at hslot

theorem keyAction_rebind {old : XkbDescRec} {vmods : Fin 16 → BitVec 8} :
    (old.rebind vmods).KeyAction act ↔ old.KeyAction act := by
  have hslots : (old.rebind vmods).actionSlots = old.actionSlots := by
    rcases old with ⟨_, _, _, _ | server, _ | map, _, _⟩ <;> rfl
  rw [XkbDescRec.KeyAction, hslots, XkbDescRec.KeyAction]
  rcases old with ⟨_, _, _, _ | server, _, _, _⟩ <;> simp [XkbDescRec.rebind]

variable {old : XkbDescRec} {vmods : Fin 16 → BitVec 8} {changed : BitVec 16}

theorem resolved_iff_no_map (h : old.Resolved) (hmap : old.map = none) :
    ((old.rebind vmods).applyVirtualModChanges changed).Resolved ↔
      Reaches old (old.rebind vmods) changed := by
  have hsame : (old.rebind vmods).applyVirtualModChanges changed = old.rebind vmods := by
    simp only [XkbDescRec.applyVirtualModChanges, XkbDescRec.rebind, hmap]
  rw [hsame]
  constructor
  · intro hnew
    refine ⟨fun _ => ⟨?_, ?_, ?_, ?_⟩, ?_, ?_⟩
    · exact (resolved_iff_settled h.internal).mp hnew.internal
    · exact (resolved_iff_settled h.ignoreLock).mp hnew.ignoreLock
    · intro maps hmaps i
      exact (resolved_iff_settled (h.indicators maps hmaps i)).mp (hnew.indicators maps hmaps i)
    · intro groups hgroups i
      exact (resolved_iff_settled (h.compat groups hgroups i)).mp (hnew.compat groups hgroups i)
    · intro map hsome
      exact nomatch hmap.symm.trans hsome
    · intro _ act hact
      exact absurd hact (not_keyAction hmap)
  · intro hreach
    obtain ⟨hinternal, hignore, hmaps, hgroups⟩ := hreach.objects hmap
    refine ⟨?_, ?_, ?_, ?_, ?_, ?_⟩
    · intro map hsome
      exact nomatch hmap.symm.trans hsome
    · intro act hact
      exact absurd hact (not_keyAction hmap)
    · exact (resolved_iff_settled h.internal).mpr hinternal
    · exact (resolved_iff_settled h.ignoreLock).mpr hignore
    · intro maps hsome i
      exact (resolved_iff_settled (h.indicators maps hsome i)).mpr (hmaps maps hsome i)
    · intro groups hsome i
      exact (resolved_iff_settled (h.compat groups hsome i)).mpr (hgroups groups hsome i)

theorem resolved_iff_unchanged (h : old.Resolved)
    (hreb : Rebound old (old.rebind vmods) 0) (hmap : old.map ≠ none) :
    ((old.rebind vmods).applyVirtualModChanges 0).Resolved ↔ Reaches old (old.rebind vmods) 0 := by
  have hsame : (old.rebind vmods).applyVirtualModChanges 0 = old.rebind vmods := by
    rw [XkbDescRec.applyVirtualModChanges]
    split
    · rfl
    · rw [if_pos rfl]
  have hreal : ∀ mask, (old.rebind vmods).virtualModsToReal mask = old.virtualModsToReal mask :=
    fun mask => virtualModsToReal_congr hreb (by simp)
  have hsettled : ∀ m, Settled old (old.rebind vmods) m := fun m => by rw [Settled, hreal]
  have hmods : ∀ m, old.ModsResolved m → (old.rebind vmods).ModsResolved m :=
    fun m hm => (resolved_iff_settled hm).mpr (hsettled m)
  rw [hsame]
  refine iff_of_true ⟨?_, ?_, ?_, ?_, ?_, ?_⟩ ⟨?_, ?_, ?_⟩
  · intro map hsome t ht
    have htype := h.types map hsome t ht
    refine ⟨hmods _ htype.mods, fun e he => ?_⟩
    exact (entry_resolved_iff (htype.entries e he)).mpr ⟨hsettled _, fun _ => by rw [hreal]⟩
  · intro act hact
    have hold := h.actions act (keyAction_rebind.mp hact)
    exact ⟨fun hm => hmods _ (hold.mods hm), fun hiso => hmods _ (hold.iso hiso)⟩
  · exact hmods _ h.internal
  · exact hmods _ h.ignoreLock
  · exact fun maps hsome i => hmods _ (h.indicators maps hsome i)
  · exact fun groups hsome i => hmods _ (h.compat groups hsome i)
  · exact fun hnone => absurd hnone hmap
  · exact fun _ _ _ _ _ e _ => ⟨hsettled _, fun _ => by rw [hreal]⟩
  · exact fun _ act _ _ => hsettled _

theorem getElem?_refreshActs (xkb : XkbDescRec) (acts : List XkbAction) (j : Nat) :
    (xkb.refreshActs changed acts)[j]? = if j ∈ xkb.actionSlots.map Prod.snd then
        acts[j]?.map fun act => (xkb.refreshAction changed act).1 else acts[j]? := by
  rw [XkbDescRec.refreshActs, ← foldl_map (f := Prod.snd)
      (g := fun (acts : List XkbAction) j =>
        acts.modify j fun act => (xkb.refreshAction changed act).1),
    getElem?_foldl_modify _ (refreshAction_idem xkb changed)]

variable {map : XkbClientMapRec}

theorem applyVirtualModChanges_eq (hmap : xkb.map = some map) (hne : changed ≠ 0) :
    xkb.applyVirtualModChanges changed = { xkb with
        map := some { map with types := map.types.map (xkb.refreshType changed) }
        ctrls := { xkb.ctrls with
            internal := xkb.refreshMods changed xkb.ctrls.internal
            ignoreLock := xkb.refreshMods changed xkb.ctrls.ignoreLock }
        indicators := xkb.indicators.map fun maps i => xkb.refreshMods changed (maps i)
        compat := xkb.compat.map fun groups i => xkb.resolveMods (groups i)
        server := xkb.server.map fun server =>
          { server with acts := xkb.refreshActs changed server.acts } } := by
  rw [XkbDescRec.applyVirtualModChanges, hmap]
  exact if_neg hne

theorem vmods_applyVirtualModChanges (xkb : XkbDescRec) :
    (xkb.applyVirtualModChanges changed).vmods = xkb.vmods := by
  funext i
  rw [XkbDescRec.applyVirtualModChanges]
  split
  · rfl
  · split
    · rfl
    · rcases xkb with ⟨_, _, _, _ | server, _, _, _⟩ <;> rfl

theorem keyAction_applyVirtualModChanges (hmap : xkb.map = some map) (hne : changed ≠ 0) :
    (xkb.applyVirtualModChanges changed).KeyAction act ↔
      ∃ before, xkb.KeyAction before ∧ act = (xkb.refreshAction changed before).1 := by
  have hslots : (xkb.applyVirtualModChanges changed).actionSlots = xkb.actionSlots := by
    rw [applyVirtualModChanges_eq hmap hne]
    rcases xkb with ⟨_, _, _, _ | server, _ | _, _, _⟩
    · rfl
    · rfl
    · cases hmap
    · obtain rfl := Option.some.inj hmap
      rfl
  constructor
  · rintro ⟨server, hserver, slot, hslot, hget⟩
    rw [hslots] at hslot
    rw [applyVirtualModChanges_eq hmap hne] at hserver
    obtain ⟨server₀, hserver₀, rfl⟩ := Option.map_eq_some_iff.mp hserver
    rw [getElem?_refreshActs, if_pos (mem_map_of_mem hslot)] at hget
    obtain ⟨before, hbefore, rfl⟩ := Option.map_eq_some_iff.mp hget
    exact ⟨before, ⟨server₀, hserver₀, slot, hslot, hbefore⟩, rfl⟩
  · rintro ⟨before, ⟨server, hserver, slot, hslot, hget⟩, rfl⟩
    refine ⟨{ server with acts := xkb.refreshActs changed server.acts }, ?_, slot, ?_, ?_⟩
    · rw [applyVirtualModChanges_eq hmap hne, hserver]
      rfl
    · rwa [hslots]
    · rw [getElem?_refreshActs, if_pos (mem_map_of_mem hslot), hget]
      rfl

theorem resolved_iff_refreshed (h : old.Resolved)
    (hreb : Rebound old (old.rebind vmods) changed) (hmap : old.map = some map)
    (hne : changed ≠ 0) : ((old.rebind vmods).applyVirtualModChanges changed).Resolved ↔
      (∀ t ∈ map.types, (old.rebind vmods).TypeResolved
        ((old.rebind vmods).refreshType changed t)) ∧
      ∀ act, old.KeyAction act → (old.rebind vmods).ActionResolved
        ((old.rebind vmods).refreshAction changed act).1 := by
  have hmap' : (old.rebind vmods).map = some map := hmap
  have hvmods : ((old.rebind vmods).applyVirtualModChanges changed).vmods =
      (old.rebind vmods).vmods := vmods_applyVirtualModChanges _
  have heq := applyVirtualModChanges_eq hmap' hne
  constructor
  · intro hnew
    constructor
    · intro t ht
      refine (typeResolved_congr hvmods).mp (hnew.types _ (by rw [heq]) _ ?_)
      exact mem_map_of_mem ht
    · intro act hact
      refine (actionResolved_congr hvmods).mp (hnew.actions _ ?_)
      exact (keyAction_applyVirtualModChanges hmap' hne).mpr
        ⟨act, keyAction_rebind.mpr hact, rfl⟩
  · rintro ⟨htypes, hacts⟩
    refine ⟨?_, ?_, ?_, ?_, ?_, ?_⟩
    · intro map' hsome t ht
      rw [heq] at hsome
      obtain rfl := Option.some.inj hsome
      obtain ⟨before, hbefore, rfl⟩ := mem_map.mp ht
      exact (typeResolved_congr hvmods).mpr (htypes before hbefore)
    · intro act hact
      obtain ⟨before, hbefore, rfl⟩ := (keyAction_applyVirtualModChanges hmap' hne).mp hact
      exact (actionResolved_congr hvmods).mpr (hacts before (keyAction_rebind.mp hbefore))
    · rw [modsResolved_congr hvmods, heq]
      exact refreshMods_resolved hreb h.internal
    · rw [modsResolved_congr hvmods, heq]
      exact refreshMods_resolved hreb h.ignoreLock
    · intro maps hsome i
      rw [heq] at hsome
      obtain ⟨before, hbefore, rfl⟩ := Option.map_eq_some_iff.mp hsome
      rw [modsResolved_congr hvmods]
      exact refreshMods_resolved hreb (h.indicators before hbefore i)
    · intro groups hsome i
      rw [heq] at hsome
      obtain ⟨before, -, rfl⟩ := Option.map_eq_some_iff.mp hsome
      rw [modsResolved_congr hvmods]
      exact resolveMods_resolved _ (before i)

/-- New bindings leave a resolved description resolved exactly when nothing that is passed over
depends on them. -/
theorem virtualMods_resolved_iff (h : old.Resolved)
    (hreb : Rebound old (old.rebind vmods) changed) :
    ((old.rebind vmods).applyVirtualModChanges changed).Resolved ↔
      Reaches old (old.rebind vmods) changed := by
  by_cases hmap : old.map = none
  · exact resolved_iff_no_map h hmap
  by_cases hzero : changed = 0
  · subst hzero
    exact resolved_iff_unchanged h hreb hmap
  obtain ⟨map, hsome⟩ := Option.ne_none_iff_exists'.mp hmap
  rw [resolved_iff_refreshed h hreb hsome hzero]
  constructor
  · rintro ⟨htypes, hacts⟩
    refine ⟨fun hnone => absurd hnone hmap, ?_, ?_⟩
    · intro map' hmap' t ht hv e he
      obtain rfl : map = map' := Option.some.inj (hsome.symm.trans hmap')
      have hold := h.types map hsome t ht
      exact (entry_resolved_iff (hold.entries e he)).mp
        ((refreshType_resolved_iff hreb hold).mp (htypes t ht) hv e he)
    · intro hbit act hact hiso
      have hact := keyAction_rebind.mp hact
      have hold := h.actions act hact
      exact (resolved_iff_settled (hold.iso hiso)).mp
        ((refreshAction_resolved_iff hreb hold).mp (hacts act hact) hbit hiso)
  · intro hreach
    constructor
    · intro t ht
      have hold := h.types map hsome t ht
      refine (refreshType_resolved_iff hreb hold).mpr fun hv e he => ?_
      exact (entry_resolved_iff (hold.entries e he)).mpr (hreach.entries map hsome t ht hv e he)
    · intro act hact
      have hold := h.actions act hact
      refine (refreshAction_resolved_iff hreb hold).mpr fun hbit hiso => ?_
      exact (resolved_iff_settled (hold.iso hiso)).mpr
        (hreach.isoLocks hbit act (keyAction_rebind.mpr hact) hiso)

def isoKeyboard : XkbDescRec :=
  { minKeyCode := 8
    maxKeyCode := 8
    ctrls := { numGroups := 1, internal := ⟨0, 0, 0⟩, ignoreLock := ⟨0, 0, 0⟩ }
    server := some
      { numActs := 2
        acts := [⟨saNoAction, 0⟩, ⟨saISOLock, update 0 6 3⟩]
        behaviors := fun _ => ⟨0, 0⟩
        keyActs := fun _ => 1
        explicit := 0
        vmods := 0
        vmodmap := 0 }
    map := some
      { types := []
        numSyms := 0
        syms := []
        keySymMap := fun _ => ⟨0, 1, 1, 0⟩
        modmap := 0 }
    indicators := none
    compat := none }

theorem keyAction_isoKeyboard (h : isoKeyboard.KeyAction act) :
    act = ⟨saISOLock, update 0 6 3⟩ := by
  obtain ⟨server, hserver, slot, hslot, hget⟩ := h
  have hslots : isoKeyboard.actionSlots = [(8, 1)] := by decide
  rw [hslots, mem_singleton] at hslot
  obtain rfl := Option.some.inj hserver
  subst hslot
  exact (Option.some.inj hget).symm

theorem isoKeyboard_resolved : isoKeyboard.Resolved := by
  refine ⟨?_, ?_, ?_, ?_, ?_, ?_⟩
  · intro map hmap t ht
    obtain rfl := Option.some.inj hmap
    cases ht
  · intro act hact
    rw [keyAction_isoKeyboard hact]
    exact ⟨fun hm => absurd hm (by decide), fun _ => modsResolved_iff.mpr (by decide)⟩
  · exact modsResolved_iff.mpr (by decide)
  · exact modsResolved_iff.mpr (by decide)
  · exact fun maps hmaps => nomatch hmaps
  · exact fun groups hgroups => nomatch hgroups

theorem isoKeyboard_rebound (i : Fin 16) (mask : BitVec 8) :
    Rebound isoKeyboard (isoKeyboard.rebind (update 0 i mask)) (BitVec.twoPow 16 i) := by
  intro j hj
  by_cases hij : j = i
  · subst hij
    simp
  · refine absurd ?_ hj
    exact update_of_ne hij mask (0 : Fin 16 → BitVec 8)

theorem virtualMods_resolved_first : isoKeyboard.Resolved ∧
      ((isoKeyboard.rebind (Function.update 0 0 16)).applyVirtualModChanges
        (BitVec.twoPow 16 (0 : Fin 16))).Resolved := by
  refine ⟨isoKeyboard_resolved, ?_⟩
  refine (virtualMods_resolved_iff isoKeyboard_resolved (isoKeyboard_rebound 0 16)).mpr ?_
  refine ⟨(nomatch ·), ?_, fun hbit => absurd hbit (by decide)⟩
  intro map hmap t ht
  obtain rfl := Option.some.inj hmap
  cases ht

theorem virtualMods_stale_second : isoKeyboard.Resolved ∧
      Rebound isoKeyboard (isoKeyboard.rebind (Function.update 0 1 16))
        (BitVec.twoPow 16 (1 : Fin 16)) ∧
      ¬ ((isoKeyboard.rebind (Function.update 0 1 16)).applyVirtualModChanges
        (BitVec.twoPow 16 (1 : Fin 16))).Resolved := by
  refine ⟨isoKeyboard_resolved, isoKeyboard_rebound 1 16, fun hnew => ?_⟩
  have hact := hnew.actions ⟨saISOLock, update 0 6 3⟩
    ⟨_, rfl, (8, 1), by decide, by decide⟩
  exact absurd (modsResolved_iff.mp (hact.iso rfl)) (by decide)

end Xfront.Xkb
