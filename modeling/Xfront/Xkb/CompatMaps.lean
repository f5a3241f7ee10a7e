import Xfront.Xkb.CompatMap

/-!
# The compatibility map of every device

The buffer of a request is swapped each time it is read for a client of the other byte order, so
the devices of the request see it in turns in the one order and in the other.
-/

namespace Xfront.Xkb.CompatMap
open Nat Data

open Xfront.Bytes List Function

theorem swapl_swapl (x : BitVec 32) : swapl (swapl x) = x := by
  apply BitVec.eq_of_toNat_eq
  unfold swapl
  rw [BitVec.toNat_ofNat, BitVec.toNat_ofNat, mod_eq_of_lt (bswap32_lt _),
    mod_eq_of_lt (bswap32_lt _), bswap32_bswap32 x.isLt]

theorem swaps_swaps (x : BitVec 16) : swaps (swaps x) = x := by
  apply BitVec.eq_of_toNat_eq
  unfold swaps
  rw [BitVec.toNat_ofNat, BitVec.toNat_ofNat, mod_eq_of_lt (bswap16_lt _),
    mod_eq_of_lt (bswap16_lt _), bswap16_bswap16 x.isLt]

theorem swapl_eq_zero {x : BitVec 32} : swapl x = 0 ↔ x = 0 := by
  have hzero : swapl 0 = 0 := by decide
  constructor
  · intro h
    rw [← swapl_swapl x, h, hzero]
  · intro h
    rw [h, hzero]

theorem Data.read_read (data : Data) (swapped : Bool) :
    (data.read swapped).read swapped = data := by
  cases swapped with
  | false => rfl
  | true =>
    have hsyms : XkbSymInterpretWireDesc.swap ∘ XkbSymInterpretWireDesc.swap = id := by
      funext wire
      simp only [comp, XkbSymInterpretWireDesc.swap, swapl_swapl, id]
    have hmods : XkbModsWireDesc.swap ∘ XkbModsWireDesc.swap = id := by
      funext wire
      simp only [comp, XkbModsWireDesc.swap, swaps_swaps, id]
    simp only [read, if_true, map_map, hsyms, hmods, map_id]

def Data.readTimes (data : Data) (swapped : Bool) (n : Nat) : Data :=
  (fun data : Data => data.read swapped)^[n] data

theorem Data.readTimes_succ (data : Data) (swapped : Bool) (n : Nat) :
    data.readTimes swapped (n + 1) = (data.read swapped).readTimes swapped n :=
  iterate_succ_apply _ _ _

/-- Every symbol and every virtual modifier mask is the same in both byte orders. -/
def Data.Symmetric (data : Data) : Prop :=
  (∀ wire ∈ data.interprets, swapl wire.sym = wire.sym) ∧
    ∀ wire ∈ data.mods, swaps wire.virtualMods = wire.virtualMods

instance (data : Data) : Decidable data.Symmetric :=
  inferInstanceAs (Decidable (_ ∧ _))

theorem Data.Symmetric.read {data : Data} (h : data.Symmetric) (swapped : Bool) :
    data.read swapped = data := by
  cases swapped with
  | false => rfl
  | true =>
    have hsyms : data.interprets.map XkbSymInterpretWireDesc.swap = data.interprets := by
      conv_rhs => rw [← map_id data.interprets]
      apply map_congr_left
      intro wire hwire
      simp only [XkbSymInterpretWireDesc.swap, h.1 wire hwire, id]
    have hmods : data.mods.map XkbModsWireDesc.swap = data.mods := by
      conv_rhs => rw [← map_id data.mods]
      apply map_congr_left
      intro wire hwire
      simp only [XkbModsWireDesc.swap, h.2 wire hwire, id]
    simp only [Data.read, if_true, hsyms, hmods]

theorem Data.readTimes_eq {data : Data} {swapped : Bool} (h : data.read swapped = data)
    (n : Nat) : data.readTimes swapped n = data := by
  induction n with
  | zero => rfl
  | succ n ih => rw [readTimes_succ, h, ih]

def chain (swapped : Bool) (req : XkbSetCompatMapReq) (dryRun : Bool) :
    List DeviceIntRec → State → Status × State
  | [], st => (.success, st)
  | dev :: devs, st =>
    let r := setCompatMap swapped req dryRun dev st
    if r.1 ≠ .success then r else chain swapped req dryRun devs r.2

def affected (req : XkbSetCompatMapReq) (dev : DeviceIntRec) (devices : List DeviceIntRec) :
    List DeviceIntRec :=
  dev :: if req.deviceSpec = xkbUseCoreKbd then
    devices.filter fun other => attached dev other && other.access
  else []

theorem setOthers_eq (swapped : Bool) (req : XkbSetCompatMapReq) (dryRun : Bool)
    (dev : DeviceIntRec) (devices : List DeviceIntRec) (st : State) :
    setOthers swapped req dryRun dev devices st =
      chain swapped req dryRun (devices.filter fun other => attached dev other && other.access)
        st := by
  induction devices generalizing st with
  | nil => rfl
  | cons other devices ih =>
    by_cases hother : attached dev other = true
    · by_cases haccess : other.access = true
      · simp only [setOthers, filter_cons, hother, haccess, Bool.and_self, if_true, chain, ih]
      · simp only [setOthers, filter_cons, hother, haccess, Bool.and_false, if_true,
          if_false, Bool.false_eq_true, ih]
    · simp only [setOthers, filter_cons, hother, Bool.false_and, if_false, Bool.false_eq_true, ih]

theorem setAll_eq (swapped : Bool) (req : XkbSetCompatMapReq) (dryRun : Bool)
    (dev : DeviceIntRec) (devices : List DeviceIntRec) (st : State) :
    setAll swapped req dryRun dev devices st =
      chain swapped req dryRun (affected req dev devices) st := by
  unfold setAll affected
  rw [chain]
  dsimp only
  by_cases hcore : req.deviceSpec = xkbUseCoreKbd
  · rw [if_pos hcore, if_pos hcore, setOthers_eq]
  · rw [if_neg hcore, if_neg hcore, chain]
    split
    next => rfl
    next hok => exact Prod.ext (not_not.mp hok) rfl

theorem chain_append (swapped : Bool) (req : XkbSetCompatMapReq) (dryRun : Bool)
    (xs ys : List DeviceIntRec) (st : State) : chain swapped req dryRun (xs ++ ys) st =
      if (chain swapped req dryRun xs st).1 ≠ .success then chain swapped req dryRun xs st
      else chain swapped req dryRun ys (chain swapped req dryRun xs st).2 := by
  induction xs generalizing st with
  | nil => rfl
  | cons dev xs ih =>
    simp only [cons_append, chain]
    split
    next herr => rfl
    next hok => exact ih _

theorem chain_dry {swapped : Bool} {req : XkbSetCompatMapReq} {devs : List DeviceIntRec}
    {st : State} : (chain swapped req true devs st).2 = st ∧
      ((chain swapped req true devs st).1 = .success ↔
        ∀ dev ∈ devs, Passes req (st.compat dev.id)) := by
  induction devs with
  | nil => exact ⟨rfl, ⟨fun _ _ h => (nomatch h), fun _ => rfl⟩⟩
  | cons dev devs ih =>
    obtain ⟨hstate, hstatus⟩ := @setCompatMap_dry req dev swapped st
    rw [chain, forall_mem_cons]
    by_cases hok : (setCompatMap swapped req true dev st).1 = .success
    · rw [if_neg (not_not_intro hok), hstate]
      exact ⟨ih.1, ih.2.trans (and_iff_right (hstatus.mp hok)).symm⟩
    · rw [if_pos hok]
      exact ⟨hstate, ⟨fun h => absurd h hok, fun h => hstatus.mpr h.1⟩⟩

def Replaced (st st' : State) (id : Nat) (view : View) : Prop :=
  (st'.compat id).view = view ∧ ∀ other, other ≠ id → st'.compat other = st.compat other

variable {dev : DeviceIntRec}

theorem setCompatMap_tooLong {swapped : Bool} {req : XkbSetCompatMapReq}
    {st : State} (hpass : Passes req (st.compat dev.id)) (hlong : req.TooLong) :
    setCompatMap swapped req false dev st = (.badValue none, st) := by
  unfold setCompatMap
  rw [dif_neg hpass.1, if_neg (not_not_intro hpass.2), if_neg Bool.false_ne_true,
    (editInterprets_status hpass.1).1 hlong, if_pos (by intro h; cases h)]
  simp only [update_eq_self]

theorem setCompatMap_stuck (swapped : Bool) {req : XkbSetCompatMapReq}
    {st : State} (hpass : Passes req (st.compat dev.id)) (hshort : ¬req.TooLong)
    (hstuck : Stuck req dev (st.compat dev.id)) :
    (setCompatMap swapped req false dev st).1 = .badAlloc ∧
      Replaced st (setCompatMap swapped req false dev st).2 dev.id
        { interprets := [], groups := (st.compat dev.id).groups } := by
  unfold setCompatMap
  rw [dif_neg hpass.1, if_neg (not_not_intro hpass.2), if_neg Bool.false_ne_true,
    (editInterprets_status hpass.1).2.1 hshort hstuck, if_pos (by intro h; cases h)]
  refine ⟨rfl, ?_, fun other hother => update_of_ne hother _ _⟩
  dsimp only
  rw [update_self]
  rfl

theorem setCompatMap_done (swapped : Bool) {req : XkbSetCompatMapReq}
    {st : State} (hpass : Passes req (st.compat dev.id)) (hshort : ¬req.TooLong)
    (hstuck : ¬Stuck req dev (st.compat dev.id)) (hfits : st.data.Fits req) :
    (setCompatMap swapped req false dev st).1 = .success ∧
      (setCompatMap swapped req false dev st).2.data = st.data.read swapped ∧
      Replaced st (setCompatMap swapped req false dev st).2 dev.id
        (edited dev req (st.data.read swapped) (st.compat dev.id).view) := by
  have hok : (editInterprets dev req (st.data.read swapped).interprets
      (st.compat dev.id).toInterprets hpass.1).1 = .success :=
    (editInterprets_status hpass.1).2.2 hshort hstuck
  have hlist := editInterprets_list (hfits.read swapped).interprets hok
  have hgroups := @setGroups_eq req dev _ (st.data.read swapped).mods
    (st.compat dev.id).groups (nodup_finRange 4)
  unfold setCompatMap
  rw [dif_neg hpass.1, if_neg (not_not_intro hpass.2), if_neg Bool.false_ne_true,
    if_neg (not_not_intro hok), padded_bytes, if_neg (not_not_intro hpass.2)]
  refine ⟨rfl, rfl, ?_, fun other hother => update_of_ne hother _ _⟩
  dsimp only
  rw [update_self]
  have hinterprets : surgery req (kept (st.data.read swapped).interprets)
      (st.compat dev.id).view.interprets = _ := hlist.symm
  have hedited : editGroups dev req (st.data.read swapped).mods
      (st.compat dev.id).view.groups = _ := (funext hgroups).symm
  unfold edited
  rw [hinterprets, hedited]
  cases req.recomputeActions with
  | false => rfl
  | true => rfl

/-- The outcome of a pass in which every array has room: the device at place `k` is edited with
the buffer as it is read for the `k + 1`st time. -/
structure Done (swapped : Bool) (req : XkbSetCompatMapReq) (devs : List DeviceIntRec)
    (st st' : State) : Prop where
  data : st'.data = st.data.readTimes swapped devs.length
  others : ∀ id, id ∉ devs.map DeviceIntRec.id → st'.compat id = st.compat id
  edited : ∀ k dev, devs[k]? = some dev → (st'.compat dev.id).view =
    edited dev req (st.data.readTimes swapped (k + 1)) (st.compat dev.id).view

theorem chain_done (swapped : Bool) {req : XkbSetCompatMapReq} {devs : List DeviceIntRec}
    {st : State} (hnodup : (devs.map DeviceIntRec.id).Nodup)
    (hpass : ∀ dev ∈ devs, Passes req (st.compat dev.id)) (hshort : ¬req.TooLong)
    (hroom : ∀ dev ∈ devs, ¬Stuck req dev (st.compat dev.id)) (hfits : st.data.Fits req) :
    (chain swapped req false devs st).1 = .success ∧
      Done swapped req devs st (chain swapped req false devs st).2 := by
  induction devs generalizing st with
  | nil =>
    refine ⟨rfl, ⟨rfl, fun _ _ => rfl, fun k dev h => ?_⟩⟩
    cases h
  | cons dev devs ih =>
    rw [forall_mem_cons] at hpass hroom
    rw [map_cons, nodup_cons] at hnodup
    obtain ⟨hok, hdata, hview, hframe⟩ := setCompatMap_done swapped hpass.1 hshort hroom.1 hfits
    have hapart : ∀ other ∈ devs, other.id ≠ dev.id := fun other hother heq =>
      hnodup.1 (heq ▸ mem_map_of_mem hother)
    rw [chain, if_neg (not_not_intro hok)]
    generalize (setCompatMap swapped req false dev st).2 = st₁ at hdata hview hframe ⊢
    have hsame : ∀ other ∈ devs, st₁.compat other.id = st.compat other.id :=
      fun other hother => hframe _ (hapart other hother)
    obtain ⟨hstatus, hdone⟩ := @ih st₁ hnodup.2
      (fun other hother => hsame other hother ▸ hpass.2 other hother)
      (fun other hother => hsame other hother ▸ hroom.2 other hother)
      (hdata ▸ hfits.read swapped)
    refine ⟨hstatus, ⟨?_, ?_, ?_⟩⟩
    · rw [hdone.data, hdata, ← readTimes_succ, length_cons]
    · intro id hid
      rw [map_cons, mem_cons, not_or] at hid
      rw [hdone.others id hid.2, hframe id hid.1]
    · intro k other hk
      cases k with
      | zero =>
        cases hk
        rw [hdone.others dev.id hnodup.1]
        exact hview
      | succ k =>
        rw [getElem?_cons_succ] at hk
        have hmem := mem_of_getElem? hk
        rw [hdone.edited k other hk, hsame other hmem, hdata, ← readTimes_succ]

theorem chain_stuck (swapped : Bool) {req : XkbSetCompatMapReq} {before after : List DeviceIntRec}
    {st : State} (hnodup : ((before ++ dev :: after).map DeviceIntRec.id).Nodup)
    (hpass : ∀ other ∈ before ++ dev :: after, Passes req (st.compat other.id))
    (hshort : ¬req.TooLong) (hroom : ∀ other ∈ before, ¬Stuck req other (st.compat other.id))
    (hstuck : Stuck req dev (st.compat dev.id)) (hfits : st.data.Fits req) :
    ∃ st', chain swapped req false (before ++ dev :: after) st = (.badAlloc, st') ∧
      (∀ id, id ∉ before.map DeviceIntRec.id → id ≠ dev.id → st'.compat id = st.compat id) ∧
      (∀ k other, before[k]? = some other → (st'.compat other.id).view =
        edited other req (st.data.readTimes swapped (k + 1)) (st.compat other.id).view) ∧
      (st'.compat dev.id).view = { interprets := [], groups := (st.compat dev.id).groups } := by
  rw [map_append, nodup_append] at hnodup
  obtain ⟨hbefore, hafter, hapart⟩ := hnodup
  rw [forall_mem_append, forall_mem_cons] at hpass
  obtain ⟨hok, hdone⟩ := chain_done swapped hbefore hpass.1 hshort hroom hfits
  have hout : dev.id ∉ before.map DeviceIntRec.id := fun h =>
    hapart _ h _ mem_cons_self rfl
  have hsame := hdone.others dev.id hout
  obtain ⟨hbad, hview, hframe⟩ := setCompatMap_stuck swapped
    (hsame ▸ hpass.2.1 : Passes req ((chain swapped req false before st).2.compat dev.id))
    hshort (hsame ▸ hstuck)
  refine ⟨(setCompatMap swapped req false dev (chain swapped req false before st).2).2, ?_, ?_, ?_,
    ?_⟩
  · rw [chain_append, if_neg (not_not_intro hok), chain, if_pos (by rw [hbad]; intro h; cases h)]
    exact Prod.ext hbad rfl
  · intro id hid hne
    rw [hframe id hne, hdone.others id hid]
  · intro k other hk
    have hmem := mem_map_of_mem (f := DeviceIntRec.id) (mem_of_getElem? hk)
    rw [hframe other.id (fun h => hout (h ▸ hmem)), hdone.edited k other hk]
  · rw [hview, hsame]

theorem XkbSymInterpretWireDesc.broken_swap (wire : XkbSymInterpretWireDesc) :
    wire.swap.broken = wire.broken := by
  have hsym : decide (swapl wire.sym = noSymbol) = decide (wire.sym = noSymbol) :=
    decide_eq_decide.mpr swapl_eq_zero
  exact congrArg (fun sym : Bool => sym && wire.matchOp = xkbSIAnyOfOrNone &&
    wire.mods &&& 0xff = 0xff && wire.act.type = saXFree86Private) hsym

theorem kept_cons (wire : XkbSymInterpretWireDesc) (wires : List XkbSymInterpretWireDesc) :
    kept (wire :: wires) = if wire.broken then kept wires else wire.interpret :: kept wires := by
  cases h : wire.broken <;> simp [kept, h]

theorem symbols_of_kept {wires : List XkbSymInterpretWireDesc}
    (h : kept (wires.map XkbSymInterpretWireDesc.swap) = kept wires) :
    ∀ wire ∈ wires, swapl wire.sym = wire.sym := by
  induction wires with
  | nil =>
    intro wire hwire
    cases hwire
  | cons wire wires ih =>
    rw [map_cons, kept_cons, kept_cons, wire.broken_swap] at h
    rw [forall_mem_cons]
    by_cases hbroken : wire.broken = true
    · rw [if_pos hbroken, if_pos hbroken] at h
      simp only [XkbSymInterpretWireDesc.broken, Bool.and_eq_true, decide_eq_true_eq] at hbroken
      have hzero : wire.sym = 0 := hbroken.1.1.1
      exact ⟨by rw [hzero]; decide, ih h⟩
    · rw [if_neg hbroken, if_neg hbroken] at h
      obtain ⟨hhead, htail⟩ := cons.inj h
      exact ⟨congrArg XkbSymInterpretRec.sym hhead, ih htail⟩

theorem lookup_zip {keys : List (Fin 4)} {mods : List XkbModsWireDesc} {k : Nat} {i : Fin 4}
    {wire : XkbModsWireDesc} (hnodup : keys.Nodup) (hi : keys[k]? = some i)
    (hwire : mods[k]? = some wire) : (keys.zip mods).lookup i = some wire := by
  induction keys generalizing mods k with
  | nil => cases hi
  | cons j keys ih =>
    obtain ⟨hj, hrest⟩ := nodup_cons.mp hnodup
    cases mods with
    | nil => cases hwire
    | cons head mods =>
      rw [zip_cons_cons, lookup_cons]
      cases k with
      | zero =>
        cases hi
        cases hwire
        rw [beq_self_eq_true]
      | succ k =>
        rw [getElem?_cons_succ] at hi hwire
        have hne : i ≠ j := fun h => hj (h ▸ mem_of_getElem? hi)
        rw [beq_false_of_ne hne]
        exact ih hrest hi hwire

theorem editGroups_selected {req : XkbSetCompatMapReq}
    {mods : List XkbModsWireDesc} (groups : Fin 4 → XkbModsRec) {k : Nat} {i : Fin 4}
    {wire : XkbModsWireDesc} (hi : req.selected[k]? = some i) (hwire : mods[k]? = some wire) :
    editGroups dev req mods groups i = dev.group wire := by
  have hnodup : req.selected.Nodup := (nodup_finRange 4).filter _
  rw [editGroups, lookup_zip hnodup hi hwire]

theorem symmetric_of_edited {req : XkbSetCompatMapReq} {data : Data}
    {old : View} (hfits : data.Fits req)
    (h : edited dev req (data.read true) old = edited dev req data old) : data.Symmetric := by
  constructor
  · have hlist := congrArg View.interprets h
    rw [edited_interprets, edited_interprets, surgery, surgery, append_cancel_right_eq,
      append_cancel_left_eq] at hlist
    exact symbols_of_kept hlist
  · intro wire hwire
    obtain ⟨k, hk⟩ := getElem?_of_mem hwire
    have hlt : k < req.selected.length := by
      have hk' := (List.getElem?_eq_some_iff.mp hk).1
      exact hfits.mods.subst (motive := fun n => k < n) hk'
    have hi := getElem?_eq_getElem hlt
    have hswapped : (data.read true).mods[k]? = some wire.swap := by
      simp only [Data.read, if_true, getElem?_map, hk, Option.map_some]
    have hvmods := congrArg (fun view : View => (view.groups req.selected[k]).vmods) h
    simp only [edited_vmods] at hvmods
    rw [editGroups_selected _ hi hswapped, editGroups_selected _ hi hk] at hvmods
    exact hvmods

/-- What the request is to do: every device it is applied to is edited with the data that was
sent, the others are left alone, and a refused request changes nothing. -/
structure Uniform (c : Call) (req : XkbSetCompatMapReq) (st : State) (r : Status × State) :
    Prop where
  edited : ∀ dev, c.kbd = .ok dev → r.1 = .success → ∀ other ∈ affected req dev c.devices,
    (r.2.compat other.id).view = edited other req (st.data.read c.swapped) (st.compat other.id).view
  others : ∀ dev, c.kbd = .ok dev → ∀ id,
    id ∉ (affected req dev c.devices).map DeviceIntRec.id → r.2.compat id = st.compat id
  refused : r.1 ≠ .success → ∀ id, (r.2.compat id).view = (st.compat id).view
  sized : ∀ id, (r.2.compat id).numSi ≤ (r.2.compat id).sizeSi

/-- No device is reached with its array too small, and no second device with a buffer that reads
otherwise than for the first; or a device without interpretations is the first that cannot grow,
and those before it are as the request wants them. -/
def Sound (swapped : Bool) (req : XkbSetCompatMapReq) (devs : List DeviceIntRec) (st : State) :
    Prop :=
  (∀ dev ∈ devs, ¬Stuck req dev (st.compat dev.id)) ∧
      (swapped = false ∨ devs.length ≤ 1 ∨ st.data.Symmetric) ∨
    ∃ before dev after, devs = before ++ dev :: after ∧
      (∀ other ∈ before, ¬Stuck req other (st.compat other.id)) ∧
      Stuck req dev (st.compat dev.id) ∧ (st.compat dev.id).list = [] ∧
      ∀ k other, before[k]? = some other →
        edited other req (st.data.readTimes swapped (k + 1)) (st.compat other.id).view =
          (st.compat other.id).view

theorem affected_nodup {req : XkbSetCompatMapReq}
    {devices : List DeviceIntRec} (h : (devices.map DeviceIntRec.id).Nodup) :
    ((affected req dev devices).map DeviceIntRec.id).Nodup := by
  unfold affected
  rw [map_cons, nodup_cons]
  split
  · constructor
    · intro hmem
      obtain ⟨other, hother, heq⟩ := mem_map.mp hmem
      have hattached := (Bool.and_eq_true_iff.mp (mem_filter.mp hother).2).1
      simp only [attached, Bool.and_eq_true, decide_eq_true_eq] at hattached
      exact hattached.1.1.1 heq
    · exact h.sublist (filter_sublist.map _)
  · exact ⟨not_mem_nil, nodup_nil⟩

theorem exists_first {devs : List DeviceIntRec} {p : DeviceIntRec → Prop}
    (h : ¬∀ dev ∈ devs, ¬p dev) :
    ∃ before dev after, devs = before ++ dev :: after ∧ (∀ other ∈ before, ¬p other) ∧ p dev := by
  induction devs with
  | nil =>
    refine absurd (fun dev hdev => ?_) h
    cases hdev
  | cons dev devs ih =>
    by_cases hp : p dev
    · exact ⟨[], dev, devs, rfl, fun _ hmem => (nomatch hmem), hp⟩
    · have hrest : ¬∀ other ∈ devs, ¬p other := fun hall =>
        h (forall_mem_cons.mpr ⟨hp, hall⟩)
      obtain ⟨before, other, after, rfl, hbefore, hother⟩ := ih hrest
      exact ⟨dev :: before, other, after, rfl, forall_mem_cons.mpr ⟨hp, hbefore⟩, hother⟩

theorem first_unique {p : DeviceIntRec → Prop} {before before' after after' : List DeviceIntRec}
    {dev dev' : DeviceIntRec} (h : before ++ dev :: after = before' ++ dev' :: after')
    (hbefore : ∀ other ∈ before, ¬p other) (hdev : p dev)
    (hbefore' : ∀ other ∈ before', ¬p other) (hdev' : p dev') : before = before' ∧ dev = dev' := by
  induction before generalizing before' with
  | nil =>
    cases before' with
    | nil => exact ⟨rfl, (cons.inj h).1⟩
    | cons other before' =>
      have heq := (cons.inj h).1
      exact absurd (heq ▸ hdev) (hbefore' other mem_cons_self)
  | cons first before ih =>
    cases before' with
    | nil =>
      have heq := (cons.inj h).1
      exact absurd (heq ▸ hdev') (hbefore first mem_cons_self)
    | cons other before' =>
      obtain ⟨rfl, hrest⟩ := cons.inj h
      obtain ⟨rfl, rfl⟩ := ih hrest (forall_mem_cons.mp hbefore).2
        (forall_mem_cons.mp hbefore').2
      exact ⟨rfl, rfl⟩

structure Request where
  head : XkbSetCompatMapReq
  data : Data
  fits : data.Fits head

section Call

variable {c : Call} {req : XkbSetCompatMapReq} {st : State} {dev : DeviceIntRec}

theorem procXkbSetCompatMap_eq (hinit : c.initialized = true) (hkbd : c.kbd = .ok dev)
    (hpass : ∀ other ∈ affected req dev c.devices, Passes req (st.compat other.id)) :
    procXkbSetCompatMap c req st = chain c.swapped req false (affected req dev c.devices) st := by
  obtain ⟨hstate, hstatus⟩ := @chain_dry c.swapped req (affected req dev c.devices) st
  unfold procXkbSetCompatMap
  rw [if_pos hinit, hkbd]
  dsimp only
  rw [setAll_eq, if_neg (not_not_intro (hstatus.mpr hpass)), setAll_eq, hstate]

theorem procXkbSetCompatMap_refused (h : ∀ dev, c.initialized = true → c.kbd = .ok dev →
      (∀ other ∈ affected req dev c.devices, Passes req (st.compat other.id)) → req.TooLong) :
    (procXkbSetCompatMap c req st).1 ≠ .success ∧ (procXkbSetCompatMap c req st).2 = st := by
  by_cases hinit : c.initialized = true
  · cases hkbd : c.kbd with
    | error status =>
      unfold procXkbSetCompatMap
      rw [if_pos hinit, hkbd]
      exact ⟨status.2, rfl⟩
    | ok dev =>
      by_cases hpass : ∀ other ∈ affected req dev c.devices, Passes req (st.compat other.id)
      · have hhead : Passes req (st.compat dev.id) := hpass dev mem_cons_self
        have hlong := h dev hinit hkbd hpass
        rw [procXkbSetCompatMap_eq hinit hkbd hpass, affected, chain,
          setCompatMap_tooLong hhead hlong]
        rw [if_pos (by intro h; cases h)]
        refine ⟨?_, rfl⟩
        intro h
        cases h
      · obtain ⟨hstate, hstatus⟩ := @chain_dry c.swapped req (affected req dev c.devices) st
        have hrefused := mt hstatus.mp hpass
        unfold procXkbSetCompatMap
        rw [if_pos hinit, hkbd]
        dsimp only
        rw [setAll_eq, if_pos hrefused]
        exact ⟨hrefused, hstate⟩
  · unfold procXkbSetCompatMap
    rw [if_neg hinit]
    exact ⟨fun h => (nomatch h), rfl⟩

theorem uniform_iff_sound {devs : List DeviceIntRec} (hdevs : affected req dev c.devices = devs)
    (hnodup : (devs.map DeviceIntRec.id).Nodup)
    (hpass : ∀ other ∈ devs, Passes req (st.compat other.id)) (hshort : ¬req.TooLong)
    (hfits : st.data.Fits req) (hkbd : c.kbd = .ok dev) :
    Uniform c req st (chain c.swapped req false devs st) ↔ Sound c.swapped req devs st := by
  by_cases hroom : ∀ other ∈ devs, ¬Stuck req other (st.compat other.id)
  · obtain ⟨hok, hdone⟩ := chain_done c.swapped hnodup hpass hshort hroom hfits
    constructor
    · intro h
      refine .inl ⟨hroom, ?_⟩
      cases hswapped : c.swapped with
      | false => exact .inl rfl
      | true =>
        refine .inr ?_
        by_cases hone : devs.length ≤ 1
        · exact .inl hone
        · have hlt : 1 < devs.length := by omega
          have hsecond := getElem?_eq_getElem hlt
          have hgot := hdone.edited 1 _ hsecond
          have hwant := h.edited dev hkbd hok _ (by
            rw [hdevs]
            exact getElem_mem hlt)
          have htwice : st.data.readTimes c.swapped (1 + 1) = st.data := st.data.read_read _
          rw [hgot, htwice, hswapped] at hwant
          exact .inr (symmetric_of_edited hfits hwant.symm)
    · intro h
      have hturn : ∀ k other, devs[k]? = some other →
          edited other req (st.data.readTimes c.swapped (k + 1)) (st.compat other.id).view =
            edited other req (st.data.read c.swapped) (st.compat other.id).view := by
        intro k other hk
        rcases h with ⟨-, h⟩ | ⟨before, stuck, after, rfl, -, hstuck, -⟩
        · rcases h with hnative | hone | hsymm
          · rw [readTimes_eq (by rw [hnative]; rfl), hnative]
            rfl
          · have hlt := (List.getElem?_eq_some_iff.mp hk).1
            have hzero : k = 0 := by omega
            rw [hzero]
            rfl
          · rw [readTimes_eq (hsymm.read _), hsymm.read]
        · exact absurd hstuck (hroom stuck (mem_append_right _ mem_cons_self))
      refine ⟨?_, ?_, fun hbad => absurd hok hbad, fun id => Interprets.numSi_le _⟩
      · intro dev' hdev' _ other hother
        have hsame : dev' = dev := (Except.ok.inj (hkbd.symm.trans hdev')).symm
        rw [hsame, hdevs] at hother
        obtain ⟨k, hk⟩ := getElem?_of_mem hother
        rw [hdone.edited k other hk, hturn k other hk]
      · intro dev' hdev' id hid
        have hsame : dev' = dev := (Except.ok.inj (hkbd.symm.trans hdev')).symm
        rw [hsame, hdevs] at hid
        exact hdone.others id hid
  · obtain ⟨before, stuck, after, rfl, hbefore, hstuck⟩ := exists_first hroom
    obtain ⟨st', hchain, hothers, hedited, hempty⟩ :=
      chain_stuck c.swapped hnodup hpass hshort hbefore hstuck hfits
    have hbad : (chain c.swapped req false (before ++ stuck :: after) st).1 ≠ .success := by
      rw [hchain]
      intro h
      cases h
    constructor
    · intro h
      have hkept := h.refused hbad
      rw [hchain] at hkept
      refine .inr ⟨before, stuck, after, rfl, hbefore, hstuck, ?_, ?_⟩
      · have hview := hempty.symm.trans (hkept stuck.id)
        exact (congrArg View.interprets hview).symm
      · intro k other hk
        rw [← hedited k other hk]
        exact hkept other.id
    · intro h
      have hkept : ∀ id, (st'.compat id).view = (st.compat id).view := by
        rcases h with ⟨hroom', -⟩ | ⟨before', stuck', after', heq, hbefore', hstuck', hnil, hsame⟩
        · exact absurd hroom' hroom
        · have hfirst : before = before' ∧ stuck = stuck' :=
            first_unique heq hbefore hstuck hbefore' hstuck'
          obtain ⟨rfl, rfl⟩ := hfirst
          intro id
          by_cases hid : id = stuck.id
          · rw [hid, hempty, ← hnil]
            rfl
          · by_cases hmem : id ∈ before.map DeviceIntRec.id
            · obtain ⟨other, hother, rfl⟩ := mem_map.mp hmem
              obtain ⟨k, hk⟩ := getElem?_of_mem hother
              rw [hedited k other hk, hsame k other hk]
            · rw [hothers id hmem hid]
      refine ⟨fun _ _ hok => absurd hok hbad, ?_, ?_, fun id => Interprets.numSi_le _⟩
      · intro dev' hdev' id hid
        have hsame : dev' = dev := (Except.ok.inj (hkbd.symm.trans hdev')).symm
        rw [hsame, hdevs, map_append, map_cons, mem_append, mem_cons, not_or, not_or] at hid
        rw [hchain]
        exact hothers id hid.1 hid.2.1
      · intro _ id
        rw [hchain]
        exact hkept id

end Call

def plainKeyboard (id : Nat) (isMaster : Bool) : DeviceIntRec :=
  { id := id, hasKey := true, isMaster := isMaster, masterKeyboard := some 3, access := true
    grows := true
    added := fun _ => ⟨0, 0, 0, 0, 0, ⟨0, fun _ => 0⟩⟩
    vmods := fun _ => 0
    updateActions := fun view i => (view.groups i).mask }

def swappedCall : Call :=
  { initialized := true, swapped := true, kbd := .ok (plainKeyboard 3 true)
    devices := [plainKeyboard 3 true, plainKeyboard 7 false]
    nodup := by decide }

def letterWire : XkbSymInterpretWireDesc :=
  { sym := 0x61000000#32, mods := 0, matchOp := 2, virtualMod := 0, flags := 0
    act := ⟨1, fun _ => 0⟩ }

def letterRequest : Request :=
  { head :=
      { deviceSpec := xkbUseCoreKbd, recomputeActions := false, truncateSI := true
        groups := 1, firstSI := 0, nSI := 63, length := 257 }
    data := { interprets := replicate 63 letterWire, mods := [⟨0, 1, 0⟩] }
    fits := ⟨rfl, rfl⟩ }

theorem no_interprets : 0 ≤ 0 := le_refl 0

def emptyMap : XkbCompatMapRec :=
  { symInterpret := [], numSi := 0, numSi_le := no_interprets, groups := fun _ => ⟨0, 0, 0⟩ }

end Xfront.Xkb.CompatMap
