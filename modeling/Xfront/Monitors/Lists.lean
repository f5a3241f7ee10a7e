import Xfront.Monitors.Model

/-!
# The list of monitors

The passes of `RRMonitorMakeList` meet in one list of sources: the client monitors that are listed
and the active CRTCs that they leave uncovered.
-/

namespace Xfront.Monitors
open Option Bool

open List Function

def listed (cfg : Config) (getActive : Bool) (monitors : List Monitor) : List Monitor :=
  monitors.filter fun mon => !skipped cfg getActive mon

def activeCrtcs (cfg : Config) : List Crtc :=
  (cfg.screen :: cfg.secondaries).flatMap fun screen =>
    (cfg.scrPriv screen).crtcs.filter fun crtc => crtc.mode

def shares (crtc : Crtc) (monitor : Monitor) : Bool := monitor.outputs.any crtc.hasOutput

def uncovered (cfg : Config) (listed : List Monitor) : List Crtc :=
  (activeCrtcs cfg).filter fun crtc => !listed.any (shares crtc)

def sources (cfg : Config) (getActive : Bool) (monitors : List Monitor) : List Monitor :=
  (listed cfg getActive monitors).map (setFromClient cfg) ++
    (uncovered cfg (listed cfg getActive monitors)).map (setFromServer cfg)

def Monitor.unmarked (mon : Monitor) : Monitor := { mon with primary := false }

structure Complete (cfg : Config) (getActive : Bool) (monitors entries : List Monitor) (n : Int) :
    Prop where
  count : n = entries.length
  perm : (entries.map Monitor.unmarked).Perm
    ((sources cfg getActive monitors).map Monitor.unmarked)

def FirstOnly (entries : List Monitor) : Prop := ∀ mon ∈ entries.tail, mon.primary = false

theorem split_of_findIdx? {α : Type} {p : α → Bool} {l : List α} {i : Nat}
    (h : l.findIdx? p = some i) :
    ∃ before x after, l = before ++ x :: after ∧ before.length = i ∧ p x = true ∧
      ∀ y ∈ before, p y = false := by
  obtain ⟨hlt, hx, hbefore⟩ := findIdx?_eq_some_iff_getElem.mp h
  refine ⟨l.take i, l[i], l.drop (i + 1), ?_, length_take_of_le hlt.le, hx, ?_⟩
  · rw [getElem_cons_drop, take_append_drop]
  · intro y hy
    obtain ⟨j, hj, rfl⟩ := mem_iff_getElem.mp hy
    rw [length_take] at hj
    rw [getElem_take]
    exact eq_false_iff.mpr (hbefore j (by omega))

def uncover (listed : List Monitor) (slots : List (Option Crtc)) : List (Option Crtc) :=
  slots.map fun slot => slot.filter fun crtc => !listed.any (shares crtc)

theorem uncover_nil (slots : List (Option Crtc)) : uncover [] slots = slots := by
  have hslot (slot : Option Crtc) : slot.filter (fun _ => true) = slot := by cases slot <;> rfl
  simp [uncover, hslot]

theorem uncover_cons (mon : Monitor) (rest : List Monitor) (slots : List (Option Crtc)) :
    uncover rest (uncover [mon] slots) = uncover (mon :: rest) slots := by
  rw [uncover, uncover, List.map_map]
  refine map_congr_left fun slot _ => ?_
  cases slot with
  | none => rfl
  | some crtc => cases hcrtc : shares crtc mon <;> simp [Option.filter, hcrtc]

theorem clearCovered_foldl (mon : Monitor) (slots : List (Option Crtc)) :
    mon.outputs.foldl clearCovered slots = uncover [mon] slots := by
  simp only [uncover, shares, any_cons, any_nil, Bool.or_false]
  induction mon.outputs generalizing slots with
  | nil => simpa [uncover] using (uncover_nil slots).symm
  | cons o outputs ih =>
    rw [foldl_cons, ih, clearCovered, List.map_map]
    refine map_congr_left fun slot _ => ?_
    cases slot with
    | none => rfl
    | some crtc => cases hcrtc : crtc.hasOutput o <;> simp [Option.filter, hcrtc]

section

variable (cfg : Config) (getActive : Bool)

def listedPrimary (mon : Monitor) : Bool := !skipped cfg getActive mon && mon.primary

theorem listed_cons_of_skipped {mon : Monitor} (h : skipped cfg getActive mon = true)
    (rest : List Monitor) : listed cfg getActive (mon :: rest) = listed cfg getActive rest := by
  simp [listed, h]

theorem listed_cons {mon : Monitor} (h : ¬ skipped cfg getActive mon = true) (rest : List Monitor) :
    listed cfg getActive (mon :: rest) = mon :: listed cfg getActive rest := by
  simp [listed, h]

theorem walkMonitors_server (m : Nat) (monitors : List Monitor) (list : MonitorList) :
    (walkMonitors cfg getActive m monitors list).numServer = list.numServer ∧
    (walkMonitors cfg getActive m monitors list).serverPrimary = list.serverPrimary := by
  induction monitors generalizing m list with
  | nil => exact ⟨rfl, rfl⟩
  | cons mon rest ih =>
    rw [walkMonitors]
    split
    · exact ih (m + 1) _
    · exact ih (m + 1) _

theorem walkMonitors_numClient (m : Nat) (monitors : List Monitor) (list : MonitorList) :
    (walkMonitors cfg getActive m monitors list).numClient =
      list.numClient - monitors.length + (listed cfg getActive monitors).length := by
  induction monitors generalizing m list with
  | nil => simp [walkMonitors, listed]
  | cons mon rest ih =>
    rw [walkMonitors]
    split
    case isTrue hskip =>
      rw [ih, listed_cons_of_skipped cfg getActive hskip, length_cons]
      dsimp only
      omega
    case isFalse hskip =>
      rw [ih, listed_cons cfg getActive hskip, length_cons, length_cons]
      dsimp only
      omega

theorem walkMonitors_serverCrtc (m : Nat) (monitors : List Monitor) (list : MonitorList) :
    (walkMonitors cfg getActive m monitors list).serverCrtc =
      uncover (listed cfg getActive monitors) list.serverCrtc := by
  induction monitors generalizing m list with
  | nil => exact (uncover_nil _).symm
  | cons mon rest ih =>
    rw [walkMonitors]
    split
    case isTrue hskip => rw [ih, listed_cons_of_skipped cfg getActive hskip]
    case isFalse hskip =>
      rw [ih, listed_cons cfg getActive hskip, clearCovered_foldl, uncover_cons]

theorem walkMonitors_clientPrimary (m : Nat) (monitors : List Monitor) (list : MonitorList) :
    (walkMonitors cfg getActive m monitors list).clientPrimary =
      list.clientPrimary.or ((monitors.findIdx? (listedPrimary cfg getActive)).map (m + ·)) := by
  induction monitors generalizing m list with
  | nil => simp [walkMonitors]
  | cons mon rest ih =>
    have hshift : (fun i => m + 1 + i) = fun i => m + (i + 1) := by
      funext i
      omega
    rw [walkMonitors, findIdx?_cons]
    split
    case isTrue hskip =>
      simp [ih, listedPrimary, hskip, Option.map_map, comp_def, hshift]
    case isFalse hskip =>
      have hskip : skipped cfg getActive mon = false := by simpa using hskip
      rw [ih]
      cases hfound : list.clientPrimary <;> cases hprimary : mon.primary <;>
        simp [listedPrimary, hskip, hprimary, Option.map_map, comp_def, hshift]

theorem walkCrtcs_kept (c : Nat) (slots : List (Option Crtc)) (list : MonitorList) :
    (walkCrtcs cfg c slots list).numClient = list.numClient ∧
    (walkCrtcs cfg c slots list).serverCrtc = list.serverCrtc ∧
    (walkCrtcs cfg c slots list).clientPrimary = list.clientPrimary := by
  induction slots generalizing c list with
  | nil => exact ⟨rfl, rfl, rfl⟩
  | cons slot rest ih =>
    cases slot with
    | none => exact ih (c + 1) list
    | some crtc => exact ih (c + 1) _

theorem walkCrtcs_numServer (c : Nat) (slots : List (Option Crtc)) (list : MonitorList) :
    (walkCrtcs cfg c slots list).numServer = list.numServer + slots.reduceOption.length := by
  induction slots generalizing c list with
  | nil => simp [walkCrtcs]
  | cons slot rest ih =>
    cases slot with
    | none => rw [walkCrtcs, ih, reduceOption_cons_of_none]
    | some crtc =>
      rw [walkCrtcs, ih, reduceOption_cons_of_some, length_cons]
      dsimp only
      omega

theorem walkCrtcs_serverPrimary (c : Nat) (slots : List (Option Crtc)) (list : MonitorList) :
    (walkCrtcs cfg c slots list).serverPrimary =
      list.serverPrimary.or ((slots.findIdx? (·.any (crtcPrimary cfg))).map (c + ·)) := by
  induction slots generalizing c list with
  | nil => simp [walkCrtcs]
  | cons slot rest ih =>
    have hshift : (fun i => c + 1 + i) = fun i => c + (i + 1) := by
      funext i
      omega
    rw [findIdx?_cons]
    cases slot with
    | none => simp [walkCrtcs, ih, Option.map_map, comp_def, hshift]
    | some crtc =>
      rw [walkCrtcs, ih]
      cases hfound : list.serverPrimary <;> cases hprimary : crtcPrimary cfg crtc <;>
        simp [hprimary, Option.map_map, comp_def, hshift]

end

theorem collectCrtcs_reduceOption (priv : ScrPriv) :
    (collectCrtcs priv).reduceOption = priv.crtcs.filter fun crtc => crtc.mode := by
  rw [collectCrtcs]
  induction priv.crtcs with
  | nil => rfl
  | cons crtc rest ih =>
    cases hmode : crtc.mode <;> simp [hmode, reduceOption_cons_of_none,
      reduceOption_cons_of_some, ih]

theorem filter_reduceOption {α : Type} (p : α → Bool) (slots : List (Option α)) :
    (slots.map (Option.filter p)).reduceOption = slots.reduceOption.filter p := by
  induction slots with
  | nil => rfl
  | cons slot rest ih =>
    cases slot with
    | none => simpa using ih
    | some x => cases hx : p x <;> simp [filter_some, hx, ih]

theorem flatMap_reduceOption (cfg : Config) (screens : List Nat) :
    (screens.flatMap fun screen => collectCrtcs (cfg.scrPriv screen)).reduceOption =
      screens.flatMap fun screen => (cfg.scrPriv screen).crtcs.filter fun crtc => crtc.mode := by
  induction screens with
  | nil => rfl
  | cons screen rest ih =>
    rw [flatMap_cons, flatMap_cons, reduceOption_append, ih, collectCrtcs_reduceOption]

structure Counted (cfg : Config) (getActive : Bool) (monitors : List Monitor)
    (list : MonitorList) : Prop where
  numClient : list.numClient = (listed cfg getActive monitors).length
  numServer : list.numServer = (uncovered cfg (listed cfg getActive monitors)).length
  serverCrtc : list.serverCrtc.reduceOption = uncovered cfg (listed cfg getActive monitors)
  clientPrimary : list.clientPrimary = monitors.findIdx? (listedPrimary cfg getActive)
  serverPrimary : list.serverPrimary = list.serverCrtc.findIdx? (·.any (crtcPrimary cfg))

theorem initList_counted {cfg : Config} {getActive : Bool} {monitors : List Monitor}
    {list : MonitorList} (h : initList cfg monitors getActive = some list) :
    Counted cfg getActive monitors list := by
  unfold initList at h
  split at h
  · cases h
  obtain rfl := some.inj h
  have hcrtcs (m : Nat) (start : MonitorList)
      (hstart : start.serverCrtc.reduceOption = activeCrtcs cfg) :
      (walkMonitors cfg getActive m monitors start).serverCrtc.reduceOption =
        uncovered cfg (listed cfg getActive monitors) := by
    rw [walkMonitors_serverCrtc, uncover, filter_reduceOption, hstart, uncovered]
  have hstart := flatMap_reduceOption cfg (cfg.screen :: cfg.secondaries)
  constructor
  · rw [(walkCrtcs_kept ..).1, walkMonitors_numClient]
    simp
  · rw [walkCrtcs_numServer, (walkMonitors_server ..).1, hcrtcs _ _ hstart]
    simp
  · rw [(walkCrtcs_kept ..).2.1, hcrtcs _ _ hstart]
  · rw [(walkCrtcs_kept ..).2.2, walkMonitors_clientPrimary]
    simp
  · rw [walkCrtcs_serverPrimary, (walkMonitors_server ..).2, (walkCrtcs_kept ..).2.1]
    simp

/-- The entries as they are written when `has` says whether a primary one has been seen. -/
def marked : Bool → List Monitor → List Monitor
  | _, [] => []
  | has, mon :: rest =>
    (if has then mon.unmarked else mon) :: marked (has || mon.primary) rest

theorem marked_unmarked (has : Bool) (entries : List Monitor) :
    (marked has entries).map Monitor.unmarked = entries.map Monitor.unmarked := by
  induction entries generalizing has with
  | nil => rfl
  | cons mon rest ih =>
    cases has <;> simp [marked, ih, Monitor.unmarked]

theorem marked_none {entries : List Monitor} : (∀ mon ∈ marked false entries, mon.primary = false) ↔
      ∀ mon ∈ entries, mon.primary = false := by
  induction entries with
  | nil => simp [marked]
  | cons mon rest ih =>
    simp only [marked, false_eq_true, if_false, Bool.false_or, mem_cons, forall_eq_or_imp]
    refine and_congr_right fun hmon => ?_
    rw [hmon]
    exact ih

theorem add_entries (f : Filling) (entries : List Monitor) : entries.foldl Filling.add f =
      ⟨f.entries ++ marked f.hasPrimary entries, f.hasPrimary || entries.any (·.primary)⟩ := by
  induction entries generalizing f with
  | nil => simp [marked]
  | cons mon rest ih =>
    rw [foldl_cons, ih]
    cases hhas : f.hasPrimary <;> simp [Filling.add, hhas, marked, Monitor.unmarked]

section

variable (cfg : Config) (getActive : Bool) (clientPrimary serverPrimary : Option Nat)

theorem fillClients_append (m : Nat) (before after : List Monitor) (f : Filling) :
    fillClients cfg getActive clientPrimary m (before ++ after) f =
      fillClients cfg getActive clientPrimary (m + before.length) after
        (fillClients cfg getActive clientPrimary m before f) := by
  induction before generalizing m f with
  | nil => rfl
  | cons mon rest ih =>
    have hindex : m + (rest.length + 1) = m + 1 + rest.length := by omega
    simp only [cons_append, fillClients, length_cons, hindex]
    split
    · exact ih ..
    · split <;> exact ih ..

theorem fillClients_listed (m : Nat) (monitors : List Monitor)
    (h : ∀ i < monitors.length, some (m + i) ≠ clientPrimary) (f : Filling) :
    fillClients cfg getActive clientPrimary m monitors f =
      ((listed cfg getActive monitors).map (setFromClient cfg)).foldl Filling.add f := by
  induction monitors generalizing m f with
  | nil => rfl
  | cons mon rest ih =>
    have hmon : some m ≠ clientPrimary := h 0 (by simp)
    have hrest : ∀ i < rest.length, some (m + 1 + i) ≠ clientPrimary := by
      intro i hi
      have hi' := h (i + 1) (by simpa using hi)
      rwa [show m + 1 + i = m + (i + 1) by omega]
    rw [fillClients, if_neg hmon]
    split
    case isTrue hskip => rw [ih (m + 1) hrest, listed_cons_of_skipped cfg getActive hskip]
    case isFalse hskip =>
      rw [ih (m + 1) hrest, listed_cons cfg getActive hskip, map_cons, foldl_cons]

theorem fillServers_append (c : Nat) (before after : List (Option Crtc)) (f : Filling) :
    fillServers cfg clientPrimary serverPrimary c (before ++ after) f =
      fillServers cfg clientPrimary serverPrimary (c + before.length) after
        (fillServers cfg clientPrimary serverPrimary c before f) := by
  induction before generalizing c f with
  | nil => rfl
  | cons slot rest ih =>
    have hindex : c + (rest.length + 1) = c + 1 + rest.length := by omega
    simp only [cons_append, fillServers, length_cons, hindex]
    split
    · exact ih ..
    · cases slot <;> exact ih ..

theorem fillServers_all (c : Nat) (slots : List (Option Crtc))
    (h : ∀ i < slots.length, ¬ (some (c + i) = serverPrimary ∧ clientPrimary = none))
    (f : Filling) : fillServers cfg clientPrimary serverPrimary c slots f =
      (slots.reduceOption.map (setFromServer cfg)).foldl Filling.add f := by
  induction slots generalizing c f with
  | nil => rfl
  | cons slot rest ih =>
    have hslot : ¬ (some c = serverPrimary ∧ clientPrimary = none) := h 0 (by simp)
    have hrest : ∀ i < rest.length,
        ¬ (some (c + 1 + i) = serverPrimary ∧ clientPrimary = none) := by
      intro i hi
      have hi' := h (i + 1) (by simpa using hi)
      rwa [show c + 1 + i = c + (i + 1) by omega]
    cases slot with
    | none =>
      rw [fillServers, if_neg hslot]
      simpa using ih (c + 1) hrest f
    | some crtc =>
      rw [fillServers, if_neg hslot]
      simpa using ih (c + 1) hrest _

end

theorem listed_append (cfg : Config) (getActive : Bool) (before after : List Monitor) :
    listed cfg getActive (before ++ after) =
      listed cfg getActive before ++ listed cfg getActive after :=
  filter_append ..

/-- The entry filled in first, the others as they are before they are marked, and what is known
of the first. -/
structure Filled (sources : List Monitor) (entries : List Monitor) (first rest : List Monitor) :
    Prop where
  entries_eq : entries = first ++ marked false rest
  perm : (first ++ rest).Perm sources
  first_eq : (first = [] ∧ ∀ mon ∈ rest, mon.primary = false) ∨
    ∃ mon, first = [mon] ∧ mon.primary = true

section

variable {cfg : Config} {getActive : Bool} {monitors : List Monitor} {list : MonitorList}

def filled (cfg : Config) (getActive : Bool) (monitors : List Monitor) (list : MonitorList) :
    List Monitor :=
  (fillServers cfg list.clientPrimary list.serverPrimary 0 list.serverCrtc
    (fillClients cfg getActive list.clientPrimary 0 monitors
      ⟨firstEntry cfg monitors list, false⟩)).entries

theorem filled_client (hcounted : Counted cfg getActive monitors list) {m : Nat}
    (hm : list.clientPrimary = some m) :
    ∃ first rest, Filled (sources cfg getActive monitors) (filled cfg getActive monitors list)
      first rest := by
  obtain ⟨before, mon, after, rfl, rfl, hmon, _⟩ :=
    split_of_findIdx? (hcounted.clientPrimary.symm.trans hm)
  have hmon : skipped cfg getActive mon = false ∧ mon.primary = true := by
    simpa [listedPrimary] using hmon
  have hlisted : listed cfg getActive (before ++ mon :: after) =
      listed cfg getActive before ++ mon :: listed cfg getActive after := by
    rw [listed_append, listed_cons cfg getActive (by simp [hmon.1])]
  refine ⟨[setFromClient cfg mon],
    (listed cfg getActive before ++ listed cfg getActive after).map (setFromClient cfg) ++
      list.serverCrtc.reduceOption.map (setFromServer cfg), ?_, ?_, .inr ⟨_, rfl, hmon.2⟩⟩
  · have hfirst : firstEntry cfg (before ++ mon :: after) list = [setFromClient cfg mon] := by
      simp [firstEntry, hm]
    have hbefore := fillClients_listed cfg getActive (some before.length) 0 before
      (by simp; omega)
    have hafter := fillClients_listed cfg getActive (some before.length) (before.length + 1) after
      (by simp; omega)
    have hservers := fillServers_all cfg (some before.length) list.serverPrimary 0
      list.serverCrtc (by simp)
    rw [filled, hm, fillClients_append, hbefore, zero_add, fillClients, if_pos rfl, hafter,
      hservers, hfirst, ← foldl_append, ← foldl_append, add_entries, map_append,
      append_assoc]
  · rw [sources, ← hcounted.serverCrtc, hlisted]
    simp only [map_append, map_cons, append_assoc, cons_append, nil_append]
    exact perm_middle.symm

theorem filled_server (hcounted : Counted cfg getActive monitors list)
    (hnone : list.clientPrimary = none) :
    ∃ first rest, Filled (sources cfg getActive monitors) (filled cfg getActive monitors list)
      first rest := by
  have hlisted : ∀ mon ∈ (listed cfg getActive monitors).map (setFromClient cfg),
      mon.primary = false := by
    intro mon hmon
    obtain ⟨client, hclient, rfl⟩ := mem_map.mp hmon
    obtain ⟨hmem, hskip⟩ := mem_filter.mp hclient
    have hfound := findIdx?_eq_none_iff.mp (hcounted.clientPrimary.symm.trans hnone) client hmem
    simpa [setFromClient, listedPrimary, by simpa using hskip] using hfound
  have hclients := fillClients_listed cfg getActive none 0 monitors (by simp)
  cases hserver : list.serverPrimary with
  | none =>
    refine ⟨[], sources cfg getActive monitors, ?_, .refl _, .inl ⟨rfl, ?_⟩⟩
    · have hservers := fillServers_all cfg none none 0 list.serverCrtc (by simp)
      have hfirst : firstEntry cfg monitors list = [] := by simp [firstEntry, hnone, hserver]
      rw [filled, hnone, hserver, hclients, hservers, hfirst, ← foldl_append, add_entries,
        sources, hcounted.serverCrtc]
    · intro mon hmon
      rcases mem_append.mp hmon with hmon | hmon
      · exact hlisted mon hmon
      · obtain ⟨crtc, hcrtc, rfl⟩ := mem_map.mp hmon
        rw [← hcounted.serverCrtc, reduceOption_mem_iff] at hcrtc
        exact findIdx?_eq_none_iff.mp (hcounted.serverPrimary.symm.trans hserver) _ hcrtc
  | some c =>
    obtain ⟨before, slot, after, hslots, rfl, hslot, _⟩ :=
      split_of_findIdx? (hcounted.serverPrimary.symm.trans hserver)
    obtain ⟨crtc, rfl, hcrtc⟩ : ∃ crtc, slot = some crtc ∧ crtcPrimary cfg crtc = true := by
      simpa [Option.any_eq_true] using hslot
    refine ⟨[setFromServer cfg crtc], (listed cfg getActive monitors).map (setFromClient cfg) ++
      (before.reduceOption ++ after.reduceOption).map (setFromServer cfg), ?_, ?_,
      .inr ⟨_, rfl, hcrtc⟩⟩
    · have hfirst : firstEntry cfg monitors list = [setFromServer cfg crtc] := by
        simp [firstEntry, hnone, hserver, hslots]
      have hbefore := fillServers_all cfg none (some before.length) 0 before (by simp; omega)
      have hafter := fillServers_all cfg none (some before.length) (before.length + 1) after
        (by simp; omega)
      rw [filled, hnone, hserver, hclients, hslots, fillServers_append, hbefore, zero_add,
        fillServers, if_pos ⟨rfl, rfl⟩, hafter, hfirst, ← foldl_append, ← foldl_append,
        add_entries, map_append]
    · rw [sources, ← hcounted.serverCrtc, hslots, reduceOption_append,
        reduceOption_cons_of_some, map_append, map_append, map_cons,
        ← append_assoc (map (setFromClient cfg) _),
        ← append_assoc (map (setFromClient cfg) _), singleton_append]
      exact perm_middle.symm

end

theorem makeList_complete {cfg : Config} {getActive : Bool} {monitors entries : List Monitor}
    {n : Int} (h : makeList cfg monitors getActive = some (entries, n)) :
    Complete cfg getActive monitors entries n ∧
    (FirstOnly entries ↔ (sources cfg getActive monitors).countP (·.primary) ≤ 1) := by
  unfold makeList at h
  split at h
  · cases h
  obtain ⟨list, hlist, heq⟩ := map_eq_some_iff.mp h
  have hcounted := initList_counted hlist
  obtain ⟨rfl, rfl⟩ : filled cfg getActive monitors list = entries ∧
      list.numClient + list.numServer = n := Prod.mk.inj heq
  obtain ⟨first, rest, hfilled⟩ : ∃ first rest, Filled (sources cfg getActive monitors)
      (filled cfg getActive monitors list) first rest := by
    cases hm : list.clientPrimary with
    | some m => exact filled_client hcounted hm
    | none => exact filled_server hcounted hm
  have hunmarked : ((filled cfg getActive monitors list).map Monitor.unmarked).Perm
      ((sources cfg getActive monitors).map Monitor.unmarked) := by
    rw [hfilled.entries_eq, map_append, marked_unmarked, ← map_append]
    exact hfilled.perm.map _
  refine ⟨⟨?_, hunmarked⟩, ?_⟩
  · have hlength : (filled cfg getActive monitors list).length =
        (sources cfg getActive monitors).length := by simpa using hunmarked.length_eq
    rw [hcounted.numClient, hcounted.numServer, hlength, sources]
    simp
  · have hcount := hfilled.perm.countP_eq (·.primary)
    rw [countP_append] at hcount
    rcases hfilled.first_eq with ⟨rfl, hrest⟩ | ⟨mon, rfl, hmon⟩
    · have hzero : rest.countP (·.primary) = 0 :=
        countP_eq_zero.mpr fun mon hmon => by simp [hrest mon hmon]
      have hfirst : FirstOnly (filled cfg getActive monitors list) := by
        rw [hfilled.entries_eq]
        exact fun mon hmon => marked_none.mpr hrest mon (mem_of_mem_tail hmon)
      simp only [hfirst, true_iff, ← hcount, hzero, countP_nil]
      omega
    · have hone : [mon].countP (·.primary) = 1 := by simp [hmon]
      have htail : FirstOnly (filled cfg getActive monitors list) ↔
          ∀ mon ∈ rest, mon.primary = false := by
        rw [hfilled.entries_eq]
        exact marked_none
      have hrest : (∀ mon ∈ rest, mon.primary = false) ↔ rest.countP (·.primary) = 0 := by
        rw [countP_eq_zero]
        simp
      rw [htail, hrest, ← hcount, hone]
      omega

end Xfront.Monitors
