import Xfront.Namespace.Requests
import Xfront.Namespace.Selname

/-!
# Who owns and who hears of a selection

`Sane` holds in every state of a run: owners of selections can make requests, who listens has been
set up, and names tell the namespaces apart.
-/

namespace Xfront.Namespace.Server
open List
open Atom (Name Call runAll)

variable {s t u : Server}

structure Sane (s : Server) : Prop where
  ruled : Ruled s
  tabled : Tabled s
  names : ∀ m ∈ s.nsList, ∀ n ∈ s.nsList, m.name = n.name → m.addr = n.addr
  plain : ∀ n ∈ s.nsList, Plain n.name
  records : (s.currentSelections.map Selection.selection).Nodup
  owners : ∀ sel ∈ s.currentSelections, ∀ c, sel.client = some c → s.active c
  listeners : ∀ e ∈ s.selectionEvents,
    ∃ cl, s.client e.pClient = some cl ∧ cl.clientState ≠ .initial

def Prefixed (s : Server) (k : NsId) : Prop :=
  ∀ n ∈ s.nsList, n.addr = k →
    (∀ sel ∈ s.currentSelections, ∀ c, sel.client = some c → s.nsOf c = some k →
      Within s.atoms n.name sel.selection) ∧
    ∀ e ∈ s.selectionEvents, s.nsOf e.pClient = some k → Within s.atoms n.name e.selection

theorem runAll_trans (h : ∃ calls, t.atoms = runAll s.atoms calls)
    (h' : ∃ calls, u.atoms = runAll t.atoms calls) : ∃ calls, u.atoms = runAll s.atoms calls := by
  obtain ⟨calls, hc⟩ := h
  obtain ⟨more, hm⟩ := h'
  exact ⟨calls ++ more, by rw [hm, hc, runAll, runAll, runAll, foldl_append]⟩

theorem Tabled.runAll (h : Tabled s) (ht : ∃ calls, t.atoms = Atom.runAll s.atoms calls) :
    Tabled t := by
  obtain ⟨nodes, hi⟩ := h
  obtain ⟨calls, hc⟩ := ht
  obtain ⟨nodes', hi', _⟩ := hi.runAll calls
  exact ⟨nodes', hc ▸ hi'⟩

structure Drops (s t : Server) : Prop where
  owners : ∀ sel' ∈ t.currentSelections, ∃ sel ∈ s.currentSelections,
    sel'.selection = sel.selection ∧ ∀ c, sel'.client = some c → sel.client = some c
  records : t.currentSelections.map Selection.selection =
    s.currentSelections.map Selection.selection
  listeners : ∀ e ∈ t.selectionEvents, e ∈ s.selectionEvents
  atoms : ∃ calls, t.atoms = runAll s.atoms calls

theorem Drops.of_eq (hsel : t.currentSelections = s.currentSelections)
    (hev : t.selectionEvents = s.selectionEvents) (hat : t.atoms = s.atoms) : Drops s t where
  owners sel h := ⟨sel, hsel ▸ h, rfl, fun _ => id⟩
  records := by rw [hsel]
  listeners e h := hev ▸ h
  atoms := ⟨[], hat⟩

theorem Drops.refl (s : Server) : Drops s s := .of_eq rfl rfl rfl

theorem Drops.trans (h : Drops s t) (h' : Drops t u) : Drops s u where
  owners sel'' hs := by
    obtain ⟨sel', hs', he', ho'⟩ := h'.owners sel'' hs
    obtain ⟨sel, hs, he, ho⟩ := h.owners sel' hs'
    exact ⟨sel, hs, he'.trans he, fun c hc => ho c (ho' c hc)⟩
  records := h'.records.trans h.records
  listeners e he := h.listeners e (h'.listeners e he)
  atoms := runAll_trans h.atoms h'.atoms

theorem Interns.drops (h : Interns s t) : Drops s t := by
  obtain ⟨calls, rfl⟩ := h
  exact ⟨fun sel h => ⟨sel, h, rfl, fun _ => id⟩, rfl, fun _ => id, calls, rfl⟩

theorem foldl_drops {α β : Type} {f : α × Server → β → α × Server}
    (hf : ∀ acc b, Drops acc.2 (f acc b).2) (l : List β) (acc : α × Server) :
    Drops acc.2 (l.foldl f acc).2 := by
  induction l generalizing acc with
  | nil => exact .refl _
  | cons b l ih => exact (hf acc b).trans (ih (f acc b))

def clearOwner (sel : Selection) : Selection :=
  { sel with pWin := none, window := 0, client := none }

theorem deleteFromAnySelections_eq (s : Server) (mem : Name → Bool)
    (kind : SelectionCallbackKind) (gone : Selection → Bool) :
    ∃ calls, (s.deleteFromAnySelections mem kind gone).2 = { s with
        atoms := runAll s.atoms calls
        currentSelections := s.currentSelections.map fun sel =>
          if gone sel then clearOwner sel else sel } := by
  have h := foldl_interns (f := fun acc sel =>
      ((acc.1 : List Output) ++ (acc.2.xfixesSelectionCallback mem kind sel).1,
        (acc.2.xfixesSelectionCallback mem kind sel).2))
    (fun acc sel => acc.2.xfixesSelectionCallback_interns mem kind sel)
    (s.currentSelections.filter gone) ([], s)
  obtain ⟨calls, hc⟩ := h
  refine ⟨calls, ?_⟩
  rw [deleteFromAnySelections]
  dsimp only at hc ⊢
  rw [hc]
  rfl

theorem deleteFromAnySelections_drops (s : Server) (mem : Name → Bool)
    (kind : SelectionCallbackKind) (gone : Selection → Bool) :
    Drops s (s.deleteFromAnySelections mem kind gone).2 ∧
      ∀ sel ∈ (s.deleteFromAnySelections mem kind gone).2.currentSelections,
        ∀ c, sel.client = some c →
          ∃ sel₀ ∈ s.currentSelections, sel₀.client = some c ∧ gone sel₀ = false := by
  obtain ⟨calls, he⟩ := s.deleteFromAnySelections_eq mem kind gone
  rw [he]
  refine ⟨⟨fun sel' h => ?_, ?_, fun _ => id, calls, rfl⟩, fun sel' h c hc => ?_⟩
  · obtain ⟨sel, hs, rfl⟩ := mem_map.mp h
    refine ⟨sel, hs, ?_⟩
    split
    · exact ⟨rfl, nofun⟩
    · exact ⟨rfl, fun _ => id⟩
  · rw [map_map]
    refine map_congr_left fun sel _ => ?_
    rw [Function.comp]
    split <;> rfl
  · obtain ⟨sel, hs, rfl⟩ := mem_map.mp h
    cases hg : gone sel with
    | true => simp [hg, clearOwner] at hc
    | false =>
      refine ⟨sel, hs, ?_, hg⟩
      simpa [hg] using hc

theorem destroyWindow_drops (s : Server) (mem : Name → Bool) (w : Nat) :
    Drops s (s.destroyWindow mem w).2 := by
  have h := (s.deleteFromAnySelections_drops mem .windowDestroy fun sel => sel.pWin = some w).1
  exact ⟨h.owners, h.records, fun e he => h.listeners e (mem_of_mem_filter he), h.atoms⟩

theorem freeClientResources_drops (s : Server) (mem : Name → Bool) (i : Nat) (windows : List Nat) :
    Drops s (s.freeClientResources mem i windows).2 ∧
      ∀ e ∈ (s.freeClientResources mem i windows).2.selectionEvents, e.pClient ≠ i := by
  have h := foldl_drops (f := fun acc w =>
      ((acc.1 : List Output) ++ (acc.2.destroyWindow mem w).1, (acc.2.destroyWindow mem w).2))
    (fun acc w => acc.2.destroyWindow_drops mem w) windows ([], s)
  refine ⟨⟨h.owners, h.records, fun e he => h.listeners e (mem_of_mem_filter he), h.atoms⟩,
    fun e he => ?_⟩
  simpa using (mem_filter.mp he).2

structure OnlyClient (i : Nat) (s t : Server) : Prop where
  selections : t.currentSelections = s.currentSelections
  events : t.selectionEvents = s.selectionEvents
  atoms : t.atoms = s.atoms
  clients : ∀ c, c ≠ i → t.client c = s.client c

theorem OnlyClient.trans {i : Nat} (h : OnlyClient i s t) (h' : OnlyClient i t u) :
    OnlyClient i s u :=
  ⟨h'.selections.trans h.selections, h'.events.trans h.events, h'.atoms.trans h.atoms,
    fun c hc => (h'.clients c hc).trans (h.clients c hc)⟩

theorem client_set_ne (s : Server) {i c : Nat} (h : c ≠ i) (x : Option Client) :
    { s with clients := s.clients.set i x }.client c = s.client c := by
  rw [client, client, getElem?_set_ne (Ne.symm h)]

theorem updateClient_only (s : Server) (i : Nat) (f : Client → Client) :
    OnlyClient i s (s.updateClient i f) := by
  refine ⟨rfl, rfl, rfl, fun c hc => ?_⟩
  rw [client, client, updateClient, getElem?_modify]
  cases s.clients[c]? with
  | none => rfl
  | some o => simp only [Option.map_eq_map, Option.map_some, if_neg (Ne.symm hc)]

theorem updateClient_client (s : Server) {i : Nat} {c : Client} (h : s.client i = some c)
    (f : Client → Client) : (s.updateClient i f).client i = some (f c) := by
  rw [client_eq_some, updateClient, modify_option _ _ _ (client_eq_some.mp h),
    getElem?_set_self (List.getElem?_eq_some_iff.mp (client_eq_some.mp h)).1]

theorem assign_frame (h : Exact s) (i : Nat) (newns : Option NsId)
    (hnew : ∀ k, newns = some k → ∃ n ∈ s.nsList, n.addr = k) :
    OnlyClient i s (s.xnamespaceAssignClient i newns) ∧ ∀ c, s.client i = some c →
        (s.xnamespaceAssignClient i newns).client i = some { c with ns := newns } := by
  cases hc : s.client i with
  | none =>
    rw [xnamespaceAssignClient_none hc]
    exact ⟨⟨rfl, rfl, rfl, fun _ _ => rfl⟩, nofun⟩
  | some c =>
    obtain ⟨auths, he⟩ := assign_spec h hc hnew
    rw [he]
    have honly := s.updateClient_only i fun p => { p with ns := newns }
    refine ⟨⟨rfl, rfl, rfl, honly.clients⟩, fun c' hc' => ?_⟩
    cases hc'
    exact s.updateClient_client hc fun p => { p with ns := newns }

end Xfront.Namespace.Server
