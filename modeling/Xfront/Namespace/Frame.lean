import Xfront.Namespace.Config
import Xfront.Atom.Bijection

/-!
# What the operations leave alone

The selection code only interns atoms and changes selections; `SameNs` says that the
namespaces, the clients and the cookies are as before.
-/

namespace Xfront.Namespace.Server
open Atom (Name Call runAll)

variable {s t u : Server}

def Interns (s t : Server) : Prop := ∃ calls, t = { s with atoms := runAll s.atoms calls }

theorem Interns.refl (s : Server) : Interns s s := ⟨[], rfl⟩

theorem Interns.trans (h : Interns s t) (h' : Interns t u) : Interns s u := by
  obtain ⟨calls, rfl⟩ := h
  obtain ⟨more, rfl⟩ := h'
  refine ⟨calls ++ more, ?_⟩
  rw [runAll, runAll, runAll, List.foldl_append]

theorem dixAddAtom_interns (s : Server) (mem : Name → Bool) (name : Name) :
    Interns s (s.dixAddAtom mem name).2 :=
  ⟨[⟨name, true, mem name, mem name, mem name⟩], rfl⟩

theorem hookSelectionFilter_interns (s : Server) (mem : Name → Bool) (client : Nat)
    (op : FilterOp) (selection : Option Nat) :
    Interns s (s.hookSelectionFilter mem client op selection).2 := by
  rw [hookSelectionFilter]
  cases (s.nsOf client).bind s.findNs with
  | none => exact .refl s
  | some ns =>
    dsimp only
    split
    · exact .refl s
    have h := s.dixAddAtom_interns mem (selname ns.name (s.nameForAtom selection))
    cases op with
    | notify => exact h.trans (dixAddAtom_interns _ _ _)
    | _ => exact h

theorem foldl_interns {α β : Type} {f : α × Server → β → α × Server}
    (hf : ∀ acc b, Interns acc.2 (f acc b).2) (l : List β) (acc : α × Server) :
    Interns acc.2 (l.foldl f acc).2 := by
  induction l generalizing acc with
  | nil => exact .refl _
  | cons b l ih => exact (hf acc b).trans (ih (f acc b))

theorem notifyOne_interns (mem : Name → Bool) (kind : SelectionCallbackKind)
    (selection : Selection) (acc : List Output × Server) (e : SelectionEvent) :
    Interns acc.2 (notifyOne mem kind selection acc e).2 := by
  rw [notifyOne]
  split
  · exact hookSelectionFilter_interns ..
  · exact .refl _

theorem xfixesSelectionCallback_interns (s : Server) (mem : Name → Bool)
    (kind : SelectionCallbackKind) (selection : Selection) :
    Interns s (s.xfixesSelectionCallback mem kind selection).2 :=
  foldl_interns (notifyOne_interns mem kind selection) s.selectionEvents ([], s)

structure SameNs (s t : Server) : Prop where
  nsList : t.nsList = s.nsList
  nextAddr : t.nextAddr = s.nextAddr
  clients : t.clients = s.clients
  mitAuth : t.mitAuth = s.mitAuth

theorem SameNs.refl (s : Server) : SameNs s s := ⟨rfl, rfl, rfl, rfl⟩

theorem SameNs.trans (h : SameNs s t) (h' : SameNs t u) : SameNs s u :=
  ⟨h'.nsList.trans h.nsList, h'.nextAddr.trans h.nextAddr, h'.clients.trans h.clients,
    h'.mitAuth.trans h.mitAuth⟩

theorem Interns.sameNs (h : Interns s t) : SameNs s t := by
  obtain ⟨calls, rfl⟩ := h
  exact ⟨rfl, rfl, rfl, rfl⟩

theorem foldl_sameNs {α β : Type} {f : α × Server → β → α × Server}
    (hf : ∀ acc b, SameNs acc.2 (f acc b).2) (l : List β) (acc : α × Server) :
    SameNs acc.2 (l.foldl f acc).2 := by
  induction l generalizing acc with
  | nil => exact .refl _
  | cons b l ih => exact (hf acc b).trans (ih (f acc b))

theorem deleteFromAnySelections_sameNs (s : Server) (mem : Name → Bool)
    (kind : SelectionCallbackKind) (gone : Selection → Bool) :
    SameNs s (s.deleteFromAnySelections mem kind gone).2 := by
  have h := foldl_sameNs (f := fun acc sel =>
      ((acc.1 : List Output) ++ (acc.2.xfixesSelectionCallback mem kind sel).1,
        (acc.2.xfixesSelectionCallback mem kind sel).2))
    (fun acc sel => (acc.2.xfixesSelectionCallback_interns mem kind sel).sameNs)
    (s.currentSelections.filter gone) ([], s)
  exact ⟨h.nsList, h.nextAddr, h.clients, h.mitAuth⟩

theorem destroyWindow_sameNs (s : Server) (mem : Name → Bool) (w : Nat) :
    SameNs s (s.destroyWindow mem w).2 := by
  have h := s.deleteFromAnySelections_sameNs mem .windowDestroy fun sel => sel.pWin = some w
  exact ⟨h.nsList, h.nextAddr, h.clients, h.mitAuth⟩

theorem freeClientResources_sameNs (s : Server) (mem : Name → Bool) (i : Nat)
    (windows : List Nat) : SameNs s (s.freeClientResources mem i windows).2 := by
  have h := foldl_sameNs (f := fun acc w =>
      ((acc.1 : List Output) ++ (acc.2.destroyWindow mem w).1, (acc.2.destroyWindow mem w).2))
    (fun acc w => acc.2.destroyWindow_sameNs mem w) windows ([], s)
  exact ⟨h.nsList, h.nextAddr, h.clients, h.mitAuth⟩

def OnlyCookies (s t : Server) : Prop := ∃ auths, t = { s with mitAuth := auths }

theorem OnlyCookies.refl (s : Server) : OnlyCookies s s := ⟨s.mitAuth, rfl⟩

theorem OnlyCookies.trans (h : OnlyCookies s t) (h' : OnlyCookies t u) : OnlyCookies s u := by
  obtain ⟨auths, rfl⟩ := h
  obtain ⟨auths', rfl⟩ := h'
  exact ⟨auths', rfl⟩

theorem addAuthorization_onlyCookies (s : Server) (n : Nat) (name data : Name) (id : ServerXID)
    (allocated : Bool) : OnlyCookies s (s.addAuthorization n name data id allocated).2 := by
  rw [addAuthorization]
  split
  · rw [mitAddCookie]
    split
    · exact .refl s
    · split
      · exact ⟨_, rfl⟩
      · exact .refl s
  · exact .refl s

theorem freeToken_onlyCookies (s : Server) (token : AuthToken) :
    OnlyCookies s (s.freeToken token) := by
  rw [freeToken, removeAuthorization]
  split
  · split
    · exact ⟨_, rfl⟩
    · exact .refl s
  · exact .refl s

theorem freeTokens_onlyCookies (tokens : List AuthToken) (s : Server) :
    OnlyCookies s (tokens.foldl freeToken s) := by
  induction tokens generalizing s with
  | nil => exact .refl s
  | cons token tokens ih => exact (s.freeToken_onlyCookies token).trans (ih _)

end Xfront.Namespace.Server
