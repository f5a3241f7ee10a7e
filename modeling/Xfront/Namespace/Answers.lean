import Xfront.Namespace.Isolation

/-!
# Answers to `ConvertSelection`

Which selection the events of `ProcConvertSelection` name. Without a usable owner the parameters
go through the filter a second time with the name that it made the first time; the request to an
owner carries the name of the requesting client.
-/

namespace Xfront.Namespace.Server
open Bool
open Atom (Name Call Interned keyOf runAll cstr)

variable {s t : Server}

def internalName (s : Server) (i : Nat) (x : Name) : Name :=
  match (s.nsOf i).bind s.findNs with
  | none => x
  | some n => if n.superPower then x else selname n.name (some (cstr x))

/-- The atom `a` is what the client calls the selection. -/
def Calls (s : Server) (i selection a : Nat) : Prop :=
  ∃ x, AtomOf s.atoms a x ∧ AtomOf s.atoms selection (s.internalName i x)

theorem SameNs.internalName (h : SameNs s t) (i : Nat) (x : Name) :
    t.internalName i x = s.internalName i x := by
  have hfind : t.findNs = s.findNs := by
    funext k
    rw [findNs, findNs, h.nsList]
  have hns : t.nsOf i = s.nsOf i := by
    rw [nsOf, nsOf, Server.client, Server.client, h.clients]
  rw [Server.internalName, Server.internalName, hns, hfind]

variable {a : Nat} {x : Name}

theorem AtomOf.tabled (h : AtomOf s.atoms a x) : Tabled s := by
  obtain ⟨nodes, hi, _⟩ := h
  exact ⟨nodes, hi⟩

theorem AtomOf.interns (h : AtomOf s.atoms a x) (ht : Interns s t) : AtomOf t.atoms a x := by
  obtain ⟨calls, rfl⟩ := ht
  exact h.runAll calls

variable {i : Nat}

theorem hookSelectionFilter_internal {b : Nat} (h : AtomOf s.atoms a x)
    {op : FilterOp} (hop : FilterOp.Rewrites op) {mem : Name → Bool}
    (hb : (s.hookSelectionFilter mem i op (some a)).1 = some b) :
    AtomOf (s.hookSelectionFilter mem i op (some a)).2.atoms b (s.internalName i x) := by
  cases hns : (s.nsOf i).bind s.findNs with
  | none =>
    rw [hookSelectionFilter, hns] at hb ⊢
    rw [internalName, hns]
    cases hb
    exact h
  | some n =>
    by_cases hsuper : n.superPower = true
    · rw [hookSelectionFilter, hns] at hb ⊢
      rw [internalName, hns]
      dsimp only at hb ⊢
      rw [if_pos hsuper] at hb ⊢
      rw [if_pos hsuper]
      cases hb
      exact h
    · have hfiltered : s.Filtered i n := ⟨hns, not_eq_true _ ▸ hsuper⟩
      have hname : s.nameForAtom (some a) = some (cstr x) := h.named.name
      rw [hookSelectionFilter_rewrites hfiltered hop, hname] at hb ⊢
      rw [internalName, hns]
      dsimp only
      rw [if_neg hsuper]
      exact dixAddAtom_node h.tabled hb

theorem dixAddAtom_there (h : AtomOf s.atoms a x) (mem : Name → Bool) :
    (s.dixAddAtom mem x).1 = some a := by
  obtain ⟨nodes, hi, n, hn, rfl, hk⟩ := h
  have hrun : ∀ r, Call.run s.atoms ⟨x, true, mem x, mem x, mem x⟩ = r →
      (s.dixAddAtom mem x).1 = r.1 := by
    rintro r rfl
    rfl
  rcases Call.does hi ⟨x, true, mem x, mem x, mem x⟩ with
    ⟨m, hm, hkm, he⟩ | ⟨hfresh, _, _⟩ | ⟨hfresh, _, _, _⟩ | ⟨_, hfresh, _, _, _⟩
  · rw [hrun _ he]
    exact congrArg some ((hi.key_inj hm hn).mpr (hkm.trans hk.symm))
  · exact absurd hk (hfresh n hn)
  · exact absurd hk (hfresh n hn)
  · exact absurd hk (hfresh n hn)

theorem AtomOf.congr {st : Atom.Atoms} {y : Name} (h : AtomOf st a x)
    (hxy : keyOf x = keyOf y) : AtomOf st a y := by
  obtain ⟨nodes, hi, n, hn, ha, hk⟩ := h
  exact ⟨nodes, hi, n, hn, ha, hk.trans hxy⟩

theorem internalName_key (s : Server) (i : Nat) {y : Name} (h : keyOf x = keyOf y) :
    keyOf (s.internalName i x) = keyOf (s.internalName i y) := by
  rw [internalName, internalName]
  cases (s.nsOf i).bind s.findNs with
  | none => exact h
  | some n =>
    dsimp only
    split
    · exact h
    · rw [(Atom.keyOf_eq.mp h).2]

theorem hookSelectionFilter_there {b : Nat} (h : AtomOf s.atoms a x)
    (hb : AtomOf s.atoms b (s.internalName i x)) (mem : Name → Bool) :
    (s.hookSelectionFilter mem i .convert (some a)).1 = some b := by
  cases hns : (s.nsOf i).bind s.findNs with
  | none =>
    rw [internalName, hns] at hb
    rw [hookSelectionFilter, hns]
    exact congrArg some ((h.eq_iff hb).mpr rfl)
  | some n =>
    rw [internalName, hns] at hb
    dsimp only at hb
    by_cases hsuper : n.superPower = true
    · rw [if_pos hsuper] at hb
      rw [hookSelectionFilter, hns]
      dsimp only
      rw [if_pos hsuper]
      exact congrArg some ((h.eq_iff hb).mpr rfl)
    · rw [if_neg hsuper] at hb
      have hfiltered : s.Filtered i n := ⟨hns, not_eq_true _ ▸ hsuper⟩
      have hname : s.nameForAtom (some a) = some (cstr x) := h.named.name
      rw [hookSelectionFilter_rewrites hfiltered (.inr (.inr (.inl rfl))), hname]
      exact dixAddAtom_there hb mem

theorem hookSelectionFilter_evRequest (mem : Name → Bool) (i : Nat) (selection : Option Nat) :
    (s.hookSelectionFilter mem i .evRequest selection).1 = selection := by
  rw [hookSelectionFilter]
  cases (s.nsOf i).bind s.findNs with
  | none => rfl
  | some n =>
    dsimp only
    split <;> rfl

theorem writeEvent_eq {out out' : Output} (h : s.writeEvent out = [out']) : out' = out := by
  unfold writeEvent at h
  split at h
  · split at h
    · cases h
    · exact (List.singleton_inj.mp h).symm
  · cases h

theorem dixLookupSelection_interned (w : Outside) (atom : Nat) :
    (s.dixLookupSelection atom w).2.atoms = s.atoms ∧ SameNs s (s.dixLookupSelection atom w).2 := by
  rw [dixLookupSelection]
  split
  · exact ⟨rfl, .refl s⟩
  · dsimp only
    split
    · exact ⟨rfl, ⟨rfl, rfl, rfl, rfl⟩⟩
    · exact ⟨rfl, .refl s⟩

theorem convertSelection_cases (w : Outside) (i requestor selection target property time : Nat)
    (atom : Option Nat) {r : List Output × Server}
    (hr : s.convertSelection w i requestor selection target property time atom = r) :
    (∃ code value, r.1 = [.error i code value]) ∨
    ∃ a u sel, atom = some a ∧ s.dixLookupSelection a w = (.ok sel, u) ∧
      ((∃ o, u.convertingOwner sel = some o ∧
          r = ((u.hookSelectionFilter w.mem i .evRequest (some selection)).2.writeEvent
              (.selectionRequest o sel.window time requestor selection target property),
            (u.hookSelectionFilter w.mem i .evRequest (some selection)).2)) ∨
        u.convertingOwner sel = none ∧
          r = ((u.hookSelectionFilter w.mem i .convert (some a)).2.writeEvent
              (.selectionNotify i time requestor
                (u.hookSelectionFilter w.mem i .convert (some a)).1 target 0),
            (u.hookSelectionFilter w.mem i .convert (some a)).2)) := by
  unfold convertSelection at hr
  split at hr
  · exact .inl ⟨_, _, by rw [← hr]⟩
  cases atom with
  | none => exact .inl ⟨_, _, by rw [← hr]⟩
  | some a =>
    dsimp only at hr
    split at hr
    · exact .inl ⟨_, _, by rw [← hr]⟩
    rcases hlook : s.dixLookupSelection a w with ⟨found, u⟩
    rw [hlook] at hr
    cases found with
    | error rc => exact .inl ⟨_, _, by rw [← hr]⟩
    | ok sel =>
      refine .inr ⟨a, u, sel, rfl, hlook, ?_⟩
      dsimp only at hr
      cases howner : u.convertingOwner sel with
      | none =>
        rw [howner] at hr
        exact .inr ⟨rfl, hr.symm⟩
      | some o =>
        rw [howner] at hr
        refine .inl ⟨o, rfl, ?_⟩
        rw [← hr]
        rw [hookSelectionFilter_evRequest]
        rfl

theorem internal_looked_up {sel : Nat} (hsel : AtomOf s.atoms sel x) {w : Outside}
    (ha : (s.hookSelectionFilter w.mem i .convert (some sel)).1 = some a) {found : Selection}
    {u : Server}
    (hlook : (s.hookSelectionFilter w.mem i .convert (some sel)).2.dixLookupSelection a w =
      (.ok found, u)) :
    AtomOf u.atoms a (s.internalName i x) ∧ AtomOf u.atoms sel x ∧ SameNs s u := by
  have hfilter := s.hookSelectionFilter_interns w.mem i .convert (some sel)
  have hinternal := hookSelectionFilter_internal hsel (.inr (.inr (.inl rfl))) ha
  obtain ⟨hatoms, hsame⟩ :=
    dixLookupSelection_interned (s := (s.hookSelectionFilter w.mem i .convert (some sel)).2) w a
  rw [hlook] at hatoms hsame
  rw [hatoms]
  exact ⟨hinternal, hsel.interns hfilter, hfilter.sameNs.trans hsame⟩

/-- Without a usable owner the client is told of property `None`, and of the selection it asked
for exactly when its internal name made twice is its own name; an owner is asked for what it
calls the selection exactly when it and the client call it the same. -/
theorem convertSelection_terms {i sel : Nat} {x : Name} (hsel : AtomOf s.atoms sel x) (w : Outside)
    (requestor target property time : Nat) {outs : List Output}
    (hrun : s.procConvertSelection w i requestor sel target property time = (outs, t)) :
    (∀ dest time' requestor' name target' property',
      outs = [.selectionNotify dest time' requestor' name target' property'] →
      dest = i ∧ property' = 0 ∧
        (name = some sel ↔ keyOf (s.internalName i (s.internalName i x)) = keyOf x)) ∧
    (∀ dest owner time' requestor' name target' property',
      outs = [.selectionRequest dest owner time' requestor' name target' property'] →
      ∃ a, (s.hookSelectionFilter w.mem i .convert (some sel)).1 = some a ∧
        (t.Calls dest a name ↔ keyOf (s.internalName i x) = keyOf (s.internalName dest x))) := by
  have hcases := convertSelection_cases (s := (s.hookSelectionFilter w.mem i .convert (some sel)).2)
    w i requestor sel target property time (s.hookSelectionFilter w.mem i .convert (some sel)).1 hrun
  rcases hcases with ⟨code, value, herr⟩ | ⟨a, u, found, ha, hlook, hout⟩
  · dsimp only at herr
    rw [herr]
    constructor
    · intro _ _ _ _ _ _ heq
      cases heq
    · intro _ _ _ _ _ _ _ heq
      cases heq
  obtain ⟨hinternal, hkept, hsame⟩ := internal_looked_up hsel ha hlook
  rcases hout with ⟨o, -, hout⟩ | ⟨-, hout⟩
  · obtain ⟨rfl, rfl⟩ := Prod.mk.inj hout
    have hfilter := u.hookSelectionFilter_interns w.mem i .evRequest (some sel)
    have hint := hinternal.interns hfilter
    have hown := hkept.interns hfilter
    have hnames := (hsame.trans hfilter.sameNs).internalName o
    constructor
    · intro _ _ _ _ _ _ heq
      cases writeEvent_eq heq
    · intro dest owner time' requestor' name target' property' heq
      cases writeEvent_eq heq
      refine ⟨a, ha, ?_⟩
      constructor
      · rintro ⟨y, hy, hcalls⟩
        rw [hnames] at hcalls
        have hxy : keyOf y = keyOf x := (hy.eq_iff hown).mp rfl
        exact ((hint.eq_iff hcalls).mp rfl).trans (s.internalName_key o hxy)
      · intro hkeys
        refine ⟨x, hown, ?_⟩
        rw [hnames]
        exact hint.congr hkeys
  · obtain ⟨rfl, rfl⟩ := Prod.mk.inj hout
    have hfilter := u.hookSelectionFilter_interns w.mem i .convert (some a)
    have hnames := hsame.internalName i
    constructor
    · intro dest time' requestor' name target' property' heq
      cases writeEvent_eq heq
      refine ⟨rfl, rfl, ?_⟩
      constructor
      · intro hname
        have htwice := hookSelectionFilter_internal hinternal (.inr (.inr (.inl rfl))) hname
        rw [hnames] at htwice
        exact (htwice.eq_iff (hkept.interns hfilter)).mp rfl
      · intro hkeys
        refine hookSelectionFilter_there hinternal ?_ w.mem
        rw [hnames]
        exact hkept.congr hkeys.symm
    · intro _ _ _ _ _ _ _ heq
      cases writeEvent_eq heq

/-! ### A client of `ns_anon` -/

def anonClient : Server :=
  afterEvents ⟨64, Resource.allowed_64⟩ [] (fun _ => ⟨true, true, true, true, ⟨39, by decide⟩⟩)
    [.connect, .setup 1 0]

theorem anonClient_tabled : Tabled anonClient := (afterEvents_sane _ _ _ _).tabled

theorem primary_atom : AtomOf anonClient.atoms 1 (Atom.bytesOf "PRIMARY") := by
  obtain ⟨nodes, hi⟩ := anonClient_tabled
  have hfirst : (Call.run anonClient.atoms ⟨Atom.bytesOf "PRIMARY", false, true, true, true⟩).1 =
      some 1 := by decide +kernel
  rcases Call.does hi ⟨Atom.bytesOf "PRIMARY", false, true, true, true⟩ with
    ⟨n, hn, hk, he⟩ | ⟨_, _, he⟩ | ⟨_, hm, _, _⟩ | ⟨_, _, _, hm, _⟩
  · rw [he] at hfirst
    exact ⟨nodes, hi, n, hn, Option.some.inj hfirst, hk⟩
  · rw [he] at hfirst
    cases hfirst
  · cases hm
  · cases hm

theorem convertSelection_terms_anon :
    keyOf (anonClient.internalName 1 (anonClient.internalName 1 (Atom.bytesOf "PRIMARY"))) ≠
      keyOf (Atom.bytesOf "PRIMARY") := by
  rcases hrun : anonClient.procConvertSelection plentyOutside 1 100 1 31 0 0 with ⟨outs, t⟩
  have houts : outs = [.selectionNotify 1 0 100 (some 70) 31 0] := by
    have hfst : (anonClient.procConvertSelection plentyOutside 1 100 1 31 0 0).1 =
        [.selectionNotify 1 0 100 (some 70) 31 0] := by decide +kernel
    rw [← hfst, hrun]
  have hterms := (convertSelection_terms primary_atom plentyOutside 100 31 0 0 hrun).1 1 0 100
    (some 70) 31 0 houts
  intro hkeys
  cases hterms.2.2.mpr hkeys

/-- It asks for `PRIMARY` and is told of `<anon><anon>PRIMARY`. -/
theorem convertSelection_renamed :
    (anonClient.request plentyOutside 1 (.convertSelection 100 1 31 0 0)).1 =
      [.selectionNotify 1 0 100 (some 70) 31 0] ∧
    (anonClient.request plentyOutside 1 (.convertSelection 100 1 31 0 0)).2.nameForAtom (some 70) =
      some (Atom.bytesOf "<anon><anon>PRIMARY") ∧
    anonClient.nameForAtom (some 1) = some (Atom.bytesOf "PRIMARY") := by
  decide +kernel

end Xfront.Namespace.Server
