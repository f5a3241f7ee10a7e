import Xfront.Namespace.Kept

/-!
# What a request can gain

A request of a client works on one atom, the one that the filter gave.
-/

namespace Xfront.Namespace.Server
open List Option
open Atom (Name Call runAll)

variable {s t u : Server}

/-- The client `i` may have become an owner or a listener of the atom `a`. -/
structure Gains (i a : Nat) (s t : Server) : Prop where
  sameNs : SameNs s t
  atoms : ∃ calls, t.atoms = runAll s.atoms calls
  records : (s.currentSelections.map Selection.selection).Nodup →
    (t.currentSelections.map Selection.selection).Nodup
  owners : ∀ sel' ∈ t.currentSelections, ∀ c, sel'.client = some c → (c = i ∧ sel'.selection = a) ∨
      ∃ sel ∈ s.currentSelections, sel.selection = sel'.selection ∧ sel.client = some c
  listeners : ∀ e' ∈ t.selectionEvents, (e'.pClient = i ∧ e'.selection = a) ∨
    ∃ e ∈ s.selectionEvents, e.pClient = e'.pClient ∧ e.selection = e'.selection
  kept : ∀ sel ∈ s.currentSelections, sel.selection ≠ a → sel ∈ t.currentSelections

variable {i a : Nat}

theorem Interns.gains (h : Interns s t) : Gains i a s t := by
  obtain ⟨calls, rfl⟩ := h
  exact ⟨⟨rfl, rfl, rfl, rfl⟩, ⟨calls, rfl⟩, id, fun sel h c hc => .inr ⟨sel, h, rfl, hc⟩,
    fun e h => .inr ⟨e, h, rfl, rfl⟩, fun sel h _ => h⟩

theorem Gains.refl (s : Server) : Gains i a s s := (Interns.refl s).gains

theorem Gains.trans (h : Gains i a s t) (h' : Gains i a t u) : Gains i a s u where
  sameNs := h.sameNs.trans h'.sameNs
  atoms := runAll_trans h.atoms h'.atoms
  records := h'.records ∘ h.records
  owners sel'' hs c hc := by
    rcases h'.owners sel'' hs c hc with hnew | ⟨sel', hs', he', hc'⟩
    · exact .inl hnew
    rcases h.owners sel' hs' c hc' with ⟨hi, ha⟩ | ⟨sel, hsel, he, hc⟩
    · exact .inl ⟨hi, he' ▸ ha⟩
    · exact .inr ⟨sel, hsel, he.trans he', hc⟩
  listeners e'' he := by
    rcases h'.listeners e'' he with hnew | ⟨e', he', hc', ha'⟩
    · exact .inl hnew
    rcases h.listeners e' he' with ⟨hi, ha⟩ | ⟨e, hmem, hc, ha⟩
    · exact .inl ⟨hc' ▸ hi, ha' ▸ ha⟩
    · exact .inr ⟨e, hmem, hc.trans hc', ha.trans ha'⟩
  kept sel hs hne := h'.kept sel (h.kept sel hs hne) hne

theorem dixLookupSelection_gains (s : Server) (i a : Nat) (w : Outside) :
    Gains i a s (s.dixLookupSelection a w).2 := by
  rw [dixLookupSelection]
  cases hf : s.currentSelections.find? (·.selection = a) with
  | some sel => exact .refl s
  | none =>
    dsimp only
    split
    · refine ⟨⟨rfl, rfl, rfl, rfl⟩, ⟨[], rfl⟩, fun hn => ?_, fun sel h c hc => ?_,
        fun e h => .inr ⟨e, h, rfl, rfl⟩, fun sel h _ => mem_cons_of_mem _ h⟩
      · rw [map_cons, nodup_cons]
        refine ⟨fun hm => ?_, hn⟩
        obtain ⟨sel, hsel, he⟩ := mem_map.mp hm
        exact find?_eq_none.mp hf sel hsel (by simpa using he)
      · rcases mem_cons.mp h with rfl | h
        · cases hc
        · exact .inr ⟨sel, h, rfl, hc⟩
    · exact .refl s

theorem updateSelection_gains (s : Server) (sel' : Selection) (ha : sel'.selection = a)
    (hc : ∀ c, sel'.client = some c → c = i) : Gains i a s (s.updateSelection a fun _ => sel') := by
  refine ⟨⟨rfl, rfl, rfl, rfl⟩, ⟨[], rfl⟩, fun hn => ?_, fun sel h c hcl => ?_,
    fun e h => .inr ⟨e, h, rfl, rfl⟩, fun sel h hne => ?_⟩
  · have hmap : (s.updateSelection a fun _ => sel').currentSelections.map Selection.selection =
        s.currentSelections.map Selection.selection := by
      rw [updateSelection, List.map_map]
      refine map_congr_left fun sel _ => ?_
      dsimp only [Function.comp]
      split
      · next he => rw [ha, he]
      · rfl
    rwa [hmap]
  · obtain ⟨sel₀, h₀, rfl⟩ := List.mem_map.mp h
    split at hcl
    · next he => exact .inl ⟨hc c hcl, by rw [if_pos he, ha]⟩
    · next he => exact .inr ⟨sel₀, h₀, by rw [if_neg he], hcl⟩
  · exact List.mem_map.mpr ⟨sel, h, if_neg hne⟩

theorem selectionClear_interns (s : Server) (w : Outside) (client window selection : Nat)
    (time : TimeStamp) (sel : Selection) :
    Interns s (s.selectionClear w client window selection time sel).2 := by
  rw [selectionClear]
  split
  · split
    · exact s.hookSelectionFilter_interns w.mem client .evClear (some selection)
    · exact .refl s
  · exact .refl s

theorem dixLookupSelection_ok (w : Outside) (sel : Selection)
    (h : (s.dixLookupSelection a w).1 = .ok sel) :
    sel.selection = a ∧ (sel ∈ s.currentSelections ∨ sel.client = none) := by
  rw [dixLookupSelection] at h
  cases hf : s.currentSelections.find? (·.selection = a) with
  | some sel' =>
    rw [hf] at h
    dsimp only at h
    split at h
    · cases h
      exact ⟨by simpa using find?_some hf, .inl (mem_of_find?_eq_some hf)⟩
    · cases h
  | none =>
    rw [hf] at h
    dsimp only at h
    split at h
    · split at h
      · cases h
        exact ⟨rfl, .inr rfl⟩
      · cases h
    · cases h

theorem setSelectionOwner_gains (s : Server) (w : Outside) (i window selection : Nat)
    (time : TimeStamp) (a : Nat) :
    Gains i a s (s.setSelectionOwner w i window selection time (some a)).2 := by
  rw [setSelectionOwner]
  split
  · exact .refl s
  split
  · exact .refl s
  have hlook := s.dixLookupSelection_gains i a w
  have hok := fun sel => dixLookupSelection_ok (s := s) (a := a) w sel
  rcases hr : s.dixLookupSelection a w with ⟨r, u⟩
  rw [hr] at hlook hok
  cases r with
  | error rc => exact hlook
  | ok sel =>
    dsimp only
    split
    · exact hlook
    · have hclear := u.selectionClear_interns w i window selection time sel
      have hset := updateSelection_gains (i := i) (a := a)
        (u.selectionClear w i window selection time sel).2 (newOwner i window time sel)
        (hok sel rfl).1 (by
          intro c hc
          rw [newOwner] at hc
          split at hc
          · cases hc
          · exact (some.inj hc).symm)
      exact ((hlook.trans hclear.gains).trans hset).trans
        (xfixesSelectionCallback_interns _ w.mem .setOwner _).gains

theorem getSelectionOwner_gains (s : Server) (w : Outside) (i id a : Nat) :
    Gains i a s (s.getSelectionOwner w i id (some a)).2 := by
  rw [getSelectionOwner]
  split
  · exact .refl s
  have hlook := s.dixLookupSelection_gains i a w
  rcases hr : s.dixLookupSelection a w with ⟨r, u⟩
  rw [hr] at hlook
  cases r <;> exact hlook

theorem convertSelection_gains (s : Server) (w : Outside)
    (i requestor selection target property time a : Nat) : Gains i a s
      (s.convertSelection w i requestor selection target property time (some a)).2 := by
  rw [convertSelection]
  split
  · exact .refl s
  split
  · exact .refl s
  have hlook := s.dixLookupSelection_gains i a w
  rcases hr : s.dixLookupSelection a w with ⟨r, u⟩
  rw [hr] at hlook
  cases r with
  | error rc => exact hlook
  | ok sel =>
    dsimp only
    split
    · exact hlook.trans (u.hookSelectionFilter_interns w.mem i .evRequest (some selection)).gains
    · exact hlook.trans (u.hookSelectionFilter_interns w.mem i .convert (some a)).gains

theorem listen_gains (s : Server) (w : Outside) (a i window : Nat) (eventMask : BitVec 32) :
    Gains i a s (s.listen w a i window eventMask).2 := by
  have hevents : ∀ events : List SelectionEvent,
      (∀ e' ∈ events, (e'.pClient = i ∧ e'.selection = a) ∨
        ∃ e ∈ s.selectionEvents, e.pClient = e'.pClient ∧ e.selection = e'.selection) →
      Gains i a s { s with selectionEvents := events } := fun events h =>
    ⟨⟨rfl, rfl, rfl, rfl⟩, ⟨[], rfl⟩, id, fun sel h c hc => .inr ⟨sel, h, rfl, hc⟩, h,
      fun sel h _ => h⟩
  rw [listen]
  split
  · exact hevents _ fun e he => .inr ⟨e, mem_of_mem_filter he, rfl, rfl⟩
  split
  · refine hevents _ fun e' he' => ?_
    obtain ⟨e, he, rfl⟩ := mem_map.mp he'
    refine .inr ⟨e, he, ?_⟩
    split <;> exact ⟨rfl, rfl⟩
  split
  · exact .refl s
  · refine hevents _ fun e he => ?_
    rcases mem_append.mp he with he | he
    · exact .inr ⟨e, he, rfl, rfl⟩
    · obtain rfl := mem_singleton.mp he
      exact .inl ⟨rfl, rfl⟩

theorem selectSelectionInput_gains (s : Server) (w : Outside) (i window : Nat)
    (eventMask : BitVec 32) (a : Nat) :
    Gains i a s (s.selectSelectionInput w i window eventMask (some a)).2 := by
  rw [selectSelectionInput]
  split
  · exact .refl s
  split
  · exact .refl s
  have hlook := s.dixLookupSelection_gains i a w
  rcases hr : s.dixLookupSelection a w with ⟨r, u⟩
  rw [hr] at hlook
  cases r with
  | error rc => exact hlook
  | ok sel => exact hlook.trans (u.listen_gains w a i window eventMask)

def Reaches (i a : Nat) (s : Server) (dest : Nat) : Prop :=
  dest = i ∨ (∃ sel ∈ s.currentSelections, sel.selection = a ∧ sel.client = some dest) ∨
    ∃ e ∈ s.selectionEvents, e.selection = a ∧ e.pClient = dest

theorem mem_writeEvent {o out : Output} (h : o ∈ s.writeEvent out) : o = out := by
  rw [writeEvent] at h
  split at h
  · split at h
    · cases h
    · exact mem_singleton.mp h
  · cases h

theorem foldl_notifyOne_reaches (mem : Name → Bool) (kind : SelectionCallbackKind)
    (sel : Selection) (events : List SelectionEvent) (acc : List Output × Server) :
    ∀ o ∈ (events.foldl (notifyOne mem kind sel) acc).1, o ∈ acc.1 ∨
      ∃ e ∈ events, e.selection = sel.selection ∧ e.pClient = o.dest := by
  induction events generalizing acc with
  | nil => exact fun o ho => .inl ho
  | cons e events ih =>
    intro o ho
    rcases ih _ o ho with ho | ⟨e', he', hreach⟩
    · rw [notifyOne] at ho
      split at ho
      · next hsel =>
        rcases mem_append.mp ho with ho | ho
        · exact .inl ho
        · refine .inr ⟨e, mem_cons_self, hsel.1, ?_⟩
          rw [mem_writeEvent ho]
          rfl
      · exact .inl ho
    · exact .inr ⟨e', mem_cons_of_mem _ he', hreach⟩

theorem xfixesSelectionCallback_reaches (s : Server) (mem : Name → Bool)
    (kind : SelectionCallbackKind) (sel : Selection) :
    ∀ o ∈ (s.xfixesSelectionCallback mem kind sel).1,
      ∃ e ∈ s.selectionEvents, e.selection = sel.selection ∧ e.pClient = o.dest := by
  intro o ho
  rcases foldl_notifyOne_reaches mem kind sel s.selectionEvents ([], s) o ho with ho | hreach
  · cases ho
  · exact hreach

theorem Interns.events (h : Interns s t) : t.selectionEvents = s.selectionEvents := by
  obtain ⟨calls, rfl⟩ := h
  rfl

theorem dixLookupSelection_events (s : Server) (a : Nat) (w : Outside) :
    (s.dixLookupSelection a w).2.selectionEvents = s.selectionEvents := by
  rw [dixLookupSelection]
  split
  · rfl
  · split <;> rfl

theorem reaches_error {code value : Nat} :
    ∀ o ∈ [Output.error i code value], Reaches i a s o.dest := by
  intro o ho
  rw [mem_singleton.mp ho]
  exact .inl rfl

theorem setSelectionOwner_reaches (s : Server) (w : Outside) (i window selection : Nat)
    (time : TimeStamp) (a : Nat) :
    ∀ o ∈ (s.setSelectionOwner w i window selection time (some a)).1, Reaches i a s o.dest := by
  rw [setSelectionOwner]
  split
  · exact reaches_error
  split
  · exact reaches_error
  have hok := fun sel => dixLookupSelection_ok (s := s) (a := a) w sel
  have hevents := s.dixLookupSelection_events a w
  rcases hr : s.dixLookupSelection a w with ⟨r, u⟩
  rw [hr] at hok hevents
  cases r with
  | error rc => exact reaches_error
  | ok sel =>
    obtain ⟨hsel, howner⟩ := hok sel rfl
    dsimp only
    split
    · exact nofun
    intro o ho
    rcases mem_append.mp ho with ho | ho
    · -- who owned the selection
      rw [selectionClear] at ho
      split at ho
      · next old hold =>
        split at ho
        · rw [mem_writeEvent ho]
          refine .inr (.inl ⟨sel, ?_, hsel, hold⟩)
          rcases howner with hm | hnone
          · exact hm
          · rw [hnone] at hold
            cases hold
        · cases ho
      · cases ho
    · obtain ⟨e, he, hesel, hdest⟩ := xfixesSelectionCallback_reaches _ _ _ _ o ho
      have hclear := (u.selectionClear_interns w i window selection time sel).events
      have he' : e ∈ s.selectionEvents := hevents ▸ hclear ▸ he
      exact .inr (.inr ⟨e, he', hesel.trans hsel, hdest⟩)

theorem getSelectionOwner_reaches (s : Server) (w : Outside) (i id a : Nat) :
    ∀ o ∈ (s.getSelectionOwner w i id (some a)).1, Reaches i a s o.dest := by
  rw [getSelectionOwner]
  split
  · exact reaches_error
  rcases s.dixLookupSelection a w with ⟨r, u⟩
  cases r with
  | error rc => exact reaches_error
  | ok sel =>
    intro o ho
    rw [mem_singleton.mp ho]
    exact .inl rfl

theorem convertSelection_reaches (s : Server) (w : Outside)
    (i requestor selection target property time a : Nat) :
    ∀ o ∈ (s.convertSelection w i requestor selection target property time (some a)).1,
      Reaches i a s o.dest := by
  rw [convertSelection]
  split
  · exact reaches_error
  split
  · exact reaches_error
  have hok := fun sel => dixLookupSelection_ok (s := s) (a := a) w sel
  rcases hr : s.dixLookupSelection a w with ⟨r, u⟩
  rw [hr] at hok
  cases r with
  | error rc => exact reaches_error
  | ok sel =>
    obtain ⟨hsel, howner⟩ := hok sel rfl
    dsimp only
    split
    · next o hconv =>
      intro out ho
      have hcl : sel.client = some o := (filter_eq_some_iff.mp hconv).1
      rw [mem_writeEvent ho]
      refine .inr (.inl ⟨sel, ?_, hsel, hcl⟩)
      rcases howner with hm | hnone
      · exact hm
      · rw [hnone] at hcl
        cases hcl
    · intro out ho
      rw [mem_writeEvent ho]
      exact .inl rfl

theorem listen_reaches (s : Server) (w : Outside) (a i window : Nat) (eventMask : BitVec 32) :
    ∀ o ∈ (s.listen w a i window eventMask).1, o.dest = i := by
  rw [listen]
  intro o ho
  split at ho
  · cases ho
  split at ho
  · cases ho
  split at ho
  · rw [mem_singleton.mp ho]
    rfl
  · cases ho

theorem selectSelectionInput_reaches (s : Server) (w : Outside) (i window : Nat)
    (eventMask : BitVec 32) (a : Nat) :
    ∀ o ∈ (s.selectSelectionInput w i window eventMask (some a)).1, Reaches i a s o.dest := by
  rw [selectSelectionInput]
  split
  · exact reaches_error
  split
  · exact reaches_error
  rcases s.dixLookupSelection a w with ⟨r, u⟩
  cases r with
  | error rc => exact reaches_error
  | ok sel => exact fun o ho => .inl (u.listen_reaches w a i window eventMask o ho)

def withSels (s : Server) (sels : List Selection) : Server := { s with currentSelections := sels }

theorem hookSelectionFilter_withSels (s : Server) (sels : List Selection) (mem : Name → Bool)
    (i : Nat) (op : FilterOp) (sel : Option Nat) :
    (s.withSels sels).hookSelectionFilter mem i op sel = ((s.hookSelectionFilter mem i op sel).1,
        (s.hookSelectionFilter mem i op sel).2.withSels sels) := by
  have hns : ((s.withSels sels).nsOf i).bind (s.withSels sels).findNs =
    (s.nsOf i).bind s.findNs := rfl
  rw [hookSelectionFilter, hookSelectionFilter, hns]
  cases (s.nsOf i).bind s.findNs with
  | none => rfl
  | some ns =>
    dsimp only
    split
    · rfl
    · cases op <;> rfl

theorem notifyOne_withSels (mem : Name → Bool) (kind : SelectionCallbackKind) (sel : Selection)
    (sels : List Selection) (acc : List Output × Server) (e : SelectionEvent) :
    notifyOne mem kind sel (acc.1, acc.2.withSels sels) e =
      ((notifyOne mem kind sel acc e).1, (notifyOne mem kind sel acc e).2.withSels sels) := by
  rw [notifyOne, notifyOne]
  split
  · rw [hookSelectionFilter_withSels]
    rfl
  · rfl

theorem xfixesSelectionCallback_withSels (s : Server) (sels : List Selection)
    (mem : Name → Bool) (kind : SelectionCallbackKind) (sel : Selection) :
    (s.withSels sels).xfixesSelectionCallback mem kind sel =
      ((s.xfixesSelectionCallback mem kind sel).1,
        (s.xfixesSelectionCallback mem kind sel).2.withSels sels) := by
  have hloop : ∀ (events : List SelectionEvent) (acc : List Output × Server),
      events.foldl (notifyOne mem kind sel) (acc.1, acc.2.withSels sels) =
        ((events.foldl (notifyOne mem kind sel) acc).1,
          (events.foldl (notifyOne mem kind sel) acc).2.withSels sels) := by
    intro events
    induction events with
    | nil => exact fun _ => rfl
    | cons e events ih =>
      intro acc
      rw [foldl_cons, notifyOne_withSels, ih]
      rfl
  exact hloop s.selectionEvents ([], s)

theorem selectionClear_withSels (s : Server) (sels : List Selection) (w : Outside)
    (i window selection : Nat) (time : TimeStamp) (sel : Selection) :
    (s.withSels sels).selectionClear w i window selection time sel =
      ((s.selectionClear w i window selection time sel).1,
        (s.selectionClear w i window selection time sel).2.withSels sels) := by
  rw [selectionClear, selectionClear]
  cases sel.client with
  | none => rfl
  | some old =>
    dsimp only
    split
    · rw [hookSelectionFilter_withSels]
      rfl
    · rfl

def SameRecord (a : Nat) (s : Server) (sels : List Selection) : Prop :=
  sels.find? (·.selection = a) = s.currentSelections.find? (·.selection = a)

variable {sels : List Selection}

section
variable (h : SameRecord a s sels)
include h

theorem dixLookupSelection_withSels (w : Outside) :
    ∃ sels', (s.withSels sels).dixLookupSelection a w =
      ((s.dixLookupSelection a w).1, (s.dixLookupSelection a w).2.withSels sels') := by
  have hfind : (s.withSels sels).currentSelections.find? (·.selection = a) =
    s.currentSelections.find? (·.selection = a) := h
  rw [dixLookupSelection, dixLookupSelection, hfind]
  cases s.currentSelections.find? (·.selection = a) with
  | some sel => exact ⟨sels, rfl⟩
  | none =>
    dsimp only
    split
    · exact ⟨_, rfl⟩
    · exact ⟨sels, rfl⟩

theorem setSelectionOwner_withSels
    (w : Outside) (i window selection : Nat) (time : TimeStamp) :
    ((s.withSels sels).setSelectionOwner w i window selection time (some a)).1 =
      (s.setSelectionOwner w i window selection time (some a)).1 := by
  obtain ⟨sels', hl⟩ := dixLookupSelection_withSels h w
  have hvalid : (s.withSels sels).validAtom (some a) = s.validAtom (some a) := rfl
  rw [setSelectionOwner, setSelectionOwner]
  split
  · rfl
  rw [hvalid, hl]
  split
  · rfl
  rcases s.dixLookupSelection a w with ⟨r, u⟩
  cases r with
  | error rc => rfl
  | ok sel =>
    dsimp only
    split
    · rfl
    rw [selectionClear_withSels]
    have hset : ∀ v : Server, (v.withSels sels').updateSelection a (fun _ =>
        newOwner i window time sel) = (v.updateSelection a fun _ =>
          newOwner i window time sel).withSels (sels'.map fun x =>
            if x.selection = a then newOwner i window time sel else x) := fun _ => rfl
    rw [hset, xfixesSelectionCallback_withSels]

theorem getSelectionOwner_withSels (w : Outside) (i id : Nat) :
    ((s.withSels sels).getSelectionOwner w i id (some a)).1 =
      (s.getSelectionOwner w i id (some a)).1 := by
  obtain ⟨sels', hl⟩ := dixLookupSelection_withSels h w
  have hvalid : (s.withSels sels).validAtom (some a) = s.validAtom (some a) := rfl
  rw [getSelectionOwner, getSelectionOwner]
  rw [hvalid, hl]
  split
  · rfl
  rcases s.dixLookupSelection a w with ⟨r, u⟩
  cases r <;> rfl

theorem convertSelection_withSels
    (w : Outside) (i requestor selection target property time : Nat) :
    ((s.withSels sels).convertSelection w i requestor selection target property time (some a)).1 =
      (s.convertSelection w i requestor selection target property time (some a)).1 := by
  obtain ⟨sels', hl⟩ := dixLookupSelection_withSels h w
  have hvalid : ∀ x, (s.withSels sels).validAtom x = s.validAtom x := fun _ => rfl
  rw [convertSelection, convertSelection]
  split
  · rfl
  rw [hvalid, hvalid, hvalid, hl]
  split
  · rfl
  rcases s.dixLookupSelection a w with ⟨r, u⟩
  cases r with
  | error rc => rfl
  | ok sel =>
    have howner : (u.withSels sels').convertingOwner sel = u.convertingOwner sel := rfl
    dsimp only
    rw [howner]
    cases u.convertingOwner sel with
    | some o | none =>
      dsimp only
      rw [hookSelectionFilter_withSels]
      rfl

end

theorem listen_withSels (s : Server) (sels : List Selection) (w : Outside) (a i window : Nat)
    (eventMask : BitVec 32) : ((s.withSels sels).listen w a i window eventMask).1 =
      (s.listen w a i window eventMask).1 := by
  have hevents : (s.withSels sels).selectionEvents = s.selectionEvents := rfl
  rw [listen, listen, hevents]
  split
  · rfl
  split
  · rfl
  split <;> rfl

theorem selectSelectionInput_withSels (h : SameRecord a s sels)
    (w : Outside) (i window : Nat) (eventMask : BitVec 32) :
    ((s.withSels sels).selectSelectionInput w i window eventMask (some a)).1 =
      (s.selectSelectionInput w i window eventMask (some a)).1 := by
  obtain ⟨sels', hl⟩ := dixLookupSelection_withSels h w
  rw [selectSelectionInput, selectSelectionInput]
  split
  · rfl
  split
  · rfl
  rw [hl]
  rcases s.dixLookupSelection a w with ⟨r, u⟩
  cases r with
  | error rc => rfl
  | ok sel => exact u.listen_withSels sels' w a i window eventMask

end Xfront.Namespace.Server
