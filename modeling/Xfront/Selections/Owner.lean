import Xfront.Lib.Keyed
import Xfront.Lib.Run

/-!
# Who owns a selection (dix/selection.c)

`ProcSetSelectionOwner` with its two filter records, and the selections that windows and clients
leave behind. A window is known by its id. What the access hooks and the atom table answer comes
with the request.
-/

namespace Xfront.Selections

open List Option

/-! ### Time stamps (dix/dixutils.c) -/

structure TimeStamp where
  months : BitVec 32
  milliseconds : BitVec 32
  deriving DecidableEq

def earlier : Int := -1

def sameTime : Int := 0

def later : Int := 1

def compareTimeStamps (a b : TimeStamp) : Int :=
  if a.months < b.months then earlier
  else if a.months > b.months then later
  else if a.milliseconds < b.milliseconds then earlier
  else if a.milliseconds > b.milliseconds then later
  else sameTime

def halfMonth : Nat := 2 ^ 31

def clientTimeToServerTime (currentTime : TimeStamp) (c : BitVec 32) : TimeStamp :=
  if c = 0 then currentTime
  else if c > currentTime.milliseconds then
    if c.toNat - currentTime.milliseconds.toNat > halfMonth then ⟨currentTime.months - 1, c⟩
    else ⟨currentTime.months, c⟩
  else if c < currentTime.milliseconds then
    if currentTime.milliseconds.toNat - c.toNat > halfMonth then ⟨currentTime.months + 1, c⟩
    else ⟨currentTime.months, c⟩
  else ⟨currentTime.months, c⟩

def updateCurrentTime (currentTime : TimeStamp) (now : BitVec 32) : TimeStamp :=
  let months := if now < currentTime.milliseconds then currentTime.months + 1
    else currentTime.months
  if compareTimeStamps ⟨months, now⟩ currentTime = later then ⟨months, now⟩ else currentTime

def selectionFilterSetOwner : Nat := 2

def selectionFilterEvClear : Nat := 6

structure SelectionFilterParamRec where
  op : Nat
  skip : Bool := false
  status : Int := 0
  selection : Nat
  client : Option Nat
  recvClient : Option Nat := none
  time : BitVec 32 := 0
  requestor : Nat := 0
  owner : Nat
  property : Nat := 0
  target : Nat := 0
  deriving DecidableEq

abbrev Filter := SelectionFilterParamRec → SelectionFilterParamRec

def callCallbacks (filters : List Filter) (param : SelectionFilterParamRec) :
    SelectionFilterParamRec :=
  filters.foldl (fun param filter => filter param) param

structure Selection where
  selection : Nat
  lastTimeChanged : TimeStamp := ⟨0, 0⟩
  window : Nat := 0
  pWin : Option Nat := none
  client : Option Nat := none
  deriving DecidableEq

/-- `clients` are those that events can be written to; the server's own client is not one. -/
structure Server where
  currentTime : TimeStamp
  currentSelections : List Selection
  windows : List Nat
  clients : List Nat

structure SetSelectionOwnerReq where
  window : Nat
  selection : Nat
  time : BitVec 32

/-- What a request finds outside this code: the time, the filters, the answers of the access
hooks and of the atom table, and whether there is memory. -/
structure Outside where
  now : BitVec 32
  filters : List Filter
  windowAccess : Nat → Int
  validAtom : Nat → Bool
  allocated : Bool
  selectionAccess : Nat → Int

def success : Int := 0

def badWindow : Int := 3

def badAtom : Int := 5

def badAlloc : Int := 11

/-- A `SelectionClear` event and the client it is for. -/
structure Delivery where
  dest : Nat
  time : BitVec 32
  window : Nat
  atom : Nat
  deriving DecidableEq

namespace Server

variable (s : Server) (w : Outside)

def dixLookupWindow (id : Nat) : Except Int (Option Nat) :=
  if id = 0 then .ok none
  else if id ∉ s.windows then .error badWindow
  else if w.windowAccess id ≠ success then .error (w.windowAccess id)
  else .ok (some id)

def dixLookupSelection (name : Nat) : Except Int Selection × Server :=
  let found (pSel : Selection) : Except Int Selection :=
    if w.selectionAccess name ≠ success then .error (w.selectionAccess name) else .ok pSel
  match Keyed.lookup Selection.selection s.currentSelections name with
  | some pSel => (found pSel, s)
  | none =>
    if w.allocated then
      (found { selection := name },
        { s with currentSelections := { selection := name } :: s.currentSelections })
    else (.error badAlloc, s)

def writeEventsToClient (recvClient : Option Nat) (time : BitVec 32) (window atom : Nat) :
    List Delivery :=
  match recvClient with
  | some dest => if dest ∈ s.clients then [⟨dest, time, window, atom⟩] else []
  | none => []

/-- What the checks of `ProcSetSelectionOwner` come to. -/
inductive Checked where
  | refused (status : Int)
  | accepted (time : TimeStamp) (param : SelectionFilterParamRec) (pWin : Option Nat)
      (pSel : Selection)

def ownerParam (client : Nat) (stuff : SetSelectionOwnerReq) : SelectionFilterParamRec :=
  callCallbacks w.filters
    { op := selectionFilterSetOwner
      client := some client
      selection := stuff.selection
      owner := stuff.window }

def eventParam (client owner : Nat) (stuff : SetSelectionOwnerReq) (pSel : Selection) :
    SelectionFilterParamRec :=
  callCallbacks w.filters
    { op := selectionFilterEvClear
      client := some client
      recvClient := some owner
      owner := pSel.window
      selection := stuff.selection }

def check (client : Nat) (stuff : SetSelectionOwnerReq) : Checked × Server :=
  let time := clientTimeToServerTime s.currentTime stuff.time
  if compareTimeStamps time s.currentTime = later then (.refused success, s)
  else
    let param := ownerParam w client stuff
    if param.skip then (.refused param.status, s)
    else
      match s.dixLookupWindow w param.owner with
      | .error rc => (.refused rc, s)
      | .ok pWin =>
        if ¬ w.validAtom param.selection then (.refused badAtom, s)
        else
          match s.dixLookupSelection w param.selection with
          | (.error rc, s) => (.refused rc, s)
          | (.ok pSel, s) =>
            if compareTimeStamps time pSel.lastTimeChanged = earlier then (.refused success, s)
            else (.accepted time param pWin pSel, s)

def selectionClear (client : Nat) (stuff : SetSelectionOwnerReq) (time : TimeStamp)
    (param : SelectionFilterParamRec) (pWin : Option Nat) (pSel : Selection) : List Delivery :=
  match pSel.client with
  | some owner =>
    if pWin = none ∨ owner ≠ client then
      let answer := eventParam w client owner stuff pSel
      -- of the two records it is the request's that is asked
      if ¬ param.skip then
        s.writeEventsToClient answer.recvClient time.milliseconds answer.owner answer.selection
      else []
    else []
  | none => []

def setOwner (client : Nat) (time : TimeStamp) (param : SelectionFilterParamRec)
    (pWin : Option Nat) : Server :=
  { s with
    currentSelections := Keyed.update Selection.selection
      (fun pSel => { pSel with
        lastTimeChanged := time
        window := param.owner
        pWin := pWin
        client := pWin.map fun _ => client })
      param.selection s.currentSelections }

def updated : Server := { s with currentTime := updateCurrentTime s.currentTime w.now }

def procSetSelectionOwner (client : Nat) (stuff : SetSelectionOwnerReq) :
    Int × Server × List Delivery :=
  match (s.updated w).check w client stuff with
  | (.refused rc, s) => (rc, s, [])
  | (.accepted time param pWin pSel, s) =>
    (success, s.setOwner client time param pWin,
      s.selectionClear w client stuff time param pWin pSel)

def abandon (pSel : Selection) : Selection :=
  { pSel with
    pWin := none
    window := 0
    client := none }

def deleteWindowFromAnySelections (pWin : Nat) : Server :=
  { s with
    currentSelections := s.currentSelections.map fun pSel =>
      if pSel.pWin = some pWin then abandon pSel else pSel }

def deleteClientFromAnySelections (client : Nat) : Server :=
  { s with
    currentSelections := s.currentSelections.map fun pSel =>
      if pSel.client = some client then abandon pSel else pSel }

end Server

inductive Act where
  | setSelectionOwner (w : Outside) (client : Nat) (stuff : SetSelectionOwnerReq)
  | createWindow (id : Nat)
  | destroyWindow (id : Nat)
  | connect (client : Nat)
  | closeDown (client : Nat)

/-- A client that is not connected makes no requests, and ids and clients are new. -/
def step (s : Server) : Act → Option (Server × List Delivery)
  | .setSelectionOwner w client stuff =>
    if client ∈ s.clients then some (s.procSetSelectionOwner w client stuff).2 else none
  | .createWindow id =>
    if id = 0 ∨ id ∈ s.windows then none else some ({ s with windows := id :: s.windows }, [])
  | .destroyWindow id =>
    some ({ s.deleteWindowFromAnySelections id with windows := s.windows.filter (· ≠ id) }, [])
  | .connect client =>
    if client = 0 ∨ client ∈ s.clients then none
    else some ({ s with clients := client :: s.clients }, [])
  | .closeDown client =>
    some ({ s.deleteClientFromAnySelections client with
      clients := s.clients.filter (· ≠ client) }, [])

def Server.start (currentTime : TimeStamp) : Server :=
  { currentTime := currentTime
    currentSelections := []
    windows := []
    clients := [] }

def lookup (s : Server) (name : Nat) : Option Selection :=
  Keyed.lookup Selection.selection s.currentSelections name

def Ordered (s s' : Server) : Prop :=
  ∀ name pSel, lookup s name = some pSel → ∃ pSel', lookup s' name = some pSel' ∧
    compareTimeStamps pSel'.lastTimeChanged pSel.lastTimeChanged ≠ earlier

/-- The time of a request is after the current time, or before the selection was last changed. -/
def OutOfTime (s : Server) (w : Outside) (client : Nat) (stuff : SetSelectionOwnerReq) : Prop :=
  compareTimeStamps (clientTimeToServerTime s.currentTime stuff.time) s.currentTime = later ∨
    ∃ pSel, lookup s (Server.ownerParam w client stuff).selection = some pSel ∧
      compareTimeStamps (clientTimeToServerTime s.currentTime stuff.time) pSel.lastTimeChanged =
        earlier

/-- The owner that an accepted request takes the selection from, and the filters' answer to the
record of the event. -/
def taken (s : Server) (w : Outside) (client : Nat) (stuff : SetSelectionOwnerReq) :
    Option (Nat × SelectionFilterParamRec) :=
  match ((s.updated w).check w client stuff).1 with
  | .refused _ => none
  | .accepted _ _ pWin pSel =>
    match pSel.client with
    | some owner =>
      if pWin = none ∨ owner ≠ client then
        some (owner, Server.eventParam w client owner stuff pSel)
      else none
    | none => none

/-- One event for the owner that loses the selection, or none if the filters ask to skip it. -/
def Announced (outs : List Delivery) : Option (Nat × SelectionFilterParamRec) → Prop
  | some (owner, answer) =>
    if answer.skip then outs = [] else ∃ d : Delivery, d.dest = owner ∧ outs = [d]
  | none => outs = []

def Correct (s : Server) (act : Act) (s' : Server) (outs : List Delivery) : Prop :=
  Ordered s s' ∧
  match act with
  | .setSelectionOwner w client stuff =>
    (OutOfTime (s.updated w) w client stuff → s' = s.updated w ∧ outs = []) ∧
      Announced outs (taken s w client stuff)
  | .createWindow _ | .destroyWindow _ | .connect _ | .closeDown _ => outs = []

/-- The filters leave the receiver of the event alone and do not ask to skip it, or else name
nobody that it could be written to. -/
def Harmless (s : Server) : Option (Nat × SelectionFilterParamRec) → Prop
  | some (owner, answer) =>
    if answer.skip then ∀ dest ∈ s.clients, answer.recvClient ≠ some dest
    else answer.recvClient = some owner
  | none => True

def Heeded (s : Server) : Act → Prop
  | .setSelectionOwner w client stuff => client ∈ s.clients → Harmless s (taken s w client stuff)
  | .createWindow _ | .destroyWindow _ | .connect _ | .closeDown _ => True

def Sound (s : Server) : Prop :=
  ∀ pSel ∈ s.currentSelections, ∀ owner, pSel.client = some owner → owner ∈ s.clients

theorem compareTimeStamps_self (t : TimeStamp) : compareTimeStamps t t ≠ earlier := by
  simp [compareTimeStamps, earlier, sameTime]

theorem Ordered.refl (s : Server) : Ordered s s := fun _ pSel h =>
  ⟨pSel, h, compareTimeStamps_self _⟩

theorem Ordered.of_map {s s' : Server} {f : Selection → Selection}
    (hsels : s'.currentSelections = s.currentSelections.map f)
    (hname : ∀ pSel, (f pSel).selection = pSel.selection)
    (htime : ∀ pSel, (f pSel).lastTimeChanged = pSel.lastTimeChanged) : Ordered s s' := by
  intro name pSel h
  refine ⟨f pSel, ?_, ?_⟩
  · rw [lookup, Keyed.lookup, hsels, find?_map]
    have hpred : ((fun x : Selection => decide (x.selection = name)) ∘ f) =
        fun x => decide (x.selection = name) := by
      funext x
      simp only [Function.comp, hname]
    rw [hpred]
    exact map_eq_some_iff.mpr ⟨pSel, h, rfl⟩
  · rw [htime]
    exact compareTimeStamps_self _

section

variable {s s' : Server} {w : Outside} {client : Nat} {stuff : SetSelectionOwnerReq}

structure Kept (s s' : Server) : Prop where
  currentTime : s'.currentTime = s.currentTime
  windows : s'.windows = s.windows
  clients : s'.clients = s.clients
  selections : s'.currentSelections = s.currentSelections ∨ ∃ name, lookup s name = none ∧
      s'.currentSelections = { selection := name } :: s.currentSelections

theorem Kept.refl (s : Server) : Kept s s := ⟨rfl, rfl, rfl, .inl rfl⟩

variable {pSel : Selection}

theorem Kept.lookup {name : Nat} (h : Kept s s')
    (hfound : lookup s name = some pSel) : Selections.lookup s' name = some pSel := by
  rcases h.selections with heq | ⟨new, hnew, heq⟩
  · rw [Selections.lookup, heq]
    exact hfound
  · rw [Selections.lookup, heq, Keyed.lookup_cons, if_neg]
    · exact hfound
    · rintro rfl
      rw [Selections.lookup] at hnew hfound
      rw [hnew] at hfound
      cases hfound

theorem Kept.sound (h : Kept s s') (hs : Sound s) : Sound s' := by
  intro pSel hpSel owner howner
  rw [h.clients]
  rcases h.selections with heq | ⟨new, -, heq⟩
  · rw [heq] at hpSel
    exact hs pSel hpSel owner howner
  · rw [heq] at hpSel
    rcases mem_cons.mp hpSel with rfl | hpSel
    · cases howner
    · exact hs pSel hpSel owner howner

theorem Kept.ordered (h : Kept s s') : Ordered s s' := fun _ pSel hfound =>
  ⟨pSel, h.lookup hfound, compareTimeStamps_self _⟩

theorem dixLookupSelection_spec (s : Server) (w : Outside) (name : Nat) :
    Kept s (s.dixLookupSelection w name).2 ∧
      (∀ pSel, lookup s name = some pSel → (s.dixLookupSelection w name).2 = s) ∧
      ∀ pSel, (s.dixLookupSelection w name).1 = .ok pSel →
        lookup (s.dixLookupSelection w name).2 name = some pSel := by
  unfold Server.dixLookupSelection
  cases hfound : Keyed.lookup Selection.selection s.currentSelections name with
  | some pSel =>
    refine ⟨Kept.refl s, fun _ _ => rfl, fun pSel' hok => ?_⟩
    split at hok
    · cases hok
    · cases hok
      exact hfound
  | none =>
    have hnone : ∀ pSel, lookup s name ≠ some pSel := by
      intro pSel h
      rw [lookup, hfound] at h
      cases h
    dsimp only
    split
    · refine ⟨⟨rfl, rfl, rfl, .inr ⟨name, hfound, rfl⟩⟩, fun pSel h => absurd h (hnone pSel),
        fun pSel' hok => ?_⟩
      split at hok
      · cases hok
      · cases hok
        rw [lookup, Keyed.lookup_cons, if_pos rfl]
    · exact ⟨Kept.refl s, fun _ _ => rfl, fun pSel' hok => nomatch hok⟩

structure Passed (s s' : Server) (w : Outside) (client : Nat) (stuff : SetSelectionOwnerReq)
    (t : TimeStamp) (p : SelectionFilterParamRec) (pSel : Selection) : Prop where
  time : t = clientTimeToServerTime s.currentTime stuff.time
  onTime : compareTimeStamps t s.currentTime ≠ later
  param : p = Server.ownerParam w client stuff
  skip : p.skip = false
  found : lookup s' p.selection = some pSel
  inOrder : compareTimeStamps t pSel.lastTimeChanged ≠ earlier

variable {t : TimeStamp} {p : SelectionFilterParamRec}

theorem Passed.not_outOfTime (h : Passed s s' w client stuff t p pSel) (hkept : Kept s s') :
    ¬ OutOfTime s w client stuff := by
  rintro (hlater | ⟨pSel', hfound, hearlier⟩)
  · rw [← h.time] at hlater
    exact h.onTime hlater
  · rw [← h.param] at hfound
    have hsame := (hkept.lookup hfound).symm.trans h.found
    cases hsame
    rw [← h.time] at hearlier
    exact h.inOrder hearlier

theorem check_cases (s : Server) (w : Outside) (client : Nat) (stuff : SetSelectionOwnerReq) :
    (∃ rc s', s.check w client stuff = (.refused rc, s') ∧ Kept s s' ∧
      (OutOfTime s w client stuff → s' = s)) ∨
    ∃ t p pWin pSel s', s.check w client stuff = (.accepted t p pWin pSel, s') ∧ Kept s s' ∧
      Passed s s' w client stuff t p pSel := by
  unfold Server.check
  dsimp only
  split
  · exact .inl ⟨_, s, rfl, Kept.refl s, fun _ => rfl⟩
  next honTime =>
  split
  · exact .inl ⟨_, s, rfl, Kept.refl s, fun _ => rfl⟩
  next hskip =>
  split
  · exact .inl ⟨_, s, rfl, Kept.refl s, fun _ => rfl⟩
  split
  · exact .inl ⟨_, s, rfl, Kept.refl s, fun _ => rfl⟩
  have hspec := dixLookupSelection_spec s w (Server.ownerParam w client stuff).selection
  have hsame : ∀ s', (s.dixLookupSelection w (Server.ownerParam w client stuff).selection).2 = s' →
      OutOfTime s w client stuff → s' = s := by
    rintro s' rfl (hlater | ⟨pSel, hfound, -⟩)
    · exact absurd hlater honTime
    · exact hspec.2.1 pSel hfound
  split
  · next rc s' hlookup =>
    rw [hlookup] at hspec hsame
    exact .inl ⟨rc, s', rfl, hspec.1, hsame s' rfl⟩
  · next pSel s' hlookup =>
    rw [hlookup] at hspec hsame
    split
    · exact .inl ⟨_, s', rfl, hspec.1, hsame s' rfl⟩
    · next hinOrder =>
      refine .inr ⟨_, _, _, pSel, s', rfl, hspec.1, rfl, honTime, rfl, ?_, hspec.2.2 pSel rfl,
        hinOrder⟩
      exact Bool.eq_false_iff.mpr hskip

theorem lookup_setOwner (s : Server) (client : Nat) (t : TimeStamp) (p : SelectionFilterParamRec)
    (pWin : Option Nat) (name : Nat) :
    lookup (s.setOwner client t p pWin) name =
      if name = p.selection then (lookup s p.selection).map fun pSel =>
        { pSel with
          lastTimeChanged := t
          window := p.owner
          pWin := pWin
          client := pWin.map fun _ => client }
      else lookup s name :=
  Keyed.lookup_update fun _ => rfl

theorem setOwner_ordered (hfound : lookup s p.selection = some pSel)
    (hinOrder : compareTimeStamps t pSel.lastTimeChanged ≠ earlier) (pWin : Option Nat) :
    Ordered s (s.setOwner client t p pWin) := by
  intro name pSel' h
  rw [lookup_setOwner]
  by_cases hname : name = p.selection
  · subst hname
    rw [hfound] at h
    cases h
    rw [if_pos rfl, hfound]
    exact ⟨_, rfl, hinOrder⟩
  · rw [if_neg hname]
    exact ⟨pSel', h, compareTimeStamps_self _⟩

theorem setOwner_sound (hs : Sound s) (hclient : client ∈ s.clients) (t : TimeStamp)
    (p : SelectionFilterParamRec) (pWin : Option Nat) : Sound (s.setOwner client t p pWin) := by
  have hupdate : ∀ l : List Selection, (∀ pSel ∈ l, ∀ owner, pSel.client = some owner →
      owner ∈ s.clients) → ∀ pSel ∈ Keyed.update Selection.selection
        (fun pSel => { pSel with
          lastTimeChanged := t
          window := p.owner
          pWin := pWin
          client := pWin.map fun _ => client }) p.selection l,
      ∀ owner, pSel.client = some owner → owner ∈ s.clients := by
    intro l hl
    induction l with
    | nil => exact fun _ h => absurd h not_mem_nil
    | cons x l ih =>
      have hrest := ih fun y hy => hl y (mem_cons_of_mem x hy)
      rw [Keyed.update]
      split
      · intro pSel hpSel owner howner
        rcases mem_cons.mp hpSel with rfl | hpSel
        · obtain ⟨_, -, heq⟩ := map_eq_some_iff.mp howner
          rw [← heq]
          exact hclient
        · exact hl pSel (mem_cons_of_mem x hpSel) owner howner
      · exact forall_mem_cons.mpr ⟨hl x mem_cons_self, hrest⟩
  exact hupdate s.currentSelections hs

variable {recvClient : Option Nat}

theorem writeEventsToClient_nil (s : Server) (time : BitVec 32) (window atom : Nat) :
    s.writeEventsToClient recvClient time window atom = [] ↔
      ∀ dest ∈ s.clients, recvClient ≠ some dest := by
  cases recvClient with
  | none => simp [Server.writeEventsToClient]
  | some dest =>
    by_cases hdest : dest ∈ s.clients
    · simp [Server.writeEventsToClient, hdest]
    · simp only [Server.writeEventsToClient, if_neg hdest, true_iff]
      rintro dest' hdest' heq
      cases heq
      exact hdest hdest'

variable {owner : Nat}

theorem writeEventsToClient_one (s : Server) (time : BitVec 32)
    (window atom : Nat) (howner : owner ∈ s.clients) :
    (∃ d : Delivery, d.dest = owner ∧ s.writeEventsToClient recvClient time window atom = [d]) ↔
      recvClient = some owner := by
  cases recvClient with
  | none => simp [Server.writeEventsToClient]
  | some dest =>
    by_cases hdest : dest ∈ s.clients
    · simp only [Server.writeEventsToClient, if_pos hdest, cons.injEq, and_true, some.injEq]
      exact ⟨fun ⟨d, hd, heq⟩ => by rw [← hd, ← heq], fun heq => ⟨_, heq, rfl⟩⟩
    · simp only [Server.writeEventsToClient, if_neg hdest, some.injEq]
      refine iff_of_false ?_ fun heq => hdest (heq ▸ howner)
      rintro ⟨d, -, heq⟩
      cases heq

theorem announced_iff {answer : SelectionFilterParamRec}
    (howner : owner ∈ s.clients) (time : BitVec 32) :
    Announced (s.writeEventsToClient answer.recvClient time answer.owner answer.selection)
      (some (owner, answer)) ↔ Harmless s (some (owner, answer)) := by
  unfold Announced Harmless
  dsimp only
  by_cases hskip : answer.skip = true
  · rw [if_pos hskip, if_pos hskip]
    exact writeEventsToClient_nil s time _ _
  · rw [if_neg hskip, if_neg hskip]
    exact writeEventsToClient_one s time _ _ howner

theorem harmless_congr (hclients : s'.clients = s.clients)
    (o : Option (Nat × SelectionFilterParamRec)) : Harmless s' o ↔ Harmless s o := by
  unfold Harmless
  rw [hclients]

theorem selectionClear_iff (hs : Sound s)
    (hpSel : pSel ∈ s.currentSelections) (hskip : p.skip = false)
    (pWin : Option Nat) (stuff : SetSelectionOwnerReq) :
    Announced (s.selectionClear w client stuff t p pWin pSel)
      (match pSel.client with
      | some owner =>
        if pWin = none ∨ owner ≠ client then
          some (owner, Server.eventParam w client owner stuff pSel)
        else none
      | none => none) ↔
    Harmless s
      (match pSel.client with
      | some owner =>
        if pWin = none ∨ owner ≠ client then
          some (owner, Server.eventParam w client owner stuff pSel)
        else none
      | none => none) := by
  unfold Server.selectionClear
  cases howner : pSel.client with
  | none => exact iff_of_true rfl trivial
  | some owner =>
    dsimp only
    by_cases htakes : pWin = none ∨ owner ≠ client
    · rw [if_pos htakes, if_pos htakes, if_pos (by rw [hskip]; decide)]
      exact announced_iff (hs pSel hpSel owner howner) t.milliseconds
    · rw [if_neg htakes, if_neg htakes]
      exact iff_of_true rfl trivial

variable {outs : List Delivery}

theorem setSelectionOwner_spec (hs : Sound s) (hclient : client ∈ s.clients)
    (hstep : (s.procSetSelectionOwner w client stuff).2 = (s', outs)) : Sound s' ∧ Ordered s s' ∧
      (OutOfTime (s.updated w) w client stuff → s' = s.updated w ∧ outs = []) ∧
      (Announced outs (taken s w client stuff) ↔ Harmless s (taken s w client stuff)) := by
  have hs₁ : Sound (s.updated w) := hs
  unfold Server.procSetSelectionOwner at hstep
  unfold taken
  rcases check_cases (s.updated w) w client stuff with
    ⟨rc, s₁, hcheck, hkept, hout⟩ | ⟨t, p, pWin, pSel, s₁, hcheck, hkept, hpassed⟩
  · rw [hcheck] at hstep ⊢
    cases hstep
    exact ⟨hkept.sound hs₁, hkept.ordered, fun h => ⟨hout h, rfl⟩, iff_of_true rfl trivial⟩
  · rw [hcheck] at hstep ⊢
    cases hstep
    have hsound : Sound s₁ := hkept.sound hs₁
    have hmem : client ∈ s₁.clients := by
      rw [hkept.clients]
      exact hclient
    refine ⟨setOwner_sound hsound hmem t p pWin, ?_, fun h =>
      absurd h (hpassed.not_outOfTime hkept), ?_⟩
    · have hset : Ordered s₁ (s₁.setOwner client t p pWin) :=
        setOwner_ordered hpassed.found hpassed.inOrder pWin
      intro name pSel' hfound
      exact hset name pSel' (hkept.lookup hfound)
    · have hclients : s₁.clients = s.clients := hkept.clients
      rw [← harmless_congr hclients]
      exact selectionClear_iff hsound (Keyed.mem_of_lookup hpassed.found) hpassed.skip pWin stuff

variable {which : Selection → Prop}

theorem Sound.abandon (hs : Sound s) [DecidablePred which] :
    ∀ pSel ∈ s.currentSelections.map (fun pSel => if which pSel then Server.abandon pSel else pSel),
      ∀ owner, pSel.client = some owner →
        owner ∈ s.clients ∧ ∃ old ∈ s.currentSelections, ¬ which old ∧ old.client = some owner := by
  intro pSel hpSel owner howner
  obtain ⟨old, hold, rfl⟩ := List.mem_map.mp hpSel
  by_cases hwhich : which old
  · rw [if_pos hwhich] at howner
    cases howner
  · rw [if_neg hwhich] at howner
    exact ⟨hs old hold owner howner, old, hold, hwhich, howner⟩

theorem abandon_ordered [DecidablePred which] (hsels : s'.currentSelections =
      s.currentSelections.map fun pSel => if which pSel then Server.abandon pSel else pSel) :
    Ordered s s' := by
  refine .of_map hsels (fun pSel => ?_) fun pSel => ?_
  · split <;> rfl
  · split <;> rfl

variable {act : Act}

theorem step_correct_iff (hs : Sound s) (hstep : step s act = some (s', outs)) :
    Sound s' ∧ (Correct s act s' outs ↔ Heeded s act) := by
  cases act with
  | setSelectionOwner w client stuff =>
    rw [step] at hstep
    by_cases hclient : client ∈ s.clients
    · rw [if_pos hclient] at hstep
      obtain ⟨hsound, hordered, hout, hannounced⟩ :=
        setSelectionOwner_spec hs hclient (some.inj hstep)
      refine ⟨hsound, ?_⟩
      rw [Correct, Heeded]
      constructor
      · exact fun h _ => hannounced.mp h.2.2
      · exact fun h => ⟨hordered, hout, hannounced.mpr (h hclient)⟩
    · rw [if_neg hclient] at hstep
      cases hstep
  | createWindow id =>
    rw [step] at hstep
    split at hstep
    · cases hstep
    · cases hstep
      exact ⟨hs, iff_of_true ⟨Ordered.refl s, rfl⟩ trivial⟩
  | destroyWindow id =>
    cases hstep
    refine ⟨fun pSel hpSel owner howner => (hs.abandon pSel hpSel owner howner).1, ?_⟩
    exact iff_of_true ⟨abandon_ordered rfl, rfl⟩ trivial
  | connect client =>
    rw [step] at hstep
    split at hstep
    · cases hstep
    · cases hstep
      refine ⟨fun pSel hpSel owner howner => ?_, iff_of_true ⟨Ordered.refl s, rfl⟩ trivial⟩
      exact mem_cons_of_mem client (hs pSel hpSel owner howner)
  | closeDown client =>
    cases hstep
    refine ⟨fun pSel hpSel owner howner => ?_, iff_of_true ⟨abandon_ordered rfl, rfl⟩ trivial⟩
    obtain ⟨hmem, old, hold, hother, heq⟩ := hs.abandon pSel hpSel owner howner
    refine mem_filter.mpr ⟨hmem, decide_eq_true fun hsame => hother ?_⟩
    rw [heq, hsame]

theorem heeded_of_stuck (hstuck : step s act = none) : Heeded s act := by
  cases act with
  | setSelectionOwner w client stuff =>
    intro hclient
    rw [step, if_pos hclient] at hstuck
    cases hstuck
  | createWindow id | destroyWindow id | connect client | closeDown client => trivial

end

/-- Every step of a run is right exactly if the filters' answers to the records of its events are
heeded all along. -/
theorem ownership_announced_iff (currentTime : TimeStamp) (acts : List Act) :
    Run.Always step Correct (Server.start currentTime) acts ↔
      Run.Guarded step Heeded (Server.start currentTime) acts := by
  have hstart : Sound (Server.start currentTime) := fun _ h => absurd h not_mem_nil
  exact Run.always_iff_guarded Sound (fun s act s' outs hs => step_correct_iff hs)
    (fun s act => heeded_of_stuck) hstart

def quietly : Filter := fun param =>
  if param.op = selectionFilterEvClear then { param with skip := true } else param

def plain (filters : List Filter) : Outside :=
  { now := 1
    filters := filters
    windowAccess := fun _ => success
    validAtom := fun _ => true
    allocated := true
    selectionAccess := fun _ => success }

def held : Server :=
  { currentTime := ⟨0, 1⟩
    currentSelections := [⟨1, ⟨0, 1⟩, 10, some 10, some 1⟩]
    windows := [20, 10]
    clients := [2, 1] }

def claimSelection : List Act :=
  [.connect 1, .connect 2, .createWindow 10, .createWindow 20,
    .setSelectionOwner (plain []) 1 ⟨10, 1, 0⟩]

/-- Client 2 takes selection 1 from client 1, and the filter asks to skip the event. -/
def takeQuietly : Act := .setSelectionOwner (plain [quietly]) 2 ⟨20, 1, 0⟩

theorem ownership_announced_vetoed :
    (Run.exec step (Server.start ⟨0, 0⟩) (claimSelection ++ [takeQuietly])).map (fun r => r.2) =
        some [[], [], [], [], [], [⟨1, 1, 10, 1⟩]] ∧
      ¬ Run.Always step Correct (Server.start ⟨0, 0⟩) (claimSelection ++ [takeQuietly]) := by
  refine ⟨by decide, fun halways => ?_⟩
  have hheld : Run.exec step (Server.start ⟨0, 0⟩) claimSelection =
      some (held, [[], [], [], [], []]) := rfl
  have hstep : step held takeQuietly = some
      ({ held with currentSelections := [⟨1, ⟨0, 1⟩, 20, some 20, some 2⟩] }, [⟨1, 1, 10, 1⟩]) := rfl
  have hannounced : Announced [⟨1, 1, 10, 1⟩] (taken held (plain [quietly]) 2 ⟨20, 1, 0⟩) :=
    (Run.always_last hheld halways hstep).2.2
  have htaken : (taken held (plain [quietly]) 2 ⟨20, 1, 0⟩).map (fun r => r.2.skip) =
      some true := by decide
  obtain ⟨⟨owner, answer⟩, heq, hskip⟩ := map_eq_some_iff.mp htaken
  rw [heq, Announced, if_pos hskip] at hannounced
  cases hannounced

end Xfront.Selections
