import Xfront.Namespace.Gains

/-!
# Selections of different namespaces

Without `>` in the names of two namespaces, a client of one neither takes nor asks nor hears
of a selection that is owned in the other, in every state of every run. With `>` the internal
names of the two may be the same.
-/

namespace Xfront.Namespace
open List Option Event
open Atom (Name Call runAll cstr bytesOf)

def Request.op : Request → Server.FilterOp
  | .setSelectionOwner .. => .setOwner
  | .getSelectionOwner _ => .getOwner
  | .convertSelection .. => .convert
  | .selectSelectionInput .. => .listen

def Request.selection : Request → Nat
  | .setSelectionOwner _ selection _ => selection
  | .getSelectionOwner id => id
  | .convertSelection _ selection .. => selection
  | .selectSelectionInput _ selection _ => selection

/-- `ProcSetSelectionOwner` answers nothing to a time that is yet to come. -/
def Request.late (w : Outside) : Request → Bool
  | .setSelectionOwner _ _ time => w.currentTime.earlier time
  | _ => false

theorem Request.op_rewrites (r : Request) : Server.FilterOp.Rewrites r.op := by
  cases r <;> simp [Request.op, Server.FilterOp.Rewrites]

namespace Server
variable {s t u : Server}

def behindFilter (s : Server) (w : Outside) (i : Nat) (atom : Option Nat) :
    Request → List Output × Server
  | .setSelectionOwner window selection time =>
    s.setSelectionOwner w i window selection time atom
  | .getSelectionOwner id => s.getSelectionOwner w i id atom
  | .convertSelection requestor selection target property time =>
    s.convertSelection w i requestor selection target property time atom
  | .selectSelectionInput window _ eventMask => s.selectSelectionInput w i window eventMask atom

abbrev filtered (s : Server) (w : Outside) (i : Nat) (r : Request) : Option Nat × Server :=
  s.hookSelectionFilter w.mem i r.op (some r.selection)

theorem request_eq (s : Server) (w : Outside) (i : Nat) (r : Request) :
    s.request w i r = if r.late w then ([], s)
      else (s.filtered w i r).2.behindFilter w i (s.filtered w i r).1 r := by
  cases r with
  | setSelectionOwner window selection time => rfl
  | _ => exact (if_neg Bool.false_ne_true).symm

theorem behindFilter_none (s : Server) (w : Outside) (i : Nat) (r : Request) :
    (s.behindFilter w i none r).2 = s ∧ (∀ o ∈ (s.behindFilter w i none r).1, o.dest = i) ∧
      ∀ sels, ((s.withSels sels).behindFilter w i none r).1 = (s.behindFilter w i none r).1 := by
  have herror : ∀ code value, ∀ o ∈ [Output.error i code value], o.dest = i := by
    intro code value o ho
    rw [mem_singleton.mp ho]
    rfl
  cases r with
  | setSelectionOwner window selection time =>
    simp only [behindFilter, setSelectionOwner]
    split
    · exact ⟨rfl, herror _ _, fun _ => rfl⟩
    · exact ⟨rfl, herror _ _, fun _ => rfl⟩
  | getSelectionOwner id => exact ⟨rfl, herror _ _, fun _ => rfl⟩
  | convertSelection requestor selection target property time =>
    simp only [behindFilter, convertSelection]
    split
    · exact ⟨rfl, herror _ _, fun _ => rfl⟩
    · exact ⟨rfl, herror _ _, fun _ => rfl⟩
  | selectSelectionInput window selection eventMask =>
    simp only [behindFilter, selectSelectionInput]
    split
    · exact ⟨rfl, herror _ _, fun _ => rfl⟩
    split
    · exact ⟨rfl, herror _ _, fun _ => rfl⟩
    · exact ⟨rfl, by simp, fun _ => rfl⟩

theorem behindFilter_gains (s : Server) (w : Outside) (i a : Nat) (r : Request) :
    Gains i a s (s.behindFilter w i (some a) r).2 := by
  cases r with
  | setSelectionOwner => exact s.setSelectionOwner_gains ..
  | getSelectionOwner => exact s.getSelectionOwner_gains ..
  | convertSelection => exact s.convertSelection_gains ..
  | selectSelectionInput => exact s.selectSelectionInput_gains ..

theorem behindFilter_reaches (s : Server) (w : Outside) (i a : Nat) (r : Request) :
    ∀ o ∈ (s.behindFilter w i (some a) r).1, Reaches i a s o.dest := by
  cases r with
  | setSelectionOwner window selection time =>
    exact s.setSelectionOwner_reaches w i window selection time a
  | getSelectionOwner id => exact s.getSelectionOwner_reaches w i id a
  | convertSelection requestor selection target property time =>
    exact s.convertSelection_reaches w i requestor selection target property time a
  | selectSelectionInput window _ eventMask =>
    exact s.selectSelectionInput_reaches w i window eventMask a

theorem behindFilter_withSels {a : Nat} {sels : List Selection} (h : SameRecord a s sels)
    (w : Outside) (i : Nat) (r : Request) :
    ((s.withSels sels).behindFilter w i (some a) r).1 = (s.behindFilter w i (some a) r).1 := by
  cases r with
  | setSelectionOwner => exact setSelectionOwner_withSels h ..
  | getSelectionOwner => exact getSelectionOwner_withSels h ..
  | convertSelection => exact convertSelection_withSels h ..
  | selectSelectionInput => exact selectSelectionInput_withSels h ..

theorem request_spec (s : Server) (w : Outside) (i : Nat) (r : Request) :
    (Interns s (s.request w i r).2 ∧ (∀ o ∈ (s.request w i r).1, o.dest = i) ∧
      ∀ sels, ((s.withSels sels).request w i r).1 = (s.request w i r).1) ∨
    ∃ a, (s.filtered w i r).1 = some a ∧ Gains i a (s.filtered w i r).2 (s.request w i r).2 ∧
      (∀ o ∈ (s.request w i r).1, Reaches i a s o.dest) ∧ ∀ sels, SameRecord a s sels →
        ((s.withSels sels).request w i r).1 = (s.request w i r).1 := by
  have hwith : ∀ sels, (s.withSels sels).filtered w i r =
      ((s.filtered w i r).1, (s.filtered w i r).2.withSels sels) := fun sels =>
    s.hookSelectionFilter_withSels sels w.mem i r.op (some r.selection)
  have hint := s.hookSelectionFilter_interns w.mem i r.op (some r.selection)
  simp only [request_eq, hwith]
  split
  · exact .inl ⟨.refl s, nofun, fun _ => rfl⟩
  cases ha : (s.filtered w i r).1 with
  | none =>
    obtain ⟨hsame, hdest, hsels⟩ := (s.filtered w i r).2.behindFilter_none w i r
    exact .inl ⟨by rw [hsame]; exact hint, hdest, hsels⟩
  | some a =>
    refine .inr ⟨a, rfl, behindFilter_gains _ w i a r, fun o ho => ?_, fun sels h => ?_⟩
    · have hreach := behindFilter_reaches _ w i a r o ho
      obtain ⟨calls, hc⟩ := hint
      rwa [filtered, hc] at hreach
    · refine behindFilter_withSels ?_ w i r
      obtain ⟨calls, hc⟩ := hint
      rwa [SameRecord, filtered, hc]

theorem Sane.request (h : Sane s) (w : Outside) {i : Nat} (hi : s.active i) (r : Request) :
    Sane (s.request w i r).2 ∧ ∃ calls, (s.request w i r).2.atoms = runAll s.atoms calls := by
  have hint := s.hookSelectionFilter_interns w.mem i r.op (some r.selection)
  have hg : ∃ a, Gains i a s (s.request w i r).2 := by
    rcases s.request_spec w i r with ⟨h, _⟩ | ⟨a, _, h, _⟩
    · exact ⟨0, h.gains⟩
    · exact ⟨a, hint.gains.trans h⟩
  obtain ⟨a, hg⟩ := hg
  set t := (s.request w i r).2
  have hclient := hg.sameNs.client
  refine ⟨⟨hg.sameNs.view.ruled h.ruled, h.tabled.runAll hg.atoms, ?_, ?_, hg.records h.records,
    fun sel hs c hc => ?_, fun e he => ?_⟩, hg.atoms⟩
  · exact hg.sameNs.nsList ▸ h.names
  · exact hg.sameNs.nsList ▸ h.plain
  · rw [active_congr (hclient c)]
    rcases hg.owners sel hs c hc with ⟨rfl, _⟩ | ⟨sel₀, h₀, _, hc₀⟩
    · exact hi
    · exact h.owners sel₀ h₀ c hc₀
  · rw [hclient]
    rcases hg.listeners e he with ⟨he, _⟩ | ⟨e₀, h₀, hc₀, _⟩
    · rw [he]
      rw [active, decide_eq_true_eq, Option.any_eq_true] at hi
      obtain ⟨_, cl, hcl, hp⟩ := hi
      have hrun := (of_decide_eq_true hp).1
      exact ⟨cl, hcl, by simp [hrun]⟩
    · exact hc₀ ▸ h.listeners e₀ h₀

def Powerless (s : Server) (k : NsId) : Prop :=
  ∀ n ∈ s.nsList, n.addr = k → n.superPower = false

theorem Sane.filtered_of (h : Sane s) {n : Xnamespace} (hn : n ∈ s.nsList)
    (hp : s.Powerless n.addr) {i : Nat} (hi : s.nsOf i = some n.addr) : s.Filtered i n := by
  refine ⟨?_, hp n hn rfl⟩
  rw [hi, bind_some]
  exact h.ruled.exact.findNs hn

theorem Prefixed.request (h : Sane s) {k : NsId} (hk : Prefixed s k) (hp : s.Powerless k)
    (w : Outside) (i : Nat) (r : Request) : Prefixed (s.request w i r).2 k := by
  have hint := s.hookSelectionFilter_interns w.mem i r.op (some r.selection)
  rcases s.request_spec w i r with ⟨hi, _⟩ | ⟨a, ha, hg, _⟩
  · obtain ⟨calls, hc⟩ := hi
    rw [hc]
    intro n hn hnk
    obtain ⟨hown, hlis⟩ := hk n hn hnk
    exact ⟨fun sel hs c hc hns => (hown sel hs c hc hns).runAll calls,
      fun e he hns => (hlis e he hns).runAll calls⟩
  have hall := hint.gains.trans hg
  intro n hn hnk
  rw [hall.sameNs.nsList] at hn
  obtain ⟨hown, hlis⟩ := hk n hn hnk
  obtain ⟨calls, hc⟩ := hall.atoms
  -- what the filter gave to a client of the namespace
  have hnew : s.nsOf i = some k → Within (s.request w i r).2.atoms n.name a := by
    intro hik
    obtain ⟨more, hm⟩ := hg.atoms
    rw [hm]
    have hf := h.filtered_of hn (hnk ▸ hp) (hnk ▸ hik)
    exact (hookSelectionFilter_within h.tabled hf (h.plain n hn) r.op_rewrites ha).runAll more
  refine ⟨fun sel hs c hcl hns => ?_, fun e he hns => ?_⟩
  · rw [nsOf_congr (hall.sameNs.client c)] at hns
    rcases hall.owners sel hs c hcl with ⟨rfl, rfl⟩ | ⟨sel₀, h₀, he₀, hc₀⟩
    · exact hnew hns
    · rw [← he₀, hc]
      exact (hown sel₀ h₀ c hc₀ hns).runAll calls
  · rw [nsOf_congr (hall.sameNs.client _)] at hns
    rcases hall.listeners e he with ⟨hi, rfl⟩ | ⟨e₀, h₀, hc₀, he₀⟩
    · exact hnew (hi ▸ hns)
    · rw [← he₀, hc]
      exact (hlis e₀ h₀ (hc₀ ▸ hns)).runAll calls

theorem strtok_sublist {delims : List UInt8} {line token rest : Name}
    (h : strtok delims line = some (token, rest)) : token.Sublist line ∧ rest.Sublist line := by
  rw [strtok] at h
  split at h
  · cases h
  cases h
  have hdrop := dropWhile_sublist (· ∈ delims) (l := line)
  exact ⟨(takeWhile_sublist _).trans hdrop,
    ((drop_sublist 1 _).trans (dropWhile_sublist _)).trans hdrop⟩

theorem statement_sublist {line id : Name} (h : statement line = some (.namespace id)) :
    id.Sublist line := by
  rw [statement] at h
  split at h
  · cases h
  next token rest htok =>
  have hrest := (strtok_sublist htok).2.trans
    ((takeWhile_sublist _).trans (takeWhile_sublist _))
  split at h
  · obtain ⟨t, ht, he⟩ := map_eq_some_iff.mp h
    cases he
    exact (strtok_sublist ht).1.trans hrest
  split at h
  · obtain ⟨proto, _, h⟩ := bind_eq_some_iff.mp h
    obtain ⟨hex, _, h⟩ := bind_eq_some_iff.mp h
    obtain ⟨bin, _, h⟩ := map_eq_some_iff.mp h
    cases h
  split at h
  · cases h
  split at h <;> cases h

theorem fileLines_plain (fuel : Nat) (file : Name) :
    ∀ line ∈ fileLines fuel file, 0 ∉ line ∧ line.length < linebufSize := by
  induction fuel generalizing file with
  | zero => exact nofun
  | succ fuel ih =>
    intro line hline
    rw [fileLines] at hline
    split at hline
    · cases hline
    rcases mem_cons.mp hline with rfl | hline
    · refine ⟨fun hm => ?_, ?_⟩
      · have hc := mem_takeWhile_imp hm
        simp at hc
      · have hle := (takeWhile_sublist (· ≠ (0 : UInt8)) (l := (fgets file).1)).length_le
        have hget : (fgets file).1.length ≤ linebufSize - 1 := by
          rw [fgets, length_take]
          omega
        rw [linebufSize] at hget ⊢
        rw [cstr]
        omega
    · exact ih _ line hline

theorem allowOne_keeps (what : List Name) (n : Xnamespace) :
    (what.foldl allowOne n).addr = n.addr ∧ (what.foldl allowOne n).name = n.name := by
  induction what generalizing n with
  | nil => exact ⟨rfl, rfl⟩
  | cons token what ih =>
    obtain ⟨ha, hn⟩ := ih (allowOne n token)
    rw [foldl_cons, ha, hn, allowOne]
    split_ifs <;> exact ⟨rfl, rfl⟩

theorem xnsAddToken_names (s : Server) (k : NsId) (proto data : Name) (mem : TokenMemory) :
    NamesFrom s (s.xnsAddToken k proto data mem).2 := by
  rw [xnsAddToken]
  split
  · exact .of_eq rfl
  obtain ⟨auths, he⟩ := s.addAuthorization_onlyCookies proto.length (cstr proto) data mem.id mem.cookie
  dsimp only
  rw [he]
  exact updateNs_names _ k fun _ => ⟨rfl, rfl⟩

theorem parseLine_names (s : Server) {line : Name} (hline : 0 ∉ line ∧ line.length < linebufSize)
    (walkNs : Option NsId) (mem : TokenMemory) : NamesFrom s (s.parseLine line walkNs mem).2 := by
  rw [parseLine]
  split
  · exact .of_eq rfl
  · next id hs =>
    dsimp only
    rw [selectNs]
    split
    · exact .of_eq rfl
    next hl =>
    intro n hn
    rcases mem_append.mp hn with hn | hn
    · exact .inl ⟨n, hn, rfl, rfl⟩
    · obtain rfl := mem_singleton.mp hn
      have hsub := statement_sublist hs
      refine .inr ⟨rfl, ⟨fun hz => hline.1 (hsub.subset hz), ?_⟩, fun m hm he => ?_⟩
      · have hle := hsub.length_le
        rw [Short, pathMax]
        rw [linebufSize] at hline
        dsimp only
        omega
      · exact find?_eq_none.mp hl m hm (by simpa using he)
  · next proto data _ => exact s.xnsAddToken_names _ proto data mem
  · next what _ => exact updateNs_names _ _ (allowOne_keeps what)
  · exact updateNs_names _ _ fun _ => ⟨rfl, rfl⟩

def Labelled (s : Server) : Prop :=
  (∀ m ∈ s.nsList, ∀ n ∈ s.nsList, m.name = n.name → m.addr = n.addr) ∧ ∀ n ∈ s.nsList, Plain n.name

theorem loadLines_labelled (lines : List (Name × TokenMemory))
    (hlines : ∀ line ∈ lines, 0 ∉ line.1 ∧ line.1.length < linebufSize) (walkNs : Option NsId)
    (h : Labelled s) : Labelled (s.loadLines walkNs lines) := by
  induction lines generalizing s walkNs with
  | nil => exact h
  | cons line lines ih =>
    have hn := s.parseLine_names (hlines line mem_cons_self) walkNs line.2
    exact ih (fun l hl => hlines l (mem_cons_of_mem _ hl)) _ ⟨hn.names h.1, hn.plain h.2⟩

theorem parseLine_drops (s : Server) (line : Name) (walkNs : Option NsId)
    (mem : TokenMemory) : Drops s (s.parseLine line walkNs mem).2 := by
  rw [parseLine]
  split
  · exact .refl s
  · dsimp only
    rw [selectNs]
    split
    · exact .refl s
    · exact .of_eq rfl rfl rfl
  · rw [xnsAddToken]
    split
    · exact .refl s
    obtain ⟨auths, he⟩ := s.addAuthorization_onlyCookies _ _ _ _ _
    dsimp only
    rw [he]
    exact .of_eq rfl rfl rfl
  · exact .of_eq rfl rfl rfl
  · exact .of_eq rfl rfl rfl

theorem loadLines_drops (s : Server) (lines : List (Name × TokenMemory))
    (walkNs : Option NsId) : Drops s (s.loadLines walkNs lines) := by
  induction lines generalizing s walkNs with
  | nil => exact .refl s
  | cons line lines ih => exact (s.parseLine_drops line.1 walkNs line.2).trans (ih _ _)

theorem beforeInit_tabled (limitClients : Nat) : Tabled (beforeInit limitClients) := by
  obtain ⟨nodes, hi, _⟩ := Atom.initAtoms_interned
  have hatoms : (beforeInit limitClients).atoms = Atom.initAtoms := by rw [beforeInit]
  exact ⟨nodes, hatoms.symm ▸ hi⟩

theorem namespaceExtensionInit_sane (L : Resource.Limits) (file : Name) (mem : Nat → TokenMemory) :
    Sane (namespaceExtensionInit L.limitClients file mem) ∧
      ∀ k, Prefixed (namespaceExtensionInit L.limitClients file mem) k := by
  have hruled := namespaceExtensionInit_ruled L file mem
  set lines := (fileLines file.length file).mapIdx fun i line => (line, mem i) with hlines
  have hplain : ∀ line ∈ lines, 0 ∉ line.1 ∧ line.1.length < linebufSize := by
    intro line hline
    obtain ⟨i, hi, rfl⟩ := mem_mapIdx.mp hline
    exact fileLines_plain _ file _ (getElem_mem hi)
  have hload := loadLines_loading lines none (beforeInit_loading L)
  have hlabel : Labelled ((beforeInit L.limitClients).loadLines none lines) :=
    loadLines_labelled lines hplain none
      ⟨(by decide : ∀ m ∈ builtIns, ∀ n ∈ builtIns, m.name = n.name → m.addr = n.addr),
        (by decide : ∀ n ∈ builtIns, 0 ∉ n.name ∧ n.name.length + 2 ≤ pathMax - 2)⟩
  have hdrops := (beforeInit L.limitClients).loadLines_drops lines none
  rw [namespaceExtensionInit] at *
  rw [← hlines] at *
  set s := (beforeInit L.limitClients).loadLines none lines
  obtain ⟨n, hn, ha, _⟩ := hload.exact.builtIns nsRoot (by simp)
  have hroot : ∀ k, some nsRoot = some k → ∃ n ∈ s.nsList, n.addr = k := fun k hk =>
    ⟨n, hn, ha.trans (some.inj hk)⟩
  have honly := (assign_frame hload.exact 0 _ hroot).1
  have hnames : NamesFrom s (s.xnamespaceAssignClient 0 (some nsRoot)) := by
    cases hc : s.client 0 with
    | none =>
      rw [xnamespaceAssignClient_none hc]
      exact .of_eq rfl
    | some c => exact (assign_moves hload.exact hc _ hroot).1.names
  have hall := hdrops.trans honly.drops
  -- nobody owns and nobody listens
  have hsels : ∀ sel ∈ (s.xnamespaceAssignClient 0 (some nsRoot)).currentSelections, False := by
    intro sel hsel
    obtain ⟨sel₀, h₀, _⟩ := hall.owners sel hsel
    cases h₀
  have hevents : ∀ e ∈ (s.xnamespaceAssignClient 0 (some nsRoot)).selectionEvents, False := by
    intro e he
    cases hall.listeners e he
  refine ⟨⟨hruled, ?_, hnames.names hlabel.1, hnames.plain hlabel.2, ?_,
    fun sel hs => (hsels sel hs).elim, fun e he => (hevents e he).elim⟩, fun k n _ _ =>
    ⟨fun sel hs => (hsels sel hs).elim, fun e he => (hevents e he).elim⟩⟩
  · exact (beforeInit_tabled L.limitClients).runAll hall.atoms
  · rw [hall.records]
    exact nodup_nil

end Server

open Server

theorem Event.kept {s : Server} (h : Sane s) (e : Event) :
    Sane (e.run s).2 ∧ (∃ calls, (e.run s).2.atoms = runAll s.atoms calls) ∧
      ∀ k, s.Powerless k → Prefixed s k → Prefixed (e.run s).2 k := by
  have hkept : ∀ t, Kept s t → Sane t ∧ (∃ calls, t.atoms = runAll s.atoms calls) ∧
      ∀ k, s.Powerless k → Prefixed s k → Prefixed t k :=
    fun t ht => ⟨ht.sane, ht.atoms, fun k _ => ht.stays k⟩
  cases e with
  | connect => exact hkept _ (nextAvailableClient_kept h)
  | setup i authId =>
    rw [run]
    split
    · exact hkept _ h.refl
    · next hi => exact hkept _ (sendConnSetup_kept h hi authId)
  | setCloseDownMode i destroyAll =>
    rw [run]
    split
    · exact hkept _ (updateClient_kept h i fun _ => ⟨rfl, rfl, rfl⟩)
    · exact hkept _ h.refl
  | closeDown i mem windows =>
    rw [run]
    split
    · exact hkept _ h.refl
    · next hi => exact hkept _ (closeDownClient_kept h mem windows hi)
  | destroyWindow mem w =>
    have hsame := s.destroyWindow_sameNs mem w
    exact hkept _ (h.kept_clients (hsame.view.ruled h.ruled) (s.destroyWindow_drops mem w)
      (.of_eq hsame.nsList) hsame.clients)
  | internAtom call =>
    have hint : Interns s { s with atoms := (call.run s.atoms).2 } := ⟨[call], rfl⟩
    exact hkept _ (h.kept_clients (hint.sameNs.view.ruled h.ruled) hint.drops (.of_eq rfl) rfl)
  | create name caps attrs m₁ m₂ m₃ => exact hkept _ (procXnsCreateNamespace_kept h ..)
  | delete client name onClients mem windows => exact hkept _ (procXnsDeleteNamespace_kept h ..)
  | setFlags name valueMask values =>
    rw [run, procXnsSetNamespaceFlags]
    split
    · exact hkept _ h.refl
    split
    · exact hkept _ h.refl
    split
    · exact hkept _ h.refl
    · exact hkept _ (xnsSetCaps_kept h ..)
  | addToken name proto data mem =>
    rw [run, procXnsAddAuthToken]
    split
    · exact hkept _ h.refl
    split
    · exact hkept _ h.refl
    split
    · exact hkept _ h.refl
    · exact hkept _ (xnsAddToken_kept h ..)
  | removeToken name handle =>
    rw [run, procXnsRemoveAuthToken]
    split
    · exact hkept _ h.refl
    split
    · exact hkept _ h.refl
    · exact hkept _ (xnsRemoveToken_kept h ..)
  | request i w r =>
    rw [run]
    split
    · next hi =>
      obtain ⟨hs, ha⟩ := h.request w hi r
      exact ⟨hs, ha, fun k hp hk => hk.request h hp w i r⟩
    · exact hkept _ h.refl

def runEvents (s : Server) (events : List Event) : Server :=
  events.foldl (fun s e => (e.run s).2) s

theorem runEvents_sane {s : Server} (h : Sane s) (events : List Event) :
    Sane (runEvents s events) ∧ ∃ calls, (runEvents s events).atoms = runAll s.atoms calls := by
  induction events generalizing s with
  | nil => exact ⟨h, [], rfl⟩
  | cons e events ih =>
    obtain ⟨hs, ha, _⟩ := kept h e
    obtain ⟨hs', ha'⟩ := ih hs
    exact ⟨hs', runAll_trans ha ha'⟩

variable (L : Resource.Limits) (file : Name) (mem : Nat → TokenMemory)

theorem afterEvents_sane (events : List Event) : Sane (afterEvents L file mem events) :=
  (runEvents_sane (namespaceExtensionInit_sane L file mem).1 events).1

def NeverSuper (events : List Event) (k : NsId) : Prop :=
  ∀ before, before <+: events → (afterEvents L file mem before).Powerless k

theorem afterEvents_prefixed {events : List Event} {k : NsId}
    (h : NeverSuper L file mem events k) : Prefixed (afterEvents L file mem events) k := by
  induction events using reverseRecOn with
  | nil => exact (namespaceExtensionInit_sane L file mem).2 k
  | append_singleton events e ih =>
    have hp := h events (prefix_append ..)
    have hk := ih fun before hb => h before (hb.trans (prefix_append ..))
    rw [afterEvents, foldl_append]
    exact (kept (afterEvents_sane L file mem events) e).2.2 k hp hk

def OwnedIn (s : Server) (k : NsId) (sel : Selection) : Prop :=
  ∃ c, sel.client = some c ∧ s.nsOf c = some k

/-- The records are those of the server, but for the selections owned in the namespace. -/
def SameOutside (s : Server) (k : NsId) (sels : List Selection) : Prop :=
  ∀ atom, (∀ sel ∈ s.currentSelections, sel.selection = atom → ¬ OwnedIn s k sel) →
    SameRecord atom s sels

namespace Server
variable {s : Server} {a b : Xnamespace}

theorem Prefixed.foreign (ha : a ∈ s.nsList) (hk : Prefixed s a.addr)
    (hne : a.name ≠ b.name) (hra : rangle ∉ a.name) (hrb : rangle ∉ b.name) {x : Nat}
    (hx : Within s.atoms b.name x) :
    (∀ sel ∈ s.currentSelections, sel.selection = x → ¬ OwnedIn s a.addr sel) ∧
      ∀ e ∈ s.selectionEvents, e.selection = x → s.nsOf e.pClient ≠ some a.addr := by
  obtain ⟨hown, hlis⟩ := hk a ha rfl
  refine ⟨?_, ?_⟩
  · rintro sel hs rfl ⟨c, hc, hns⟩
    exact hne ((hown sel hs c hc hns).inj hx hra hrb)
  · rintro e he rfl hns
    exact hne ((hlis e he hns).inj hx hra hrb)

theorem Sane.name_ne (h : Sane s) (ha : a ∈ s.nsList) (hb : b ∈ s.nsList)
    (hne : a.addr ≠ b.addr) : a.name ≠ b.name := fun he => hne (h.names a ha b hb he)

theorem Sane.request_isolated (h : Sane s) (ha : a ∈ s.nsList)
    (hb : b ∈ s.nsList) (hne : a.addr ≠ b.addr) (hka : Prefixed s a.addr)
    (hpb : s.Powerless b.addr) (hra : rangle ∉ a.name) (hrb : rangle ∉ b.name) (w : Outside)
    {i : Nat} (hi : s.nsOf i = some b.addr) (r : Request) :
    (∀ sel ∈ s.currentSelections, OwnedIn s a.addr sel →
      sel ∈ (s.request w i r).2.currentSelections) ∧
    (∀ o ∈ (s.request w i r).1, s.nsOf o.dest ≠ some a.addr) ∧ ∀ sels, SameOutside s a.addr sels →
      ((s.withSels sels).request w i r).1 = (s.request w i r).1 := by
  have hself : s.nsOf i ≠ some a.addr := fun he => hne (some.inj (he.symm.trans hi))
  have hint := s.hookSelectionFilter_interns w.mem i r.op (some r.selection)
  rcases s.request_spec w i r with ⟨hint, hdest, hsels⟩ | ⟨x, hx, hg, hreach, hsels⟩
  · refine ⟨fun sel hs _ => ?_, fun o ho => hdest o ho ▸ hself, fun sels _ => hsels sels⟩
    obtain ⟨calls, hc⟩ := hint
    rwa [hc]
  -- the atom is one of `b`
  have hwithin := hookSelectionFilter_within h.tabled (h.filtered_of hb hpb hi) (h.plain b hb)
    r.op_rewrites hx
  obtain ⟨calls, hc⟩ := hint
  have hka' : Prefixed (s.filtered w i r).2 a.addr := by
    rw [filtered, hc]
    intro n hn hna
    obtain ⟨hown, hlis⟩ := hka n hn hna
    exact ⟨fun sel hs c hcl hns => (hown sel hs c hcl hns).runAll calls,
      fun e he hns => (hlis e he hns).runAll calls⟩
  have hmem : a ∈ (s.filtered w i r).2.nsList := by rwa [filtered, hc]
  obtain ⟨hnone, hnobody⟩ := hka'.foreign hmem (h.name_ne ha hb hne) hra hrb hwithin
  rw [filtered, hc] at hnone hnobody hg
  refine ⟨fun sel hs ho => hg.kept sel hs fun he => hnone sel hs he ho, fun o ho hns => ?_,
    fun sels hsame => hsels sels (hsame x hnone)⟩
  rcases hreach o ho with he | ⟨sel, hs, he, hcl⟩ | ⟨e, hmem, he, hdest⟩
  · exact hself (he ▸ hns)
  · exact hnone sel hs he ⟨o.dest, hcl, hns⟩
  · exact hnobody e hmem he (hdest ▸ hns)

end Server

theorem selections_separate (events : List Event) :
    -- for which names the internal names are apart and lead back
    (∀ a b : Name, a ≠ b → Short a → Short b → ((∀ x y, 0 ∉ x → 0 ∉ y → Fits a x → Fits b y →
        selname a (some x) ≠ selname b (some y) ∧
          stripNS (selname a (some x)) = x ∧ stripNS (selname b (some y)) = y) ↔
        rangle ∉ a ∧ rangle ∉ b)) ∧
    -- what the filter gives, now and later
    (∀ (i : Nat) (a : Xnamespace) (m : Name → Bool) (op : FilterOp) (sel : Option Nat) (x : Nat)
      (more : List Event), op.Rewrites → (afterEvents L file mem events).Filtered i a →
      rangle ∉ a.name →
      ((afterEvents L file mem events).hookSelectionFilter m i op sel).1 = some x →
      ∀ (j : Nat) (b : Xnamespace) (m' : Name → Bool) (y : Nat),
        (runEvents ((afterEvents L file mem events).hookSelectionFilter m i op sel).2
          more).Filtered j b →
        (∀ (op' : FilterOp) (sel' : Option Nat), op'.Rewrites → a.name ≠ b.name → rangle ∉ b.name →
          ((runEvents ((afterEvents L file mem events).hookSelectionFilter m i op sel).2
            more).hookSelectionFilter m' j op' sel').1 = some y → x ≠ y) ∧
        ∀ (orig : Nat) (name : Name), sel = some orig → 0 ∉ name →
          AtomOf (afterEvents L file mem events).atoms orig name →
          ((runEvents ((afterEvents L file mem events).hookSelectionFilter m i op sel).2
            more).hookSelectionFilter m' j .notify (some x)).1 = some y →
          (y = orig ↔ Fits a.name name)) ∧
    -- the clients of two namespaces
    ∀ a ∈ (afterEvents L file mem events).nsList, ∀ b ∈ (afterEvents L file mem events).nsList,
      a.addr ≠ b.addr → NeverSuper L file mem events a.addr →
      NeverSuper L file mem events b.addr → rangle ∉ a.name → rangle ∉ b.name →
      (∀ (w : Outside) (i : Nat) (r : Request),
        (afterEvents L file mem events).nsOf i = some b.addr →
        (∀ sel ∈ (afterEvents L file mem events).currentSelections,
          OwnedIn (afterEvents L file mem events) a.addr sel →
          sel ∈ ((afterEvents L file mem events).request w i r).2.currentSelections) ∧
        (∀ o ∈ ((afterEvents L file mem events).request w i r).1,
          (afterEvents L file mem events).nsOf o.dest ≠ some a.addr) ∧
        ∀ sels, SameOutside (afterEvents L file mem events) a.addr sels →
          (((afterEvents L file mem events).withSels sels).request w i r).1 =
            ((afterEvents L file mem events).request w i r).1) ∧
      ∀ sel ∈ (afterEvents L file mem events).currentSelections,
        OwnedIn (afterEvents L file mem events) a.addr sel →
        ∀ (m : Name → Bool) (kind : SelectionCallbackKind),
          ∀ o ∈ ((afterEvents L file mem events).xfixesSelectionCallback m kind sel).1,
            (afterEvents L file mem events).nsOf o.dest ≠ some b.addr := by
  have hs := afterEvents_sane L file mem events
  refine ⟨fun a b => separate_iff, ?_, ?_⟩
  · intro i a m op sel x more hop hfa hra hx j b m' y hfb
    set s := afterEvents L file mem events
    have hint := s.hookSelectionFilter_interns m i op sel
    have hsane : Sane (s.hookSelectionFilter m i op sel).2 :=
      (hs.kept_clients (hint.sameNs.view.ruled hs.ruled) hint.drops (.of_eq hint.sameNs.nsList)
        hint.sameNs.clients).sane
    obtain ⟨hlater, calls, hcalls⟩ := runEvents_sane hsane more
    have hpa := hs.plain a (hfa.mem)
    have hpb := hlater.plain b (hfb.mem)
    refine ⟨fun op' sel' hop' hne hrb hy => ?_, fun orig name hsel hname hatom hy => ?_⟩
    · exact filter_separate hs.tabled hfa hfb hpa hpb hne hra hrb hop hop' hcalls hx hy
    · subst hsel
      exact filter_back hfa hfb hpa hra hname hatom hop hcalls hx hy
  · intro a ha b hb hne hna hnb hra hrb
    have hka := afterEvents_prefixed L file mem hna
    have hkb := afterEvents_prefixed L file mem hnb
    refine ⟨fun w i r hi => hs.request_isolated ha hb hne hka
      (hnb events prefix_rfl) hra hrb w hi r, ?_⟩
    rintro sel hsel ⟨c, hc, hns⟩ m kind o ho hdest
    obtain ⟨e, he, hsame, hreach⟩ := xfixesSelectionCallback_reaches _ m kind sel o ho
    have hwithin := (hka a ha rfl).1 sel hsel c hc hns
    exact (hkb.foreign hb (hs.name_ne hb ha (Ne.symm hne)) hrb hra hwithin).2 e he hsame
      (hreach ▸ hdest)

def plentyOutside : Outside := ⟨fun _ => true, true, true, .success, true, ⟨0, 0⟩⟩

/-- Clients 1 and 2 are in the namespaces `a` and `a>b`; `b>x` and `x` are atoms. -/
def twoClients : List Event :=
  [.create [97] 0 0 true true true, .create [97, 62, 98] 0 0 true true true,
    .addToken [97] mitProto [1] ⟨true, true, true, true, ⟨40, by decide⟩⟩,
    .addToken [97, 62, 98] mitProto [2] ⟨true, true, true, true, ⟨41, by decide⟩⟩,
    .connect, .connect, .setup 1 40, .setup 2 41,
    .internAtom ⟨[98, 62, 120], true, true, true, true⟩, .internAtom ⟨[120], true, true, true, true⟩]

/-- Client 1 owns `b>x` of `a` with the window 100; client 2 asks for `x` of `a>b` and gets
it. -/
theorem selections_alias :
    let s := afterEvents ⟨64, by decide⟩ [] (fun _ => ⟨true, true, true, true, ⟨39, by decide⟩⟩)
      (twoClients ++ [.request 1 plentyOutside (.setSelectionOwner 100 69 ⟨0, 0⟩)])
    (∃ sel ∈ s.currentSelections, sel.client = some 1 ∧ sel.window = 100) ∧
      ((s.nsOf 1).bind s.findNs).map (fun n => (n.name, n.superPower)) = some ([97], false) ∧
      ((s.nsOf 2).bind s.findNs).map (fun n => (n.name, n.superPower)) =
        some ([97, 62, 98], false) ∧
      (s.request plentyOutside 2 (.getSelectionOwner 70)).1 = [.getSelectionOwner 2 100] := by
  decide +kernel

end Xfront.Namespace
