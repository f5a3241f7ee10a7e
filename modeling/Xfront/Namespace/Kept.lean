import Xfront.Namespace.Sane

/-!
# Events without a request

Clients come and go, windows are destroyed and namespaces are changed: owners and listeners
are lost, but none is new and none moves to another namespace.
-/

namespace Xfront.Namespace.Server
open List Option
open Atom (Name Call runAll cstr)

variable {s t u : Server}

def NamesFrom (s t : Server) : Prop :=
  ∀ n' ∈ t.nsList, (∃ n ∈ s.nsList, n.addr = n'.addr ∧ n.name = n'.name) ∨
    (n'.addr = s.nextAddr ∧ Plain n'.name ∧ ∀ n ∈ s.nsList, n.name ≠ n'.name)

theorem NamesFrom.of_eq (h : t.nsList = s.nsList) : NamesFrom s t :=
  fun n hn => .inl ⟨n, h ▸ hn, rfl, rfl⟩

theorem Moves.names (h : Moves s t) : NamesFrom s t := by
  intro n' hn'
  obtain ⟨n, hn, he⟩ := h.same n' hn'
  exact .inl ⟨n, hn, by rw [he], by rw [he]⟩

theorem updateNs_names (s : Server) (k : NsId) {f : Xnamespace → Xnamespace}
    (hf : ∀ n, (f n).addr = n.addr ∧ (f n).name = n.name) : NamesFrom s (s.updateNs k f) := by
  intro n' hn'
  obtain ⟨n, hn, rfl⟩ := List.mem_map.mp hn'
  refine .inl ⟨n, hn, ?_⟩
  split
  · exact ⟨(hf n).1.symm, (hf n).2.symm⟩
  · exact ⟨rfl, rfl⟩

theorem NamesFrom.names (h : NamesFrom s t)
    (hs : ∀ m ∈ s.nsList, ∀ n ∈ s.nsList, m.name = n.name → m.addr = n.addr) :
    ∀ m ∈ t.nsList, ∀ n ∈ t.nsList, m.name = n.name → m.addr = n.addr := by
  intro m' hm' n' hn' he
  rcases h m' hm' with ⟨m, hm, ham, hnm⟩ | ⟨ham, _, hnew⟩ <;>
    rcases h n' hn' with ⟨n, hn, han, hnn⟩ | ⟨han, _, hnew'⟩
  · exact ham.symm.trans ((hs m hm n hn (hnm.trans (he.trans hnn.symm))).trans han)
  · exact absurd (hnm.trans he) (hnew' m hm)
  · exact absurd (hnn.trans he.symm) (hnew n hn)
  · exact ham.trans han.symm

theorem NamesFrom.plain (h : NamesFrom s t) (hs : ∀ n ∈ s.nsList, Plain n.name) :
    ∀ n ∈ t.nsList, Plain n.name := by
  intro n' hn'
  rcases h n' hn' with ⟨n, hn, _, he⟩ | ⟨_, hp, _⟩
  · exact he ▸ hs n hn
  · exact hp

structure Kept (s t : Server) : Prop where
  sane : Sane t
  stays : ∀ k, Prefixed s k → Prefixed t k
  atoms : ∃ calls, t.atoms = runAll s.atoms calls

theorem Sane.refl (h : Sane s) : Kept s s := ⟨h, fun _ => id, [], rfl⟩

theorem Kept.trans (h : Kept s t) (h' : Kept t u) : Kept s u :=
  ⟨h'.sane, fun k hk => h'.stays k (h.stays k hk), runAll_trans h.atoms h'.atoms⟩

theorem Sane.kept (h : Sane s) (ht : Ruled t) (hd : Drops s t) (hnames : NamesFrom s t)
    (howners : ∀ sel ∈ t.currentSelections, ∀ c, sel.client = some c →
      t.active c ∧ t.nsOf c = s.nsOf c)
    (hlisteners : ∀ e ∈ t.selectionEvents, t.nsOf e.pClient = s.nsOf e.pClient ∧
      ∃ cl, t.client e.pClient = some cl ∧ cl.clientState ≠ .initial) : Kept s t := by
  obtain ⟨calls, hatoms⟩ := hd.atoms
  refine ⟨⟨ht, h.tabled.runAll hd.atoms, hnames.names h.names, hnames.plain h.plain,
    hd.records ▸ h.records, fun sel hsel c hc => (howners sel hsel c hc).1, fun e he => (hlisteners e he).2⟩,
    fun k hk n' hn' ha => ?_, calls, hatoms⟩
  rcases hnames n' hn' with ⟨n, hn, han, hname⟩ | ⟨hnext, _, _⟩
  · obtain ⟨hown, hlis⟩ := hk n hn (han.trans ha)
    rw [← hname, hatoms]
    refine ⟨fun sel' hsel' c hc hns => ?_, fun e he hns => ?_⟩
    · obtain ⟨sel, hsel, hatom, hcl⟩ := hd.owners sel' hsel'
      rw [(howners sel' hsel' c hc).2] at hns
      exact hatom ▸ (hown sel hsel c (hcl c hc) hns).runAll calls
    · rw [(hlisteners e he).1] at hns
      exact (hlis e (hd.listeners e he) hns).runAll calls
  · -- nobody is in a namespace that was not there
    have hnobody : ∀ c, s.nsOf c ≠ some k := by
      intro c hc
      obtain ⟨n, hn, han⟩ := h.ruled.exact.listed k (count_ne_zero.mpr ⟨c, hc⟩)
      have hlt := h.ruled.exact.fresh n hn
      rw [han, ← ha, hnext] at hlt
      exact lt_irrefl _ hlt
    exact ⟨fun sel' hsel' c hc hns => absurd ((howners sel' hsel' c hc).2 ▸ hns) (hnobody c),
      fun e he hns => absurd ((hlisteners e he).1 ▸ hns) (hnobody _)⟩

theorem nsOf_congr {c : Nat} (h : t.client c = s.client c) : t.nsOf c = s.nsOf c := by
  rw [nsOf, nsOf, h]

theorem active_congr {c : Nat} (h : t.client c = s.client c) : t.active c = s.active c := by
  rw [active, active, h]

variable {i : Nat}

theorem Sane.kept_one (h : Sane s) (ht : Ruled t) (hd : Drops s t) (hnames : NamesFrom s t)
    (hother : ∀ c, c ≠ i → t.client c = s.client c)
    (howners : (∃ sel ∈ t.currentSelections, sel.client = some i) →
      t.active i ∧ t.nsOf i = s.nsOf i)
    (hlisteners : (∃ e ∈ t.selectionEvents, e.pClient = i) → t.nsOf i = s.nsOf i ∧
      ∃ cl, t.client i = some cl ∧ cl.clientState ≠ .initial) : Kept s t := by
  refine h.kept ht hd hnames (fun sel hsel c hc => ?_) fun e he => ?_
  · by_cases hci : c = i
    · exact hci ▸ howners ⟨sel, hsel, hci ▸ hc⟩
    · obtain ⟨sel₀, hsel₀, _, hcl⟩ := hd.owners sel hsel
      have hc' := hother c hci
      exact ⟨active_congr hc' ▸ h.owners sel₀ hsel₀ c (hcl c hc), nsOf_congr hc'⟩
  · by_cases hci : e.pClient = i
    · exact hci ▸ hlisteners ⟨e, he, hci⟩
    · have hc' := hother _ hci
      exact ⟨nsOf_congr hc', hc' ▸ h.listeners e (hd.listeners e he)⟩

theorem Sane.kept_clients (h : Sane s) (ht : Ruled t) (hd : Drops s t) (hnames : NamesFrom s t)
    (hclients : t.clients = s.clients) : Kept s t := by
  have hclient : ∀ c, t.client c = s.client c := fun c => by rw [client, client, hclients]
  refine h.kept ht hd hnames (fun sel hsel c hc => ?_) fun e he => ?_
  · obtain ⟨sel₀, hsel₀, _, hcl⟩ := hd.owners sel hsel
    exact ⟨active_congr (hclient c) ▸ h.owners sel₀ hsel₀ c (hcl c hc), nsOf_congr (hclient c)⟩
  · exact ⟨nsOf_congr (hclient _), hclient _ ▸ h.listeners e (hd.listeners e he)⟩

theorem SameNs.client (h : SameNs s t) (c : Nat) : t.client c = s.client c := by
  rw [Server.client, Server.client, h.clients]

theorem OnlyClient.drops (h : OnlyClient i s t) : Drops s t := .of_eq h.selections h.events h.atoms

theorem closeConnection_kept (h : Sane s) (mem : Name → Bool) {c : Client}
    (hi : s.client i = some c) : Kept s (s.closeConnection mem i c).2 ∧
      ∃ c', (s.closeConnection mem i c).2.client i = some c' ∧ c'.clientGone := by
  have hview := s.closeConnection_view mem i c
  obtain ⟨hdrops, hleft⟩ := s.deleteFromAnySelections_drops mem .clientClose
    fun sel => sel.client = some i
  have hsame := s.deleteFromAnySelections_sameNs mem .clientClose fun sel => sel.client = some i
  have hdef : (s.closeConnection mem i c).2 =
      ((if c.destroyAll then (s.deleteClientFromAnySelections mem i).2
        else (s.deleteClientFromAnySelections mem i).2.updateClient i
          fun c => { c with clientState := .retained }).updateClient i
            fun c => { c with clientGone := true }) := rfl
  rw [deleteClientFromAnySelections] at hdef
  set u := (s.deleteFromAnySelections mem .clientClose fun sel => sel.client = some i).2
  have hui : u.client i = some c := (hsame.client i).trans hi
  -- the client with its new state
  have honly : OnlyClient i u (s.closeConnection mem i c).2 ∧
      ∃ c', (s.closeConnection mem i c).2.client i = some c' ∧ c'.clientGone ∧
        (c.clientState ≠ .initial → c'.clientState ≠ .initial) := by
    rw [hdef]
    split
    · exact ⟨u.updateClient_only i _, _, u.updateClient_client hui _, rfl, id⟩
    · exact ⟨(u.updateClient_only i _).trans (updateClient_only _ i _), _,
        updateClient_client _ (u.updateClient_client hui _) _, rfl, nofun⟩
  obtain ⟨honly, c', hc', hgone, hstate⟩ := honly
  refine ⟨h.kept_one (hview.ruled h.ruled) (hdrops.trans honly.drops) (.of_eq hview.nsList)
    (fun d hd => (honly.clients d hd).trans (hsame.client d)) ?_ ?_, c', hc', hgone⟩
  · rintro ⟨sel, hsel, hcl⟩
    rw [honly.selections] at hsel
    obtain ⟨sel₀, _, hcl₀, hkept⟩ := hleft sel hsel i hcl
    rw [hcl₀] at hkept
    simp at hkept
  · rintro ⟨e, he, hei⟩
    rw [honly.events] at he
    obtain ⟨cl, hcl, hne⟩ := h.listeners e (hdrops.listeners e he)
    rw [hei, hi] at hcl
    cases hcl
    obtain ⟨d, hd, hns⟩ := hview.client hi
    rw [hc'] at hd
    cases hd
    exact ⟨by rw [nsOf, nsOf, hc', hi, bind_some, bind_some, hns], c', hc', hstate hne⟩

theorem destroyClient_kept (h : Sane s) (mem : Name → Bool) (windows : List Nat)
    (hi0 : i ≠ 0) {p : Client} (hi : s.client i = some p) (hgone : p.clientGone) (c : Client) :
    Kept s (s.destroyClient mem windows i c).2 := by
  obtain ⟨hmoves, hplaces⟩ := destroyClient_spec h.ruled.exact mem windows hi c
  have hruled := h.ruled.of_places hmoves.exact hi0 (x := none) nofun (.inr hplaces)
  have honly := s.updateClient_only i fun c => { c with clientState := .gone }
  set u := s.updateClient i fun c => { c with clientState := .gone }
  obtain ⟨hdrops, hleft⟩ := u.freeClientResources_drops mem i windows
  have hsame := u.freeClientResources_sameNs mem i windows
  have hview := (s.updateClient_view i (f := fun c => { c with clientState := .gone })
    fun _ => rfl).trans hsame.view
  obtain ⟨hassign, _⟩ := assign_frame (hview.exact h.ruled.exact) i none nofun
  have hdef : (s.destroyClient mem windows i c).2 =
      { (u.freeClientResources mem i windows).2.xnamespaceAssignClient i none with
        clients := ((u.freeClientResources mem i windows).2.xnamespaceAssignClient i
          none).clients.set i none } := rfl
  have hall : Drops s (s.destroyClient mem windows i c).2 := by
    rw [hdef]
    exact ((honly.drops.trans hdrops).trans hassign.drops).trans (.of_eq rfl rfl rfl)
  refine h.kept_one hruled hall hmoves.names (i := i) (fun d hd => ?_) ?_ ?_
  · rw [hdef, client_set_ne _ hd, hassign.clients d hd, hsame.client, honly.clients d hd]
  · rintro ⟨sel, hsel, hcl⟩
    obtain ⟨sel₀, hsel₀, _, ho⟩ := hall.owners sel hsel
    have hactive := h.owners sel₀ hsel₀ i (ho i hcl)
    simp [active, hi, hgone] at hactive
  · rintro ⟨e, he, hei⟩
    rw [hdef] at he
    exact absurd hei (hleft e (hassign.events ▸ he))

theorem closeDownClient_kept (h : Sane s) (mem : Name → Bool) (windows : List Nat)
    (hi0 : i ≠ 0) : Kept s (s.closeDownClient mem windows i).2 := by
  cases hi : s.client i with
  | none =>
    rw [closeDownClient, hi]
    exact h.refl
  | some c =>
    rw [closeDownClient, hi]
    dsimp only
    cases hgone : c.clientGone with
    | true =>
      rw [if_pos rfl, if_pos (.inl rfl)]
      exact destroyClient_kept h mem windows hi0 hi hgone c
    | false =>
      rw [if_neg Bool.false_ne_true]
      obtain ⟨hclosed, c', hc', hgone'⟩ := closeConnection_kept h mem hi
      split
      · exact hclosed.trans (destroyClient_kept hclosed.sane mem windows hi0 hc' hgone' c)
      · exact hclosed

theorem updateClient_kept (h : Sane s) (i : Nat) {f : Client → Client}
    (hf : ∀ c, (f c).ns = c.ns ∧ (f c).clientState = c.clientState ∧
      (f c).clientGone = c.clientGone) : Kept s (s.updateClient i f) := by
  have hview := s.updateClient_view i fun c => (hf c).1
  have honly := s.updateClient_only i f
  refine h.kept_one (hview.ruled h.ruled) honly.drops (.of_eq rfl) honly.clients ?_ ?_
  · rintro ⟨sel, hsel, hcl⟩
    have hactive := h.owners sel hsel i hcl
    cases hi : s.client i with
    | none => simp [active, hi] at hactive
    | some c =>
      have hi' := s.updateClient_client hi f
      refine ⟨?_, by rw [nsOf, nsOf, hi, hi', bind_some, bind_some, (hf c).1]⟩
      rw [active, hi] at hactive
      rw [active, hi']
      simpa [(hf c).2.1, (hf c).2.2] using hactive
  · rintro ⟨e, he, rfl⟩
    obtain ⟨c, hc, hne⟩ := h.listeners e he
    have hc' := s.updateClient_client hc f
    rw [nsOf, nsOf, hc, hc', bind_some, bind_some, (hf c).1]
    exact ⟨rfl, f c, rfl, (hf c).2.1 ▸ hne⟩

theorem Sane.kept_idle (h : Sane s) (ht : Ruled t) (hnames : NamesFrom s t)
    (honly : OnlyClient i s t) (hidle : ∀ c, s.client i = some c → c.clientState = .initial) :
    Kept s t := by
  refine h.kept_one ht honly.drops hnames honly.clients ?_ ?_
  · rintro ⟨sel, hsel, hcl⟩
    have hactive := h.owners sel (honly.selections ▸ hsel) i hcl
    cases hi : s.client i with
    | none => simp [active, hi] at hactive
    | some c => simp [active, hi, hidle c hi] at hactive
  · rintro ⟨e, he, hei⟩
    obtain ⟨c, hc, hne⟩ := h.listeners e (honly.events ▸ he)
    exact absurd (hidle c (hei ▸ hc)) hne

theorem nextAvailableClient_kept (h : Sane s) : Kept s s.nextAvailableClient := by
  obtain ⟨hmoves, hruled⟩ := nextAvailableClient_spec h.ruled
  rw [nextAvailableClient] at *
  cases hf : s.clients.findIdx? (·.isNone) with
  | none => exact h.refl
  | some i =>
    rw [hf] at hmoves hruled
    dsimp only at *
    obtain ⟨hlt, hnone, _⟩ := findIdx?_eq_some_iff_getElem.mp hf
    have hfree : s.client i = none := by
      rw [client, getElem?_eq_getElem hlt, isNone_iff_eq_none.mp hnone]
      rfl
    have hnew : { s with clients := s.clients.set i (some {}) }.client i = some {} := by
      rw [client_eq_some, getElem?_set_self hlt]
    have heq := xnamespaceAssignClient_eq hnew (some nsAnon)
    refine h.kept_idle hruled hmoves.names (i := i) ?_ (by rw [hfree]; simp)
    rw [hookClientState, heq]
    have honly := updateClient_only { s with clients := s.clients.set i (some {}) } i
      fun p => { p with ns := some nsAnon }
    exact ⟨rfl, rfl, rfl, fun c hc => (honly.clients c hc).trans (client_set_ne s hc _)⟩

theorem hookClientState_only (h : Exact s) (i : Nat) (authId : Resource.XID) :
    OnlyClient i s (s.hookClientState i .running authId) := by
  have honly := s.updateClient_only i fun p => { p with authId := authId }
  have hview := s.updateClient_view i (f := fun p => { p with authId := authId }) fun _ => rfl
  rw [hookClientState]
  split
  · next name data _ =>
    refine honly.trans (assign_frame (hview.exact h) i _ fun k hk => ?_).1
    obtain ⟨n, hn, ha⟩ := xnsFindByAuth_listed (hview.exact h) name data
    exact ⟨n, hn, ha.trans (some.inj hk)⟩
  · exact honly

theorem sendConnSetup_kept (h : Sane s) (hi0 : i ≠ 0) (authId : Resource.XID) :
    Kept s (s.sendConnSetup i authId) := by
  rw [sendConnSetup]
  split
  · exact h.refl
  next c hi =>
  split
  · next hinitial =>
    have hview := s.updateClient_view i (f := fun c => { c with clientState := .running })
      fun _ => rfl
    have honly := s.updateClient_only i fun c => { c with clientState := .running }
    obtain ⟨hmoves, hruled⟩ := hookClientState_spec (hview.ruled h.ruled) hi0 .running authId
    refine h.kept_idle hruled hmoves.names
      (honly.trans (hookClientState_only (hview.exact h.ruled.exact) i authId)) ?_
    intro c' hc'
    rw [hi] at hc'
    cases hc'
    exact hinitial
  · exact h.refl

theorem Sane.kept_tuned (h : Sane s) (ht : Tuned s t) (hnames : NamesFrom s t)
    (hd : Drops s t) (hclients : t.clients = s.clients) : Kept s t :=
  h.kept_clients (ht.ruled h.ruled) hd hnames hclients

theorem xnsAddToken_kept (h : Sane s) (k : NsId) (proto data : Name) (mem : TokenMemory) :
    Kept s (s.xnsAddToken k proto data mem).2 := by
  have htuned := s.xnsAddToken_tuned k proto data mem
  rw [xnsAddToken] at *
  split
  · exact h.refl
  next hm =>
  rw [if_neg hm] at htuned
  obtain ⟨auths, he⟩ := s.addAuthorization_onlyCookies proto.length (cstr proto) data mem.id mem.cookie
  dsimp only at htuned ⊢
  rw [he] at htuned ⊢
  exact h.kept_tuned htuned (updateNs_names _ k fun _ => ⟨rfl, rfl⟩) (.of_eq rfl rfl rfl) rfl

theorem xnsRemoveToken_kept (h : Sane s) (k : NsId) (handle : BitVec 32) :
    Kept s (s.xnsRemoveToken k handle).2 := by
  have htuned := s.xnsRemoveToken_tuned k handle
  rw [xnsRemoveToken] at *
  cases hf : (s.findNs k).bind fun ns => ns.authTokens.find? (·.handle = handle) with
  | none => exact h.refl
  | some token =>
    rw [hf] at htuned
    obtain ⟨auths, he⟩ := s.freeToken_onlyCookies token
    dsimp only at htuned ⊢
    rw [he] at htuned ⊢
    exact h.kept_tuned htuned (updateNs_names _ k fun _ => ⟨rfl, rfl⟩) (.of_eq rfl rfl rfl) rfl

theorem xnsSetCaps_kept (h : Sane s) (k : NsId) (mask values : BitVec 32) :
    Kept s (s.xnsSetCaps k mask values).2 := by
  have htuned := s.xnsSetCaps_tuned k mask values
  rw [xnsSetCaps] at *
  split
  · exact h.refl
  next hm =>
  rw [if_neg hm] at htuned
  exact h.kept_tuned htuned (updateNs_names _ k fun _ => ⟨rfl, rfl⟩) (.of_eq rfl rfl rfl) rfl

theorem validateName_plain {name : Name} (h : validateName name) : Plain name := by
  rw [validateName, Bool.and_eq_true, decide_eq_true_eq, List.all_eq_true] at h
  obtain ⟨⟨_, hlen⟩, hall⟩ := h
  refine ⟨fun hz => ?_, ?_⟩
  · have hc := hall 0 hz
    exact absurd hc (by decide)
  · rw [Short, pathMax]
    rw [nameMax] at hlen
    omega

theorem procXnsCreateNamespace_kept (h : Sane s) (name : Name) (caps attrs : BitVec 32)
    (m₁ m₂ m₃ : Bool) : Kept s (s.procXnsCreateNamespace name caps attrs m₁ m₂ m₃).2 := by
  have hruled := (procXnsCreateNamespace_keeps h.ruled name caps attrs m₁ m₂ m₃).ruled
  rcases s.procXnsCreateNamespace_cases name caps attrs m₁ m₂ m₃ with he | he
  · rw [he]
    exact h.refl
  rw [he] at hruled ⊢
  rcases s.xnsCreate_cases name caps attrs m₁ m₂ m₃ with
    he | ⟨_, hl, n, ha, hname, _, _, _, _, hvalid, he⟩
  · rw [he]
    exact h.refl
  rw [he] at hruled ⊢
  refine h.kept_clients hruled (.of_eq rfl rfl rfl) (fun n' hn' => ?_) rfl
  rcases mem_append.mp hn' with hn' | hn'
  · exact .inl ⟨n', hn', rfl, rfl⟩
  · obtain rfl := mem_singleton.mp hn'
    refine .inr ⟨ha, hname ▸ validateName_plain hvalid, fun m hm he => ?_⟩
    rw [xnsLookup, isNone_iff_eq_none, find?_eq_none] at hl
    exact hl m hm (by simpa [hname] using he)

theorem destroyNs_kept (h : Sane s) {n : Xnamespace} (hn : n ∈ s.nsList)
    (hb : n.builtin = false) (hc : s.count n.addr = 0) : Kept s (s.xnsDestroyNamespace n.addr) := by
  have hruled := (destroy_dropped h.ruled hn hb hc).ruled
  obtain ⟨auths, he⟩ := xnsDestroyNamespace_eq h.ruled.exact hn hb hc
  rw [he] at hruled ⊢
  exact h.kept_clients hruled (.of_eq rfl rfl rfl)
    (fun m hm => .inl ⟨m, mem_of_mem_filter hm, rfl, rfl⟩) rfl

theorem killOne_kept (mem : Name → Bool) (windows : Nat → List Nat) (k : NsId)
    {acc : List Output × Server} (h : Sane acc.2) (hi0 : i ≠ 0) :
    Kept acc.2 (killOne mem windows k acc i).2 := by
  rw [killOne]
  split
  · have hup := updateClient_kept h i (f := fun c => { c with destroyAll := true })
      fun _ => ⟨rfl, rfl, rfl⟩
    exact hup.trans (closeDownClient_kept hup.sane mem (windows i) hi0)
  · exact h.refl

theorem foldl_kept (mem : Name → Bool) (windows : Nat → List Nat) (k : NsId) {l : List Nat}
    (hl : 0 ∉ l) (acc : List Output × Server) (h : Sane acc.2) :
    Kept acc.2 (l.foldl (killOne mem windows k) acc).2 := by
  induction l generalizing acc with
  | nil => exact h.refl
  | cons i l ih =>
    rw [mem_cons, not_or] at hl
    have hone := killOne_kept mem windows k h (Ne.symm hl.1)
    exact hone.trans (ih hl.2 _ hone.sane)

theorem xnsDelete_kept (h : Sane s) {n : Xnamespace} (hn : n ∈ s.nsList) (mem : Name → Bool)
    (windows : Nat → List Nat) (onClients : OnClients) :
    Kept s (s.xnsDelete mem windows n.addr onClients).2.2 := by
  rw [xnsDelete, h.ruled.exact.findNs hn]
  dsimp only
  split
  · exact h.refl
  next hb =>
  have hb : n.builtin = false := by simpa using hb
  split
  · next hr => exact destroyNs_kept h hn hb ((h.ruled.exact.refcnt_eq_zero hn).mp hr).2
  split
  · exact h.refl
  -- the clients are killed and the namespace is destroyed
  have hstart := start_killing h.ruled hn hb
  have hkill := foldl_killing mem windows (range' 1 (s.clients.length - 1))
    ([], s.updateNs n.addr fun ns => { ns with autoRemove := false }) hstart
  have hup : Kept s (s.updateNs n.addr fun ns => { ns with autoRemove := false }) :=
    h.kept_clients hstart.ruled (.of_eq rfl rfl rfl) (updateNs_names _ _ fun _ => ⟨rfl, rfl⟩) rfl
  have hloop := hup.trans (foldl_kept mem windows n.addr
    (l := range' 1 (s.clients.length - 1)) (by simp)
    ([], s.updateNs n.addr fun ns => { ns with autoRemove := false }) hup.sane)
  obtain ⟨m, hm, hma, _, hmb⟩ := hkill.target
  have hdestroy := destroyNs_kept hloop.sane hm hmb (hma.symm ▸ hkill.count_zero)
  rw [hma] at hdestroy
  exact hloop.trans hdestroy

theorem procXnsDeleteNamespace_kept (h : Sane s) (mem : Name → Bool) (windows : Nat → List Nat)
    (client : Nat) (name : Name) (onClients : OnClients) :
    Kept s (s.procXnsDeleteNamespace mem windows client name onClients).2.2 := by
  rw [procXnsDeleteNamespace]
  split
  · exact h.refl
  next n hl =>
  split
  · exact h.refl
  split
  · exact h.refl
  · exact xnsDelete_kept h (mem_of_find?_eq_some hl) mem windows onClients

end Xfront.Namespace.Server
