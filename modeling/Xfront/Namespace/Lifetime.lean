import Xfront.Namespace.Refcount

/-!
# Namespaces over a run

Clients connect, are authorized and go, and namespaces are created and deleted, in any order.
-/

namespace Xfront.Namespace.Server
open List Nat Option
open Atom (Name)
open Resource (XID)

variable {s t u : Server}

structure Ruled (s : Server) : Prop where
  exact : Exact s
  homed : some none ∉ s.places
  server : s.nsOf 0 = some nsRoot

variable {i : Nat} {c : Client}

theorem Ruled.placed (h : Ruled s) (hi : s.client i = some c) :
    ∃ n ∈ s.nsList, c.ns = some n.addr := by
  cases hc : c.ns with
  | none =>
    have hp := place_of_client hi
    rw [hc] at hp
    exact absurd (mem_of_getElem? hp) h.homed
  | some k =>
    obtain ⟨n, hn, ha⟩ := h.exact.listed k (count_pos_of_client hi hc)
    exact ⟨n, hn, congrArg some ha.symm⟩

theorem Ruled.of_places (h : Ruled s) (ht : Exact t) (hi : i ≠ 0)
    {x : Option (Option NsId)} (hx : x ≠ some none)
    (hplaces : t.places = s.places ∨ t.places = s.places.set i x) : Ruled t := by
  refine ⟨ht, ?_, ?_⟩
  · rcases hplaces with he | he <;> rw [he]
    · exact h.homed
    · intro hm
      rcases mem_or_eq_of_mem_set hm with hm | hm
      · exact h.homed hm
      · exact hx hm.symm
  · have h0 := nsOf_eq_some.mp h.server
    rw [nsOf_eq_some]
    rcases hplaces with he | he <;> rw [he]
    · exact h0
    · rw [getElem?_set_ne hi]
      exact h0

variable {k : NsId}

theorem count_set_of_ne {l : List (Option (Option NsId))} {x y : Option (Option NsId)}
    (hx : l[i]? = some x) (hxk : x ≠ some (some k)) (hyk : y ≠ some (some k)) :
    (l.set i y).count (some (some k)) = l.count (some (some k)) := by
  obtain ⟨hi, rfl⟩ := List.getElem?_eq_some_iff.mp hx
  rw [count_set hi]
  simp [hxk, hyk]

theorem nextAvailableClient_spec (h : Ruled s) :
    Moves s s.nextAvailableClient ∧ Ruled s.nextAvailableClient := by
  rw [nextAvailableClient]
  cases hf : s.clients.findIdx? (·.isNone) with
  | none => exact ⟨.refl h.exact, h⟩
  | some i =>
    dsimp only
    obtain ⟨hlt, hnone, _⟩ := findIdx?_eq_some_iff_getElem.mp hf
    have hfree : s.clients[i]? = some none := by
      rw [getElem?_eq_getElem hlt, isNone_iff_eq_none.mp hnone]
    have hplace : s.places[i]? = some none := by
      rw [getElem?_places, hfree]
      rfl
    have hi0 : i ≠ 0 := by
      rintro rfl
      rw [nsOf_eq_some.mp h.server] at hplace
      cases hplace
    have hnew : { s with clients := s.clients.set i (some {}) }.places =
        s.places.set i (some none) := by
      rw [places, places, map_set]
      rfl
    have hcount : ∀ k, { s with clients := s.clients.set i (some {}) }.count k = s.count k := by
      intro k
      rw [count, hnew, count_set_of_ne hplace (by simp) (by simp), count]
    have hexact : Exact { s with clients := s.clients.set i (some {}) } :=
      h.exact.of_count rfl rfl (length_set ..) hcount
    have hclient : { s with clients := s.clients.set i (some {}) }.client i = some {} := by
      rw [client_eq_some, getElem?_set_self hlt]
    obtain ⟨n, hn, ha, _⟩ := hexact.builtIns nsAnon (by simp)
    obtain ⟨hmoves, hp⟩ := assign_moves hexact hclient (some nsAnon)
      fun k hk => ⟨n, hn, ha.trans (some.inj hk)⟩
    refine ⟨hmoves.congr_left rfl rfl hcount, h.of_places hmoves.exact hi0 (x := some (some nsAnon)) (by simp) (.inr ?_)⟩
    rw [hookClientState, hp, hnew, set_set]

theorem xnsFindByAuth_listed (h : Exact s) (authProto authToken : Name) :
    ∃ n ∈ s.nsList, n.addr = s.xnsFindByAuth authProto authToken := by
  rw [xnsFindByAuth]
  split
  · next walk hf => exact ⟨walk, mem_of_find?_eq_some hf, rfl⟩
  · obtain ⟨n, hn, ha, _⟩ := h.builtIns nsAnon (by simp)
    exact ⟨n, hn, ha⟩

theorem xnamespaceAssignClient_none (h : s.client i = none) (newns : Option NsId) :
    s.xnamespaceAssignClient i newns = s := by
  rw [xnamespaceAssignClient, h]

theorem assign_ruled (h : Ruled s) (hi : i ≠ 0) (hk : ∃ n ∈ s.nsList, n.addr = k) :
    Moves s (s.xnamespaceAssignClient i (some k)) ∧
      Ruled (s.xnamespaceAssignClient i (some k)) := by
  cases hc : s.client i with
  | none =>
    rw [xnamespaceAssignClient_none hc]
    exact ⟨.refl h.exact, h⟩
  | some priv =>
    obtain ⟨n, hn, rfl⟩ := hk
    obtain ⟨hmoves, hp⟩ := assign_moves h.exact hc (some n.addr)
      fun k hk => ⟨n, hn, some.inj hk⟩
    exact ⟨hmoves, h.of_places hmoves.exact hi (x := some (some n.addr)) (by simp) (.inr hp)⟩

theorem SameView.ruled (h : SameView s t) (hs : Ruled s) : Ruled t :=
  hs.of_places (h.exact hs.exact) Nat.one_ne_zero (x := none) nofun (.inl h.places)

theorem hookClientState_spec (h : Ruled s) (hi : i ≠ 0) (state : ClientState) (authId : XID) :
    Moves s (s.hookClientState i state authId) ∧ Ruled (s.hookClientState i state authId) := by
  cases state with
  | initial =>
    obtain ⟨n, hn, ha, _⟩ := h.exact.builtIns nsAnon (by simp)
    exact assign_ruled h hi ⟨n, hn, ha⟩
  | running =>
    have hview := s.updateClient_view i (f := fun p => { p with authId := authId }) fun _ => rfl
    rw [hookClientState]
    split
    · next name data _ =>
      obtain ⟨hmoves, hruled⟩ := assign_ruled (hview.ruled h) hi
        (xnsFindByAuth_listed (hview.exact h.exact) name data)
      exact ⟨hmoves.congr_left hview.nsList hview.nextAddr hview.count, hruled⟩
    · exact ⟨hview.moves h.exact, hview.ruled h⟩
  | retained | gone => exact ⟨.refl h.exact, h⟩

theorem closeConnection_view (s : Server) (mem : Name → Bool) (i : Nat) (c : Client) :
    SameView s (s.closeConnection mem i c).2 := by
  have hsel : SameView s (s.deleteClientFromAnySelections mem i).2 :=
    (deleteFromAnySelections_sameNs ..).view
  refine (hsel.trans ?_).trans (updateClient_view _ i fun _ => rfl)
  split
  · exact ⟨rfl, rfl, rfl⟩
  · exact updateClient_view _ i fun _ => rfl

theorem SameView.client (h : SameView s t) (hi : s.client i = some c) :
    ∃ c', t.client i = some c' ∧ c'.ns = c.ns := by
  have hplace := place_of_client hi
  rw [← h.places, getElem?_places] at hplace
  obtain ⟨o, ho, hns⟩ := map_eq_some_iff.mp hplace
  obtain ⟨c', rfl, he⟩ := map_eq_some_iff.mp hns
  exact ⟨c', client_eq_some.mpr ho, he⟩

theorem places_set_none (s : Server) (i : Nat) :
    { s with clients := s.clients.set i none }.places = s.places.set i none := by
  rw [places, places, map_set]
  rfl

theorem destroyClient_spec (h : Exact s) (mem : Name → Bool) (windows : List Nat)
    {p : Client} (hi : s.client i = some p) (c : Client) :
    Moves s (s.destroyClient mem windows i c).2 ∧
      (s.destroyClient mem windows i c).2.places = s.places.set i none := by
  have hview := (s.updateClient_view i (f := fun c => { c with clientState := .gone })
    fun _ => rfl).trans (freeClientResources_sameNs _ mem i windows).view
  obtain ⟨c', hc', _⟩ := hview.client hi
  obtain ⟨hmoves, hp⟩ := assign_moves (hview.exact h) hc' none nofun
  have hlt : i < s.places.length := (List.getElem?_eq_some_iff.mp (place_of_client hi)).1
  have hself := congrArg (·[i]?) hp
  rw [hview.places] at hp hself
  rw [getElem?_set_self hlt] at hself
  have hset : (s.destroyClient mem windows i c).2.places = s.places.set i none := by
    exact (places_set_none _ i).trans
      ((congrArg (set · i none) hp).trans (set_set ..))
  refine ⟨(hmoves.congr_left hview.nsList hview.nextAddr hview.count).congr_right rfl rfl
    (length_set ..) fun k => ?_, hset⟩
  rw [count, hset, count, hp]
  have hk := count_set_of_ne (k := k) (y := none) hself (by simp) (by simp)
  rw [hp, set_set] at hk
  exact hk

theorem closeDownClient_spec (h : Exact s) (mem : Name → Bool) (windows : List Nat)
    (hi : s.client i = some c) : Moves s (s.closeDownClient mem windows i).2 ∧
      (s.closeDownClient mem windows i).2.places =
        if c.clientGone ∨ c.destroyAll then s.places.set i none else s.places := by
  have hview : SameView s (if c.clientGone then ([], s) else s.closeConnection mem i c).2 := by
    split
    · exact ⟨rfl, rfl, rfl⟩
    · exact closeConnection_view ..
  obtain ⟨c', hc', _⟩ := hview.client hi
  rw [closeDownClient, hi]
  dsimp only
  split
  · obtain ⟨hmoves, hp⟩ := destroyClient_spec (hview.exact h) mem windows hc' c
    rw [hview.places] at hp
    exact ⟨hmoves.congr_left hview.nsList hview.nextAddr hview.count, hp⟩
  · exact ⟨hview.moves h, hview.places⟩

theorem closeDownClient_ruled (h : Ruled s) (mem : Name → Bool) (windows : List Nat) (hi : i ≠ 0) :
    Moves s (s.closeDownClient mem windows i).2 ∧ Ruled (s.closeDownClient mem windows i).2 := by
  cases hc : s.client i with
  | none =>
    rw [closeDownClient, hc]
    exact ⟨.refl h.exact, h⟩
  | some c =>
    obtain ⟨hmoves, hp⟩ := closeDownClient_spec h.exact mem windows hc
    refine ⟨hmoves, h.of_places hmoves.exact hi (x := none) nofun ?_⟩
    rw [hp]
    split
    · exact .inr rfl
    · exact .inl rfl

variable {n : Xnamespace}

open Xnamespace

theorem Exact.append (h : Exact s) (ha : n.addr = s.nextAddr)
    (hb : n.builtin = false) (hr : n.refcnt = 0) :
    Exact { s with nsList := s.nsList ++ [n], nextAddr := s.nextAddr + 1 } where
  slots := h.slots
  nodup := by
    rw [map_append, nodup_append]
    refine ⟨h.nodup, nodup_singleton _, ?_⟩
    intro a hm' b hb' hab
    obtain ⟨m, hm, rfl⟩ := mem_map.mp hm'
    rw [map_singleton, mem_singleton] at hb'
    exact Nat.ne_of_lt (h.fresh m hm) (hab.trans (hb'.trans ha))
  fresh m hm := by
    rcases mem_append.mp hm with hm | hm
    · exact lt_succ_of_lt (h.fresh m hm)
    · rw [mem_singleton.mp hm, ha]
      exact lt_succ_self _
  builtIns k hk := by
    obtain ⟨m, hm, hmk⟩ := h.builtIns k hk
    exact ⟨m, mem_append_left _ hm, hmk⟩
  refcnt m hm := by
    rcases mem_append.mp hm with hm | hm
    · exact h.refcnt m hm
    · have hzero : s.count s.nextAddr = 0 := by
        by_contra hne
        obtain ⟨m, hm, hma⟩ := h.listed _ hne
        exact Nat.ne_of_lt (h.fresh m hm) hma
      rw [mem_singleton.mp hm, hr, ha, base, hb, if_neg Bool.false_ne_true]
      exact congrArg (fun c => BitVec.ofNat 64 (0 + c)) hzero.symm
  listed k hk := by
    obtain ⟨m, hm, hmk⟩ := h.listed k hk
    exact ⟨m, mem_append_left _ hm, hmk⟩

theorem xnsCreate_cases (s : Server) (name : Name) (caps attrs : BitVec 32) (m₁ m₂ m₃ : Bool) :
    (s.xnsCreate name caps attrs m₁ m₂ m₃).2 = s ∨
      ((s.xnsCreate name caps attrs m₁ m₂ m₃).1 = .success ∧
        (s.xnsLookup name).isNone ∧ ∃ n : Xnamespace, n.addr = s.nextAddr ∧ n.name = name ∧
          n.builtin = false ∧ n.refcnt = 0 ∧ n.authTokens = [] ∧
          n.superPower = caps.getLsbD 5 ∧ validateName name ∧
          (s.xnsCreate name caps attrs m₁ m₂ m₃).2 =
            { s with nsList := s.nsList ++ [n], nextAddr := s.nextAddr + 1 }) := by
  rw [xnsCreate]
  split
  · exact .inl rfl
  next hv =>
  split
  · exact .inl rfl
  next hl =>
  split
  · exact .inl rfl
  · exact .inr ⟨rfl, by simpa using hl, _, rfl, rfl, rfl, rfl, rfl, rfl, by simpa using hv, rfl⟩

theorem procXnsCreateNamespace_cases (s : Server) (name : Name) (caps attrs : BitVec 32)
    (m₁ m₂ m₃ : Bool) : (s.procXnsCreateNamespace name caps attrs m₁ m₂ m₃).2 = s ∨
      s.procXnsCreateNamespace name caps attrs m₁ m₂ m₃ = s.xnsCreate name caps attrs m₁ m₂ m₃ := by
  rw [procXnsCreateNamespace]
  split
  · exact .inl rfl
  split
  · exact .inl rfl
  · exact .inr rfl

/-- The same namespace at two times, apart from its counts, tokens and `autoRemove`. -/
def Alike (n n' : Xnamespace) : Prop :=
  n'.addr = n.addr ∧ n'.name = n.name ∧ n'.builtin = n.builtin ∧ n'.superPower = n.superPower

theorem Exact.eq_of_addr (h : Exact s) {m : Xnamespace} (hm : m ∈ s.nsList) (hn : n ∈ s.nsList)
    (ha : m.addr = n.addr) : m = n := inj_on_of_nodup_map h.nodup hm hn ha

theorem Ruled.root (h : Ruled s) : ∃ n ∈ s.nsList, n.addr = nsRoot ∧ n.builtin :=
  h.exact.builtIns nsRoot (by simp)

/-- While the clients of a namespace are killed; those in `done` are behind. -/
structure Killing (s : Server) (k : NsId) (t : Server) (done : List Nat) : Prop where
  ruled : Ruled t
  nextAddr : t.nextAddr = s.nextAddr
  target : ∃ n ∈ t.nsList, n.addr = k ∧ n.autoRemove = false ∧ n.builtin = false
  kept : ∀ n ∈ s.nsList, ∃ n' ∈ t.nsList, n'.addr = n.addr
  same : ∀ n' ∈ t.nsList, ∃ n ∈ s.nsList, Alike n n'
  gone : ∀ j ∈ done, t.nsOf j ≠ some k
  length : t.clients.length = s.clients.length

variable {done : List Nat}

theorem Killing.ne_zero (h : Killing s k t done) (hi : t.nsOf i = some k) : i ≠ 0 := by
  rintro rfl
  rw [h.ruled.server] at hi
  obtain ⟨n, hn, ha, _, hb⟩ := h.target
  obtain ⟨r, hr, hra, hrb⟩ := h.ruled.root
  have hsame := h.ruled.exact.eq_of_addr hn hr (ha.trans ((some.inj hi).symm.trans hra.symm))
  rw [hsame, hrb] at hb
  cases hb

theorem killOne_killing (mem : Name → Bool)
    (windows : Nat → List Nat) {acc : List Output × Server} (h : Killing s k acc.2 done) (i : Nat) :
    Killing s k (killOne mem windows k acc i).2 (done ++ [i]) := by
  rw [killOne]
  split
  · next hi =>
    have hne := h.ne_zero hi
    have hview := acc.2.updateClient_view i (f := fun c => { c with destroyAll := true })
      fun _ => rfl
    obtain ⟨c, hc, hck⟩ : ∃ c, acc.2.client i = some c ∧ c.ns = some k := bind_eq_some_iff.mp hi
    have hc' : (acc.2.updateClient i fun c => { c with destroyAll := true }).client i =
        some { c with destroyAll := true } := by
      rw [client_eq_some, updateClient, modify_option _ _ _ (client_eq_some.mp hc),
        getElem?_set_self (List.getElem?_eq_some_iff.mp (client_eq_some.mp hc)).1]
    obtain ⟨hmoves, hp⟩ := closeDownClient_spec (hview.exact h.ruled.exact) mem (windows i) hc'
    rw [if_pos (.inr rfl), hview.places] at hp
    have hmoves := hmoves.congr_left hview.nsList hview.nextAddr hview.count
    set t := ((acc.2.updateClient i fun c => { c with destroyAll := true }).closeDownClient mem
      (windows i) i).2 with ht
    have hruled : Ruled t := h.ruled.of_places hmoves.exact hne (x := none) (by simp) (.inr hp)
    have hkeep : ∀ n ∈ acc.2.nsList, ∃ n' ∈ t.nsList, n'.addr = n.addr := by
      intro n hn
      refine (hmoves.kept n hn).mpr ?_
      rintro ⟨hauto, hb, hpos, hzero⟩
      obtain ⟨m, hm, hmk, hma, _⟩ := h.target
      have hne' : n.addr ≠ k := by
        intro he
        rw [h.ruled.exact.eq_of_addr hn hm (he.trans hmk.symm), hma] at hauto
        cases hauto
      have hsame := count_set_of_ne (k := n.addr) (y := none) (nsOf_eq_some.mp hi)
        (by simpa using Ne.symm hne') (by simp)
      rw [← hp] at hsame
      exact hpos (hsame.symm.trans hzero)
    have hplace : ∀ j, j ≠ i → t.places[j]? = acc.2.places[j]? := by
      intro j hj
      rw [hp, getElem?_set_ne (Ne.symm hj)]
    have hself : t.places[i]? = some none := by
      rw [hp, getElem?_set_self (List.getElem?_eq_some_iff.mp (place_of_client hc)).1]
    refine ⟨hruled, hmoves.nextAddr.trans h.nextAddr, ?_, fun n hn => ?_, fun n' hn' => ?_, ?_, ?_⟩
    · obtain ⟨n, hn, ha, hauto, hb⟩ := h.target
      obtain ⟨n', hn', ha'⟩ := hkeep n hn
      obtain ⟨m, hm, he⟩ := hmoves.same n' hn'
      have hmn : m = n := h.ruled.exact.eq_of_addr hm hn (by rw [← ha', he])
      refine ⟨n', hn', ha'.trans ha, ?_, ?_⟩
      · rw [he, hmn]
        exact hauto
      · rw [he, hmn]
        exact hb
    · obtain ⟨m, hm, hma⟩ := h.kept n hn
      obtain ⟨n', hn', ha'⟩ := hkeep m hm
      exact ⟨n', hn', ha'.trans hma⟩
    · obtain ⟨m, hm, he⟩ := hmoves.same n' hn'
      obtain ⟨n, hn, hal⟩ := h.same m hm
      refine ⟨n, hn, ?_⟩
      rw [he]
      exact hal
    · intro j hj
      rcases mem_append.mp hj with hj | hj
      · intro hk
        by_cases hji : j = i
        · rw [hji, nsOf_eq_some, hself] at hk
          cases hk
        · rw [nsOf_eq_some, hplace j hji, ← nsOf_eq_some] at hk
          exact h.gone j hj hk
      · rw [mem_singleton.mp hj]
        intro hk
        rw [nsOf_eq_some, hself] at hk
        cases hk
    · rw [← length_places, hp, length_set, length_places, h.length]
  · next hi =>
    refine ⟨h.ruled, h.nextAddr, h.target, h.kept, h.same, ?_, h.length⟩
    intro j hj
    rcases mem_append.mp hj with hj | hj
    · exact h.gone j hj
    · rw [mem_singleton.mp hj]
      exact hi

theorem foldl_killing (mem : Name → Bool) (windows : Nat → List Nat) (l : List Nat)
    (acc : List Output × Server) (h : Killing s k acc.2 done) :
    Killing s k (l.foldl (killOne mem windows k) acc).2 (done ++ l) := by
  induction l generalizing acc done with
  | nil => rwa [append_nil]
  | cons i l ih =>
    have hstep := ih _ (killOne_killing mem windows h i)
    rwa [append_assoc] at hstep

structure Dropped (s t : Server) (k : NsId) : Prop where
  ruled : Ruled t
  nextAddr : t.nextAddr = s.nextAddr
  kept : ∀ n ∈ s.nsList, (∃ n' ∈ t.nsList, n'.addr = n.addr) ↔ n.addr ≠ k
  same : ∀ n' ∈ t.nsList, ∃ n ∈ s.nsList, Alike n n'

theorem destroy_dropped (h : Ruled s) (hn : n ∈ s.nsList)
    (hb : n.builtin = false) (hc : s.count n.addr = 0) :
    Dropped s (s.xnsDestroyNamespace n.addr) n.addr := by
  obtain ⟨auths, heq⟩ := xnsDestroyNamespace_eq h.exact hn hb hc
  have hexact : Exact { s with nsList := s.nsList.filter (·.addr ≠ n.addr), mitAuth := auths } := by
    refine h.exact.filter auths fun m hm hk => ?_
    have hmn : m = n := h.exact.eq_of_addr hm hn (by simpa using hk)
    exact hmn ▸ ⟨hb, hc⟩
  rw [heq]
  refine ⟨⟨hexact, h.homed, h.server⟩, rfl, fun m hm => ?_, fun m hm => ?_⟩
  · constructor
    · rintro ⟨m', hm', ha⟩
      have hk := (mem_filter.mp hm').2
      rw [← ha]
      simpa using hk
    · intro hne
      exact ⟨m, mem_filter.mpr ⟨hm, by simpa using hne⟩, rfl⟩
  · exact ⟨m, mem_of_mem_filter hm, rfl, rfl, rfl, rfl⟩

def Lenient (f : Xnamespace → Xnamespace) : Prop :=
  ∀ n, (f n).addr = n.addr ∧ (f n).builtin = n.builtin ∧ (f n).refcnt = n.refcnt

variable {f : Xnamespace → Xnamespace}

theorem Lenient.ite (hf : Lenient f) (k : NsId) :
    Lenient fun n => if n.addr = k then f n else n := by
  intro n
  dsimp only
  split
  · exact hf n
  · exact ⟨rfl, rfl, rfl⟩

theorem Exact.updateNs (h : Exact s) (k : NsId) (hf : Lenient f) : Exact (s.updateNs k f) where
  slots := h.slots
  nodup := by
    have haddr : (s.updateNs k f).nsList.map addr = s.nsList.map addr := by
      rw [Server.updateNs, List.map_map]
      exact List.map_congr_left fun n _ => (hf.ite k n).1
    exact haddr ▸ h.nodup
  fresh n' hn' := by
    obtain ⟨n, hn, rfl⟩ := List.mem_map.mp hn'
    rw [(hf.ite k n).1]
    exact h.fresh n hn
  builtIns j hj := by
    obtain ⟨n, hn, ha, hb⟩ := h.builtIns j hj
    exact ⟨_, List.mem_map_of_mem hn, (hf.ite k n).1.trans ha, (hf.ite k n).2.1.trans hb⟩
  refcnt n' hn' := by
    obtain ⟨n, hn, rfl⟩ := List.mem_map.mp hn'
    rw [base, (hf.ite k n).1, (hf.ite k n).2.1, (hf.ite k n).2.2]
    exact h.refcnt n hn
  listed j hj := by
    obtain ⟨n, hn, ha⟩ := h.listed j hj
    exact ⟨_, List.mem_map_of_mem hn, (hf.ite k n).1.trans ha⟩

theorem start_killing (h : Ruled s) (hn : n ∈ s.nsList) (hb : n.builtin = false) :
    Killing s n.addr (s.updateNs n.addr fun ns => { ns with autoRemove := false }) [] := by
  have hexact := h.exact.updateNs n.addr (f := fun ns => { ns with autoRemove := false })
    fun _ => ⟨rfl, rfl, rfl⟩
  refine ⟨⟨hexact, h.homed, h.server⟩, rfl, ⟨_, mem_map_of_mem hn, ?_, ?_, ?_⟩,
    fun m hm => ⟨_, mem_map_of_mem hm, ?_⟩, fun m' hm' => ?_, nofun, rfl⟩
  · rw [if_pos rfl]
  · rw [if_pos rfl]
  · rw [if_pos rfl]
    exact hb
  · split <;> rfl
  · obtain ⟨m, hm, rfl⟩ := mem_map.mp hm'
    refine ⟨m, hm, ?_⟩
    split <;> exact ⟨rfl, rfl, rfl, rfl⟩

theorem Killing.count_zero
    (h : Killing s k t (range' 1 (s.clients.length - 1))) : t.count k = 0 := by
  by_contra hne
  obtain ⟨j, hj⟩ := count_ne_zero.mp hne
  have hj0 := h.ne_zero hj
  refine h.gone j ?_ hj
  have hlt := (List.getElem?_eq_some_iff.mp (nsOf_eq_some.mp hj)).1
  have hlen := h.length
  rw [length_places] at hlt
  rw [mem_range'_1]
  omega

theorem xnsDelete_spec (h : Ruled s) (hn : n ∈ s.nsList) (mem : Name → Bool)
    (windows : Nat → List Nat) (onClients : OnClients) :
    ((s.xnsDelete mem windows n.addr onClients).1 = .success ∧
        Dropped s (s.xnsDelete mem windows n.addr onClients).2.2 n.addr) ∨
      ((s.xnsDelete mem windows n.addr onClients).1 ≠ .success ∧
        (s.xnsDelete mem windows n.addr onClients).2.2 = s) := by
  rw [xnsDelete, h.exact.findNs hn]
  dsimp only
  split
  · exact .inr ⟨nofun, rfl⟩
  next hb =>
  have hb : n.builtin = false := by simpa using hb
  split
  · next hr => exact .inl ⟨rfl, destroy_dropped h hn hb ((h.exact.refcnt_eq_zero hn).mp hr).2⟩
  split
  · exact .inr ⟨nofun, rfl⟩
  · refine .inl ⟨rfl, ?_⟩
    set t := (range' 1 _).foldl (killOne mem windows n.addr) _ with ht
    have hkill := foldl_killing mem windows (range' 1 (s.clients.length - 1))
      ([], s.updateNs n.addr fun ns => { ns with autoRemove := false })
      (start_killing h hn hb)
    obtain ⟨m, hm, hma, _, hmb⟩ := hkill.target
    have hdrop := destroy_dropped hkill.ruled hm hmb (hma.symm ▸ hkill.count_zero)
    rw [hma] at hdrop
    refine ⟨hdrop.ruled, hdrop.nextAddr.trans hkill.nextAddr, fun m hm => ?_, fun m' hm' => ?_⟩
    · obtain ⟨m', hm', ha⟩ := hkill.kept m hm
      rw [← ha]
      exact hdrop.kept m' hm'
    · obtain ⟨m, hm, hal⟩ := hdrop.same m' hm'
      obtain ⟨r, hr, hal'⟩ := hkill.same m hm
      exact ⟨r, hr, hal.1.trans hal'.1, hal.2.1.trans hal'.2.1, hal.2.2.1.trans hal'.2.2.1,
        hal.2.2.2.trans hal'.2.2.2⟩

theorem xnsDelete_failIfBusy (h : Exact s) (hn : n ∈ s.nsList)
    (mem : Name → Bool) (windows : Nat → List Nat) :
    (s.xnsDelete mem windows n.addr .failIfBusy).1 = .success ↔
      n.builtin = false ∧ s.count n.addr = 0 := by
  rw [xnsDelete, h.findNs hn]
  have hz := h.refcnt_eq_zero hn
  dsimp only
  split
  · next hb => simp [hb]
  split
  · next hr => simpa using hz.mp hr
  split
  · next hr _ => simpa using fun hb hc => hr (hz.mpr ⟨hb, hc⟩)
  · next hk => exact absurd nofun hk

theorem allowOne_lenient (what : List Name) : Lenient fun n => what.foldl allowOne n := by
  intro n
  induction what generalizing n with
  | nil => exact ⟨rfl, rfl, rfl⟩
  | cons token what ih =>
    have hone : (allowOne n token).addr = n.addr ∧ (allowOne n token).builtin = n.builtin ∧
        (allowOne n token).refcnt = n.refcnt := by
      rw [allowOne]
      split_ifs <;> exact ⟨rfl, rfl, rfl⟩
    obtain ⟨ha, hb, hr⟩ := ih (allowOne n token)
    exact ⟨ha.trans hone.1, hb.trans hone.2.1, hr.trans hone.2.2⟩

theorem OnlyCookies.view (h : OnlyCookies s t) : SameView s t := by
  obtain ⟨auths, rfl⟩ := h
  exact ⟨rfl, rfl, rfl⟩

structure Tuned (s t : Server) : Prop where
  exact : Exact s → Exact t
  places : t.places = s.places
  nextAddr : t.nextAddr = s.nextAddr
  addrs : t.nsList.map addr = s.nsList.map addr

theorem SameView.tuned (h : SameView s t) : Tuned s t :=
  ⟨h.exact, h.places, h.nextAddr, by rw [h.nsList]⟩

theorem updateNs_tuned (s : Server) (k : NsId) (hf : Lenient f) : Tuned s (s.updateNs k f) := by
  refine ⟨fun h => h.updateNs k hf, rfl, rfl, ?_⟩
  rw [updateNs, List.map_map]
  exact List.map_congr_left fun n _ => (hf.ite k n).1

theorem Tuned.trans (h : Tuned s t) (h' : Tuned t u) : Tuned s u :=
  ⟨h'.exact ∘ h.exact, h'.places.trans h.places, h'.nextAddr.trans h.nextAddr,
    h'.addrs.trans h.addrs⟩

theorem xnsAddToken_tuned (s : Server) (k : NsId) (proto data : Name) (mem : TokenMemory) :
    Tuned s (s.xnsAddToken k proto data mem).2 := by
  rw [xnsAddToken]
  split
  · exact SameView.tuned ⟨rfl, rfl, rfl⟩
  · exact (s.addAuthorization_onlyCookies ..).view.tuned.trans
      (updateNs_tuned _ k fun _ => ⟨rfl, rfl, rfl⟩)

theorem xnsRemoveToken_tuned (s : Server) (k : NsId) (handle : BitVec 32) :
    Tuned s (s.xnsRemoveToken k handle).2 := by
  rw [xnsRemoveToken]
  split
  · exact SameView.tuned ⟨rfl, rfl, rfl⟩
  · exact (s.freeToken_onlyCookies _).view.tuned.trans
      (updateNs_tuned _ k fun _ => ⟨rfl, rfl, rfl⟩)

theorem xnsSetCaps_tuned (s : Server) (k : NsId) (mask values : BitVec 32) :
    Tuned s (s.xnsSetCaps k mask values).2 := by
  rw [xnsSetCaps]
  split
  · exact SameView.tuned ⟨rfl, rfl, rfl⟩
  · exact updateNs_tuned s k fun _ => ⟨rfl, rfl, rfl⟩

theorem Tuned.ruled (h : Tuned s t) (hs : Ruled s) : Ruled t :=
  hs.of_places (h.exact hs.exact) Nat.one_ne_zero (x := none) nofun (.inl h.places)

theorem Tuned.kept (h : Tuned s t) (hn : n ∈ s.nsList) : ∃ n' ∈ t.nsList, n'.addr = n.addr := by
  have hm : n.addr ∈ t.nsList.map addr := h.addrs ▸ mem_map_of_mem hn
  exact mem_map.mp hm

theorem Tuned.count (h : Tuned s t) (k : NsId) : t.count k = s.count k := by
  rw [Server.count, h.places, Server.count]

structure Loading (limit : Nat) (s : Server) : Prop where
  exact : Exact s
  places : s.places = some none :: replicate (limit - 1) none

theorem parseLine_loading {limit : Nat} (h : Loading limit s) (line : Name)
    (walkNs : Option NsId) (mem : TokenMemory) : Loading limit (s.parseLine line walkNs mem).2 := by
  have htuned : ∀ t, Tuned s t → Loading limit t := fun t ht =>
    ⟨ht.exact h.exact, ht.places.trans h.places⟩
  rw [parseLine]
  split
  · exact h
  · next id _ =>
    have hsel : Loading limit (s.selectNs id).2 := by
      rw [selectNs]
      split
      · exact h
      · exact ⟨h.exact.append rfl rfl rfl, h.places⟩
    exact hsel
  · exact htuned _ (s.xnsAddToken_tuned ..)
  · exact htuned _ (s.updateNs_tuned _ (allowOne_lenient _))
  · exact htuned _ (s.updateNs_tuned _ fun _ => ⟨rfl, rfl, rfl⟩)

theorem loadLines_loading {limit : Nat} (lines : List (Name × TokenMemory))
    (walkNs : Option NsId) (h : Loading limit s) : Loading limit (s.loadLines walkNs lines) := by
  induction lines generalizing s walkNs with
  | nil => exact h
  | cons line lines ih => exact ih _ (parseLine_loading h line.1 walkNs line.2)

theorem beforeInit_loading (L : Resource.Limits) :
    Loading L.limitClients (beforeInit L.limitClients) := by
  have hplaces : (beforeInit L.limitClients).places =
      some none :: replicate (L.limitClients - 1) none := by
    rw [places, beforeInit, map_cons, map_replicate]
    rfl
  have hcount : ∀ k, (beforeInit L.limitClients).count k = 0 := by
    intro k
    rw [count, hplaces, count_eq_zero]
    intro hm
    rcases mem_cons.mp hm with hm | hm
    · cases hm
    · cases eq_of_mem_replicate hm
  refine ⟨⟨?_, ?_, ?_, ?_, fun n hn => ?_, fun k hk => absurd (hcount k) hk⟩, hplaces⟩
  · rw [← length_places, hplaces, length_cons, length_replicate, maxClients]
    have hall : ∀ n ∈ [64, 128, 256, 512, 1024, 2048], n - 1 + 1 ≤ 2048 := by decide
    exact hall _ L.allowed
  · exact (by decide : (builtIns.map addr).Nodup)
  · exact (by decide : ∀ n ∈ builtIns, n.addr < 2)
  · exact (by decide : ∀ k ∈ [nsRoot, nsAnon], ∃ n ∈ builtIns, n.addr = k ∧ n.builtin)
  · rw [hcount]
    have hall : ∀ n ∈ builtIns, n.refcnt = BitVec.ofNat 64 (n.base + 0) := by decide
    exact hall n hn

end Server

theorem namespaceExtensionInit_ruled (L : Resource.Limits) (file : Atom.Name)
    (mem : Nat → TokenMemory) : Server.Ruled (namespaceExtensionInit L.limitClients file mem) := by
  have hload := Server.loadLines_loading ((fileLines file.length file).mapIdx fun i line =>
    (line, mem i)) none (Server.beforeInit_loading L)
  rw [namespaceExtensionInit]
  set s := (beforeInit L.limitClients).loadLines none _
  have hplace : s.places[0]? = some (some none) := by
    rw [hload.places]
    rfl
  obtain ⟨o, ho, hns⟩ := Option.map_eq_some_iff.mp ((Server.getElem?_places s 0).symm.trans hplace)
  obtain ⟨c, rfl, _⟩ := Option.map_eq_some_iff.mp hns
  obtain ⟨n, hn, ha, _⟩ := hload.exact.builtIns Server.nsRoot (by simp)
  obtain ⟨hmoves, hp⟩ := Server.assign_moves hload.exact (Server.client_eq_some.mpr ho)
    (some Server.nsRoot) fun k hk => ⟨n, hn, ha.trans (Option.some.inj hk)⟩
  rw [hload.places, List.set_cons_zero] at hp
  refine ⟨hmoves.exact, ?_, ?_⟩
  · rw [hp]
    intro hm
    rcases List.mem_cons.mp hm with hm | hm
    · cases hm
    · cases List.eq_of_mem_replicate hm
  · rw [Server.nsOf_eq_some, hp]
    rfl

open Atom (Name) in
/-- What happens to the namespaces; `serverClient` never changes its state. -/
inductive Change
  | connect
  | clientState (i : Nat) (state : ClientState) (authId : Resource.XID)
  | setCloseDownMode (i : Nat) (destroyAll : Bool)
  | closeDown (i : Nat) (mem : Name → Bool) (windows : List Nat)
  | create (name : Name) (capabilities attributes : BitVec 32)
      (nsAllocated nameAllocated rootCreated : Bool)
  | delete (client : Nat) (name : Name) (onClients : Server.OnClients) (mem : Name → Bool)
      (windows : Nat → List Nat)
  | setFlags (name : Name) (valueMask values : BitVec 32)
  | addToken (name proto data : Name) (mem : TokenMemory)
  | removeToken (name : Name) (handle : BitVec 32)

def Change.run (s : Server) : Change → Server
  | .connect => s.nextAvailableClient
  | .clientState i state authId => if i = 0 then s else s.hookClientState i state authId
  | .setCloseDownMode i destroyAll => s.updateClient i fun c => { c with destroyAll := destroyAll }
  | .closeDown i mem windows => if i = 0 then s else (s.closeDownClient mem windows i).2
  | .create name caps attrs m₁ m₂ m₃ => (s.procXnsCreateNamespace name caps attrs m₁ m₂ m₃).2
  | .delete client name onClients mem windows =>
    (s.procXnsDeleteNamespace mem windows client name onClients).2.2
  | .setFlags name valueMask values => (s.procXnsSetNamespaceFlags name valueMask values).2
  | .addToken name proto data mem => (s.procXnsAddAuthToken name proto data mem).2
  | .removeToken name handle => (s.procXnsRemoveAuthToken name handle).2

def Change.NotDelete : Change → Prop
  | .delete .. => False
  | _ => True

namespace Server
variable {s t u : Server}

/-- What every change but a deletion does: namespaces vanish with their last client only. -/
structure Keeps (s t : Server) : Prop where
  ruled : Ruled t
  kept : ∀ n ∈ s.nsList, (∃ n' ∈ t.nsList, n'.addr = n.addr) ↔ ¬ Vanished s t n

theorem Tuned.keeps (h : Tuned s t) (hs : Ruled s) : Keeps s t :=
  ⟨h.ruled hs, fun _ hn => iff_of_true (h.kept hn) fun hv => hv.2.2.1 (h.count _ ▸ hv.2.2.2)⟩

theorem keeps_of_moves (h : Moves s t ∧ Ruled t) : Keeps s t := ⟨h.2, h.1.kept⟩

theorem SameView.rfl : SameView s s := ⟨Eq.refl _, Eq.refl _, Eq.refl _⟩

theorem procXnsCreateNamespace_keeps (h : Ruled s) (name : Atom.Name) (caps attrs : BitVec 32)
    (m₁ m₂ m₃ : Bool) : Keeps s (s.procXnsCreateNamespace name caps attrs m₁ m₂ m₃).2 := by
  have hsame : Keeps s s := SameView.rfl.tuned.keeps h
  rcases s.procXnsCreateNamespace_cases name caps attrs m₁ m₂ m₃ with he | he
  · rwa [he]
  rw [he]
  rcases s.xnsCreate_cases name caps attrs m₁ m₂ m₃ with he | ⟨_, _, n, ha, _, hb, hr, _, _, _, he⟩
  · rwa [he]
  · rw [he]
    exact ⟨⟨h.exact.append ha hb hr, h.homed, h.server⟩, fun m hm =>
      iff_of_true ⟨m, List.mem_append_left _ hm, Eq.refl _⟩ fun hv => hv.2.2.1 hv.2.2.2⟩

theorem Change.keeps (h : Ruled s) {c : Change} (hc : c.NotDelete) : Keeps s (c.run s) := by
  have hsame : Keeps s s := SameView.rfl.tuned.keeps h
  cases c with
  | connect => exact keeps_of_moves (nextAvailableClient_spec h)
  | clientState i state authId =>
    rw [Change.run]
    split
    · exact hsame
    · next hi => exact keeps_of_moves (hookClientState_spec h hi state authId)
  | setCloseDownMode i destroyAll =>
    exact (s.updateClient_view i (f := fun c => { c with destroyAll := destroyAll })
      fun _ => Eq.refl _).tuned.keeps h
  | closeDown i mem windows =>
    rw [Change.run]
    split
    · exact hsame
    · next hi => exact keeps_of_moves (closeDownClient_ruled h mem windows hi)
  | create name caps attrs m₁ m₂ m₃ => exact procXnsCreateNamespace_keeps h ..
  | delete client name onClients mem windows => exact hc.elim
  | setFlags name valueMask values =>
    rw [Change.run, procXnsSetNamespaceFlags]
    split
    · exact hsame
    split
    · exact hsame
    split
    · exact hsame
    · exact (s.xnsSetCaps_tuned ..).keeps h
  | addToken name proto data mem =>
    rw [Change.run, procXnsAddAuthToken]
    split
    · exact hsame
    split
    · exact hsame
    split
    · exact hsame
    · exact (s.xnsAddToken_tuned ..).keeps h
  | removeToken name handle =>
    rw [Change.run, procXnsRemoveAuthToken]
    split
    · exact hsame
    split
    · exact hsame
    · exact (s.xnsRemoveToken_tuned ..).keeps h

theorem procXnsDeleteNamespace_spec (h : Ruled s) (mem : Atom.Name → Bool)
    (windows : Nat → List Nat) (client : Nat) (name : Atom.Name) (onClients : OnClients) :
    ((s.procXnsDeleteNamespace mem windows client name onClients).1 = .success ∧
        ∃ n ∈ s.nsList, s.xnsLookup name = some n ∧
          Dropped s (s.procXnsDeleteNamespace mem windows client name onClients).2.2 n.addr) ∨
      ((s.procXnsDeleteNamespace mem windows client name onClients).1 ≠ .success ∧
        (s.procXnsDeleteNamespace mem windows client name onClients).2.2 = s) := by
  rw [procXnsDeleteNamespace]
  split
  · exact .inr ⟨nofun, rfl⟩
  next n hl =>
  split
  · exact .inr ⟨nofun, rfl⟩
  split
  · exact .inr ⟨nofun, rfl⟩
  · have hn := List.mem_of_find?_eq_some hl
    rcases xnsDelete_spec h hn mem windows onClients with ⟨hs, hd⟩ | hf
    · exact .inl ⟨hs, n, hn, hl, hd⟩
    · exact .inr hf

theorem Change.ruled (h : Ruled s) (c : Change) : Ruled (c.run s) := by
  cases c with
  | delete client name onClients mem windows =>
    rcases procXnsDeleteNamespace_spec h mem windows client name onClients with
      ⟨_, _, _, _, hd⟩ | ⟨_, he⟩
    · exact hd.ruled
    · rw [Change.run, he]
      exact h
  | _ =>
    refine (Change.keeps h ?_).ruled
    exact trivial

end Server

def afterChanges (L : Resource.Limits) (file : Atom.Name) (mem : Nat → TokenMemory)
    (changes : List Change) : Server :=
  changes.foldl Change.run (namespaceExtensionInit L.limitClients file mem)

theorem afterChanges_ruled (L : Resource.Limits) (file : Atom.Name) (mem : Nat → TokenMemory)
    (changes : List Change) : Server.Ruled (afterChanges L file mem changes) := by
  rw [afterChanges]
  generalize hs : namespaceExtensionInit L.limitClients file mem = s
  have h : Server.Ruled s := hs ▸ namespaceExtensionInit_ruled L file mem
  clear hs
  induction changes generalizing s with
  | nil => exact h
  | cons c changes ih => exact ih _ (Server.Change.ruled h c)

/-- In every state that is reached the counts are exact and every client has a namespace;
a namespace is deleted unless it is busy, or vanishes with its last client. -/
theorem namespaces_counted (L : Resource.Limits) (file : Atom.Name) (mem : Nat → TokenMemory)
    (changes : List Change) :
    -- the count of clients, and of `serverClient` with them
    (∀ n ∈ (afterChanges L file mem changes).nsList, n.refcnt.toNat = (if n.builtin then 1 else 0) +
        (afterChanges L file mem changes).count n.addr) ∧
    (∀ i c, (afterChanges L file mem changes).client i = some c →
      ∃ n ∈ (afterChanges L file mem changes).nsList, c.ns = some n.addr) ∧
    -- `XnsDelete` of a busy namespace
    (∀ n ∈ (afterChanges L file mem changes).nsList, ∀ mem' windows,
      ((afterChanges L file mem changes).xnsDelete mem' windows n.addr .failIfBusy).1 = .success ↔
        n.builtin = false ∧ ∀ i, (afterChanges L file mem changes).nsOf i ≠ some n.addr) ∧
    -- a namespace goes with its last client, when it is transient
    (∀ c : Change, c.NotDelete → ∀ n ∈ (afterChanges L file mem changes).nsList,
      (∀ n' ∈ (afterChanges L file mem (changes ++ [c])).nsList, n'.addr ≠ n.addr) ↔
        n.autoRemove ∧ ¬ n.builtin ∧ (∃ i, (afterChanges L file mem changes).nsOf i = some n.addr) ∧
          ∀ i, (afterChanges L file mem (changes ++ [c])).nsOf i ≠ some n.addr) ∧
    -- a request to delete a namespace leaves the others
    ∀ client name onClients mem' windows, ∀ n ∈ (afterChanges L file mem changes).nsList,
      (∀ n' ∈ (afterChanges L file mem
          (changes ++ [.delete client name onClients mem' windows])).nsList, n'.addr ≠ n.addr) ↔
        (afterChanges L file mem changes).xnsLookup name = some n ∧
          ((afterChanges L file mem changes).procXnsDeleteNamespace mem' windows client name
            onClients).1 = .success := by
  have hnext : ∀ c, afterChanges L file mem (changes ++ [c]) =
      c.run (afterChanges L file mem changes) := fun c => List.foldl_append ..
  have h := afterChanges_ruled L file mem changes
  have hnone : ∀ (s : Server) (k : NsId), s.count k = 0 ↔ ∀ i, s.nsOf i ≠ some k := by
    intro s k
    rw [← not_iff_not, ← ne_eq, Server.count_ne_zero]
    push Not
    rfl
  refine ⟨fun n hn => ?_, fun i c hi => ?_, fun n hn mem' windows => ?_, fun c hc n hn => ?_,
    fun client name onClients mem' windows n hn => ?_⟩
  · exact h.exact.refcnt_toNat hn
  · exact h.placed hi
  · rw [Server.xnsDelete_failIfBusy h.exact hn, hnone]
  · have hk := (Server.Change.keeps h hc).kept n hn
    rw [hnext, ← hnone, ← Server.count_ne_zero]
    rw [← not_iff_not, not_not] at hk
    rw [Server.Vanished] at hk
    rw [← hk]
    push Not
    rfl
  · rw [hnext, Change.run]
    rcases Server.procXnsDeleteNamespace_spec h mem' windows client name onClients with
      ⟨hs, m, hm, hl, hd⟩ | ⟨hs, he⟩
    · have hk := hd.kept n hn
      rw [← not_iff_not] at hk
      push Not at hk
      rw [hk, hl]
      constructor
      · intro ha
        exact ⟨congrArg some (h.exact.eq_of_addr hm hn ha.symm), hs⟩
      · rintro ⟨he, _⟩
        rw [Option.some.inj he]
    · rw [he]
      exact iff_of_false (fun hall => hall n hn rfl) fun hx => hs hx.2

end Xfront.Namespace
