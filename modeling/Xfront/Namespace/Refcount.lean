import Xfront.Namespace.Frame

/-!
# The counts of the namespaces

`Exact` says that the count of each namespace is the number of clients that point to it, over a
fixed part for the built-in ones.
-/

namespace Xfront.Namespace
open BitVec

open List Option

def Xnamespace.base (n : Xnamespace) : Nat := if n.builtin then 1 else 0

def maxClients : Nat := 2048

namespace Server

variable {s t u : Server}

def places (s : Server) : List (Option (Option NsId)) := s.clients.map (Option.map Client.ns)

def count (s : Server) (k : NsId) : Nat := s.places.count (some (some k))

structure Exact (s : Server) : Prop where
  slots : s.clients.length ≤ maxClients
  nodup : (s.nsList.map Xnamespace.addr).Nodup
  fresh : ∀ n ∈ s.nsList, n.addr < s.nextAddr
  builtIns : ∀ k ∈ [nsRoot, nsAnon], ∃ n ∈ s.nsList, n.addr = k ∧ n.builtin
  refcnt : ∀ n ∈ s.nsList, n.refcnt = BitVec.ofNat 64 (n.base + s.count n.addr)
  listed : ∀ k, s.count k ≠ 0 → ∃ n ∈ s.nsList, n.addr = k

theorem length_places (s : Server) : s.places.length = s.clients.length := length_map ..

theorem count_le (s : Server) (k : NsId) : s.count k ≤ s.clients.length :=
  s.length_places ▸ count_le_length

theorem getElem?_places (s : Server) (i : Nat) :
    s.places[i]? = s.clients[i]?.map (Option.map Client.ns) := getElem?_map ..

variable {i : Nat} {c : Client}

theorem client_eq_some : s.client i = some c ↔ s.clients[i]? = some (some c) := by
  rw [client]
  cases s.clients[i]? <;> simp

theorem place_of_client (h : s.client i = some c) : s.places[i]? = some (some c.ns) := by
  rw [getElem?_places, client_eq_some.mp h]
  rfl

variable {k : NsId}

theorem nsOf_eq_some : s.nsOf i = some k ↔ s.places[i]? = some (some (some k)) := by
  rw [nsOf, client, getElem?_places]
  cases s.clients[i]? with
  | none => simp
  | some c => cases c <;> simp

theorem count_ne_zero : s.count k ≠ 0 ↔ ∃ i, s.nsOf i = some k := by
  rw [count, Nat.ne_zero_iff_zero_lt, count_pos_iff, mem_iff_getElem?]
  exact exists_congr fun i => nsOf_eq_some.symm

theorem modify_option {α : Type} (l : List (Option α)) (i : Nat) {c : α} (f : α → α)
    (h : l[i]? = some (some c)) : l.modify i (Option.map f) = l.set i (some (f c)) := by
  rw [modify_eq_set, h]
  rfl

theorem places_updateClient (s : Server) (i : Nat) {f : Client → Client}
    (hf : ∀ c, (f c).ns = c.ns) : (s.updateClient i f).places = s.places := by
  rw [places, places, updateClient]
  apply ext_getElem?
  intro j
  rw [getElem?_map, getElem?_modify, getElem?_map]
  cases s.clients[j]? with
  | none => rfl
  | some c =>
    cases c with
    | none => by_cases h : i = j <;> simp [h]
    | some c => by_cases h : i = j <;> simp [h, hf]

theorem places_move (h : s.client i = some c) (newns : Option NsId) :
    (s.updateClient i fun p => { p with ns := newns }).places = s.places.set i (some newns) := by
  rw [places, places, updateClient, modify_option _ _ _ (client_eq_some.mp h), map_set, map_some]

def recount (oldns newns : Option NsId) (n : Xnamespace) : Xnamespace :=
  { n with refcnt := n.refcnt - (if oldns = some n.addr then 1 else 0) +
      (if newns = some n.addr then 1 else 0) }

def moved (s : Server) (i : Nat) (oldns newns : Option NsId) : Server :=
  { s with
    nsList := s.nsList.map (recount oldns newns)
    clients := s.clients.modify i (Option.map fun p => { p with ns := newns }) }

@[simp] theorem recount_addr (oldns newns : Option NsId) (n : Xnamespace) :
    (recount oldns newns n).addr = n.addr := rfl

@[simp] theorem recount_builtin (oldns newns : Option NsId) (n : Xnamespace) :
    (recount oldns newns n).builtin = n.builtin := rfl

theorem recount_leave (k : NsId) :
    (fun n : Xnamespace => if n.addr = k then { n with refcnt := n.refcnt - 1 } else n) =
      recount (some k) none := by
  funext n
  by_cases hn : n.addr = k
  · simp [recount, hn]
  · simp [recount, hn, Ne.symm hn]

theorem recount_enter (k : NsId) :
    (fun n : Xnamespace => if n.addr = k then { n with refcnt := n.refcnt + 1 } else n) =
      recount none (some k) := by
  funext n
  by_cases hn : n.addr = k
  · simp [recount, hn]
  · simp [recount, hn, Ne.symm hn]

theorem recount_none : recount none none = id := by
  funext n
  simp [recount]

theorem recount_comp (oldns newns : Option NsId) :
    recount none newns ∘ recount oldns none = recount oldns newns := by
  funext n
  simp [recount]

def Vanishes (n : Xnamespace) : Prop := n.refcnt = 0 ∧ n.autoRemove ∧ ¬ n.builtin

instance (n : Xnamespace) : Decidable (Vanishes n) := inferInstanceAs (Decidable (_ ∧ _))

variable {priv : Client}

section
variable (h : s.client i = some priv)
include h

theorem xnamespaceAssignClient_eq (newns : Option NsId) :
    s.xnamespaceAssignClient i newns = match priv.ns with
      | none => s.moved i none newns
      | some oldns =>
        match (s.moved i (some oldns) newns).findNs oldns with
        | some n =>
          if some oldns ≠ newns ∧ Vanishes n then
            (s.moved i (some oldns) newns).xnsDestroyNamespace oldns
          else s.moved i (some oldns) newns
        | none => s.moved i (some oldns) newns := by
  rw [xnamespaceAssignClient, h]
  cases hp : priv.ns with
  | none =>
    cases newns with
    | none => simp only [hp, updateClient, moved, recount_none, List.map_id]
    | some k => simp only [hp, updateClient, updateNs, moved, recount_enter]
  | some o =>
    cases newns with
    | none =>
      simp only [hp, updateClient, updateNs, moved, recount_leave]
      rfl
    | some k =>
      simp only [hp, updateClient, updateNs, moved, recount_leave, recount_enter, List.map_map,
        recount_comp]
      rfl

theorem moved_places (newns : Option NsId) :
    (s.moved i priv.ns newns).places = s.places.set i (some newns) := places_move h newns

theorem count_moved (newns : Option NsId) (k : NsId) : (s.moved i priv.ns newns).count k =
      s.count k - (if priv.ns = some k then 1 else 0) + (if newns = some k then 1 else 0) := by
  obtain ⟨hi, hc⟩ := List.getElem?_eq_some_iff.mp (place_of_client h)
  rw [count, moved_places h, count_set hi, hc, count]
  simp only [beq_iff_eq, some.injEq]

theorem count_pos_of_client
    (hk : priv.ns = some k) : s.count k ≠ 0 := by
  refine count_ne_zero.mpr ⟨i, ?_⟩
  rw [nsOf, h, bind_some, hk]

end

theorem refcnt_move (base : Nat) {c x : Nat} (hx : x ≤ c) (y : Nat) :
    BitVec.ofNat 64 (base + c) - BitVec.ofNat 64 x + BitVec.ofNat 64 y =
      BitVec.ofNat 64 (base + (c - x + y)) := by
  have hc : base + c = base + (c - x) + x := by omega
  rw [hc, ofNat_add (base + (c - x)), BitVec.add_sub_cancel, ← ofNat_add, add_assoc]

namespace Exact

variable {n : Xnamespace}

theorem findNs (h : Exact s) (hn : n ∈ s.nsList) : s.findNs n.addr = some n := by
  cases hf : s.findNs n.addr with
  | none =>
    have hne := find?_eq_none.mp hf n hn
    simp at hne
  | some m =>
    have hm := mem_of_find?_eq_some hf
    have ha : m.addr = n.addr := by simpa using find?_some hf
    rw [inj_on_of_nodup_map h.nodup hm hn ha]

theorem moved (h : Exact s) {i : Nat} {priv : Client} (hi : s.client i = some priv)
    {newns : Option NsId} (hnew : ∀ k, newns = some k → ∃ n ∈ s.nsList, n.addr = k) :
    Exact (s.moved i priv.ns newns) where
  slots := by rw [Server.moved, length_modify]; exact h.slots
  nodup := by
    rw [Server.moved, List.map_map]
    exact h.nodup
  fresh n hn := by
    obtain ⟨m, hm, rfl⟩ := List.mem_map.mp hn
    exact h.fresh m hm
  builtIns k hk := by
    obtain ⟨n, hn, ha, hb⟩ := h.builtIns k hk
    exact ⟨recount priv.ns newns n, List.mem_map_of_mem hn, ha, hb⟩
  refcnt n hn := by
    obtain ⟨m, hm, rfl⟩ := List.mem_map.mp hn
    have hbase : (recount priv.ns newns m).base = m.base := rfl
    rw [hbase, recount_addr, count_moved hi, recount, h.refcnt m hm]
    have hleft : (if priv.ns = some m.addr then 1 else 0) ≤ s.count m.addr := by
      split
      · next hold => exact Nat.pos_of_ne_zero (count_pos_of_client hi hold)
      · exact Nat.zero_le _
    dsimp only
    rw [← refcnt_move m.base hleft]
    congr 2 <;> split <;> rfl
  listed k hk := by
    have hin : ∃ n ∈ s.nsList, n.addr = k := by
      rw [count_moved hi] at hk
      by_cases hn : newns = some k
      · exact hnew k hn
      · rw [if_neg hn] at hk
        exact h.listed k (by omega)
    obtain ⟨n, hn, ha⟩ := hin
    exact ⟨recount priv.ns newns n, List.mem_map_of_mem hn, ha⟩

theorem refcnt_toNat (h : Exact s) (hn : n ∈ s.nsList) :
    n.refcnt.toNat = n.base + s.count n.addr := by
  have hle := (s.count_le n.addr).trans h.slots
  have hbase : n.base ≤ 1 := by
    rw [Xnamespace.base]
    split <;> omega
  rw [maxClients] at hle
  rw [h.refcnt n hn, toNat_ofNat, Nat.mod_eq_of_lt (by omega)]

theorem refcnt_eq_zero (h : Exact s) (hn : n ∈ s.nsList) :
    n.refcnt = 0 ↔ n.builtin = false ∧ s.count n.addr = 0 := by
  have hzero : (0 : BitVec 64).toNat = 0 := rfl
  rw [← toNat_inj, h.refcnt_toNat hn, hzero, Nat.add_eq_zero_iff, Xnamespace.base]
  cases n.builtin <;> simp

end Exact

theorem detach_eq (h : s.count k = 0) : s.detach k = s := by
  have hclients : (s.clients.mapIdx fun i c =>
      if i = 0 then c else c.map fun p => if p.ns = some k then { p with ns := none } else p) =
      s.clients := by
    apply ext_getElem?
    intro i
    rw [getElem?_mapIdx]
    cases hc : s.clients[i]? with
    | none => rfl
    | some c =>
      rw [map_some]
      split
      · rfl
      cases c with
      | none => rfl
      | some p =>
        rw [map_some]
        have hne : p.ns ≠ some k := by
          intro hp
          exact count_pos_of_client (client_eq_some.mpr hc) hp h
        rw [if_neg hne]
  rw [detach, hclients]

theorem xnsDestroyNamespace_eq (h : Exact s) {n : Xnamespace} (hn : n ∈ s.nsList)
    (hb : n.builtin = false) (hc : s.count n.addr = 0) :
    ∃ auths, s.xnsDestroyNamespace n.addr =
      { s with nsList := s.nsList.filter (·.addr ≠ n.addr), mitAuth := auths } := by
  obtain ⟨auths, hauths⟩ := freeTokens_onlyCookies n.authTokens s
  refine ⟨auths, ?_⟩
  rw [xnsDestroyNamespace, h.findNs hn]
  simp only [hb, Bool.false_eq_true, if_false, detach_eq hc, hauths]

theorem Exact.filter (h : Exact s) {keep : Xnamespace → Bool} (auths : List Auth)
    (hgone : ∀ n ∈ s.nsList, keep n = false → n.builtin = false ∧ s.count n.addr = 0) :
    Exact { s with nsList := s.nsList.filter keep, mitAuth := auths } where
  slots := h.slots
  nodup := h.nodup.sublist (filter_sublist.map _)
  fresh n hn := h.fresh n (mem_of_mem_filter hn)
  builtIns k hk := by
    obtain ⟨n, hn, ha, hb⟩ := h.builtIns k hk
    refine ⟨n, mem_filter.mpr ⟨hn, ?_⟩, ha, hb⟩
    by_contra hk
    rw [(hgone n hn (by simpa using hk)).1] at hb
    cases hb
  refcnt n hn := h.refcnt n (mem_of_mem_filter hn)
  listed k hk := by
    obtain ⟨n, hn, rfl⟩ := h.listed k hk
    refine ⟨n, mem_filter.mpr ⟨hn, ?_⟩, rfl⟩
    by_contra hf
    exact hk (hgone n hn (by simpa using hf)).2

/-! ### `XnamespaceAssignClient` -/

def Left (oldns newns : Option NsId) (n : Xnamespace) : Prop :=
  oldns = some n.addr ∧ oldns ≠ newns ∧ Vanishes n

instance (oldns newns : Option NsId) (n : Xnamespace) : Decidable (Left oldns newns n) :=
  inferInstanceAs (Decidable (_ ∧ _))

theorem assign_spec (h : Exact s) (hi : s.client i = some priv)
    {newns : Option NsId} (hnew : ∀ k, newns = some k → ∃ n ∈ s.nsList, n.addr = k) :
    ∃ auths, s.xnamespaceAssignClient i newns = { s.moved i priv.ns newns with
        nsList := (s.moved i priv.ns newns).nsList.filter fun n => ¬ Left priv.ns newns n
        mitAuth := auths } := by
  have hm := h.moved hi hnew
  have hkeep : (∀ n ∈ (s.moved i priv.ns newns).nsList, ¬ Left priv.ns newns n) →
      (s.moved i priv.ns newns).nsList.filter (fun n => ¬ Left priv.ns newns n) =
        (s.moved i priv.ns newns).nsList :=
    fun hall => filter_eq_self.mpr fun n hn => decide_eq_true (hall n hn)
  rw [xnamespaceAssignClient_eq hi]
  cases hp : priv.ns with
  | none =>
    rw [hp] at hkeep
    refine ⟨s.mitAuth, ?_⟩
    rw [hkeep fun n _ hl => nomatch hl.1]
    rfl
  | some o =>
    rw [hp] at hm hkeep
    obtain ⟨m, hml, rfl⟩ := h.listed o (count_pos_of_client hi hp)
    have hn : recount (some m.addr) newns m ∈ (s.moved i (some m.addr) newns).nsList :=
      List.mem_map_of_mem hml
    have hfind := hm.findNs hn
    rw [recount_addr] at hfind
    dsimp only
    rw [hfind]
    dsimp only
    split
    · next hv =>
      have hz := (hm.refcnt_eq_zero hn).mp hv.2.1
      obtain ⟨auths, heq⟩ := xnsDestroyNamespace_eq hm hn hz.1 hz.2
      refine ⟨auths, ?_⟩
      rw [recount_addr] at heq
      rw [heq]
      congr 1
      refine filter_congr fun n hnl => ?_
      by_cases ha : n.addr = m.addr
      · have hsame : n = recount (some m.addr) newns m := inj_on_of_nodup_map hm.nodup hnl hn ha
        subst hsame
        have hleft : Left (some m.addr) newns (recount (some m.addr) newns m) := ⟨rfl, hv⟩
        simp [hleft]
      · have hstay : ¬ Left (some m.addr) newns n := fun hl => ha (some.inj hl.1).symm
        simp [ha, hstay]
    · next hv =>
      refine ⟨s.mitAuth, ?_⟩
      rw [hkeep]
      · rfl
      intro n hnl hl
      have hsame : n = recount (some m.addr) newns m :=
        inj_on_of_nodup_map hm.nodup hnl hn (some.inj hl.1).symm
      exact hv (hsame ▸ hl.2)

structure SameView (s t : Server) : Prop where
  nsList : t.nsList = s.nsList
  nextAddr : t.nextAddr = s.nextAddr
  places : t.places = s.places

theorem SameView.trans (h : SameView s t) (h' : SameView t u) : SameView s u :=
  ⟨h'.nsList.trans h.nsList, h'.nextAddr.trans h.nextAddr, h'.places.trans h.places⟩

theorem SameNs.view (h : SameNs s t) : SameView s t :=
  ⟨h.nsList, h.nextAddr, by rw [Server.places, h.clients, Server.places]⟩

theorem updateClient_view (s : Server) (i : Nat) {f : Client → Client}
    (hf : ∀ c, (f c).ns = c.ns) : SameView s (s.updateClient i f) :=
  ⟨rfl, rfl, s.places_updateClient i hf⟩

theorem Exact.of_count (h : Exact s) (hns : t.nsList = s.nsList) (hnext : t.nextAddr = s.nextAddr)
    (hlen : t.clients.length = s.clients.length) (hcount : ∀ k, t.count k = s.count k) :
    Exact t where
  slots := hlen ▸ h.slots
  nodup := hns ▸ h.nodup
  fresh := by
    rw [hns, hnext]
    exact h.fresh
  builtIns := hns ▸ h.builtIns
  refcnt n hn := by
    rw [hcount]
    exact h.refcnt n (hns ▸ hn)
  listed k hk := by
    rw [hns]
    exact h.listed k (hcount k ▸ hk)

theorem SameView.count (h : SameView s t) (k : NsId) : t.count k = s.count k := by
  rw [Server.count, h.places, Server.count]

theorem SameView.length (h : SameView s t) : t.clients.length = s.clients.length := by
  rw [← length_places, h.places, length_places]

theorem SameView.exact (h : SameView s t) (hs : Exact s) : Exact t :=
  hs.of_count h.nsList h.nextAddr h.length h.count

def Vanished (s t : Server) (n : Xnamespace) : Prop :=
  n.autoRemove ∧ ¬ n.builtin ∧ s.count n.addr ≠ 0 ∧ t.count n.addr = 0

structure Moves (s t : Server) : Prop where
  exact : Exact t
  nextAddr : t.nextAddr = s.nextAddr
  kept : ∀ n ∈ s.nsList, (∃ n' ∈ t.nsList, n'.addr = n.addr) ↔ ¬ Vanished s t n
  same : ∀ n' ∈ t.nsList, ∃ n ∈ s.nsList, n' = { n with refcnt := n'.refcnt }

theorem Moves.refl (h : Exact s) : Moves s s where
  exact := h
  nextAddr := rfl
  kept n hn := iff_of_true ⟨n, hn, rfl⟩ fun hv => hv.2.2.1 hv.2.2.2
  same n hn := ⟨n, hn, rfl⟩

theorem Moves.congr_left {r : Server} (h : Moves s t) (hns : s.nsList = r.nsList)
    (hnext : s.nextAddr = r.nextAddr) (hcount : ∀ k, s.count k = r.count k) : Moves r t where
  exact := h.exact
  nextAddr := h.nextAddr.trans hnext
  kept n hn := by
    have hk := h.kept n (by rw [hns]; exact hn)
    rw [Vanished, hcount] at hk
    exact hk
  same := hns ▸ h.same

theorem Moves.congr_right (h : Moves s t) (hns : u.nsList = t.nsList)
    (hnext : u.nextAddr = t.nextAddr) (hlen : u.clients.length = t.clients.length)
    (hcount : ∀ k, u.count k = t.count k) : Moves s u where
  exact := h.exact.of_count hns hnext hlen hcount
  nextAddr := hnext.trans h.nextAddr
  kept n hn := by
    have hk := h.kept n hn
    rw [Vanished, ← hcount, ← hns] at hk
    exact hk
  same := hns ▸ h.same

theorem SameView.moves (h : SameView s t) (hs : Exact s) : Moves s t :=
  (Moves.refl hs).congr_right h.nsList h.nextAddr h.length h.count

theorem assign_moves (h : Exact s) (hi : s.client i = some priv)
    (newns : Option NsId) (hnew : ∀ k, newns = some k → ∃ n ∈ s.nsList, n.addr = k) :
    Moves s (s.xnamespaceAssignClient i newns) ∧
      (s.xnamespaceAssignClient i newns).places = s.places.set i (some newns) := by
  have hm := h.moved hi hnew
  obtain ⟨auths, heq⟩ := assign_spec h hi hnew
  have hplaces : (s.xnamespaceAssignClient i newns).places = s.places.set i (some newns) := by
    rw [heq]
    exact moved_places hi newns
  have hcount : ∀ k, (s.xnamespaceAssignClient i newns).count k =
      (s.moved i priv.ns newns).count k := by
    intro k
    rw [count, hplaces, count, moved_places hi]
  have hleft : ∀ n ∈ s.nsList, Left priv.ns newns (recount priv.ns newns n) ↔
      Vanished s (s.xnamespaceAssignClient i newns) n := by
    intro n hn
    have hz := hm.refcnt_eq_zero (List.mem_map_of_mem hn)
    rw [recount_addr] at hz
    rw [Left, Vanishes, hz, Vanished, hcount, recount_addr]
    constructor
    · rintro ⟨hold, _, ⟨hb, hc⟩, ha, _⟩
      exact ⟨ha, by simpa using hb, count_pos_of_client hi hold, hc⟩
    · rintro ⟨ha, hb, hpos, hc⟩
      have hcm := count_moved hi newns n.addr
      rw [hc] at hcm
      have hold : priv.ns = some n.addr := by
        by_contra hne
        rw [if_neg hne] at hcm
        omega
      refine ⟨hold, fun he => ?_, ⟨by simpa using hb, hc⟩, ha, hb⟩
      rw [if_pos hold, if_pos (he.symm.trans hold)] at hcm
      omega
  refine ⟨⟨?_, ?_, fun n hn => ?_, fun n' hn' => ?_⟩, hplaces⟩
  · rw [heq]
    refine hm.filter auths fun n hn hk => ?_
    have hl : Left priv.ns newns n := by simpa using hk
    exact (hm.refcnt_eq_zero hn).mp hl.2.2.1
  · rw [heq]
    rfl
  · rw [← hleft n hn, heq]
    constructor
    · rintro ⟨n', hn', ha⟩ hl
      obtain ⟨hmem, hk⟩ := mem_filter.mp hn'
      have hsame : n' = recount priv.ns newns n :=
        inj_on_of_nodup_map hm.nodup hmem (List.mem_map_of_mem hn) ha
      rw [hsame] at hk
      simp [hl] at hk
    · intro hl
      exact ⟨recount priv.ns newns n,
        mem_filter.mpr ⟨List.mem_map_of_mem hn, decide_eq_true hl⟩, rfl⟩
  · rw [heq] at hn'
    obtain ⟨n, hn, rfl⟩ := List.mem_map.mp (mem_of_mem_filter hn')
    exact ⟨n, hn, rfl⟩

end Server

end Xfront.Namespace
