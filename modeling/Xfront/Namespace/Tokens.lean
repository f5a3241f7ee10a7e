import Xfront.Namespace.Lifetime

/-!
# Tokens and the cookie table

A namespace keeps a record for each registration, the cookie table one entry for each cookie, and an
entry is removed by its data.
-/

namespace Xfront.Namespace
open List
open Atom (Name)
open Resource (XID)

/-- The data of a cookie that is added; `dataLen` is a `CARD16`. -/
abbrev CookieData := {data : Name // data.length < 2 ^ 16}

namespace Server
variable {s t : Server}

def cookies (s : Server) : List Name := s.mitAuth.map Auth.data

def Holds (s : Server) (data : Name) : Prop :=
  ∃ n ∈ s.nsList, ∃ token ∈ n.authTokens, token.authTokenData = data

instance (s : Server) (data : Name) : Decidable (s.Holds data) :=
  inferInstanceAs (Decidable (∃ n ∈ s.nsList, ∃ token ∈ n.authTokens, token.authTokenData = data))

theorem take_of_short {data : Name} (h : data.length < 2 ^ 16) :
    data.take (data.length % 2 ^ 16) = data := by
  rw [Nat.mod_eq_of_lt h, take_length]

theorem mitCheckCookie_iff (hids : ∀ a ∈ s.mitAuth, a.id ≠ -1) (data : Name) :
    s.mitCheckCookie data ≠ -1 ↔ data ∈ s.cookies := by
  rw [mitCheckCookie]
  cases hf : s.mitAuth.find? fun auth => data = auth.data with
  | none =>
    refine iff_of_false (fun h => h rfl) fun hm => ?_
    obtain ⟨a, ha, rfl⟩ := mem_map.mp hm
    simpa using find?_eq_none.mp hf a ha
  | some a =>
    have ha := mem_of_find?_eq_some hf
    have hd : data = a.data := by simpa using find?_some hf
    exact iff_of_true (hids a ha) (mem_map.mpr ⟨a, ha, hd.symm⟩)

theorem cookies_remove (s : Server) (n : Nat) (data : Name) :
    (s.mitRemoveCookie n data).cookies = s.cookies.erase (data.take (n % 2 ^ 16)) := by
  rw [cookies, mitRemoveCookie, cookies]
  induction s.mitAuth with
  | nil => rfl
  | cons a l ih =>
    rw [map_cons]
    by_cases ha : a.data = data.take (n % 2 ^ 16)
    · rw [eraseP_cons_of_pos (by simpa using ha), ha, erase_cons_head]
    · rw [eraseP_cons_of_neg (by simpa using ha), map_cons, ih, erase_cons_tail (by simpa using ha)]

structure AuthToken.Live (token : AuthToken) : Prop where
  proto : token.authProto = mitProto
  id : token.authId ≠ 0
  short : token.authTokenData.length < 2 ^ 16

theorem freeToken_cookies {token : AuthToken} (h : AuthToken.Live token) (s : Server) :
    (s.freeToken token).cookies = s.cookies.erase token.authTokenData := by
  have hproto : mitProto.length = token.authProto.length % 2 ^ 16 ∧
      mitProto = token.authProto.take mitProto.length := by
    rw [h.proto]
    decide
  rw [freeToken, if_pos h.id, removeAuthorization, if_pos hproto, cookies_remove,
    take_of_short h.short]

theorem freeToken_mitAuth_sublist (s : Server) (token : AuthToken) :
    (s.freeToken token).mitAuth.Sublist s.mitAuth := by
  rw [freeToken, removeAuthorization]
  split
  · split
    · exact eraseP_sublist
    · exact List.Sublist.refl _
  · exact List.Sublist.refl _

theorem freeTokens_mitAuth_sublist (tokens : List AuthToken) (s : Server) :
    (tokens.foldl freeToken s).mitAuth.Sublist s.mitAuth := by
  induction tokens generalizing s with
  | nil => exact List.Sublist.refl _
  | cons token tokens ih => exact (ih _).trans (s.freeToken_mitAuth_sublist token)

theorem mem_freeTokens {tokens : List AuthToken} (h : ∀ token ∈ tokens, AuthToken.Live token)
    (hs : s.cookies.Nodup) (data : Name) : data ∈ (tokens.foldl freeToken s).cookies ↔
      data ∈ s.cookies ∧ ∀ token ∈ tokens, token.authTokenData ≠ data := by
  induction tokens generalizing s with
  | nil => simp
  | cons token tokens ih =>
    have hone := freeToken_cookies (h token mem_cons_self) s
    rw [foldl_cons, ih (fun u hu => h u (mem_cons_of_mem _ hu)) (hone ▸ hs.erase _),
      hone, hs.mem_erase_iff, forall_mem_cons, and_assoc, and_left_comm]
    exact ⟨fun ⟨hc, hne, hall⟩ => ⟨hc, Ne.symm hne, hall⟩,
      fun ⟨hc, hne, hall⟩ => ⟨hc, Ne.symm hne, hall⟩⟩

/-- The table has the cookies that a namespace holds or that came from elsewhere. -/
structure InStep (s : Server) (elsewhere : List Name) : Prop where
  addrs : (s.nsList.map Xnamespace.addr).Nodup
  fresh : ∀ n ∈ s.nsList, n.addr < s.nextAddr
  nodup : s.cookies.Nodup
  ids : ∀ a ∈ s.mitAuth, a.id ≠ 0 ∧ a.id ≠ -1
  live : ∀ n ∈ s.nsList, ∀ token ∈ n.authTokens, AuthToken.Live token
  handles : ∀ n ∈ s.nsList, (n.authTokens.map AuthToken.handle).Nodup
  table : ∀ data, data ∈ s.cookies ↔ s.Holds data ∨ data ∈ elsewhere

variable {elsewhere : List Name} {n : Xnamespace}

theorem mem_of_findNs {k : NsId} (hn : s.findNs k = some n) : n ∈ s.nsList ∧ n.addr = k :=
  ⟨mem_of_find?_eq_some hn, by simpa using find?_some hn⟩

theorem InStep.eq_of_addr (h : InStep s elsewhere) {m : Xnamespace} (hm : m ∈ s.nsList)
    (hn : n ∈ s.nsList) (ha : m.addr = n.addr) : m = n := inj_on_of_nodup_map h.addrs hm hn ha

theorem addrs_updateNs (s : Server) (k : NsId) {f : Xnamespace → Xnamespace}
    (hf : ∀ n, (f n).addr = n.addr) :
    (s.updateNs k f).nsList.map Xnamespace.addr = s.nsList.map Xnamespace.addr := by
  rw [updateNs, map_map]
  refine map_congr_left fun n _ => ?_
  rw [Function.comp]
  split
  · exact hf n
  · rfl

theorem InStep.change (h : InStep s elsewhere) {auths : List Auth} {elsewhere' : List Name}
    (hn : n ∈ s.nsList) {f : Xnamespace → Xnamespace} (hf : ∀ m, (f m).addr = m.addr)
    (hlive : ∀ token ∈ (f n).authTokens, AuthToken.Live token)
    (hhandles : ((f n).authTokens.map AuthToken.handle).Nodup)
    (hnodup : (auths.map Auth.data).Nodup) (hids : ∀ a ∈ auths, a.id ≠ 0 ∧ a.id ≠ -1)
    (htable : ∀ data, data ∈ auths.map Auth.data ↔
      ((∃ token ∈ (f n).authTokens, token.authTokenData = data) ∨
        ∃ m ∈ s.nsList, m.addr ≠ n.addr ∧ ∃ token ∈ m.authTokens, token.authTokenData = data) ∨
        data ∈ elsewhere') :
    InStep ({ s with mitAuth := auths }.updateNs n.addr f) elsewhere' := by
  have hmem : ∀ m', m' ∈ ({ s with mitAuth := auths }.updateNs n.addr f).nsList ↔
      m' = f n ∨ (m' ∈ s.nsList ∧ m'.addr ≠ n.addr) := by
    intro m'
    rw [updateNs, mem_map]
    constructor
    · rintro ⟨m, hm, rfl⟩
      by_cases ha : m.addr = n.addr
      · rw [if_pos ha, h.eq_of_addr hm hn ha]
        exact .inl rfl
      · rw [if_neg ha]
        exact .inr ⟨hm, ha⟩
    · rintro (rfl | ⟨hm, ha⟩)
      · exact ⟨n, hn, if_pos rfl⟩
      · exact ⟨m', hm, if_neg ha⟩
  refine ⟨?_, fun m' hm' => ?_, hnodup, hids, fun m' hm' => ?_, fun m' hm' => ?_, fun data => ?_⟩
  · rw [addrs_updateNs _ _ hf]
    exact h.addrs
  · rcases (hmem m').mp hm' with rfl | ⟨hm, _⟩
    · rw [hf]
      exact h.fresh n hn
    · exact h.fresh m' hm
  · rcases (hmem m').mp hm' with rfl | ⟨hm, _⟩
    · exact hlive
    · exact h.live m' hm
  · rcases (hmem m').mp hm' with rfl | ⟨hm, _⟩
    · exact hhandles
    · exact h.handles m' hm
  · refine (htable data).trans (or_congr_left ?_)
    constructor
    · rintro (ht | ⟨m, hm, ha, ht⟩)
      · exact ⟨f n, (hmem _).mpr (.inl rfl), ht⟩
      · exact ⟨m, (hmem _).mpr (.inr ⟨hm, ha⟩), ht⟩
    · rintro ⟨m', hm', ht⟩
      rcases (hmem m').mp hm' with rfl | ⟨hm, ha⟩
      · exact .inl ht
      · exact .inr ⟨m', hm, ha, ht⟩

theorem cstr_mitProto : Atom.cstr mitProto = mitProto := by decide

/-- What `XnsAddToken` of a cookie does when the token is made and the cookie is known or
there is memory for it. -/
theorem xnsAddToken_cases (s : Server) (k : NsId) (data : CookieData) (mem : TokenMemory)
    (hmem : mem.cookie ∨ data.1 ∈ s.cookies) :
    (s.xnsAddToken k mitProto data.1 mem).2 = s ∨
      ∃ (auths : List Auth) (authId : XID) (handle : BitVec 32),
        handle = ((s.findNs k).map Xnamespace.tokenHandleSeq).getD 0 + 1 ∧
        (auths = s.mitAuth ∧ (∃ a ∈ s.mitAuth, a.data = data.1 ∧ a.id = authId) ∨
          data.1 ∉ s.cookies ∧ authId = mem.id.1 ∧ auths = ⟨data.1, mem.id.1⟩ :: s.mitAuth) ∧
        (s.xnsAddToken k mitProto data.1 mem).2 =
          updateNs { s with mitAuth := auths } k fun ns => { ns with
            authTokens := ns.authTokens ++ [⟨mitProto, data.1, authId, handle⟩]
            tokenHandleSeq := handle } := by
  have hadd : s.addAuthorization mitProto.length mitProto data.1 mem.id mem.cookie =
      s.mitAddCookie data.1.length data.1 mem.id mem.cookie :=
    if_pos ⟨rfl, take_length.symm⟩
  rw [xnsAddToken]
  split
  · exact .inl rfl
  right
  simp only [hadd, mitAddCookie, take_of_short data.2, cstr_mitProto]
  cases hf : s.mitAuth.find? fun walk => walk.data = data.1 with
  | some a =>
    have ha := mem_of_find?_eq_some hf
    have hd : a.data = data.1 := by simpa using find?_some hf
    exact ⟨s.mitAuth, a.id, _, rfl, .inl ⟨rfl, a, ha, hd, rfl⟩, rfl⟩
  | none =>
    have hnew : data.1 ∉ s.cookies := by
      intro hm
      obtain ⟨a, ha, hd⟩ := mem_map.mp hm
      simpa [hd] using find?_eq_none.mp hf a ha
    rw [if_pos (hmem.resolve_right hnew)]
    exact ⟨_, mem.id.1, _, rfl, .inr ⟨hnew, rfl, rfl⟩, rfl⟩

theorem holds_split (h : InStep s elsewhere) (hn : n ∈ s.nsList) (data : Name) :
    s.Holds data ↔ (∃ token ∈ n.authTokens, token.authTokenData = data) ∨
      ∃ m ∈ s.nsList, m.addr ≠ n.addr ∧ ∃ token ∈ m.authTokens, token.authTokenData = data := by
  constructor
  · rintro ⟨m, hm, ht⟩
    by_cases ha : m.addr = n.addr
    · exact .inl (h.eq_of_addr hm hn ha ▸ ht)
    · exact .inr ⟨m, hm, ha, ht⟩
  · rintro (ht | ⟨m, hm, _, ht⟩)
    · exact ⟨n, hn, ht⟩
    · exact ⟨m, hm, ht⟩

theorem xnsAddToken_inStep (h : InStep s elsewhere) (hn : n ∈ s.nsList)
    (data : CookieData) (mem : TokenMemory)
    (hhandle : ∀ token ∈ n.authTokens, token.handle ≠ n.tokenHandleSeq + 1)
    (hmem : mem.cookie ∨ data.1 ∈ s.cookies) :
    InStep (s.xnsAddToken n.addr mitProto data.1 mem).2 elsewhere := by
  have hfind : s.findNs n.addr = some n := by
    cases hf : s.findNs n.addr with
    | none => simpa using find?_eq_none.mp hf n hn
    | some m => rw [h.eq_of_addr (mem_of_findNs hf).1 hn (mem_of_findNs hf).2]
  rcases s.xnsAddToken_cases n.addr data mem hmem with he | ⟨auths, authId, handle, hh, hauths, he⟩
  · rwa [he]
  rw [hfind, Option.map_some, Option.getD_some] at hh
  subst hh
  have hid : authId ≠ 0 := by
    rcases hauths with ⟨_, a, ha, _, rfl⟩ | ⟨_, rfl, _⟩
    · exact (h.ids a ha).1
    · exact mem.id.2.1
  rw [he]
  refine h.change hn (fun _ => rfl) (fun token ht => ?_) ?_ ?_ ?_ fun d => ?_
  · rcases mem_append.mp ht with ht | ht
    · exact h.live n hn token ht
    · rw [mem_singleton.mp ht]
      exact ⟨rfl, hid, data.2⟩
  · rw [map_append, nodup_append]
    refine ⟨h.handles n hn, nodup_singleton _, ?_⟩
    intro a ha b hb
    obtain ⟨token, ht, rfl⟩ := mem_map.mp ha
    rw [map_singleton, mem_singleton] at hb
    exact hb ▸ hhandle token ht
  · rcases hauths with ⟨rfl, _⟩ | ⟨hnew, _, rfl⟩
    · exact h.nodup
    · exact nodup_cons.mpr ⟨hnew, h.nodup⟩
  · rcases hauths with ⟨rfl, _⟩ | ⟨_, _, rfl⟩
    · exact h.ids
    · intro a ha
      rcases mem_cons.mp ha with rfl | ha
      · exact mem.id.2
      · exact h.ids a ha
  · have hcookies : d ∈ auths.map Auth.data ↔ d = data.1 ∨ d ∈ s.cookies := by
      rcases hauths with ⟨rfl, a, ha, hd, _⟩ | ⟨_, _, rfl⟩
      · refine (or_iff_right_of_imp ?_).symm
        rintro rfl
        exact mem_map.mpr ⟨a, ha, hd⟩
      · exact mem_cons
    have htokens : (∃ token ∈ n.authTokens ++ [⟨mitProto, data.1, authId, n.tokenHandleSeq + 1⟩],
        token.authTokenData = d) ↔
        d = data.1 ∨ ∃ token ∈ n.authTokens, token.authTokenData = d := by
      constructor
      · rintro ⟨token, ht, hd⟩
        rcases mem_append.mp ht with ht | ht
        · exact .inr ⟨token, ht, hd⟩
        · rw [mem_singleton.mp ht] at hd
          exact .inl hd.symm
      · rintro (rfl | ⟨token, ht, hd⟩)
        · exact ⟨_, mem_append_right _ mem_cons_self, rfl⟩
        · exact ⟨token, mem_append_left _ ht, hd⟩
    rw [hcookies, h.table, holds_split h hn, htokens]
    simp only [or_assoc]

theorem InStep.find (h : InStep s elsewhere) (hn : n ∈ s.nsList) : s.findNs n.addr = some n := by
  cases hf : s.findNs n.addr with
  | none => simpa using find?_eq_none.mp hf n hn
  | some m => rw [h.eq_of_addr (mem_of_findNs hf).1 hn (mem_of_findNs hf).2]

theorem mem_eraseP_handle {tokens : List AuthToken} (h : (tokens.map AuthToken.handle).Nodup)
    (handle : BitVec 32) (u : AuthToken) :
    u ∈ tokens.eraseP (·.handle = handle) ↔ u ∈ tokens ∧ u.handle ≠ handle := by
  induction tokens with
  | nil => simp
  | cons token tokens ih =>
    rw [map_cons, nodup_cons] at h
    by_cases ht : token.handle = handle
    · rw [eraseP_cons_of_pos (by simpa using ht), mem_cons]
      constructor
      · intro hu
        refine ⟨.inr hu, fun he => h.1 ?_⟩
        rw [ht, ← he]
        exact mem_map_of_mem hu
      · rintro ⟨rfl | hu, hne⟩
        · exact absurd ht hne
        · exact hu
    · rw [eraseP_cons_of_neg (by simpa using ht), mem_cons, ih h.2, mem_cons]
      constructor
      · rintro (rfl | ⟨hu, hne⟩)
        · exact ⟨.inl rfl, ht⟩
        · exact ⟨.inr hu, hne⟩
      · rintro ⟨rfl | hu, hne⟩
        · exact .inl rfl
        · exact .inr ⟨hu, hne⟩

section
variable (h : InStep s elsewhere)
include h

theorem xnsRemoveToken_inStep (hn : n ∈ s.nsList) (handle : BitVec 32)
    (hlast : ∀ token ∈ n.authTokens, token.handle = handle → token.authTokenData ∉ elsewhere ∧
      ∀ m ∈ s.nsList, ∀ u ∈ m.authTokens, u.authTokenData = token.authTokenData →
        m.addr = n.addr ∧ u.handle = handle) :
    InStep (s.xnsRemoveToken n.addr handle).2 elsewhere := by
  rw [xnsRemoveToken, h.find hn, Option.bind_some]
  cases hf : n.authTokens.find? (·.handle = handle) with
  | none => exact h
  | some token =>
    have ht := mem_of_find?_eq_some hf
    have hth : token.handle = handle := by simpa using find?_some hf
    have hlive := h.live n hn
    obtain ⟨helse, honly⟩ := hlast token ht hth
    obtain ⟨auths, he⟩ := s.freeToken_onlyCookies token
    have hcookies := freeToken_cookies (hlive token ht) s
    have hsub := s.freeToken_mitAuth_sublist token
    rw [he] at hcookies hsub
    dsimp only
    rw [he]
    have hmem := mem_eraseP_handle (h.handles n hn) handle
    refine h.change hn (fun _ => rfl) (fun u hu => hlive u ((hmem u).mp hu).1) ?_ ?_
      (fun a ha => h.ids a (hsub.subset ha)) fun d => ?_
    · exact (h.handles n hn).sublist (eraseP_sublist.map _)
    · exact (congrArg List.Nodup hcookies).mpr (h.nodup.erase _)
    · have hd : d ∈ auths.map Auth.data ↔ d ≠ token.authTokenData ∧ d ∈ s.cookies := by
        rw [← h.nodup.mem_erase_iff, ← hcookies]
        rfl
      rw [hd, h.table, holds_split h hn]
      constructor
      · rintro ⟨hne, (⟨u, hu, rfl⟩ | hm) | hm⟩
        · refine .inl (.inl ⟨u, (hmem u).mpr ⟨hu, fun huh => hne ?_⟩, rfl⟩)
          have hsame : u = token := inj_on_of_nodup_map (h.handles n hn) hu ht (huh.trans hth.symm)
          rw [hsame]
        · exact .inl (.inr hm)
        · exact .inr hm
      · rintro ((⟨u, hu, rfl⟩ | ⟨m, hm, ha, u, hu, rfl⟩) | hm)
        · obtain ⟨hu, hne⟩ := (hmem u).mp hu
          exact ⟨fun he => hne (honly n hn u hu he).2, .inl (.inl ⟨u, hu, rfl⟩)⟩
        · exact ⟨fun he => ha (honly m hm u hu he).1, .inl (.inr ⟨m, hm, ha, u, hu, rfl⟩)⟩
        · exact ⟨fun he => helse (he ▸ hm), .inr hm⟩

theorem xnsDestroyNamespace_inStep (hn : n ∈ s.nsList)
    (hlast : n.builtin = false → ∀ token ∈ n.authTokens, token.authTokenData ∉ elsewhere ∧
      ∀ m ∈ s.nsList, ∀ u ∈ m.authTokens, u.authTokenData = token.authTokenData → m.addr = n.addr) :
    InStep (s.xnsDestroyNamespace n.addr) elsewhere := by
  rw [xnsDestroyNamespace, h.find hn]
  dsimp only
  split
  · exact h
  next hb =>
  have hlast := hlast (by simpa using hb)
  obtain ⟨auths, he⟩ := freeTokens_onlyCookies n.authTokens (s.detach n.addr)
  have hcookies := fun d => mem_freeTokens (s := s.detach n.addr) (h.live n hn) h.nodup d
  have hsub := freeTokens_mitAuth_sublist n.authTokens (s.detach n.addr)
  rw [he] at hcookies hsub ⊢
  have hmem : ∀ m, m ∈ s.nsList.filter (·.addr ≠ n.addr) ↔ m ∈ s.nsList ∧ m.addr ≠ n.addr := by
    intro m
    rw [mem_filter, decide_eq_true_iff]
  refine ⟨h.addrs.sublist (filter_sublist.map _), fun m hm => h.fresh m ((hmem m).mp hm).1,
    h.nodup.sublist (hsub.map _), fun a ha => h.ids a (hsub.subset ha),
    fun m hm => h.live m ((hmem m).mp hm).1, fun m hm => h.handles m ((hmem m).mp hm).1,
    fun d => ?_⟩
  refine (hcookies d).trans ?_
  have htable : d ∈ (s.detach n.addr).cookies ↔ s.Holds d ∨ d ∈ elsewhere := h.table d
  rw [htable]
  constructor
  · rintro ⟨⟨m, hm, u, hu, rfl⟩ | hd, hnone⟩
    · refine .inl ⟨m, (hmem m).mpr ⟨hm, fun ha => ?_⟩, u, hu, rfl⟩
      rw [h.eq_of_addr hm hn ha] at hu
      exact hnone u hu rfl
    · exact .inr hd
  · rintro (⟨m, hm, u, hu, rfl⟩ | hd)
    · obtain ⟨hm, ha⟩ := (hmem m).mp hm
      exact ⟨.inl ⟨m, hm, u, hu, rfl⟩, fun token ht he => ha ((hlast token ht).2 m hm u hu he.symm)⟩
    · exact ⟨.inr hd, fun token ht he => (hlast token ht).1 (he ▸ hd)⟩

theorem InStep.append (ha : n.addr = s.nextAddr) (ht : n.authTokens = []) :
    InStep { s with nsList := s.nsList ++ [n], nextAddr := s.nextAddr + 1 } elsewhere := by
  have hall : ∀ {P : Xnamespace → Prop}, (∀ m ∈ s.nsList, P m) → P n →
      ∀ m ∈ s.nsList ++ [n], P m := by
    intro P hs hn m hm
    rcases mem_append.mp hm with hm | hm
    · exact hs m hm
    · rwa [mem_singleton.mp hm]
  refine ⟨?_, hall (fun m hm => Nat.lt_succ_of_lt (h.fresh m hm)) (ha ▸ Nat.lt_succ_self _),
    h.nodup, h.ids, hall h.live (ht ▸ nofun), hall h.handles (ht ▸ nodup_nil), fun d => ?_⟩
  · rw [map_append, nodup_append]
    refine ⟨h.addrs, nodup_singleton _, ?_⟩
    intro a hm' b hb hab
    obtain ⟨m, hm, rfl⟩ := mem_map.mp hm'
    rw [map_singleton, mem_singleton] at hb
    exact Nat.ne_of_lt (h.fresh m hm) (hab.trans (hb.trans ha))
  · refine (h.table d).trans (or_congr_left ?_)
    constructor
    · rintro ⟨m, hm, hu⟩
      exact ⟨m, mem_append_left _ hm, hu⟩
    · rintro ⟨m, hm, u, hu, hd⟩
      rcases mem_append.mp hm with hm | hm
      · exact ⟨m, hm, u, hu, hd⟩
      · rw [mem_singleton.mp hm, ht] at hu
        cases hu

theorem mitAddCookie_inStep (data : CookieData) (id : ServerXID)
    (allocated : Bool) : InStep (s.mitAddCookie data.1.length data.1 id allocated).2
      (if (s.mitAddCookie data.1.length data.1 id allocated).1 ≠ 0 then data.1 :: elsewhere
        else elsewhere) := by
  rw [mitAddCookie, take_of_short data.2]
  cases hf : s.mitAuth.find? fun walk => walk.data = data.1 with
  | some a =>
    have ha := mem_of_find?_eq_some hf
    have hd : a.data = data.1 := by simpa using find?_some hf
    rw [if_pos (h.ids a ha).1]
    refine ⟨h.addrs, h.fresh, h.nodup, h.ids, h.live, h.handles, fun d => ?_⟩
    rw [mem_cons, ← or_assoc, or_comm (a := s.Holds d), or_assoc, ← h.table]
    refine (or_iff_right_of_imp ?_).symm
    rintro rfl
    exact mem_map.mpr ⟨a, ha, hd⟩
  | none =>
    have hnew : data.1 ∉ s.cookies := by
      intro hm
      obtain ⟨a, ha, hd⟩ := mem_map.mp hm
      simpa [hd] using find?_eq_none.mp hf a ha
    cases allocated with
    | false => exact h
    | true =>
      rw [if_pos rfl]
      rw [if_pos id.2.1]
      refine ⟨h.addrs, h.fresh, nodup_cons.mpr ⟨hnew, h.nodup⟩, fun a ha => ?_, h.live,
        h.handles, fun d => ?_⟩
      · rcases mem_cons.mp ha with rfl | ha
        · exact id.2
        · exact h.ids a ha
      · rw [mem_cons, ← or_assoc, or_comm (b := d = data.1), or_assoc]
        exact mem_cons.trans (or_congr_right (h.table d))

theorem mitRemoveCookie_inStep (data : CookieData)
    (hlast : ¬ s.Holds data.1) :
    InStep (s.mitRemoveCookie data.1.length data.1) (elsewhere.filter (· ≠ data.1)) := by
  have hcookies := s.cookies_remove data.1.length data.1
  rw [take_of_short data.2] at hcookies
  have hsub : (s.mitRemoveCookie data.1.length data.1).mitAuth.Sublist s.mitAuth := eraseP_sublist
  refine ⟨h.addrs, h.fresh, hcookies ▸ h.nodup.erase _, fun a ha => h.ids a (hsub.subset ha),
    h.live, h.handles, fun d => ?_⟩
  rw [hcookies, h.nodup.mem_erase_iff, h.table, mem_filter, decide_eq_true_iff, and_or_left]
  refine or_congr ?_ and_comm
  refine and_iff_right_of_imp ?_
  rintro hd rfl
  exact hlast hd

end

end Server

/-- What happens to tokens and cookies. `select` and `add` are also what a configuration
file does; the last two are what other parts of the server do to the table. -/
inductive TokenEvent
  | create (name : Name) (caps attrs : BitVec 32) (nsAllocated nameAllocated rootCreated : Bool)
  | select (name : Name)
  | add (k : NsId) (data : CookieData) (mem : TokenMemory)
  | remove (k : NsId) (handle : BitVec 32)
  | destroy (k : NsId)
  | cookieAdded (data : CookieData) (id : ServerXID) (allocated : Bool)
  | cookieRemoved (data : CookieData)

abbrev TokenState := Server × List Name

open Server in
def TokenEvent.run (st : TokenState) : TokenEvent → TokenState
  | .create name caps attrs m₁ m₂ m₃ => ((st.1.xnsCreate name caps attrs m₁ m₂ m₃).2, st.2)
  | .select name => ((st.1.selectNs name).2, st.2)
  | .add k data mem =>
    if (st.1.findNs k).isSome then ((st.1.xnsAddToken k mitProto data.1 mem).2, st.2) else st
  | .remove k handle => ((st.1.xnsRemoveToken k handle).2, st.2)
  | .destroy k => (st.1.xnsDestroyNamespace k, st.2)
  | .cookieAdded data id allocated =>
    let r := st.1.mitAddCookie data.1.length data.1 id allocated
    (r.2, if r.1 ≠ 0 then data.1 :: st.2 else st.2)
  | .cookieRemoved data =>
    (st.1.mitRemoveCookie data.1.length data.1, st.2.filter (· ≠ data.1))

/-- What is removed is the last thing that stands for its cookie, a new handle is not in
use, and a new cookie finds memory. -/
def TokenEvent.Meets (st : TokenState) : TokenEvent → Prop
  | .add k data mem => ∀ n ∈ st.1.nsList, n.addr = k →
    (∀ token ∈ n.authTokens, token.handle ≠ n.tokenHandleSeq + 1) ∧
      (mem.cookie ∨ st.1.Holds data.1 ∨ data.1 ∈ st.2)
  | .remove k handle => ∀ n ∈ st.1.nsList, n.addr = k → ∀ token ∈ n.authTokens,
    token.handle = handle → token.authTokenData ∉ st.2 ∧
      ∀ m ∈ st.1.nsList, ∀ u ∈ m.authTokens, u.authTokenData = token.authTokenData →
        m.addr = n.addr ∧ u.handle = handle
  | .destroy k => ∀ n ∈ st.1.nsList, n.addr = k → n.builtin = false → ∀ token ∈ n.authTokens,
    token.authTokenData ∉ st.2 ∧
      ∀ m ∈ st.1.nsList, ∀ u ∈ m.authTokens, u.authTokenData = token.authTokenData → m.addr = n.addr
  | .cookieRemoved data => ¬ st.1.Holds data.1
  | _ => True

def runTokens (st : TokenState) (events : List TokenEvent) : TokenState :=
  events.foldl TokenEvent.run st

def MeetsAll : TokenState → List TokenEvent → Prop
  | _, [] => True
  | st, e :: es => e.Meets st ∧ MeetsAll (e.run st) es

instance (st : TokenState) : (e : TokenEvent) → Decidable (e.Meets st)
  | .create .. | .select .. | .cookieAdded .. => inferInstanceAs (Decidable True)
  | .add k data mem => inferInstanceAs (Decidable (∀ n ∈ st.1.nsList, n.addr = k →
    (∀ token ∈ n.authTokens, token.handle ≠ n.tokenHandleSeq + 1) ∧
      (mem.cookie ∨ st.1.Holds data.1 ∨ data.1 ∈ st.2)))
  | .remove k handle => inferInstanceAs (Decidable (∀ n ∈ st.1.nsList, n.addr = k →
    ∀ token ∈ n.authTokens, token.handle = handle → token.authTokenData ∉ st.2 ∧
      ∀ m ∈ st.1.nsList, ∀ u ∈ m.authTokens, u.authTokenData = token.authTokenData →
        m.addr = n.addr ∧ u.handle = handle))
  | .destroy k => inferInstanceAs (Decidable (∀ n ∈ st.1.nsList, n.addr = k →
    n.builtin = false → ∀ token ∈ n.authTokens, token.authTokenData ∉ st.2 ∧
      ∀ m ∈ st.1.nsList, ∀ u ∈ m.authTokens, u.authTokenData = token.authTokenData →
        m.addr = n.addr))
  | .cookieRemoved data => inferInstanceAs (Decidable (¬ st.1.Holds data.1))

instance : (st : TokenState) → (events : List TokenEvent) → Decidable (MeetsAll st events)
  | _, [] => inferInstanceAs (Decidable True)
  | st, e :: es =>
    haveI := instDecidableMeetsAll (e.run st) es
    inferInstanceAs (Decidable (e.Meets st ∧ MeetsAll (e.run st) es))

def tokenStart (limitClients : Nat) : TokenState := (beforeInit limitClients, [])

theorem tokenStart_inStep (limit : Nat) :
    Server.InStep (tokenStart limit).1 (tokenStart limit).2 where
  addrs := (by decide : (builtIns.map Xnamespace.addr).Nodup)
  fresh := (by decide : ∀ n ∈ builtIns, n.addr < 2)
  nodup := nodup_nil
  ids := nofun
  live n hn token ht := by
    have hnone : ∀ n ∈ builtIns, n.authTokens = [] := by
      intro n hn
      rcases mem_cons.mp hn with rfl | hn
      · rfl
      · rw [mem_singleton.mp hn]
    rw [hnone n hn] at ht
    cases ht
  handles := by
    intro n hn
    rcases mem_cons.mp hn with rfl | hn
    · exact nodup_nil
    · rw [mem_singleton.mp hn]
      exact nodup_nil
  table d := by
    refine iff_of_false nofun ?_
    rintro (⟨n, hn, token, ht, _⟩ | hd)
    · rcases mem_cons.mp hn with rfl | hn
      · cases ht
      · rw [mem_singleton.mp hn] at ht
        cases ht
    · cases hd

theorem TokenEvent.run_inStep {st : TokenState} (h : Server.InStep st.1 st.2) {e : TokenEvent}
    (he : e.Meets st) : Server.InStep (e.run st).1 (e.run st).2 := by
  cases e with
  | create name caps attrs m₁ m₂ m₃ =>
    rcases st.1.xnsCreate_cases name caps attrs m₁ m₂ m₃ with
      hs | ⟨_, _, n, ha, _, _, _, ht, _, _, hs⟩
    · rw [TokenEvent.run, hs]
      exact h
    · rw [TokenEvent.run, hs]
      exact h.append ha ht
  | select name =>
    rw [TokenEvent.run, Server.selectNs]
    split
    · exact h
    · exact h.append rfl rfl
  | add k data mem =>
    rw [TokenEvent.run]
    split
    · next hk =>
      obtain ⟨n, hn⟩ := Option.isSome_iff_exists.mp hk
      obtain ⟨hmem, rfl⟩ := Server.mem_of_findNs hn
      obtain ⟨hhandle, hcookie⟩ := he n hmem rfl
      exact Server.xnsAddToken_inStep h hmem data mem hhandle
        (hcookie.imp_right (h.table data.1).mpr)
    · exact h
  | remove k handle =>
    rw [TokenEvent.run]
    cases hk : st.1.findNs k with
    | none =>
      rw [Server.xnsRemoveToken, hk]
      exact h
    | some n =>
      obtain ⟨hmem, rfl⟩ := Server.mem_of_findNs hk
      exact Server.xnsRemoveToken_inStep h hmem handle (he n hmem rfl)
  | destroy k =>
    rw [TokenEvent.run]
    cases hk : st.1.findNs k with
    | none =>
      rw [Server.xnsDestroyNamespace, hk]
      exact h
    | some n =>
      obtain ⟨hmem, rfl⟩ := Server.mem_of_findNs hk
      exact Server.xnsDestroyNamespace_inStep h hmem (he n hmem rfl)
  | cookieAdded data id allocated => exact Server.mitAddCookie_inStep h data id allocated
  | cookieRemoved data => exact Server.mitRemoveCookie_inStep h data he

theorem runTokens_inStep {st : TokenState} (h : Server.InStep st.1 st.2) {events : List TokenEvent}
    (hall : MeetsAll st events) :
    Server.InStep (runTokens st events).1 (runTokens st events).2 := by
  induction events generalizing st with
  | nil => exact h
  | cons e es ih => exact ih (TokenEvent.run_inStep h hall.1) hall.2

/-- While no removal hits a cookie that something else stands for, exactly the cookies that
are held are accepted, and `XnsFindByAuth` finds a namespace that holds them. -/
theorem tokens_in_step (limit : Nat) (events : List TokenEvent)
    (hall : MeetsAll (tokenStart limit) events) :
    (∀ data, (runTokens (tokenStart limit) events).1.mitCheckCookie data ≠ -1 ↔
      (runTokens (tokenStart limit) events).1.Holds data ∨
        data ∈ (runTokens (tokenStart limit) events).2) ∧
    (∀ n ∈ (runTokens (tokenStart limit) events).1.nsList,
      (n.authTokens.map AuthToken.handle).Nodup) ∧
    ∀ data, (runTokens (tokenStart limit) events).1.Holds data →
      ∃ n ∈ (runTokens (tokenStart limit) events).1.nsList,
        (runTokens (tokenStart limit) events).1.xnsFindByAuth Server.mitProto data = n.addr ∧
          ∃ token ∈ n.authTokens, token.authTokenData = data := by
  have h := runTokens_inStep (tokenStart_inStep limit) hall
  generalize runTokens (tokenStart limit) events = st at h
  refine ⟨fun data => ?_, h.handles, fun data hd => ?_⟩
  · rw [Server.mitCheckCookie_iff (fun a ha => (h.ids a ha).2), h.table]
  · rw [Server.xnsFindByAuth]
    split
    · next n hf =>
      have hany := find?_some hf
      obtain ⟨token, ht, hp⟩ := any_eq_true.mp hany
      exact ⟨n, mem_of_find?_eq_some hf, rfl, token, ht, (of_decide_eq_true hp).1⟩
    · next hf =>
      obtain ⟨n, hn, token, ht, rfl⟩ := hd
      have hnot := find?_eq_none.mp hf n hn
      rw [any_eq_true] at hnot
      exact absurd ⟨token, ht, decide_eq_true ⟨rfl, (h.live n hn token ht).proto⟩⟩ hnot

def plentyFor (id : ServerXID) : TokenMemory := ⟨true, true, true, true, id⟩

def twoNamespaces : List TokenEvent :=
  [.create [97] 0 0 true true true, .create [98] 0 0 true true true]

theorem tokens_in_step_two :
    let events := twoNamespaces ++ [.add 2 ⟨[1], by decide⟩ (plentyFor ⟨40, by decide⟩),
      .add 3 ⟨[2], by decide⟩ (plentyFor ⟨41, by decide⟩), .remove 2 1]
    (runTokens (tokenStart 64) events).1.mitCheckCookie [2] ≠ -1 ∧
      (runTokens (tokenStart 64) events).1.Holds [2] := by
  intro events
  have hheld : (runTokens (tokenStart 64) events).1.Holds [2] := by decide +kernel
  exact ⟨((tokens_in_step 64 events (by decide +kernel)).1 [2]).mpr (.inl hheld), hheld⟩

/-- Two namespaces hold the same cookie; when one removes its token, the other's is dead. -/
theorem tokens_shared_cookie :
    let events := twoNamespaces ++ [.add 2 ⟨[1], by decide⟩ (plentyFor ⟨40, by decide⟩),
      .add 3 ⟨[1], by decide⟩ (plentyFor ⟨41, by decide⟩), .remove 2 1]
    (runTokens (tokenStart 64) events).1.Holds [1] ∧
      (runTokens (tokenStart 64) events).1.mitCheckCookie [1] = -1 := by
  decide +kernel

end Xfront.Namespace
