import Xfront.Record.Arranged
import Xfront.Record.Specifiers

/-!
# The operations on contexts

Clients are deleted and registered, a context is made, enabled, disabled and deleted: no
assertion fails, and what holds between two requests is kept.
-/

namespace Xfront.Record.Hooks
open Nat Function

open List Option

theorem running_eq (s : State) (k : Nat) :
    s.running k = ((s.clients k).map fun cl => (cl.state, cl.vector)).any (·.1 = .running) := by
  unfold State.running
  cases s.clients k <;> rfl

variable {s : State} {c : Nat}

theorem Turned.running {s' : State} {ctx : Option Context} (h : Turned s s' c ctx)
    (k : Nat) : s'.running k = s.running k := by
  rw [running_eq, running_eq, h.clients]

theorem running_isSome {k : Nat} (h : s.running k = true) : (s.clients k).isSome = true := by
  unfold State.running at h
  cases hk : s.clients k with
  | none =>
    rw [hk] at h
    cases h
  | some cl => rfl

section

variable {s : State} {c n : Nat} {ctx : Context}

theorem Inv.turn_list {s1 : State} {l : List Registration} (h : Inv s)
    (hctx : s.contexts c = some ctx) (hlocal : Local s s1 c)
    (hheld : Held s1 c { ctx with pListOfRCAP := l } (rest s c))
    (hmem : ∀ x ∈ specsOf l, x ∈ specsOf ctx.pListOfRCAP ∨
      ∀ r, ctx.pRecordingClient = some r → x ≠ .client r) :
    Turned s s1 c (some { ctx with pListOfRCAP := l }) := by
  refine h.turn_same hctx hlocal hheld rfl fun r hr hin => ?_
  rcases hmem _ hin with hold | hnew
  · exact h.apart c ctx r hctx hr hold
  · exact hnew r hr rfl

theorem Inv.deleteClients (h : Inv s) (hctx : s.contexts c = some ctx) (specs : List ClientSpec) :
    ∃ s' l, specs.foldlM (recordDeleteClientFromContext c) s = some s' ∧
      Turned s s' c (some { ctx with pListOfRCAP := l }) ∧
      ∀ x, x ∈ specsOf l ↔ x ∈ specsOf ctx.pListOfRCAP ∧ x ∉ specs := by
  obtain ⟨s', l, hs', hlocal, hheld, hmem⟩ := (h.held hctx).deleteClients specs
  exact ⟨s', l, hs', h.turn_list hctx hlocal hheld fun x hx => .inl ((hmem x).mp hx).1, hmem⟩

theorem Inv.newClient {k : Nat} (h : Inv s) (hctx : s.contexts c = some ctx)
    (hnew : .client k ∉ specsOf ctx.pListOfRCAP) (hrec : ctx.pRecordingClient ≠ some k)
    (hthere : (s.clients k).isSome = true) :
    ∃ s' l, recordNewClient k s c = some s' ∧ Turned s s' c (some { ctx with pListOfRCAP := l }) ∧
      ∀ x ∈ specsOf l, x ∈ specsOf ctx.pListOfRCAP ∨ x = .client k := by
  rw [recordNewClient, hctx, bind_some]
  cases hfind : recordFindClient .futureClients ctx.pListOfRCAP with
  | none =>
    refine ⟨s, ctx.pListOfRCAP, rfl, ?_, fun x hx => .inl hx⟩
    exact h.turn_list hctx (Local.refl s c) (h.held hctx) fun x hx => .inl hx
  | some found =>
    obtain ⟨i, pos⟩ := found
    obtain ⟨a, pRCAP, b, hlist, rfl, -⟩ := recordFindClient_some hfind
    obtain ⟨s', l, hs', hlocal, hheld, hmem⟩ := (h.held hctx).addClientToRCAP hlist hnew hthere
    refine ⟨s', l, hs', ?_, fun x hx => (hmem x).mp hx⟩
    refine h.turn_list hctx hlocal hheld fun x hx => ((hmem x).mp hx).imp_right ?_
    rintro rfl r hr heq
    cases heq
    exact hrec hr

variable {limitClients : Nat}

/-- `RecordRegisterClients`: an error changes nothing, and else only clients that are asked for
are registered. -/
theorem Held.registerClients (h : Held s c ctx n)
    (hcurrent : currentClients limitClients s ctx.pRecordingClient ≠ [])
    (specs : List Specifier) (set : Option (List RecordSetInterval)) :
    ∃ s' b, recordRegisterClients limitClients s c specs set = some (s', b) ∧ (b = false → s' = s) ∧
      (b = true → ∃ l, Local s s' c ∧ Held s' c { ctx with pListOfRCAP := l } n ∧
        ∀ x ∈ specsOf l, x ∈ specsOf ctx.pListOfRCAP ∨ Recorded s ctx.pRecordingClient x) := by
  rw [recordRegisterClients, h.here, bind_some]
  by_cases hsane : sanityCheckClientSpecifiers s ctx.pRecordingClient specs = true
  · rw [if_neg (not_not_intro hsane)]
    by_cases hspecs : specs = []
    · rw [if_pos hspecs]
      exact ⟨s, true, rfl, fun _ => rfl,
        fun _ => ⟨ctx.pListOfRCAP, Local.refl s c, h, fun x hx => .inl hx⟩⟩
    · rw [if_neg hspecs]
      obtain ⟨hnodup, hrecorded, hne⟩ := canonicalize_spec limitClients hsane
      obtain ⟨s1, l1, hs1, hlocal1, h1, hmem1⟩ := h.deleteClients
        (canonicalizeClientSpecifiers limitClients s ctx.pRecordingClient specs)
      obtain ⟨s2, ctx', hctx', hs2, hlocal2, h2⟩ := h1.link
        ⟨set, canonicalizeClientSpecifiers limitClients s ctx.pRecordingClient specs⟩
        (hne hcurrent hspecs) hnodup (fun x hx hin => ((hmem1 x).mp hin).2 hx)
        (fun k hk => by
          rw [hlocal1.isSome]
          exact running_isSome (hrecorded _ hk).1)
      dsimp only
      rw [hs1, bind_some, h1.here, map_some, ← hctx', hs2]
      refine ⟨s2, true, rfl, fun hb => absurd hb (by simp), fun _ => ⟨_, hlocal1.trans hlocal2,
        hctx' ▸ h2, fun x hx => ?_⟩⟩
      rw [specsOf, flatMap_cons] at hx
      rcases mem_append.mp hx with hx | hx
      · exact .inr (hrecorded x hx)
      · exact .inl ((hmem1 x).mp hx).1
  · rw [if_pos hsane]
    exact ⟨s, false, rfl, fun _ => rfl, fun hb => absurd hb (by simp)⟩

theorem Inv.registerClients (h : Inv s) (hctx : s.contexts c = some ctx)
    (hcurrent : currentClients limitClients s ctx.pRecordingClient ≠ [])
    (specs : List Specifier) (set : Option (List RecordSetInterval)) :
    ∃ s' b, recordRegisterClients limitClients s c specs set = some (s', b) ∧
      (s' = s ∨ ∃ l, Turned s s' c (some { ctx with pListOfRCAP := l }) ∧
        ∀ x ∈ specsOf l, x ∈ specsOf ctx.pListOfRCAP ∨ Recorded s ctx.pRecordingClient x) := by
  obtain ⟨s', b, hs', hfalse, htrue⟩ := (h.held hctx).registerClients hcurrent specs set
  refine ⟨s', b, hs', ?_⟩
  cases b with
  | false => exact .inl (hfalse rfl)
  | true =>
    obtain ⟨l, hlocal, hheld, hmem⟩ := htrue rfl
    refine .inr ⟨l, h.turn_list hctx hlocal hheld fun x hx => (hmem x hx).imp_right ?_, hmem⟩
    rintro hrec r hr rfl
    exact hrec.2 hr

end

theorem Inv.held_new (h : Inv s) (hnone : s.contexts c = none) :
    Held (s.setContext c (some ⟨none, []⟩)) c ⟨none, []⟩ (rest s c) := by
  have hnot : c ∉ s.enabled := fun hin => by
    have hlive := (h.live c).mp (mem_of_mem_take hin)
    rw [hnone] at hlive
    cases hlive
  refine held_setContext ⟨nodup_nil, fun _ hr => absurd hr not_mem_nil,
    fun _ hk => absurd hk not_mem_nil⟩ (h.hooked.congr fun k ivs => ?_) ?_
  · simp only [Context.Wants, isSome_none, Bool.false_eq_true, false_and, or_false]
    exact exists_congr fun x => and_congr_right fun hx =>
      (and_iff_right fun (heq : x = c) => hnot (heq ▸ hx)).symm
  · rw [h.count, rest, Finset.erase_eq_of_notMem fun hmem => hnot (List.mem_toFinset.mp hmem)]
    rfl

theorem setContext_none (h : s.contexts c = none) (ctx : Option Context) :
    (s.setContext c ctx).setContext c none = s := by
  have hcontexts : update (update s.contexts c ctx) c none = s.contexts := by
    rw [update_idem, ← h, update_eq_self]
  unfold State.setContext
  rw [hcontexts]

theorem Inv.createContext (h : Inv s)
    (hnone : s.contexts c = none) (hcurrent : currentClients limitClients s none ≠ [])
    (specs : List Specifier) (set : Option (List RecordSetInterval)) :
    ∃ s' b, procRecordCreateContext limitClients s c specs set = some (s', b) ∧
      (s' = s ∨ ∃ l, Turned s s' c (some ⟨none, l⟩) ∧ ∀ x ∈ specsOf l, Recorded s none x) := by
  have hlocal := local_setContext s c (some ⟨none, []⟩)
  obtain ⟨s1, b, hs1, hfalse, htrue⟩ := (h.held_new hnone).registerClients hcurrent specs set
  rw [procRecordCreateContext, hnone, if_neg (by simp), hs1, map_some]
  cases b with
  | false =>
    rw [hfalse rfl]
    exact ⟨_, false, rfl, .inl (setContext_none hnone _)⟩
  | true =>
    obtain ⟨l, hlocal1, hheld, hmem⟩ := htrue rfl
    have hall := (hlocal.trans hlocal1).all
    have hcount := (hlocal.trans hlocal1).count
    have hnot : c ∉ s.ppAllContexts := fun hin => by
      have hlive := (h.live c).mp hin
      rw [hnone] at hlive
      cases hlive
    have hen : (s.ppAllContexts ++ [c]).take s.numEnabledContexts = s.enabled :=
      take_append_of_le_length h.bound
    refine ⟨_, true, rfl, .inr ⟨l, h.turn (hlocal.trans hlocal1) hheld ⟨rfl, rfl, rfl⟩
      ⟨?_, fun x => ?_, ?_, fun x hx => ?_, ?_⟩ (fun r hr => absurd hr (by simp)), ?_⟩⟩
    · show (s1.ppAllContexts ++ [c]).Nodup
      rw [hall]
      exact nodup_append.mpr ⟨h.nodup, nodup_singleton c, fun x hx y hy heq =>
        hnot (mem_singleton.mp hy ▸ heq ▸ hx)⟩
    · show x ∈ s1.ppAllContexts ++ [c] ↔ _
      rw [hall, mem_append, mem_singleton]
      exact or_comm
    · show s1.numEnabledContexts ≤ (s1.ppAllContexts ++ [c]).length
      rw [hall, hcount, length_append]
      exact le_add_right_of_le h.bound
    · show x ∈ (s1.ppAllContexts ++ [c]).take s1.numEnabledContexts ↔ _
      rw [hall, hcount, hen]
    · show c ∈ (s1.ppAllContexts ++ [c]).take s1.numEnabledContexts ↔ _
      rw [hall, hcount, hen]
      exact iff_of_false (fun hin => hnot (mem_of_mem_take hin)) (by simp)
    · intro x hx
      exact (hmem x hx).resolve_left not_mem_nil

section

variable {s : State} {c : Nat} {ctx : Context}

theorem Inv.mem_all (h : Inv s) (hctx : s.contexts c = some ctx) : c ∈ s.ppAllContexts :=
  (h.live c).mpr (by rw [hctx]; rfl)

theorem mem_enabled_iff (h : Inv s) (hctx : s.contexts c = some ctx) :
    c ∈ s.enabled ↔ s.ppAllContexts.idxOf c < s.numEnabledContexts :=
  mem_take_iff_idxOf_lt (h.mem_all hctx)

theorem Inv.enableContext (h : Inv s) (hctx : s.contexts c = some ctx)
    (hrec : ctx.pRecordingClient = none) (client : Nat) :
    ∃ s' l, procRecordEnableContext s c client = some (s', true) ∧
      Turned s s' c (some ⟨some client, l⟩) ∧
      ∀ x ∈ specsOf l, x ∈ specsOf ctx.pListOfRCAP ∧ x ≠ .client client := by
  obtain ⟨s1, ctx1, hctx1, hs1, hlocal1, h1⟩ := (h.held hctx).enable hrec client
  obtain ⟨s2, l, hs2, hlocal2, h2, hmem⟩ := h1.deleteClientFromContext (.client client)
  have hlocal := hlocal1.trans hlocal2
  have hout : s.numEnabledContexts ≤ s.ppAllContexts.idxOf c := by
    have hnot : c ∉ s.enabled := fun hin => by
      have hsome := (h.front c ctx hctx).front.mp hin
      rw [hrec] at hsome
      cases hsome
    exact not_lt.mp fun hlt => hnot ((mem_enabled_iff h hctx).mpr hlt)
  have hall := h.mem_all hctx
  have hi : s.ppAllContexts[s.ppAllContexts.idxOf c]? = some c := getElem?_idxOf hall
  have hlt : s.numEnabledContexts < s.ppAllContexts.length :=
    lt_of_le_of_lt hout (idxOf_lt_length_of_mem hall)
  have hperm := swapContexts_perm hi hlt
  have htake := mem_take_moved_in hi hout
  have hnew : ({ ctx1 with pListOfRCAP := l } : Context) = ⟨some client, l⟩ := by rw [hctx1]
  rw [hnew] at h2
  have hmem' : ∀ x ∈ specsOf l, x ∈ specsOf ctx.pListOfRCAP ∧ x ≠ .client client := by
    intro x hx
    have hx' := (hmem x).mp hx
    rw [hctx1] at hx'
    exact hx'
  rw [procRecordEnableContext, hctx]
  dsimp only
  rw [if_neg (by rw [hrec]; simp), ← hctx1, hs1, hs2, bind_some, hlocal.all, hlocal.count,
    if_neg (not_lt.mpr hout)]
  refine ⟨_, l, rfl, h.turn hlocal h2 ⟨rfl, rfl, rfl⟩ ⟨?_, fun x => ?_, ?_, fun x hx => ?_, ?_⟩ ?_,
    hmem'⟩
  · exact hperm.nodup_iff.mpr h.nodup
  · rw [hperm.mem_iff]
    exact (or_iff_right_of_imp fun heq => heq ▸ hall).symm
  · show s.numEnabledContexts + 1 ≤ _
    rw [hperm.length_eq]
    exact hlt
  · exact (htake x).trans (or_iff_right hx)
  · exact iff_of_true ((htake c).mpr (.inl rfl)) rfl
  · intro r hr hin
    cases hr
    exact (hmem' _ hin).2 rfl

theorem Inv.disableContext (h : Inv s) (hctx : s.contexts c = some ctx) :
    ∃ s', recordDisableContext s c = some s' ∧ Turned s s' c (some ⟨none, ctx.pListOfRCAP⟩) := by
  rw [recordDisableContext, hctx, bind_some]
  by_cases hrec : ctx.pRecordingClient.isNone = true
  · rw [if_pos hrec]
    have hsame : ctx = ⟨none, ctx.pListOfRCAP⟩ := by
      rw [isNone_iff_eq_none] at hrec
      rw [← hrec]
    exact ⟨s, rfl, h, by rw [hctx, ← hsame], fun _ _ => rfl, fun _ => rfl⟩
  · rw [if_neg hrec]
    have hsome : ctx.pRecordingClient.isSome = true := by
      rwa [isNone_iff_eq_none, ← ne_eq, ne_none_iff_isSome] at hrec
    obtain ⟨s1, s2, ctx2, hctx2, hs1, hs2, hlocal, h2⟩ := (h.held hctx).disable hsome
    rw [← hctx2]
    have hin : s.ppAllContexts.idxOf c < s.numEnabledContexts :=
      (mem_enabled_iff h hctx).mp ((h.front c ctx hctx).front.mpr hsome)
    obtain ⟨j, hj⟩ := exists_eq_succ_of_ne_zero (Nat.ne_zero_of_lt hin)
    have hbound := h.bound
    have hall := h.mem_all hctx
    have hi : s.ppAllContexts[s.ppAllContexts.idxOf c]? = some c := getElem?_idxOf hall
    have hjlt : j < s.ppAllContexts.length := by omega
    have hperm := swapContexts_perm hi hjlt
    have htake := mem_take_moved_out h.nodup hi (by omega) hjlt
    dsimp only
    rw [hs1, bind_some, hs2, hlocal.all, hlocal.count, if_neg (not_le.mpr hin), hj, succ_sub_one]
    refine ⟨_, rfl, h.turn hlocal h2 ⟨rfl, rfl, rfl⟩
      ⟨?_, fun x => ?_, ?_, fun x hx => ?_, ?_⟩ ?_⟩
    · exact hperm.nodup_iff.mpr h.nodup
    · rw [hperm.mem_iff]
      exact (or_iff_right_of_imp fun heq => heq ▸ hall).symm
    · show j ≤ _
      rw [hperm.length_eq]
      omega
    · refine (htake x).trans ((and_iff_right hx).trans ?_)
      rw [State.enabled, hj]
    · exact iff_of_false (fun hmem => ((htake c).mp hmem).1 rfl) (by rw [hctx2]; simp)
    · rw [hctx2]
      exact fun r hr => absurd hr (by simp)

end

def removedContext (s : State) (c : Nat) : State :=
  { s.setContext c none with
    ppAllContexts :=
      (s.ppAllContexts.set (s.ppAllContexts.idxOf c) (s.ppAllContexts.getLastD 0)).dropLast }

theorem Inv.removeContext (h : Inv s) (hctx : s.contexts c = some ⟨none, []⟩) :
    Turned s (removedContext s c) c none := by
  have hall := h.mem_all hctx
  have hi : s.ppAllContexts[s.ppAllContexts.idxOf c]? = some c := getElem?_idxOf hall
  have hne : s.ppAllContexts ≠ [] := ne_nil_of_mem hall
  have hlast : s.ppAllContexts.getLast? = some (s.ppAllContexts.getLastD 0) := by
    rw [getLastD_eq_getLast?, getLast?_eq_some_getLast hne, getD_some]
  have hperm := set_last_perm hi hlast
  obtain ⟨hnot, hnodup⟩ := nodup_cons.mp (hperm.nodup_iff.mpr h.nodup)
  have hdisabled : c ∉ s.enabled := fun hin => by
    have hsome := (h.front c _ hctx).front.mp hin
    cases hsome
  have hout : s.numEnabledContexts ≤ s.ppAllContexts.idxOf c :=
    not_lt.mp fun hlt => hdisabled ((mem_enabled_iff h hctx).mpr hlt)
  have hlt := idxOf_lt_length_of_mem hall
  have hen : (removedContext s c).enabled = s.enabled := by
    show (dropLast _).take s.numEnabledContexts = _
    rw [dropLast_eq_take, take_take, length_set, min_eq_left (by omega), take_set_of_le hout]
    rfl
  have hothers : ∀ x, x ≠ c → (removedContext s c).contexts x = s.contexts x :=
    fun x hx => s.setContext_of_ne hx none
  have hhere : (removedContext s c).contexts c = none := s.setContext_self c none
  have hback : ∀ x ctx, (removedContext s c).contexts x = some ctx →
      x ≠ c ∧ s.contexts x = some ctx := by
    intro x ctx hx
    have hne : x ≠ c := by
      rintro rfl
      rw [hhere] at hx
      cases hx
    exact ⟨hne, (hothers x hne).symm.trans hx⟩
  have hwant : Total (removedContext s c) = Total s := by
    funext k ivs
    refine propext (exists_congr fun x => ?_)
    rw [hen]
    refine and_congr_right fun hx => ?_
    rw [setOnContext, setOnContext, hothers x fun heq => hdisabled (heq ▸ hx)]
  refine ⟨⟨hnodup, fun x => ?_, ?_, ?_, ?_, ?_, ?_, ?_, h.plain⟩, hhere, hothers, fun _ => rfl⟩
  · by_cases hx : x = c
    · subst hx
      exact iff_of_false hnot (by rw [hhere]; simp)
    · rw [hothers x hx, ← h.live x, ← hperm.mem_iff, mem_cons, or_iff_right hx]
      rfl
  · have hlength := hperm.length_eq
    rw [length_cons] at hlength
    show s.numEnabledContexts ≤ (dropLast _).length
    omega
  · intro x ctx hx
    obtain ⟨-, hx'⟩ := hback x ctx hx
    exact ⟨hx, hen ▸ (h.front x ctx hx').front⟩
  · intro x ctx hx
    have hregisters := h.registers x ctx (hback x ctx hx).2
    exact ⟨hregisters.unique, hregisters.nonempty, hregisters.there⟩
  · exact fun x ctx r hx => h.apart x ctx r (hback x ctx hx).2
  · rw [hwant]
    exact h.hooked
  · rw [hen]
    refine h.count.trans (Finset.sum_congr rfl fun x hx => ?_)
    rw [rcapsOn, rcapsOn, hothers x fun heq => hdisabled (heq ▸ List.mem_toFinset.mp hx)]

theorem Turned.trans {s1 s2 : State} {ctx ctx' : Option Context}
    (h : Turned s s1 c ctx) (h' : Turned s1 s2 c ctx') : Turned s s2 c ctx' :=
  ⟨h'.inv, h'.here, fun x hx => (h'.others x hx).trans (h.others x hx),
    fun k => (h'.clients k).trans (h.clients k)⟩

theorem Inv.deleteContext {ctx : Context} (h : Inv s) (hctx : s.contexts c = some ctx) :
    ∃ s', recordDeleteContext s c = some s' ∧ Turned s s' c none := by
  obtain ⟨s1, hs1, hturned1⟩ := h.disableContext hctx
  have h1 := hturned1.inv
  obtain ⟨s2, hs2, hlocal2, hheld2⟩ := (h1.held hturned1.here).deleteAll
  have hturned2 : Turned s1 s2 c (some ⟨none, []⟩) :=
    h1.turn_list hturned1.here hlocal2 hheld2 fun x hx => absurd hx not_mem_nil
  have hin : c ∈ s2.ppAllContexts := hturned2.inv.mem_all hturned2.here
  refine ⟨removedContext s2 c, ?_, (hturned1.trans hturned2).trans
    (hturned2.inv.removeContext hturned2.here)⟩
  rw [recordDeleteContext, hs1, bind_some, hturned1.here, bind_some]
  dsimp only at hs2 ⊢
  rw [hs2, map_some, if_pos hin]
  rfl

end Xfront.Record.Hooks
