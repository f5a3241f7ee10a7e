import Xfront.Record.Registered

/-!
# A whole context

A registration is linked to a context, the hooks of all its registrations are installed or
taken back, and all registrations are deleted.
-/

namespace Xfront.Record.Hooks

open List

section

variable {s : State} {c n : Nat} {ctx : Context}

theorem Held.link (h : Held s c ctx n) (pRCAP : Registration) (hne : pRCAP.pClientIDs ≠ [])
    (hnodup : pRCAP.pClientIDs.Nodup) (hnew : ∀ x ∈ pRCAP.pClientIDs, x ∉ specsOf ctx.pListOfRCAP)
    (hthere : ∀ k, .client k ∈ pRCAP.pClientIDs → (s.clients k).isSome = true) :
    ∃ s' ctx', ctx' = { ctx with pListOfRCAP := pRCAP :: ctx.pListOfRCAP } ∧
      (if ctx.pRecordingClient.isSome then recordInstallHooks (s.setContext c (some ctx')) pRCAP
        else s.setContext c (some ctx')) = s' ∧ Local s s' c ∧ Held s' c ctx' n := by
  obtain ⟨ctx', hctx'⟩ : ∃ ctx' : Context,
      ctx' = { ctx with pListOfRCAP := pRCAP :: ctx.pListOfRCAP } := ⟨_, rfl⟩
  refine ⟨_, ctx', hctx', rfl, ?_⟩
  have hlist : ctx'.pListOfRCAP = pRCAP :: ctx.pListOfRCAP := by rw [hctx']
  have hclient : ctx'.pRecordingClient = ctx.pRecordingClient := by rw [hctx']
  have hspecs : specsOf ctx'.pListOfRCAP = pRCAP.pClientIDs ++ specsOf ctx.pListOfRCAP := by
    rw [hlist, specsOf, flatMap_cons]
    rfl
  have hregisters : Registers s ctx'.pListOfRCAP := by
    refine ⟨?_, fun r hr => ?_, fun k hk => ?_⟩
    · rw [hspecs, nodup_append]
      exact ⟨hnodup, h.registers.unique, fun x hx y hy heq => hnew x hx (heq ▸ hy)⟩
    · rw [hlist] at hr
      rcases mem_cons.mp hr with rfl | hr
      · exact hne
      · exact h.registers.nonempty r hr
    · rw [hspecs] at hk
      exact (mem_append.mp hk).elim (hthere k) (h.registers.there k)
  have hlocal := local_setContext s c (some ctx')
  by_cases hen : ctx.pRecordingClient.isSome = true
  · rw [if_pos hen]
    obtain ⟨h1, honly, hcount1⟩ :=
      recordInstallHooks_hooked (s := s.setContext c (some ctx')) h.hooked pRCAP
    have hlocal' := hlocal.trans (honly.local c)
    refine ⟨hlocal', ⟨?_, hlocal'.registers hregisters, ?_, ?_⟩⟩
    · rw [honly.contexts, State.setContext_self]
    · rw [hlocal'.othersWant]
      refine h1.congr fun k ivs => ?_
      simp only [Context.Wants, hclient, hen, true_and, hlist, listWants_cons]
      tauto
    · have hcount := h.count
      rw [share_enabled hen] at hcount
      rw [hcount1, share_enabled (hclient ▸ hen), hlist, length_cons, ← add_assoc]
      exact congrArg (· + 1) hcount
  · rw [if_neg hen]
    refine ⟨hlocal, held_setContext hregisters ?_ ?_⟩
    · refine Hooked.congr h.hooked fun k ivs => ?_
      simp only [Context.Wants, hclient, hen, Bool.false_eq_true, false_and]
    · rw [h.count, share_disabled hen, share_disabled (hclient ▸ hen)]

theorem foldl_recordInstallHooks {wanted : Wanted} (h : Hooked s wanted) (l : List Registration) :
    Hooked (l.foldl recordInstallHooks s) (fun k ivs => wanted k ivs ∨ ListWants l k ivs) ∧
      HooksOnly s (l.foldl recordInstallHooks s) ∧
      (l.foldl recordInstallHooks s).numEnabledRCAPs = s.numEnabledRCAPs + l.length := by
  induction l generalizing s wanted with
  | nil => exact ⟨h.congr fun k ivs => by simp [ListWants], HooksOnly.refl s, rfl⟩
  | cons pRCAP l ih =>
    obtain ⟨h1, honly1, hcount1⟩ := recordInstallHooks_hooked h pRCAP
    obtain ⟨h2, honly2, hcount2⟩ := ih h1
    refine ⟨h2.congr fun k ivs => ?_, honly1.trans honly2, ?_⟩
    · rw [listWants_cons, or_assoc]
    · rw [foldl_cons, hcount2, hcount1, length_cons]
      omega

theorem Held.enable (h : Held s c ctx n) (hen : ctx.pRecordingClient = none) (client : Nat) :
    ∃ s' ctx', ctx' = { ctx with pRecordingClient := some client } ∧
      (ctx.pListOfRCAP.foldl recordInstallHooks s).setContext c (some ctx') = s' ∧
      Local s s' c ∧ Held s' c ctx' n := by
  obtain ⟨ctx', hctx'⟩ : ∃ ctx' : Context,
      ctx' = { ctx with pRecordingClient := some client } := ⟨_, rfl⟩
  refine ⟨_, ctx', hctx', rfl, ?_⟩
  have hdisabled : ¬ ctx.pRecordingClient.isSome = true := by rw [hen]; simp
  have henabled : ctx'.pRecordingClient.isSome = true := by rw [hctx']; rfl
  have hlist : ctx'.pListOfRCAP = ctx.pListOfRCAP := by rw [hctx']
  obtain ⟨h1, honly, hcount1⟩ := foldl_recordInstallHooks h.hooked ctx.pListOfRCAP
  have hlocal := honly.local c
  refine ⟨hlocal.trans (local_setContext _ _ _), held_setContext ?_ ?_ ?_⟩
  · rw [hlist]
    exact hlocal.registers h.registers
  · rw [hlocal.othersWant]
    refine h1.congr fun k ivs => ?_
    simp only [Context.Wants, henabled, hdisabled, true_and, hlist, Bool.false_eq_true, false_and,
      or_false]
  · rw [hcount1, h.count, share_disabled hdisabled, share_enabled henabled, hlist]
    omega

theorem foldlM_recordUninstallHooks {l : List Registration} (h : HookedAt s c l)
    (hregisters : Registers s l) (hcount : s.numEnabledRCAPs = n + l.length) :
    ∃ s', l.foldlM (fun s pRCAP => recordUninstallHooks s c pRCAP) s = some s' ∧
      HookedAt s' c [] ∧ HooksOnly s s' ∧ s'.numEnabledRCAPs = n := by
  induction l generalizing s with
  | nil => exact ⟨s, rfl, h, HooksOnly.refl s, hcount⟩
  | cons pRCAP l ih =>
    rw [length_cons] at hcount
    obtain ⟨s1, hs1, h1, honly1, hcount1⟩ := recordUninstallHooks_hooked (n := n + l.length) h
      hregisters.unique
      (fun k hk => hregisters.there k (mem_flatMap.mpr ⟨pRCAP, mem_cons_self, hk⟩))
      (by omega)
    have hrest : Registers s1 l := by
      refine (honly1.local c).registers ⟨?_, ?_, ?_⟩
      · have hunique := hregisters.unique
        rw [specsOf, flatMap_cons] at hunique
        exact (nodup_append.mp hunique).2.1
      · exact fun r hr => hregisters.nonempty r (mem_cons_of_mem _ hr)
      · intro k hk
        refine hregisters.there k ?_
        rw [specsOf, flatMap_cons]
        exact mem_append_right _ hk
    obtain ⟨s2, hs2, h2, honly2, hcount2⟩ := ih h1 hrest hcount1
    refine ⟨s2, ?_, h2, honly1.trans honly2, hcount2⟩
    rw [foldlM_cons, hs1]
    exact hs2

theorem Held.disable (h : Held s c ctx n) (hen : ctx.pRecordingClient.isSome = true) :
    ∃ s1 s' ctx', ctx' = { ctx with pRecordingClient := none } ∧
      ctx.pListOfRCAP.foldlM (fun s pRCAP => recordUninstallHooks s c pRCAP) s = some s1 ∧
      s1.setContext c (some ctx') = s' ∧ Local s s' c ∧ Held s' c ctx' n := by
  obtain ⟨ctx', hctx'⟩ : ∃ ctx' : Context, ctx' = { ctx with pRecordingClient := none } := ⟨_, rfl⟩
  have hdisabled : ¬ ctx'.pRecordingClient.isSome = true := by rw [hctx']; simp
  have hlist : ctx'.pListOfRCAP = ctx.pListOfRCAP := by rw [hctx']
  have hcount := h.count
  rw [share_enabled hen] at hcount
  obtain ⟨s1, hs1, h1, honly, hcount1⟩ :=
    foldlM_recordUninstallHooks (h.hookedAt hen) h.registers hcount
  have hlocal := honly.local c
  refine ⟨s1, _, ctx', hctx', hs1, rfl, hlocal.trans (local_setContext _ _ _),
    held_setContext ?_ ?_ ?_⟩
  · rw [hlist]
    exact hlocal.registers h.registers
  · refine Hooked.congr h1 fun k ivs => or_congr_right ?_
    simp [ListWants, Context.Wants, hdisabled]
  · rw [hcount1, share_disabled hdisabled, add_zero]

end

theorem length_removeAt {ids : List ClientSpec} {pos : Nat} (h : pos < ids.length) :
    (removeAt ids pos).length + 1 = ids.length :=
  (removeAt_perm (getElem?_eq_getElem h)).length_eq

theorem Held.deleteFirst {s : State} {c n m : Nat} {ctx : Context} {pRCAP : Registration}
    {rest : List Registration} (h : Held s c ctx n) (hlist : ctx.pListOfRCAP = pRCAP :: rest)
    (hlength : pRCAP.pClientIDs.length = m + 1) :
    ∃ s', ((range (m + 1)).reverse).foldlM
        (fun s position => recordDeleteClientFromRCAP s c 0 position) s = some s' ∧
      Local s s' c ∧ Held s' c { ctx with pListOfRCAP := rest } n := by
  induction m generalizing s ctx pRCAP with
  | zero =>
    have hlt : 0 < pRCAP.pClientIDs.length := by omega
    obtain ⟨s1, hs1, hlocal1, h1⟩ := h.deleteClientFromRCAP (a := []) hlist
      (getElem?_eq_getElem hlt)
    have hnil : without pRCAP 0 = [] :=
      if_pos (eq_nil_of_length_eq_zero (by have := length_removeAt hlt; omega))
    rw [hnil] at h1
    refine ⟨s1, ?_, hlocal1, h1⟩
    show (recordDeleteClientFromRCAP s c 0 0).bind some = some s1
    rw [show recordDeleteClientFromRCAP s c 0 0 = some s1 from hs1, Option.bind_some]
  | succ m ih =>
    have hlt : m + 1 < pRCAP.pClientIDs.length := by omega
    obtain ⟨s1, hs1, hlocal1, h1⟩ := h.deleteClientFromRCAP (a := []) hlist
      (getElem?_eq_getElem hlt)
    have hleft := length_removeAt hlt
    have hne : removeAt pRCAP.pClientIDs (m + 1) ≠ [] := by
      intro hnil
      rw [hnil, length_nil] at hleft
      omega
    rw [without, if_neg hne] at h1
    obtain ⟨s2, hs2, hlocal2, h2⟩ := ih h1 rfl (by dsimp only; omega)
    refine ⟨s2, ?_, hlocal1.trans hlocal2, h2⟩
    have hrange : (range (m + 1 + 1)).reverse = (m + 1) :: (range (m + 1)).reverse := by
      rw [range_succ, reverse_append, reverse_singleton, singleton_append]
    rw [hrange, foldlM_cons]
    show (recordDeleteClientFromRCAP s c 0 (m + 1)).bind _ = some s2
    rw [show recordDeleteClientFromRCAP s c 0 (m + 1) = some s1 from hs1, Option.bind_some]
    exact hs2

theorem Held.deleteAll {s : State} {c n : Nat} {ctx : Context} (h : Held s c ctx n) :
    ∃ s', ctx.pListOfRCAP.foldlM (deleteFirstRCAP c) s = some s' ∧ Local s s' c ∧
      Held s' c { ctx with pListOfRCAP := [] } n := by
  obtain ⟨l, hl⟩ : ∃ l, l = ctx.pListOfRCAP := ⟨_, rfl⟩
  rw [← hl]
  induction l generalizing s ctx with
  | nil => exact ⟨s, rfl, Local.refl s c, hl ▸ h⟩
  | cons pRCAP rest ih =>
    have hne : pRCAP.pClientIDs ≠ [] := h.registers.nonempty pRCAP (hl ▸ mem_cons_self)
    obtain ⟨m, hm⟩ := Nat.exists_eq_succ_of_ne_zero fun hz => hne (eq_nil_of_length_eq_zero hz)
    obtain ⟨s1, hs1, hlocal1, h1⟩ := h.deleteFirst hl.symm hm
    obtain ⟨s2, hs2, hlocal2, h2⟩ := ih h1 rfl
    refine ⟨s2, ?_, hlocal1.trans hlocal2, h2⟩
    rw [foldlM_cons, deleteFirstRCAP, hm, hs1]
    exact hs2

end Xfront.Record.Hooks
