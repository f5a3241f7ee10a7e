import Xfront.Record.Hooks

/-!
# The registrations of one context

What the operations on one context do to its registrations, whether the context is enabled or
not: a client stays on at most one of them, none is left without clients, and the hooks follow.
-/

namespace Xfront.Record.Hooks

open List

structure Local (s s' : State) (c : Nat) : Prop where
  others : ∀ c', c' ≠ c → s'.contexts c' = s.contexts c'
  all : s'.ppAllContexts = s.ppAllContexts
  count : s'.numEnabledContexts = s.numEnabledContexts
  clients : ∀ k, (s'.clients k).map (fun cl => (cl.state, cl.vector)) =
    (s.clients k).map fun cl => (cl.state, cl.vector)

variable {s s' : State}

theorem HooksOnly.local (h : HooksOnly s s') (c : Nat) : Local s s' c :=
  ⟨fun _ _ => by rw [h.contexts], h.all, h.count, h.clients⟩

theorem Local.refl (s : State) (c : Nat) : Local s s c := ⟨fun _ _ => rfl, rfl, rfl, fun _ => rfl⟩

variable {c : Nat}

theorem Local.trans {s'' : State} (h : Local s s' c) (h' : Local s' s'' c) : Local s s'' c :=
  ⟨fun c' hc => (h'.others c' hc).trans (h.others c' hc), h'.all.trans h.all,
    h'.count.trans h.count, fun k => (h'.clients k).trans (h.clients k)⟩

theorem local_setContext (s : State) (c : Nat) (ctx : Option Context) :
    Local s (s.setContext c ctx) c :=
  ⟨fun _ hc => s.setContext_of_ne hc ctx, rfl, rfl, fun _ => rfl⟩

section

variable {s s' : State} {c : Nat}

theorem Local.enabled (h : Local s s' c) : s'.enabled = s.enabled := by
  rw [State.enabled, State.enabled, h.all, h.count]

theorem Local.isSome (h : Local s s' c) (k : Nat) :
    (s'.clients k).isSome = (s.clients k).isSome := by
  have hk := congrArg Option.isSome (h.clients k)
  rwa [Option.isSome_map, Option.isSome_map] at hk

theorem Local.othersWant (h : Local s s' c) : OthersWant s' c = OthersWant s c := by
  funext k ivs
  refine propext (exists_congr fun c' => ?_)
  rw [h.enabled]
  refine and_congr_right fun _ => and_congr_right fun hne => ?_
  rw [setOnContext, setOnContext, h.others c' hne]

end

/-- A context whose registrations have each client once, and none without clients. -/
structure Registers (s : State) (l : List Registration) : Prop where
  unique : (specsOf l).Nodup
  nonempty : ∀ pRCAP ∈ l, pRCAP.pClientIDs ≠ []
  there : ∀ k, .client k ∈ specsOf l → (s.clients k).isSome = true

variable {l : List Registration}

theorem Local.registers (h : Local s s' c) (hl : Registers s l) : Registers s' l :=
  ⟨hl.unique, hl.nonempty, fun k hk => (h.isSome k).trans (hl.there k hk)⟩

def Context.Wants (ctx : Context) : Wanted := fun k ivs =>
  ctx.pRecordingClient.isSome = true ∧ ListWants ctx.pListOfRCAP k ivs

def Context.share (ctx : Context) : Nat :=
  if ctx.pRecordingClient.isSome then ctx.pListOfRCAP.length else 0

/-- A context in a state whose other enabled contexts have `n` registrations. -/
structure Held (s : State) (c : Nat) (ctx : Context) (n : Nat) : Prop where
  here : s.contexts c = some ctx
  registers : Registers s ctx.pListOfRCAP
  hooked : Hooked s fun k ivs => OthersWant s c k ivs ∨ ctx.Wants k ivs
  count : s.numEnabledRCAPs = n + ctx.share

section

variable {s : State} {c n : Nat} {ctx : Context}

theorem held_setContext {ctx' : Context} (hregisters : Registers s ctx'.pListOfRCAP)
    (hooked : Hooked s fun k ivs => OthersWant s c k ivs ∨ ctx'.Wants k ivs)
    (hcount : s.numEnabledRCAPs = n + ctx'.share) : Held (s.setContext c (some ctx')) c ctx' n := by
  have hlocal := local_setContext s c (some ctx')
  refine ⟨s.setContext_self c _, hlocal.registers hregisters, ?_, hcount⟩
  rw [hlocal.othersWant]
  exact hooked

theorem Held.hookedAt (h : Held s c ctx n) (hen : ctx.pRecordingClient.isSome = true) :
    HookedAt s c ctx.pListOfRCAP :=
  Hooked.congr h.hooked fun k ivs => by simp only [Context.Wants, hen, true_and]

theorem share_enabled (hen : ctx.pRecordingClient.isSome = true) :
    ctx.share = ctx.pListOfRCAP.length := if_pos hen

theorem share_disabled (hen : ¬ ctx.pRecordingClient.isSome = true) : ctx.share = 0 := if_neg hen

theorem share_of_length {l : List Registration} (ctx : Context)
    (h : l.length = ctx.pListOfRCAP.length) : { ctx with pListOfRCAP := l }.share = ctx.share := by
  simp only [Context.share, h]

end

variable {spec : ClientSpec} {pos : Nat}

theorem recordFindClient_some {i : Nat} (h : recordFindClient spec l = some (i, pos)) :
    ∃ a pRCAP b, l = a ++ pRCAP :: b ∧ a.length = i ∧ pRCAP.pClientIDs[pos]? = some spec := by
  induction l generalizing i with
  | nil => cases h
  | cons pRCAP rest ih =>
    rw [recordFindClient] at h
    split at h
    · rename_i hmem
      cases h
      exact ⟨[], pRCAP, rest, rfl, rfl, getElem?_idxOf hmem⟩
    · obtain ⟨⟨i', pos'⟩, hfind, heq⟩ := Option.map_eq_some_iff.mp h
      cases heq
      obtain ⟨a, pRCAP', b, rfl, hlen, hget⟩ := ih hfind
      exact ⟨pRCAP :: a, pRCAP', b, rfl, by rw [length_cons, hlen], hget⟩

theorem recordFindClient_none : recordFindClient spec l = none ↔ spec ∉ specsOf l := by
  induction l with
  | nil => simp [recordFindClient, specsOf]
  | cons pRCAP rest ih =>
    rw [recordFindClient, specsOf, flatMap_cons, mem_append, not_or]
    by_cases hmem : spec ∈ pRCAP.pClientIDs
    · simp [hmem]
    · rw [if_neg hmem, Option.map_eq_none_iff, ih]
      exact (and_iff_right hmem).symm

variable {a b : List Registration} {pRCAP : Registration} {k : Nat}

theorem listWants_of_mem
    (hunique : (specsOf (a ++ pRCAP :: b)).Nodup) (hin : .client k ∈ pRCAP.pClientIDs)
    (ivs : List RecordSetInterval) :
    ListWants (a ++ pRCAP :: b) k ivs ↔ pRCAP.pRequestMajorOpSet = some ivs := by
  rw [specsOf, flatMap_append, flatMap_cons, nodup_append, nodup_append] at hunique
  obtain ⟨-, ⟨-, -, hb⟩, ha⟩ := hunique
  have hina : ¬ ListWants a k ivs := fun hw =>
    ha _ hw.mem _ (mem_append_left _ hin) rfl
  have hinb : ¬ ListWants b k ivs := fun hw => hb _ hin _ hw.mem rfl
  rw [listWants_append, listWants_cons, or_iff_right hina, or_iff_left hinb]
  exact and_iff_right hin

theorem setOnList_iff (hunique : (specsOf l).Nodup) {ivs : List RecordSetInterval} :
    ((recordFindClient (.client k) l).bind fun (i, _) =>
        (l[i]?).bind (·.pRequestMajorOpSet)) = some ivs ↔ ListWants l k ivs := by
  cases hfind : recordFindClient (.client k) l with
  | none =>
    rw [Option.bind_none]
    exact iff_of_false (by simp) fun hw => recordFindClient_none.mp hfind hw.mem
  | some found =>
    obtain ⟨i, pos⟩ := found
    obtain ⟨a, pRCAP, b, rfl, rfl, hget⟩ := recordFindClient_some hfind
    rw [Option.bind_some, listWants_of_mem hunique (mem_of_getElem? hget)]
    dsimp only
    rw [List.getElem?_append_right (le_refl _), Nat.sub_self, List.getElem?_cons_zero,
      Option.bind_some]

theorem set_last_perm {α : Type} {l : List α} {i : Nat} {x last : α} (h : l[i]? = some x)
    (hlast : l.getLast? = some last) : (x :: (l.set i last).dropLast).Perm l := by
  rcases eq_nil_or_concat l with rfl | ⟨init, last', rfl⟩
  · cases h
  · rw [concat_eq_append] at h hlast ⊢
    rw [List.getLast?_concat, Option.some.injEq] at hlast
    subst hlast
    by_cases hi : i < init.length
    · rw [List.getElem?_append_left hi] at h
      obtain ⟨a, b, rfl, rfl⟩ : ∃ a b, init = a ++ x :: b ∧ a.length = i := by
        refine ⟨init.take i, init.drop (i + 1), ?_, length_take_of_le (le_of_lt hi)⟩
        obtain ⟨_, hget⟩ := List.getElem?_eq_some_iff.mp h
        rw [← hget, getElem_cons_drop, take_append_drop]
      rw [set_append_left _ _ hi, dropLast_concat,
        set_append_right _ _ (le_refl _), Nat.sub_self, set_cons_zero]
      have hleft : (x :: (a ++ last' :: b)).Perm (x :: last' :: (a ++ b)) :=
        List.Perm.cons _ perm_middle
      have hright : (a ++ x :: b ++ [last']).Perm (last' :: x :: (a ++ b)) :=
        (perm_append_singleton _ _).trans (List.Perm.cons _ perm_middle)
      exact hleft.trans ((List.Perm.swap _ _ _).trans hright.symm)
    · have hend : i = init.length := by
        have hlt := (List.getElem?_eq_some_iff.mp h).1
        rw [length_append, length_singleton] at hlt
        omega
      subst hend
      rw [List.getElem?_append_right (le_refl _), Nat.sub_self, List.getElem?_cons_zero,
        Option.some.injEq] at h
      rw [set_append_right _ _ (le_refl _), Nat.sub_self, set_cons_zero, dropLast_concat, h]
      exact (perm_append_singleton _ _).symm

theorem removeAt_perm {ids : List ClientSpec}
    (h : ids[pos]? = some spec) : (spec :: removeAt ids pos).Perm ids := by
  have hne : ids ≠ [] := by
    rintro rfl
    cases h
  obtain ⟨last, hlast⟩ := Option.ne_none_iff_exists'.mp fun hnone =>
    hne (getLast?_eq_none_iff.mp hnone)
  rw [removeAt, hlast]
  exact set_last_perm h hlast

def without (pRCAP : Registration) (pos : Nat) : List Registration :=
  if removeAt pRCAP.pClientIDs pos = [] then []
  else [{ pRCAP with pClientIDs := removeAt pRCAP.pClientIDs pos }]

theorem specsOf_without (pRCAP : Registration) (pos : Nat) :
    specsOf (without pRCAP pos) = removeAt pRCAP.pClientIDs pos := by
  unfold without
  split
  · rename_i hnil
    rw [hnil]
    rfl
  · exact append_nil _

theorem specsOf_deleted (h : pRCAP.pClientIDs[pos]? = some spec) :
    (spec :: specsOf (a ++ without pRCAP pos ++ b)).Perm (specsOf (a ++ pRCAP :: b)) := by
  have hnew : specsOf (a ++ without pRCAP pos ++ b) =
      specsOf a ++ (removeAt pRCAP.pClientIDs pos ++ specsOf b) := by
    rw [specsOf, flatMap_append, flatMap_append, append_assoc]
    congr 2
    exact specsOf_without pRCAP pos
  have hold : specsOf (a ++ pRCAP :: b) = specsOf a ++ (pRCAP.pClientIDs ++ specsOf b) := by
    rw [specsOf, flatMap_append, flatMap_cons]
    rfl
  rw [hnew, hold]
  refine perm_middle.symm.trans (List.Perm.append_left _ ?_)
  exact (removeAt_perm h).append_right _

theorem Registers.deleted (h : Registers s (a ++ pRCAP :: b))
    (hget : pRCAP.pClientIDs[pos]? = some spec) : Registers s (a ++ without pRCAP pos ++ b) ∧
      spec ∉ specsOf (a ++ without pRCAP pos ++ b) ∧
      ∀ x, x ∈ specsOf (a ++ without pRCAP pos ++ b) ↔ x ∈ specsOf (a ++ pRCAP :: b) ∧ x ≠ spec := by
  have hperm := specsOf_deleted (a := a) (b := b) hget
  obtain ⟨hnot, hnodup⟩ := nodup_cons.mp (hperm.nodup_iff.mpr h.unique)
  have hmem : ∀ x, x ∈ specsOf (a ++ without pRCAP pos ++ b) ↔
      x ∈ specsOf (a ++ pRCAP :: b) ∧ x ≠ spec := by
    intro x
    rw [← hperm.mem_iff, mem_cons]
    refine ⟨fun hx => ⟨.inr hx, fun heq => hnot (heq ▸ hx)⟩, fun hx => hx.1.resolve_left hx.2⟩
  refine ⟨⟨hnodup, fun r hr => ?_, fun k hk => h.there k ((hmem _).mp hk).1⟩, hnot, hmem⟩
  rcases mem_append.mp hr with hr | hr
  · rcases mem_append.mp hr with hr | hr
    · exact h.nonempty r (mem_append_left _ hr)
    · unfold without at hr
      split at hr
      · cases hr
      · rename_i hne
        rw [mem_singleton] at hr
        subst hr
        exact hne
  · exact h.nonempty r (mem_append_right _ (mem_cons_of_mem _ hr))

theorem listWants_deleted (hunique : (specsOf (a ++ pRCAP :: b)).Nodup)
    (hget : pRCAP.pClientIDs[pos]? = some spec) (k : Nat) (ivs : List RecordSetInterval) :
    ListWants (a ++ without pRCAP pos ++ b) k ivs ↔
      ListWants (a ++ pRCAP :: b) k ivs ∧ spec ≠ .client k := by
  have hperm := specsOf_deleted (a := a) (b := b) hget
  obtain ⟨hnot, -⟩ := nodup_cons.mp (hperm.nodup_iff.mpr hunique)
  have hids := removeAt_perm hget
  have hleft : ListWants (without pRCAP pos) k ivs ↔
      .client k ∈ removeAt pRCAP.pClientIDs pos ∧ pRCAP.pRequestMajorOpSet = some ivs := by
    unfold without
    split
    · rename_i hnil
      simp [hnil, ListWants]
    · simp [ListWants, RCAPWants]
  constructor
  · intro hw
    have hne : spec ≠ .client k := fun heq => hnot (heq ▸ hw.mem)
    refine ⟨?_, hne⟩
    rw [listWants_append, listWants_append, hleft] at hw
    rw [listWants_append, listWants_cons]
    rcases hw with (hw | ⟨hin, hset⟩) | hw
    · exact .inl hw
    · exact .inr (.inl ⟨hids.mem_iff.mp (mem_cons_of_mem _ hin), hset⟩)
    · exact .inr (.inr hw)
  · rintro ⟨hw, hne⟩
    rw [listWants_append, listWants_append, hleft]
    rw [listWants_append, listWants_cons] at hw
    rcases hw with hw | ⟨hin, hset⟩ | hw
    · exact .inl (.inl hw)
    · have hin' := (mem_cons.mp (hids.mem_iff.mpr hin)).resolve_left fun heq => hne heq.symm
      exact .inl (.inr ⟨hin', hset⟩)
    · exact .inr hw

theorem uninstallOneClient_hooked (h : HookedAt s c (a ++ pRCAP :: b))
    (hregisters : Registers s (a ++ pRCAP :: b)) (hget : pRCAP.pClientIDs[pos]? = some spec)
    (hcount : s.numEnabledRCAPs ≠ 0) :
    ∃ s', uninstallOneClient c pRCAP.pRequestMajorOpSet s spec = some s' ∧
      HookedAt s' c (a ++ without pRCAP pos ++ b) ∧ HooksOnly s s' ∧
      s'.numEnabledRCAPs = s.numEnabledRCAPs := by
  have hdeleted := listWants_deleted hregisters.unique hget
  have hin := mem_of_getElem? hget
  obtain ⟨s', hs', hhooked, honly, hsame⟩ := uninstallClient_hooked
    (fun k ivs => OthersWant s c k ivs ∨ ListWants (a ++ without pRCAP pos ++ b) k ivs) c
    pRCAP.pRequestMajorOpSet spec h
    (by
      rintro k rfl
      refine hregisters.there k ?_
      exact mem_flatMap.mpr ⟨pRCAP, mem_append_right _ mem_cons_self, hin⟩)
    (by
      rintro k ivs rfl
      refine ⟨or_congr_right (listWants_of_mem hregisters.unique hin ivs), or_iff_left fun hw => ?_⟩
      exact ((hdeleted k ivs).mp hw).2 rfl)
    (fun k ivs hne => or_congr_right ((hdeleted k ivs).trans (and_iff_left hne)))
  refine ⟨s', ?_, ?_, honly, hsame⟩
  · rw [uninstallOneClient, hs', Option.bind_some, if_neg (hsame ▸ hcount)]
  · rw [HookedAt, honly.othersWant]
    exact hhooked

variable {n : Nat} {ctx : Context}

theorem Held.deleteClientFromRCAP (h : Held s c ctx n)
    (hlist : ctx.pListOfRCAP = a ++ pRCAP :: b) (hget : pRCAP.pClientIDs[pos]? = some spec) :
    ∃ s', recordDeleteClientFromRCAP s c a.length pos = some s' ∧ Local s s' c ∧
      Held s' c { ctx with pListOfRCAP := a ++ without pRCAP pos ++ b } n := by
  have hregisters := h.registers
  rw [hlist] at hregisters
  have hthere : ctx.pListOfRCAP[a.length]? = some pRCAP := by
    rw [hlist, List.getElem?_append_right (le_refl _), Nat.sub_self, List.getElem?_cons_zero]
  have herase : without pRCAP pos = [] → ctx.pListOfRCAP.eraseIdx a.length =
      a ++ without pRCAP pos ++ b := by
    intro hnil
    rw [hlist, hnil, append_nil, eraseIdx_append_of_length_le (le_refl _),
      Nat.sub_self, eraseIdx_cons_zero]
  have hset : removeAt pRCAP.pClientIDs pos ≠ [] → ctx.pListOfRCAP.set a.length
      { pRCAP with pClientIDs := removeAt pRCAP.pClientIDs pos } = a ++ without pRCAP pos ++ b := by
    intro hne
    rw [hlist, set_append_right _ _ (le_refl _), Nat.sub_self, set_cons_zero,
      without, if_neg hne, append_assoc, singleton_append]
  obtain ⟨left, hleft⟩ : ∃ left : Context,
      left = { ctx with pListOfRCAP := a ++ without pRCAP pos ++ b } := ⟨_, rfl⟩
  rw [← hleft]
  have hlefts : Registers s left.pListOfRCAP := hleft ▸ (hregisters.deleted hget).1
  rw [recordDeleteClientFromRCAP, h.here, Option.bind_some, hthere, Option.bind_some, hget,
    Option.bind_some]
  dsimp only
  by_cases hen : ctx.pRecordingClient.isSome = true
  · -- the client's hooks go first
    have hcount := h.count
    rw [share_enabled hen, hlist, length_append, length_cons] at hcount
    obtain ⟨s1, hs1, h1, honly1, hcount1⟩ := uninstallOneClient_hooked (hlist ▸ h.hookedAt hen)
      hregisters hget (by omega)
    have hlefthooked : Hooked s1 fun k ivs => OthersWant s1 c k ivs ∨ left.Wants k ivs :=
      Hooked.congr h1 fun k ivs => by simp only [hleft, Context.Wants, hen, true_and]
    have hlefts1 : Registers s1 left.pListOfRCAP := (honly1.local c).registers hlefts
    have hshare : left.share = a.length + (without pRCAP pos).length + b.length := by
      rw [share_enabled (by rw [hleft]; exact hen), hleft, length_append, length_append]
    rw [if_pos hen, hs1, Option.bind_some]
    by_cases hnil : removeAt pRCAP.pClientIDs pos = []
    · have hwithout : without pRCAP pos = [] := if_pos hnil
      have hne : s1.numEnabledRCAPs ≠ 0 := by omega
      rw [if_pos hnil, if_pos hen, recordUninstallHooks]
      simp only [foldlM_nil, Option.pure_def, Option.bind_some]
      rw [if_neg hne, Option.map_some, herase hwithout, ← hleft]
      refine ⟨_, rfl, (honly1.local c).trans ?_, held_setContext
        ⟨hlefts1.unique, hlefts1.nonempty, hlefts1.there⟩ hlefthooked ?_⟩
      · exact ⟨fun c' hc' => State.setContext_of_ne _ hc' _, rfl, rfl, fun _ => rfl⟩
      · rw [hwithout, length_nil] at hshare
        show s1.numEnabledRCAPs - 1 = n + left.share
        omega
    · have hwithout : (without pRCAP pos).length = 1 := by rw [without, if_neg hnil]; rfl
      rw [if_neg hnil, hset hnil, ← hleft]
      refine ⟨_, rfl, (honly1.local c).trans (local_setContext _ _ _),
        held_setContext hlefts1 hlefthooked ?_⟩
      omega
  · have hsame : Hooked s fun k ivs => OthersWant s c k ivs ∨ left.Wants k ivs :=
      Hooked.congr h.hooked fun k ivs => by
        simp only [hleft, Context.Wants, hen, Bool.false_eq_true, false_and]
    have hcount : s.numEnabledRCAPs = n + left.share := by
      rw [h.count, share_disabled hen, share_disabled (by rw [hleft]; exact hen)]
    have hheld := held_setContext hlefts hsame hcount
    refine ⟨s.setContext c (some left), ?_, local_setContext _ _ _, hheld⟩
    rw [if_neg hen, Option.bind_some]
    by_cases hnil : removeAt pRCAP.pClientIDs pos = []
    · rw [if_pos hnil, if_neg hen, Option.map_some, herase (if_pos hnil), hleft]
    · rw [if_neg hnil, hset hnil, hleft]

theorem Held.deleteClientFromContext (h : Held s c ctx n) (spec : ClientSpec) :
    ∃ s' l, recordDeleteClientFromContext c s spec = some s' ∧ Local s s' c ∧
      Held s' c { ctx with pListOfRCAP := l } n ∧
      ∀ x, x ∈ specsOf l ↔ x ∈ specsOf ctx.pListOfRCAP ∧ x ≠ spec := by
  rw [recordDeleteClientFromContext, h.here, Option.bind_some]
  cases hfind : recordFindClient spec ctx.pListOfRCAP with
  | none =>
    have hnot := recordFindClient_none.mp hfind
    exact ⟨s, ctx.pListOfRCAP, rfl, Local.refl s c, h,
      fun x => (and_iff_left_of_imp fun hx (heq : x = spec) => hnot (heq ▸ hx)).symm⟩
  | some found =>
    obtain ⟨i, pos⟩ := found
    obtain ⟨a, pRCAP, b, hlist, rfl, hget⟩ := recordFindClient_some hfind
    obtain ⟨s', hs', hlocal, hheld⟩ := h.deleteClientFromRCAP hlist hget
    refine ⟨s', _, hs', hlocal, hheld, ?_⟩
    rw [hlist]
    exact (Registers.deleted (hlist ▸ h.registers) hget).2.2

theorem Held.deleteClients (h : Held s c ctx n) (specs : List ClientSpec) :
    ∃ s' l, specs.foldlM (recordDeleteClientFromContext c) s = some s' ∧ Local s s' c ∧
      Held s' c { ctx with pListOfRCAP := l } n ∧
      ∀ x, x ∈ specsOf l ↔ x ∈ specsOf ctx.pListOfRCAP ∧ x ∉ specs := by
  induction specs generalizing s ctx with
  | nil =>
    exact ⟨s, ctx.pListOfRCAP, rfl, Local.refl s c, h, fun x => (and_iff_left not_mem_nil).symm⟩
  | cons spec specs ih =>
    obtain ⟨s1, l1, hs1, hlocal1, h1, hmem1⟩ := h.deleteClientFromContext spec
    obtain ⟨s2, l2, hs2, hlocal2, h2, hmem2⟩ := ih h1
    refine ⟨s2, l2, ?_, hlocal1.trans hlocal2, h2, fun x => ?_⟩
    · rw [foldlM_cons, hs1]
      exact hs2
    · rw [hmem2, hmem1, and_assoc, mem_cons, not_or]

theorem Held.addClientToRCAP (h : Held s c ctx n) (hlist : ctx.pListOfRCAP = a ++ pRCAP :: b)
    (hnew : .client k ∉ specsOf ctx.pListOfRCAP) (hthere : (s.clients k).isSome = true) :
    ∃ s' l, recordAddClientToRCAP s c a.length (.client k) = some s' ∧ Local s s' c ∧
      Held s' c { ctx with pListOfRCAP := l } n ∧
      ∀ x, x ∈ specsOf l ↔ x ∈ specsOf ctx.pListOfRCAP ∨ x = .client k := by
  obtain ⟨more, hmore⟩ : ∃ more : Registration,
      more = { pRCAP with pClientIDs := pRCAP.pClientIDs ++ [.client k] } := ⟨_, rfl⟩
  have hget : ctx.pListOfRCAP[a.length]? = some pRCAP := by
    rw [hlist, List.getElem?_append_right (le_refl _), Nat.sub_self, List.getElem?_cons_zero]
  have hset : ctx.pListOfRCAP.set a.length more = a ++ more :: b := by
    rw [hlist, set_append_right _ _ (le_refl _), Nat.sub_self, set_cons_zero]
  have hperm : (specsOf (a ++ more :: b)).Perm (.client k :: specsOf ctx.pListOfRCAP) := by
    have hnewspecs : specsOf (a ++ more :: b) =
        specsOf a ++ (pRCAP.pClientIDs ++ .client k :: specsOf b) := by
      rw [specsOf, flatMap_append, flatMap_cons, hmore, append_assoc, singleton_append]
      rfl
    have holdspecs : specsOf ctx.pListOfRCAP = specsOf a ++ (pRCAP.pClientIDs ++ specsOf b) := by
      rw [hlist, specsOf, flatMap_append, flatMap_cons]
      rfl
    rw [hnewspecs, holdspecs]
    exact (List.Perm.append_left _ perm_middle).trans perm_middle
  have hwants : ∀ k' ivs, ListWants (a ++ more :: b) k' ivs ↔ ListWants ctx.pListOfRCAP k' ivs ∨
        ClientSpec.client k = .client k' ∧ pRCAP.pRequestMajorOpSet = some ivs := by
    intro k' ivs
    have hone : RCAPWants more k' ivs ↔ RCAPWants pRCAP k' ivs ∨
        ClientSpec.client k = .client k' ∧ pRCAP.pRequestMajorOpSet = some ivs := by
      rw [hmore, RCAPWants, RCAPWants, mem_append, mem_singleton, or_and_right,
        eq_comm (a := ClientSpec.client k)]
    rw [hlist, listWants_append, listWants_cons, listWants_append, listWants_cons, hone]
    tauto
  have hregisters : Registers s (a ++ more :: b) := by
    have hold := hlist ▸ h.registers
    refine ⟨hperm.nodup_iff.mpr (nodup_cons.mpr ⟨hnew, h.registers.unique⟩), ?_, ?_⟩
    · intro r hr
      rcases mem_append.mp hr with hr | hr
      · exact hold.nonempty r (mem_append_left _ hr)
      · rcases mem_cons.mp hr with rfl | hr
        · rw [hmore]
          exact append_ne_nil_of_right_ne_nil _ (cons_ne_nil _ _)
        · exact hold.nonempty r (mem_append_right _ (mem_cons_of_mem _ hr))
    · intro k' hk'
      rcases mem_cons.mp (hperm.mem_iff.mp hk') with heq | hk'
      · cases heq
        exact hthere
      · exact h.registers.there k' hk'
  have hmem : ∀ x, x ∈ specsOf (a ++ more :: b) ↔ x ∈ specsOf ctx.pListOfRCAP ∨ x = .client k :=
    fun x => hperm.mem_iff.trans (mem_cons.trans or_comm)
  have hlength : (a ++ more :: b).length = ctx.pListOfRCAP.length := by
    rw [hlist, length_append, length_append, length_cons, length_cons]
  have hlocal := local_setContext s c (some { ctx with pListOfRCAP := a ++ more :: b })
  rw [recordAddClientToRCAP, h.here, Option.bind_some, hget, Option.map_some]
  dsimp only
  rw [← hmore, hset]
  by_cases hen : ctx.pRecordingClient.isSome = true
  · rw [if_pos hen]
    obtain ⟨h1, honly, hcount1⟩ := installClient_hooked
      (s := s.setContext c (some { ctx with pListOfRCAP := a ++ more :: b })) h.hooked
      pRCAP.pRequestMajorOpSet (.client k)
    refine ⟨_, _, rfl, hlocal.trans (honly.local c), ⟨?_, ?_, ?_, ?_⟩, hmem⟩
    · rw [honly.contexts, State.setContext_self]
    · exact (hlocal.trans (honly.local c)).registers hregisters
    · rw [(hlocal.trans (honly.local c)).othersWant]
      refine h1.congr fun k' ivs => ?_
      simp only [Context.Wants, hen, true_and, hwants, or_assoc]
    · rw [hcount1, share_of_length _ hlength]
      exact h.count
  · rw [if_neg hen]
    refine ⟨_, _, rfl, hlocal, held_setContext hregisters ?_ ?_, hmem⟩
    · refine Hooked.congr h.hooked fun k' ivs => ?_
      simp only [Context.Wants, hen, Bool.false_eq_true, false_and]
    · rw [share_of_length _ hlength]
      exact h.count

end Xfront.Record.Hooks
