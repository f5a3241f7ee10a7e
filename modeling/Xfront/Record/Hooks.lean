import Xfront.Record.Contexts

/-!
# The hooks of the clients

A client's request vector as the sets that want it: what installing and uninstalling the hooks
of a registration does to it, and that nothing else changes.
-/

namespace Xfront.Record.Hooks

open List Function

namespace State
variable (s : State)

theorem setClient_self (k : Nat) (cl : Option Client) : (s.setClient k cl).clients k = cl :=
  update_self ..

theorem setClient_of_ne {k k' : Nat} (h : k' ≠ k) (cl : Option Client) :
    (s.setClient k cl).clients k' = s.clients k' :=
  update_of_ne h ..

theorem setContext_self (c : Nat) (ctx : Option Context) : (s.setContext c ctx).contexts c = ctx :=
  update_self ..

theorem setContext_of_ne {c c' : Nat} (h : c' ≠ c) (ctx : Option Context) :
    (s.setContext c ctx).contexts c' = s.contexts c' :=
  update_of_ne h ..

end State

theorem hookInterval_apply (vector : Nat → Handler) (iv : RecordSetInterval) (j : Nat) :
    hookInterval vector iv j =
      if iv.first.toNat ≤ j ∧ j ≤ iv.last.toNat then .recordARequest else vector j := by
  have hfold : ∀ (l : List Nat) (vector : Nat → Handler),
      l.foldl (fun vector j => update vector j .recordARequest) vector j =
        if j ∈ l then .recordARequest else vector j := by
    intro l
    induction l with
    | nil => exact fun vector => (if_neg not_mem_nil).symm
    | cons i l ih =>
      intro vector
      rw [foldl_cons, ih]
      by_cases hl : j ∈ l
      · rw [if_pos hl, if_pos (mem_cons_of_mem _ hl)]
      · rw [if_neg hl]
        by_cases hij : j = i
        · subst hij
          rw [update_self, if_pos mem_cons_self]
        · rw [update_of_ne hij, if_neg fun h => (mem_cons.mp h).elim hij hl]
  rw [hookInterval, hfold]
  refine if_congr ?_ rfl rfl
  rw [mem_range'_1]
  omega

theorem hookSet_apply (vector : Nat → Handler) (ivs : List RecordSetInterval) (j : Nat) :
    (j ∈ members ivs → hookSet vector ivs j = .recordARequest) ∧
      (j ∉ members ivs → hookSet vector ivs j = vector j) := by
  have hkeeps : ∀ (ivs : List RecordSetInterval) (vector : Nat → Handler),
      vector j = .recordARequest → hookSet vector ivs j = .recordARequest := by
    intro ivs
    induction ivs with
    | nil => exact fun vector h => h
    | cons iv ivs ih =>
      intro vector h
      refine ih _ ?_
      rw [hookInterval_apply, h, ite_self]
  induction ivs generalizing vector with
  | nil => exact ⟨fun h => by simp [mem_members] at h, fun _ => rfl⟩
  | cons iv ivs ih =>
    have hcons : hookSet vector (iv :: ivs) = hookSet (hookInterval vector iv) ivs := rfl
    rw [hcons]
    by_cases hiv : iv.first.toNat ≤ j ∧ j ≤ iv.last.toNat
    · have hmem : j ∈ members (iv :: ivs) := mem_members.mpr ⟨iv, mem_cons_self, hiv⟩
      refine ⟨fun _ => hkeeps ivs _ ?_, fun h => absurd hmem h⟩
      rw [hookInterval_apply, if_pos hiv]
    · have hmem : j ∈ members (iv :: ivs) ↔ j ∈ members ivs := by
        rw [mem_members, mem_members, exists_mem_cons_iff, or_iff_right hiv]
      have hleft : hookInterval vector iv j = vector j := by rw [hookInterval_apply, if_neg hiv]
      rw [hmem, ← hleft]
      exact ih (hookInterval vector iv)

theorem foldl_hookSet_apply (sets : List (List RecordSetInterval)) (vector : Nat → Handler)
    (j : Nat) : ((∃ ivs ∈ sets, j ∈ members ivs) → sets.foldl hookSet vector j = .recordARequest) ∧
      ((∀ ivs ∈ sets, j ∉ members ivs) → sets.foldl hookSet vector j = vector j) := by
  have hkeeps : ∀ (sets : List (List RecordSetInterval)) (vector : Nat → Handler),
      vector j = .recordARequest → sets.foldl hookSet vector j = .recordARequest := by
    intro sets
    induction sets with
    | nil => exact fun vector h => h
    | cons ivs sets ih =>
      intro vector h
      refine ih _ ?_
      by_cases hj : j ∈ members ivs
      · exact (hookSet_apply vector ivs j).1 hj
      · exact ((hookSet_apply vector ivs j).2 hj).trans h
  induction sets generalizing vector with
  | nil => exact ⟨fun ⟨_, h, _⟩ => absurd h not_mem_nil, fun _ => rfl⟩
  | cons ivs sets ih =>
    rw [foldl_cons]
    refine ⟨?_, fun h => ?_⟩
    · rintro ⟨ivs', hmem, hj⟩
      rcases mem_cons.mp hmem with rfl | hmem
      · exact hkeeps sets _ ((hookSet_apply vector ivs' j).1 hj)
      · exact (ih _).1 ⟨ivs', hmem, hj⟩
    · rw [(ih _).2 fun ivs' hmem => h ivs' (mem_cons_of_mem _ hmem)]
      exact (hookSet_apply vector ivs j).2 (h ivs mem_cons_self)

/-- The client's vector is hooked for the sets that want it, and for no other opcodes. -/
structure HookedBy (cl : Client) (wanted : List RecordSetInterval → Prop) : Prop where
  given : cl.recordVector = none ↔ ∀ ivs, ¬ wanted ivs
  hooked : ∀ j ivs, wanted ivs → j ∈ members ivs → cl.requestVector j = .recordARequest
  plain : ∀ j, (∀ ivs, wanted ivs → j ∉ members ivs) → cl.requestVector j = cl.vector

variable {cl : Client}

theorem HookedBy.congr {wanted wanted' : List RecordSetInterval → Prop}
    (h : HookedBy cl wanted) (hw : ∀ ivs, wanted ivs ↔ wanted' ivs) : HookedBy cl wanted' := by
  have heq : wanted = wanted' := funext fun ivs => propext (hw ivs)
  exact heq ▸ h

theorem HookedBy.install {wanted : List RecordSetInterval → Prop}
    (h : HookedBy cl wanted) (ivs : List RecordSetInterval) :
    HookedBy { cl with recordVector := some (hookSet cl.requestVector ivs) }
      fun ivs' => wanted ivs' ∨ ivs = ivs' := by
  have hvector : Client.requestVector
      { cl with recordVector := some (hookSet cl.requestVector ivs) } =
      hookSet cl.requestVector ivs := rfl
  refine ⟨⟨fun hnone => absurd hnone (by simp), fun hall => absurd (.inr rfl) (hall ivs)⟩, ?_, ?_⟩
  · rintro j ivs' (hwant | rfl) hj
    · rw [hvector]
      by_cases hin : j ∈ members ivs
      · exact (hookSet_apply _ ivs j).1 hin
      · exact ((hookSet_apply _ ivs j).2 hin).trans (h.hooked j ivs' hwant hj)
    · rw [hvector]
      exact (hookSet_apply _ ivs j).1 hj
  · intro j hout
    rw [hvector, (hookSet_apply _ ivs j).2 (hout ivs (.inr rfl))]
    exact h.plain j fun ivs' hwant => hout ivs' (.inl hwant)

def rebuiltVector (cl : Client) (others : List (List RecordSetInterval)) :
    Option (Nat → Handler) :=
  if others = [] then none else some (others.foldl hookSet fun _ => cl.vector)

theorem hookedBy_rebuilt (cl : Client) (others : List (List RecordSetInterval)) :
    HookedBy { cl with recordVector := rebuiltVector cl others } (· ∈ others) := by
  unfold rebuiltVector
  by_cases hnil : others = []
  · subst hnil
    exact ⟨⟨fun _ _ => not_mem_nil, fun _ => rfl⟩,
      fun _ _ hin _ => absurd hin not_mem_nil, fun _ _ => rfl⟩
  · rw [if_neg hnil]
    obtain ⟨ivs, hivs⟩ := exists_mem_of_ne_nil _ hnil
    exact ⟨⟨fun hnone => absurd hnone (by simp), fun hall => absurd hivs (hall ivs)⟩,
      fun j ivs' hin hj => (foldl_hookSet_apply others _ j).1 ⟨ivs', hin, hj⟩,
      fun j hout => (foldl_hookSet_apply others _ j).2 hout⟩

structure HooksOnly (s s' : State) : Prop where
  contexts : s'.contexts = s.contexts
  all : s'.ppAllContexts = s.ppAllContexts
  count : s'.numEnabledContexts = s.numEnabledContexts
  clients : ∀ k, (s'.clients k).map (fun cl => (cl.state, cl.vector)) =
    (s.clients k).map fun cl => (cl.state, cl.vector)

theorem HooksOnly.refl (s : State) : HooksOnly s s := ⟨rfl, rfl, rfl, fun _ => rfl⟩

variable {s' : State}

theorem HooksOnly.trans {s s'' : State} (h : HooksOnly s s') (h' : HooksOnly s' s'') :
    HooksOnly s s'' :=
  ⟨h'.contexts.trans h.contexts, h'.all.trans h.all, h'.count.trans h.count,
    fun k => (h'.clients k).trans (h.clients k)⟩

variable {s : State}

theorem HooksOnly.enabled (h : HooksOnly s s') : s'.enabled = s.enabled := by
  rw [State.enabled, State.enabled, h.all, h.count]

theorem HooksOnly.isSome (h : HooksOnly s s') (k : Nat) :
    (s'.clients k).isSome = (s.clients k).isSome := by
  have hk := congrArg Option.isSome (h.clients k)
  rwa [Option.isSome_map, Option.isSome_map] at hk

theorem HooksOnly.setOnContext (h : HooksOnly s s') (spec : ClientSpec) (c : Nat) :
    setOnContext s' spec c = setOnContext s spec c := by
  rw [Hooks.setOnContext, Hooks.setOnContext, h.contexts]

variable {k : Nat}

theorem hooksOnly_setClient (h : s.clients k = some cl)
    (recordVector : Option (Nat → Handler)) :
    HooksOnly s (s.setClient k (some { cl with recordVector := recordVector })) := by
  refine ⟨rfl, rfl, rfl, fun k' => ?_⟩
  by_cases hk : k' = k
  · subst hk
    rw [s.setClient_self, h]
    rfl
  · rw [s.setClient_of_ne hk]

abbrev Wanted := Nat → List RecordSetInterval → Prop

def Hooked (s : State) (wanted : Wanted) : Prop :=
  ∀ k cl, s.clients k = some cl → HookedBy cl (wanted k)

variable {wanted : Wanted}

theorem Hooked.congr {wanted' : Wanted} (h : Hooked s wanted)
    (hw : ∀ k ivs, wanted k ivs ↔ wanted' k ivs) : Hooked s wanted' :=
  fun k cl hcl => (h k cl hcl).congr (hw k)

def RCAPWants (pRCAP : Registration) : Wanted := fun k ivs =>
  .client k ∈ pRCAP.pClientIDs ∧ pRCAP.pRequestMajorOpSet = some ivs

theorem installClient_hooked (h : Hooked s wanted)
    (set : Option (List RecordSetInterval)) (client : ClientSpec) :
    Hooked (installClient set s client)
        (fun k ivs => wanted k ivs ∨ client = .client k ∧ set = some ivs) ∧
      HooksOnly s (installClient set s client) ∧
      (installClient set s client).numEnabledRCAPs = s.numEnabledRCAPs := by
  have hsame : (∀ k ivs, ¬ (client = .client k ∧ set = some ivs)) →
      Hooked s fun k ivs => wanted k ivs ∨ client = .client k ∧ set = some ivs :=
    fun hnone => h.congr fun k ivs => (or_iff_left (hnone k ivs)).symm
  cases client with
  | futureClients => exact ⟨hsame (by simp), HooksOnly.refl s, rfl⟩
  | client k =>
    cases set with
    | none => exact ⟨hsame (by simp), HooksOnly.refl s, rfl⟩
    | some ivs =>
      rw [installClient]
      cases hk : s.clients k with
      | none =>
        refine ⟨fun k' cl hcl => (h k' cl hcl).congr fun ivs' => (or_iff_left ?_).symm,
          HooksOnly.refl s, rfl⟩
        rintro ⟨heq, -⟩
        cases heq
        rw [hk] at hcl
        cases hcl
      | some cl =>
        refine ⟨fun k' cl' hcl' => ?_, hooksOnly_setClient hk _, rfl⟩
        by_cases heq : k' = k
        · subst heq
          rw [State.setClient_self] at hcl'
          cases hcl'
          exact ((h k' cl hk).install ivs).congr fun ivs' => by simp
        · rw [State.setClient_of_ne _ heq] at hcl'
          refine (h k' cl' hcl').congr fun ivs' => (or_iff_left ?_).symm
          rintro ⟨hc, -⟩
          cases hc
          exact heq rfl

theorem foldl_installClient (h : Hooked s wanted)
    (set : Option (List RecordSetInterval)) (clients : List ClientSpec) :
    Hooked (clients.foldl (installClient set) s)
        (fun k ivs => wanted k ivs ∨ .client k ∈ clients ∧ set = some ivs) ∧
      HooksOnly s (clients.foldl (installClient set) s) ∧
      (clients.foldl (installClient set) s).numEnabledRCAPs = s.numEnabledRCAPs := by
  induction clients generalizing s wanted with
  | nil => exact ⟨h.congr fun k ivs => by simp, HooksOnly.refl s, rfl⟩
  | cons client clients ih =>
    obtain ⟨h1, honly1, hcount1⟩ := installClient_hooked h set client
    obtain ⟨h2, honly2, hcount2⟩ := ih h1
    refine ⟨h2.congr fun k ivs => ?_, honly1.trans honly2, hcount2.trans hcount1⟩
    rw [mem_cons, or_and_right, or_assoc, eq_comm (a := client)]

theorem recordInstallHooks_hooked (h : Hooked s wanted) (pRCAP : Registration) :
    Hooked (recordInstallHooks s pRCAP) (fun k ivs => wanted k ivs ∨ RCAPWants pRCAP k ivs) ∧
      HooksOnly s (recordInstallHooks s pRCAP) ∧
      (recordInstallHooks s pRCAP).numEnabledRCAPs = s.numEnabledRCAPs + 1 := by
  obtain ⟨hhooked, honly, hcount⟩ := foldl_installClient h pRCAP.pRequestMajorOpSet pRCAP.pClientIDs
  refine ⟨hhooked, ⟨honly.contexts, honly.all, honly.count, honly.clients⟩, ?_⟩
  rw [recordInstallHooks, hcount]

def OthersWant (s : State) (c : Nat) : Wanted := fun k ivs =>
  ∃ c' ∈ s.enabled, c' ≠ c ∧ setOnContext s (.client k) c' = some ivs

theorem HooksOnly.othersWant (h : HooksOnly s s') (c : Nat) : OthersWant s' c = OthersWant s c := by
  funext k ivs
  simp only [OthersWant, h.enabled, h.setOnContext]

theorem uninstallClient_hooked (wanted' : Wanted) (c : Nat)
    (set : Option (List RecordSetInterval)) (client : ClientSpec) (h : Hooked s wanted)
    (hthere : ∀ k, client = .client k → (s.clients k).isSome = true)
    (hthis : ∀ k ivs, client = .client k → (wanted k ivs ↔ OthersWant s c k ivs ∨ set = some ivs) ∧
        (wanted' k ivs ↔ OthersWant s c k ivs))
    (hother : ∀ k ivs, client ≠ .client k → (wanted' k ivs ↔ wanted k ivs)) :
    ∃ s', uninstallClient c set s client = some s' ∧ Hooked s' wanted' ∧ HooksOnly s s' ∧
      s'.numEnabledRCAPs = s.numEnabledRCAPs := by
  cases client with
  | futureClients =>
    exact ⟨s, rfl, h.congr fun k ivs => (hother k ivs (by simp)).symm, HooksOnly.refl s, rfl⟩
  | client k =>
    cases set with
    | none =>
      refine ⟨s, rfl, h.congr fun k' ivs => ?_, HooksOnly.refl s, rfl⟩
      by_cases heq : ClientSpec.client k = .client k'
      · obtain ⟨hbefore, hafter⟩ := hthis k' ivs heq
        rw [hbefore, hafter, or_iff_left (by simp)]
      · exact (hother k' ivs heq).symm
    | some set =>
      obtain ⟨cl, hcl⟩ := Option.isSome_iff_exists.mp (hthere k rfl)
      have hgiven : cl.recordVector ≠ none := fun hnone =>
        (h k cl hcl).given.mp hnone set ((hthis k set rfl).1.mpr (.inr rfl))
      obtain ⟨vector, hvector⟩ := Option.ne_none_iff_exists'.mp hgiven
      obtain ⟨others, hdef⟩ : ∃ others, others = (s.enabled.filter (· ≠ c)).filterMap
          (setOnContext s (.client k)) := ⟨_, rfl⟩
      have hothers : ∀ ivs, ivs ∈ others ↔ OthersWant s c k ivs := by
        intro ivs
        rw [hdef, mem_filterMap, OthersWant]
        refine exists_congr fun c' => ?_
        rw [mem_filter, decide_eq_true_iff, and_assoc]
      refine ⟨s.setClient k (some { cl with recordVector := rebuiltVector cl others }), ?_, ?_,
        hooksOnly_setClient hcl _, rfl⟩
      · rw [uninstallClient, hcl, Option.bind_some, hvector, Option.bind_some, hdef]
        rfl
      · intro k' cl' hcl'
        by_cases heq : k' = k
        · subst heq
          rw [State.setClient_self] at hcl'
          cases hcl'
          exact (hookedBy_rebuilt cl others).congr fun ivs =>
            (hothers ivs).trans (hthis k' ivs rfl).2.symm
        · rw [State.setClient_of_ne _ heq] at hcl'
          refine (h k' cl' hcl').congr fun ivs => (hother k' ivs ?_).symm
          intro hc
          cases hc
          exact heq rfl

def specsOf (l : List Registration) : List ClientSpec := l.flatMap (·.pClientIDs)

def ListWants (l : List Registration) : Wanted := fun k ivs => ∃ pRCAP ∈ l, RCAPWants pRCAP k ivs

variable {l : List Registration} {ivs : List RecordSetInterval}

theorem ListWants.mem (h : ListWants l k ivs) : .client k ∈ specsOf l := by
  obtain ⟨pRCAP, hmem, hin, -⟩ := h
  exact mem_flatMap.mpr ⟨pRCAP, hmem, hin⟩

theorem listWants_cons {pRCAP : Registration} :
    ListWants (pRCAP :: l) k ivs ↔ RCAPWants pRCAP k ivs ∨ ListWants l k ivs := by
  rw [ListWants, exists_mem_cons_iff]
  rfl

theorem listWants_append {a b : List Registration} :
    ListWants (a ++ b) k ivs ↔ ListWants a k ivs ∨ ListWants b k ivs := by
  simp only [ListWants, mem_append, or_and_right, exists_or]

def HookedAt (s : State) (c : Nat) (l : List Registration) : Prop :=
  Hooked s fun k ivs => OthersWant s c k ivs ∨ ListWants l k ivs

variable {c : Nat}

theorem HookedAt.congr {l' : List Registration} (h : HookedAt s c l)
    (hl : ∀ k ivs, ListWants l k ivs ↔ ListWants l' k ivs) : HookedAt s c l' :=
  Hooked.congr h fun k ivs => or_congr_right (hl k ivs)

theorem foldlM_uninstallClient {set : Option (List RecordSetInterval)}
    {clients : List ClientSpec} {rest : List Registration}
    (h : HookedAt s c (⟨set, clients⟩ :: rest)) (hunique : (clients ++ specsOf rest).Nodup)
    (hthere : ∀ k, .client k ∈ clients → (s.clients k).isSome = true) :
    ∃ s', clients.foldlM (uninstallClient c set) s = some s' ∧ HookedAt s' c rest ∧
      HooksOnly s s' ∧ s'.numEnabledRCAPs = s.numEnabledRCAPs := by
  induction clients generalizing s with
  | nil =>
    refine ⟨s, rfl, h.congr fun k ivs => ?_, HooksOnly.refl s, rfl⟩
    rw [listWants_cons, or_iff_right (fun hw => not_mem_nil hw.1)]
  | cons client clients ih =>
    rw [cons_append, nodup_cons] at hunique
    have hnot : ∀ k ivs, client = .client k → ¬ ListWants (⟨set, clients⟩ :: rest) k ivs := by
      intro k ivs hc hw
      refine hunique.1 ?_
      rw [hc]
      exact hw.mem
    obtain ⟨s1, hs1, h1, honly1, hcount1⟩ := uninstallClient_hooked
      (fun k ivs => OthersWant s c k ivs ∨ ListWants (⟨set, clients⟩ :: rest) k ivs) c set client h
      (fun k hk => hthere k (hk ▸ mem_cons_self))
      (by
        intro k ivs hc
        refine ⟨or_congr_right ?_, or_iff_left (hnot k ivs hc)⟩
        rw [listWants_cons, or_iff_left fun hw => hnot k ivs hc (listWants_cons.mpr (.inr hw))]
        exact ⟨fun hw => hw.2, fun hset => ⟨hc ▸ mem_cons_self, hset⟩⟩)
      (by
        intro k ivs hc
        refine or_congr_right ?_
        rw [listWants_cons, listWants_cons]
        refine or_congr_left (and_congr_left fun _ => ?_)
        exact (mem_cons.trans (or_iff_right fun heq => hc heq.symm)).symm)
    have h1' : HookedAt s1 c (⟨set, clients⟩ :: rest) := by
      rw [HookedAt, honly1.othersWant]
      exact h1
    obtain ⟨s2, hs2, h2, honly2, hcount2⟩ := ih h1' hunique.2 fun k hk => by
      rw [honly1.isSome]
      exact hthere k (mem_cons_of_mem _ hk)
    refine ⟨s2, ?_, h2, honly1.trans honly2, hcount2.trans hcount1⟩
    rw [foldlM_cons, hs1]
    exact hs2

theorem recordUninstallHooks_hooked {n : Nat} {pRCAP : Registration}
    {rest : List Registration} (h : HookedAt s c (pRCAP :: rest))
    (hunique : (specsOf (pRCAP :: rest)).Nodup)
    (hthere : ∀ k, .client k ∈ pRCAP.pClientIDs → (s.clients k).isSome = true)
    (hcount : s.numEnabledRCAPs = n + 1) :
    ∃ s', recordUninstallHooks s c pRCAP = some s' ∧ HookedAt s' c rest ∧ HooksOnly s s' ∧
      s'.numEnabledRCAPs = n := by
  obtain ⟨s1, hs1, h1, honly, hcount1⟩ := foldlM_uninstallClient h hunique hthere
  have hne : s1.numEnabledRCAPs ≠ 0 := by omega
  refine ⟨{ s1 with numEnabledRCAPs := s1.numEnabledRCAPs - 1 }, ?_, h1,
    ⟨honly.contexts, honly.all, honly.count, honly.clients⟩, ?_⟩
  · rw [recordUninstallHooks, hs1, Option.bind_some, if_neg hne]
  · show s1.numEnabledRCAPs - 1 = n
    omega

end Xfront.Record.Hooks
