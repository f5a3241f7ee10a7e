import Xfront.Record.Enabling

/-!
# All contexts

The array of all contexts with the enabled ones in front, and what holds of the registrations, the
hooks and the counters between two requests.
-/

namespace Xfront.Record.Hooks

open Finset List Option

theorem mem_take_iff {l : List Nat} {n x : Nat} : x ∈ l.take n ↔ ∃ m < n, l[m]? = some x := by
  rw [mem_iff_getElem?]
  refine exists_congr fun m => ?_
  rw [getElem?_take]
  split
  · rename_i hm
    exact (and_iff_right hm).symm
  · rename_i hm
    exact iff_of_false (by simp) fun h => hm h.1

section

variable {l : List Nat} {i j c : Nat}

theorem swapContexts_getElem? (hi : l[i]? = some c) (hj : j < l.length) (m : Nat) :
    (swapContexts l i j c)[m]? = if m = j then some c else if m = i then l[j]? else l[m]? := by
  have hil : i < l.length := (List.getElem?_eq_some_iff.mp hi).1
  unfold swapContexts
  by_cases hij : i = j
  · rw [if_neg (not_not_intro hij)]
    by_cases hm : m = j
    · rw [if_pos hm, hm, ← hij, hi]
    · rw [if_neg hm, if_neg (hij ▸ hm)]
  · rw [if_pos hij]
    by_cases hm : m = j
    · rw [if_pos hm, hm, getElem?_set_self (by rw [length_set]; exact hj)]
    · rw [if_neg hm, getElem?_set_ne (Ne.symm hm)]
      by_cases hmi : m = i
      · rw [if_pos hmi, hmi, getElem?_set_self hil, getD_eq_getElem?_getD,
          getElem?_eq_getElem hj, getD_some]
      · rw [if_neg hmi, getElem?_set_ne (Ne.symm hmi)]

theorem swapContexts_perm (hi : l[i]? = some c) (hj : j < l.length) :
    (swapContexts l i j c).Perm l := by
  obtain ⟨hil, hget⟩ := List.getElem?_eq_some_iff.mp hi
  unfold swapContexts
  by_cases hij : i = j
  · rw [if_neg (not_not_intro hij)]
  · rw [if_pos hij, getD_eq_getElem?_getD, getElem?_eq_getElem hj, getD_some, ← hget]
    exact set_set_perm hil hj

theorem mem_take_moved_in (hi : l[i]? = some c) (hij : j ≤ i) (x : Nat) :
    x ∈ (swapContexts l i j c).take (j + 1) ↔ x = c ∨ x ∈ l.take j := by
  have hil : i < l.length := (List.getElem?_eq_some_iff.mp hi).1
  have hget := swapContexts_getElem? hi (lt_of_le_of_lt hij hil)
  rw [mem_take_iff, mem_take_iff]
  constructor
  · rintro ⟨m, hm, hx⟩
    rw [hget] at hx
    split at hx
    · exact .inl (some.inj hx).symm
    · rename_i hmj
      rw [if_neg (by omega)] at hx
      exact .inr ⟨m, by omega, hx⟩
  · rintro (rfl | ⟨m, hm, hx⟩)
    · exact ⟨j, by omega, by rw [hget, if_pos rfl]⟩
    · exact ⟨m, by omega, by rw [hget, if_neg (by omega), if_neg (by omega), hx]⟩

theorem mem_take_moved_out (hnodup : l.Nodup) (hi : l[i]? = some c) (hij : i ≤ j)
    (hj : j < l.length) (x : Nat) :
    x ∈ (swapContexts l i j c).take j ↔ x ≠ c ∧ x ∈ l.take (j + 1) := by
  have hget := swapContexts_getElem? hi hj
  have hone : ∀ m, l[m]? = some c → m = i := fun m hm =>
    (getElem?_inj (List.getElem?_eq_some_iff.mp hm).1 hnodup).mp (hm.trans hi.symm)
  rw [mem_take_iff, mem_take_iff]
  constructor
  · rintro ⟨m, hm, hx⟩
    rw [hget, if_neg (by omega)] at hx
    split at hx
    · rename_i hmi
      refine ⟨fun heq => ?_, j, by omega, hx⟩
      have hji := hone j (heq ▸ hx)
      omega
    · rename_i hmi
      exact ⟨fun heq => hmi (hone m (heq ▸ hx)), m, by omega, hx⟩
  · rintro ⟨hne, m, hm, hx⟩
    have hmi : m ≠ i := by
      rintro rfl
      exact hne (some.inj (hx.symm.trans hi))
    by_cases hmj : m = j
    · subst hmj
      exact ⟨i, by omega, by rw [hget, if_neg (Ne.symm hmi), if_pos rfl, hx]⟩
    · exact ⟨m, by omega, by rw [hget, if_neg hmj, if_neg hmi, hx]⟩

end

def rcapsOn (s : State) (c : Nat) : Nat := ((s.contexts c).map (·.pListOfRCAP.length)).getD 0

def Total (s : State) : Wanted := fun k ivs =>
  ∃ c ∈ s.enabled, setOnContext s (.client k) c = some ivs

def rest (s : State) (c : Nat) : Nat := ∑ c' ∈ s.enabled.toFinset.erase c, rcapsOn s c'

structure Front (s : State) (c : Nat) (ctx : Context) : Prop where
  here : s.contexts c = some ctx
  front : c ∈ s.enabled ↔ ctx.pRecordingClient.isSome = true

variable {s : State} {c : Nat} {ctx : Context}

theorem setOnContext_iff {k : Nat} {ivs : List RecordSetInterval}
    (h : s.contexts c = some ctx) (hunique : (specsOf ctx.pListOfRCAP).Nodup) :
    setOnContext s (.client k) c = some ivs ↔ ListWants ctx.pListOfRCAP k ivs := by
  rw [setOnContext, h, bind_some]
  exact setOnList_iff hunique

section

variable {s : State} {c : Nat} {ctx : Context}

theorem Front.total (h : Front s c ctx) (hunique : (specsOf ctx.pListOfRCAP).Nodup) (k : Nat)
    (ivs : List RecordSetInterval) : Total s k ivs ↔ OthersWant s c k ivs ∨ ctx.Wants k ivs := by
  have hset : setOnContext s (.client k) c = some ivs ↔ ListWants ctx.pListOfRCAP k ivs :=
    setOnContext_iff h.here hunique
  constructor
  · rintro ⟨c', hen, hwant⟩
    by_cases hc : c' = c
    · subst hc
      exact .inr ⟨h.front.mp hen, hset.mp hwant⟩
    · exact .inl ⟨c', hen, hc, hwant⟩
  · rintro (⟨c', hen, -, hwant⟩ | ⟨hrec, hwant⟩)
    · exact ⟨c', hen, hwant⟩
    · exact ⟨c, h.front.mpr hrec, hset.mpr hwant⟩

theorem Front.sum (h : Front s c ctx) :
    ∑ c' ∈ s.enabled.toFinset, rcapsOn s c' = rest s c + ctx.share := by
  have hrcaps : rcapsOn s c = ctx.pListOfRCAP.length := by rw [rcapsOn, h.here]; rfl
  rw [rest]
  by_cases hen : ctx.pRecordingClient.isSome = true
  · rw [share_enabled hen, ← hrcaps]
    exact (Finset.sum_erase_add _ _ (List.mem_toFinset.mpr (h.front.mpr hen))).symm
  · rw [share_disabled hen, Finset.erase_eq_of_notMem, add_zero]
    exact fun hmem => hen (h.front.mp (List.mem_toFinset.mp hmem))

end

structure Inv (s : State) : Prop where
  nodup : s.ppAllContexts.Nodup
  live : ∀ c, c ∈ s.ppAllContexts ↔ (s.contexts c).isSome = true
  bound : s.numEnabledContexts ≤ s.ppAllContexts.length
  front : ∀ c ctx, s.contexts c = some ctx → Front s c ctx
  registers : ∀ c ctx, s.contexts c = some ctx → Registers s ctx.pListOfRCAP
  apart : ∀ c ctx r, s.contexts c = some ctx → ctx.pRecordingClient = some r →
    .client r ∉ specsOf ctx.pListOfRCAP
  hooked : Hooked s (Total s)
  count : s.numEnabledRCAPs = ∑ c ∈ s.enabled.toFinset, rcapsOn s c
  plain : ∀ k cl, s.clients k = some cl → cl.vector ≠ .recordARequest

theorem Inv.held (h : Inv s) (hctx : s.contexts c = some ctx) : Held s c ctx (rest s c) := by
  have hregisters := h.registers c ctx hctx
  have hfront := h.front c ctx hctx
  exact ⟨hctx, hregisters, h.hooked.congr (hfront.total hregisters.unique),
    h.count.trans hfront.sum⟩

structure Arranged (s s' : State) (c : Nat) (enabled : Bool) : Prop where
  nodup : s'.ppAllContexts.Nodup
  mem : ∀ x, x ∈ s'.ppAllContexts ↔ x = c ∨ x ∈ s.ppAllContexts
  bound : s'.numEnabledContexts ≤ s'.ppAllContexts.length
  others : ∀ x, x ≠ c → (x ∈ s'.enabled ↔ x ∈ s.enabled)
  front : c ∈ s'.enabled ↔ enabled = true

structure SameHooks (s s' : State) : Prop where
  contexts : s'.contexts = s.contexts
  clients : s'.clients = s.clients
  count : s'.numEnabledRCAPs = s.numEnabledRCAPs

structure Turned (s s' : State) (c : Nat) (ctx : Option Context) : Prop where
  inv : Inv s'
  here : s'.contexts c = ctx
  others : ∀ c', c' ≠ c → s'.contexts c' = s.contexts c'
  clients : ∀ k, (s'.clients k).map (fun cl => (cl.state, cl.vector)) =
    (s.clients k).map fun cl => (cl.state, cl.vector)

theorem othersWant_congr {s' : State} (hen : ∀ x, x ≠ c → (x ∈ s'.enabled ↔ x ∈ s.enabled))
    (hctx : ∀ x, x ≠ c → s'.contexts x = s.contexts x) : OthersWant s' c = OthersWant s c := by
  funext k ivs
  refine propext (exists_congr fun x => ?_)
  constructor
  · rintro ⟨hmem, hne, hset⟩
    rw [setOnContext, hctx x hne] at hset
    exact ⟨(hen x hne).mp hmem, hne, hset⟩
  · rintro ⟨hmem, hne, hset⟩
    refine ⟨(hen x hne).mpr hmem, hne, ?_⟩
    rw [setOnContext, hctx x hne]
    exact hset

theorem rest_congr {s' : State} (hen : ∀ x, x ≠ c → (x ∈ s'.enabled ↔ x ∈ s.enabled))
    (hctx : ∀ x, x ≠ c → s'.contexts x = s.contexts x) : rest s' c = rest s c := by
  rw [rest, rest]
  refine Finset.sum_congr ?_ fun x hx => ?_
  · ext x
    rw [Finset.mem_erase, Finset.mem_erase, List.mem_toFinset, List.mem_toFinset]
    exact and_congr_right (hen x)
  · rw [rcapsOn, rcapsOn, hctx x (Finset.ne_of_mem_erase hx)]

theorem map_isSome {α β : Type} {a b : Option α} {f : α → β} (h : a.map f = b.map f) :
    a.isSome = b.isSome := by
  have hsome := congrArg isSome h
  rwa [isSome_map, isSome_map] at hsome

theorem Inv.turn {s1 s2 : State} (h : Inv s) (hlocal : Local s s1 c)
    (hheld : Held s1 c ctx (rest s c)) (hsame : SameHooks s1 s2)
    (harranged : Arranged s s2 c ctx.pRecordingClient.isSome)
    (hapart : ∀ r, ctx.pRecordingClient = some r → .client r ∉ specsOf ctx.pListOfRCAP) :
    Turned s s2 c (some ctx) := by
  have hhere : s2.contexts c = some ctx := by rw [hsame.contexts]; exact hheld.here
  have hothers : ∀ x, x ≠ c → s2.contexts x = s.contexts x := fun x hx => by
    rw [hsame.contexts, hlocal.others x hx]
  have hclients : ∀ k, (s2.clients k).map (fun cl => (cl.state, cl.vector)) =
      (s.clients k).map fun cl => (cl.state, cl.vector) := fun k => by
    rw [hsame.clients, hlocal.clients k]
  have hwant : OthersWant s2 c = OthersWant s1 c :=
    (othersWant_congr harranged.others hothers).trans hlocal.othersWant.symm
  have hfront : Front s2 c ctx := ⟨hhere, harranged.front⟩
  have hthere : ∀ l, Registers s1 l → Registers s2 l := fun l hl =>
    ⟨hl.unique, hl.nonempty, fun k hk => by rw [hsame.clients]; exact hl.there k hk⟩
  refine ⟨⟨harranged.nodup, ?_, harranged.bound, ?_, ?_, ?_, ?_, ?_, ?_⟩, hhere, hothers, hclients⟩
  · intro x
    rw [harranged.mem]
    by_cases hx : x = c
    · subst hx
      exact iff_of_true (.inl rfl) (by rw [hhere]; rfl)
    · rw [hothers x hx, or_iff_right hx]
      exact h.live x
  · intro x ctx' hctx'
    by_cases hx : x = c
    · subst hx
      rw [hhere] at hctx'
      cases hctx'
      exact hfront
    · refine ⟨hctx', (harranged.others x hx).trans ?_⟩
      rw [hothers x hx] at hctx'
      exact (h.front x ctx' hctx').front
  · intro x ctx' hctx'
    by_cases hx : x = c
    · subst hx
      rw [hhere] at hctx'
      cases hctx'
      exact hthere _ hheld.registers
    · rw [hothers x hx] at hctx'
      exact hthere _ (hlocal.registers (h.registers x ctx' hctx'))
  · intro x ctx' r hctx' hr
    by_cases hx : x = c
    · subst hx
      rw [hhere] at hctx'
      cases hctx'
      exact hapart r hr
    · rw [hothers x hx] at hctx'
      exact h.apart x ctx' r hctx' hr
  · intro k cl hcl
    rw [hsame.clients] at hcl
    refine (hheld.hooked k cl hcl).congr fun ivs => ?_
    rw [hfront.total hheld.registers.unique, hwant]
  · rw [hfront.sum, rest_congr harranged.others hothers, hsame.count]
    exact hheld.count
  · intro k cl hcl
    have hmap := hclients k
    rw [hcl, map_some] at hmap
    obtain ⟨cl', hcl', heq⟩ := map_eq_some_iff.mp hmap.symm
    have hvector : cl'.vector = cl.vector := (Prod.ext_iff.mp heq).2
    exact hvector ▸ h.plain k cl' hcl'

theorem Inv.turn_same {s1 : State} {ctx' : Context} (h : Inv s)
    (hctx : s.contexts c = some ctx) (hlocal : Local s s1 c) (hheld : Held s1 c ctx' (rest s c))
    (hclient : ctx'.pRecordingClient = ctx.pRecordingClient)
    (hapart : ∀ r, ctx'.pRecordingClient = some r → .client r ∉ specsOf ctx'.pListOfRCAP) :
    Turned s s1 c (some ctx') := by
  have hmem : c ∈ s.ppAllContexts := (h.live c).mpr (by rw [hctx]; rfl)
  refine h.turn hlocal hheld ⟨rfl, rfl, rfl⟩ ⟨?_, fun x => ?_, ?_, fun x _ => ?_, ?_⟩ hapart
  · rw [hlocal.all]
    exact h.nodup
  · rw [hlocal.all]
    refine ⟨Or.inr, fun hx => hx.elim (fun heq => heq ▸ hmem) id⟩
  · rw [hlocal.all, hlocal.count]
    exact h.bound
  · rw [hlocal.enabled]
  · rw [hlocal.enabled, hclient]
    exact (h.front c ctx hctx).front

end Xfront.Record.Hooks
