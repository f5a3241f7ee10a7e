import Xfront.Record.Turns

/-!
# Hooks follow the registrations

Whole runs of requests, connections and disconnections: who is registered is running, no
assertion fails, and a client's vector has the hooks of its registrations on enabled contexts.
-/

namespace Xfront.Record.Hooks
open State

open List Option

structure Context.Alive (s : State) (busy : Option Nat) (ctx : Context) : Prop where
  clients : ∀ k, .client k ∈ specsOf ctx.pListOfRCAP → busy ≠ some k → s.running k = true
  recording : ∀ r, ctx.pRecordingClient = some r → busy ≠ some r → s.running r = true

def Alive (s : State) (busy : Option Nat) : Prop :=
  ∀ c ctx, s.contexts c = some ctx → ctx.Alive s busy

variable {s s' : State} {c : Nat} {ctx : Option Context} {busy : Option Nat}

theorem Turned.alive
    (h : Turned s s' c ctx) (hs : Alive s busy) (hctx : ∀ x, ctx = some x → x.Alive s busy) :
    Alive s' busy := by
  intro c' ctx' hctx'
  have halive : ctx'.Alive s busy := by
    by_cases hc : c' = c
    · subst hc
      exact hctx ctx' (h.here.symm.trans hctx')
    · exact hs c' ctx' ((h.others c' hc).symm.trans hctx')
  exact ⟨fun k hk hb => (h.running k).trans (halive.clients k hk hb),
    fun r hr hb => (h.running r).trans (halive.recording r hr hb)⟩

def Seated (limitClients : Nat) (s : State) : Prop :=
  ∀ k, (s.clients k).isSome = true → k < limitClients

variable {limitClients : Nat}

theorem Turned.seated
    (h : Turned s s' c ctx) (hs : Seated limitClients s) : Seated limitClients s' :=
  fun k hk => hs k ((map_isSome (h.clients k)).symm.trans hk)

structure Ready (limitClients : Nat) (s : State) : Prop where
  inv : Inv s
  alive : Alive s none
  seated : Seated limitClients s

theorem Ready.turn (h : Ready limitClients s) (hturn : Turned s s' c ctx)
    (hctx : ∀ x, ctx = some x → x.Alive s none) : Ready limitClients s' :=
  ⟨hturn.inv, hturn.alive h.alive hctx, hturn.seated h.seated⟩

theorem Context.Alive.less {ctx : Context} (h : ctx.Alive s busy) {l : List Registration}
    (hl : ∀ x ∈ specsOf l, x ∈ specsOf ctx.pListOfRCAP) (r : Option Nat)
    (hr : r = none ∨ r = ctx.pRecordingClient) : Context.Alive s busy ⟨r, l⟩ := by
  refine ⟨fun k hk => h.clients k (hl _ hk), fun k hk => ?_⟩
  rcases hr with rfl | rfl
  · cases hk
  · exact h.recording k hk

variable {cl : Client}

theorem Inv.setClient (h : Inv s) (k : Nat)
    (hooked : HookedBy cl (Total s k)) (hplain : cl.vector ≠ .recordARequest) :
    Inv (s.setClient k (some cl)) := by
  refine ⟨h.nodup, h.live, h.bound, fun c ctx hctx => ⟨hctx, (h.front c ctx hctx).front⟩,
    fun c ctx hctx => ?_, h.apart, fun k' cl' hcl' => ?_, h.count, fun k' cl' hcl' => ?_⟩
  · have hregisters := h.registers c ctx hctx
    refine ⟨hregisters.unique, hregisters.nonempty, fun k' hk' => ?_⟩
    by_cases heq : k' = k
    · rw [heq, setClient_self]
      rfl
    · rw [setClient_of_ne _ heq]
      exact hregisters.there k' hk'
  · by_cases heq : k' = k
    · subst heq
      rw [setClient_self] at hcl'
      cases hcl'
      exact hooked
    · rw [setClient_of_ne _ heq] at hcl'
      exact h.hooked k' cl' hcl'
  · by_cases heq : k' = k
    · subst heq
      rw [setClient_self] at hcl'
      cases hcl'
      exact hplain
    · rw [setClient_of_ne _ heq] at hcl'
      exact h.plain k' cl' hcl'

variable {k : Nat}

theorem Inv.removeClient (h : Inv s)
    (hfree : ∀ c ctx, s.contexts c = some ctx → .client k ∉ specsOf ctx.pListOfRCAP) :
    Inv (s.setClient k none) := by
  have hback : ∀ k' cl, (s.setClient k none).clients k' = some cl → s.clients k' = some cl := by
    intro k' cl hcl
    by_cases heq : k' = k
    · rw [heq, setClient_self] at hcl
      cases hcl
    · rwa [setClient_of_ne _ heq] at hcl
  refine ⟨h.nodup, h.live, h.bound, fun c ctx hctx => ⟨hctx, (h.front c ctx hctx).front⟩,
    fun c ctx hctx => ?_, h.apart, fun k' cl hcl => h.hooked k' cl (hback k' cl hcl), h.count,
    fun k' cl hcl => h.plain k' cl (hback k' cl hcl)⟩
  have hregisters := h.registers c ctx hctx
  refine ⟨hregisters.unique, hregisters.nonempty, fun k' hk' => ?_⟩
  have hne : k' ≠ k := by
    rintro rfl
    exact hfree c ctx hctx hk'
  rw [setClient_of_ne _ hne]
  exact hregisters.there k' hk'

theorem Inv.not_total (h : Inv s)
    (hfree : ∀ c ctx, s.contexts c = some ctx → .client k ∉ specsOf ctx.pListOfRCAP)
    (ivs : List RecordSetInterval) : ¬ Total s k ivs := by
  rintro ⟨c, hen, hset⟩
  obtain ⟨ctx, hctx⟩ := isSome_iff_exists.mp ((h.live c).mp (mem_of_mem_take hen))
  exact hfree c ctx hctx ((setOnContext_iff hctx (h.registers c ctx hctx).unique).mp hset).mem

theorem hookedBy_nothing {wanted : List RecordSetInterval → Prop}
    (hnone : cl.recordVector = none) (hw : ∀ ivs, ¬ wanted ivs) : HookedBy cl wanted :=
  ⟨iff_of_true hnone hw, fun _ ivs h => absurd h (hw ivs),
    fun j _ => by rw [Client.requestVector, hnone]; rfl⟩

theorem running_setClient {k' : Nat} (h : k' ≠ k) (cl : Option Client) :
    (s.setClient k cl).running k' = s.running k' := by
  rw [running, running, setClient_of_ne _ h]

theorem Alive.setClient (h : Alive s busy) (k : Nat)
    (cl : Option Client) (hk : busy = some k ∨ s.running k ≠ true) :
    Alive (s.setClient k cl) busy := by
  intro c ctx hctx
  have halive := h c ctx hctx
  have hkeep : ∀ j, busy ≠ some j → s.running j = true → (s.setClient k cl).running j = true := by
    intro j hb hrun
    have hne : j ≠ k := by
      rintro rfl
      exact hk.elim hb fun hnot => hnot hrun
    rw [running_setClient hne]
    exact hrun
  exact ⟨fun j hj hb => hkeep j hb (halive.clients j hj hb),
    fun r hr hb => hkeep r hb (halive.recording r hr hb)⟩

variable {l : List Nat}

theorem foldlM_recordNewClient
    (hnodup : l.Nodup) (h : Ready limitClients s) (hk : s.running k = true)
    (hl : ∀ c ∈ l, ∃ ctx, s.contexts c = some ctx ∧ .client k ∉ specsOf ctx.pListOfRCAP ∧
      ctx.pRecordingClient ≠ some k) :
    ∃ s', l.foldlM (recordNewClient k) s = some s' ∧ Ready limitClients s' := by
  induction l generalizing s with
  | nil => exact ⟨s, rfl, h⟩
  | cons c l ih =>
    obtain ⟨hc, hnodup⟩ := nodup_cons.mp hnodup
    obtain ⟨ctx, hctx, hnew, hrec⟩ := hl c mem_cons_self
    obtain ⟨s1, l1, hs1, hturn, hmem⟩ := h.inv.newClient hctx hnew hrec (running_isSome hk)
    have halive := h.alive c ctx hctx
    have hready := h.turn hturn fun x hx => by
      cases hx
      refine ⟨fun j hj hb => ?_, halive.recording⟩
      rcases hmem _ hj with hold | heq
      · exact halive.clients j hold hb
      · cases heq
        exact hk
    obtain ⟨s2, hs2, h2⟩ := ih hnodup hready ((hturn.running k).trans hk) fun c' hc' => by
      obtain ⟨ctx', hctx', hfree⟩ := hl c' (mem_cons_of_mem _ hc')
      exact ⟨ctx', (hturn.others c' fun heq => hc (heq ▸ hc')).trans hctx', hfree⟩
    refine ⟨s2, ?_, h2⟩
    rw [foldlM_cons, hs1]
    exact hs2

theorem Ready.free (h : Ready limitClients s)
    (hk : s.running k ≠ true) {ctx : Context} (hctx : s.contexts c = some ctx) :
    .client k ∉ specsOf ctx.pListOfRCAP ∧ ctx.pRecordingClient ≠ some k :=
  ⟨fun hin => hk ((h.alive c ctx hctx).clients k hin (by simp)),
    fun hr => hk ((h.alive c ctx hctx).recording k hr (by simp))⟩

theorem Ready.setClient (h : Ready limitClients s)
    (hk : s.running k ≠ true) (hlimit : k < limitClients)
    (hnone : cl.recordVector = none) (hplain : cl.vector ≠ .recordARequest) :
    Ready limitClients (s.setClient k (some cl)) := by
  refine ⟨h.inv.setClient k (hookedBy_nothing hnone (h.inv.not_total fun c ctx hctx =>
    (h.free hk hctx).1)) hplain, h.alive.setClient k _ (.inr hk), fun k' hk' => ?_⟩
  by_cases heq : k' = k
  · exact heq ▸ hlimit
  · rw [setClient_of_ne _ heq] at hk'
    exact h.seated k' hk'

theorem establish_ready (h : Ready limitClients s)
    (hk : s.running k ≠ true) (hlimit : k < limitClients) {vector : Handler}
    (hplain : vector ≠ .recordARequest) :
    ∃ s', changeState s k ⟨.running, vector, none⟩ = some s' ∧ Ready limitClients s' := by
  have hready : Ready limitClients (s.setClient k (some ⟨.running, vector, none⟩)) :=
    h.setClient hk hlimit rfl hplain
  rw [changeState, clientStateChange, setClient_self, bind_some]
  refine foldlM_recordNewClient hready.inv.nodup hready ?_ fun c hc => ?_
  · rw [running, setClient_self]
    rfl
  · obtain ⟨ctx, hctx⟩ := isSome_iff_exists.mp ((h.inv.live c).mp hc)
    exact ⟨ctx, hctx, h.free hk hctx⟩

def Off (k : Nat) (s : State) (c : Nat) : Prop :=
  ∀ ctx, s.contexts c = some ctx →
    .client k ∉ specsOf ctx.pListOfRCAP ∧ ctx.pRecordingClient ≠ some k

theorem Inv.goneClient {ctx : Context} (h : Inv s) (hctx : s.contexts c = some ctx) (k : Nat) :
    ∃ s' l r, recordGoneClient k s c = some s' ∧ Turned s s' c (some ⟨r, l⟩) ∧
      (∀ x ∈ specsOf l, x ∈ specsOf ctx.pListOfRCAP ∧ x ≠ .client k) ∧
      (r = none ∨ r = ctx.pRecordingClient) ∧ r ≠ some k := by
  rw [recordGoneClient, hctx, bind_some]
  by_cases hrec : ctx.pRecordingClient = some k
  · obtain ⟨s1, hs1, hturn1⟩ := h.disableContext hctx
    obtain ⟨s2, l, hs2, hturn2, hmem⟩ := hturn1.inv.deleteClients hturn1.here [.client k]
    rw [foldlM_cons] at hs2
    refine ⟨s2, l, none, ?_, hturn1.trans hturn2, fun x hx => ?_, .inl rfl, by simp⟩
    · rw [if_pos hrec, hs1, bind_some, ← hs2]
      exact (bind_fun_some _).symm
    · obtain ⟨hold, hne⟩ := (hmem x).mp hx
      exact ⟨hold, fun heq => hne (mem_singleton.mpr heq)⟩
  · obtain ⟨s1, l, hs1, hturn, hmem⟩ := h.deleteClients hctx [.client k]
    rw [foldlM_cons] at hs1
    refine ⟨s1, l, ctx.pRecordingClient, ?_, hturn, fun x hx => ?_, .inr rfl, hrec⟩
    · rw [if_neg hrec, bind_some, ← hs1]
      exact (bind_fun_some _).symm
    · obtain ⟨hold, hne⟩ := (hmem x).mp hx
      exact ⟨hold, fun heq => hne (mem_singleton.mpr heq)⟩

theorem foldlM_recordGoneClient (h : Inv s)
    (halive : Alive s (some k)) (hl : ∀ c ∈ l, (s.contexts c).isSome = true) :
    ∃ s', l.foldlM (recordGoneClient k) s = some s' ∧ Inv s' ∧ Alive s' (some k) ∧
      (∀ k, (s'.clients k).map (fun cl => (cl.state, cl.vector)) =
        (s.clients k).map fun cl => (cl.state, cl.vector)) ∧
      (∀ c, (s'.contexts c).isSome = (s.contexts c).isSome) ∧
      (∀ c, c ∈ l ∨ Off k s c → Off k s' c) := by
  induction l generalizing s with
  | nil => exact ⟨s, rfl, h, halive, fun _ => rfl, fun _ => rfl,
      fun c hc => hc.resolve_left not_mem_nil⟩
  | cons c l ih =>
    obtain ⟨ctx, hctx⟩ := isSome_iff_exists.mp (hl c mem_cons_self)
    obtain ⟨s1, l1, r, hs1, hturn, hmem, hr, hrec⟩ := h.goneClient hctx k
    have halive1 : Alive s1 (some k) := hturn.alive halive fun x hx => by
      cases hx
      exact (halive c ctx hctx).less (fun x hx => (hmem x hx).1) r hr
    have hsome : ∀ c', (s1.contexts c').isSome = (s.contexts c').isSome := by
      intro c'
      by_cases hc : c' = c
      · rw [hc, hturn.here, hctx]
        rfl
      · rw [hturn.others c' hc]
    have hoff : ∀ c', c' = c ∨ Off k s c' → Off k s1 c' := by
      intro c' hc' ctx' hctx'
      by_cases hc : c' = c
      · rw [hc, hturn.here] at hctx'
        cases hctx'
        exact ⟨fun hin => (hmem _ hin).2 rfl, hrec⟩
      · rw [hturn.others c' hc] at hctx'
        exact hc'.resolve_left hc ctx' hctx'
    obtain ⟨s2, hs2, h2, halive2, hclients2, hsome2, hoff2⟩ := ih hturn.inv halive1
      fun c' hc' => (hsome c').trans (hl c' (mem_cons_of_mem _ hc'))
    refine ⟨s2, ?_, h2, halive2, fun k => (hclients2 k).trans (hturn.clients k),
      fun c' => (hsome2 c').trans (hsome c'), fun c' hc' => hoff2 c' ?_⟩
    · rw [foldlM_cons, hs1]
      exact hs2
    · rcases hc' with hc' | hc'
      · exact (mem_cons.mp hc').elim (fun heq => .inr (hoff c' (.inl heq))) Or.inl
      · exact .inr (hoff c' (.inr hc'))

theorem leave_ready (h : Ready limitClients s)
    (hcl : s.clients k = some cl) {state : ClientState} (hstate : state = .gone ∨ state = .retained) :
    ∃ s', changeState s k { cl with state := state } = some s' ∧ Ready limitClients s' ∧
      s'.running k ≠ true := by
  obtain ⟨cl', hcl'⟩ : ∃ cl' : Client, cl' = { cl with state := state } := ⟨_, rfl⟩
  have hooked : HookedBy cl' (Total s k) := by
    have hold := h.inv.hooked k cl hcl
    rw [hcl']
    exact ⟨hold.given, hold.hooked, hold.plain⟩
  have hplain : cl'.vector ≠ .recordARequest := by
    rw [hcl']
    exact h.inv.plain k cl hcl
  have hinv := h.inv.setClient k hooked hplain
  have hbusy : Alive s (some k) := fun c ctx hctx =>
    ⟨fun j hj _ => (h.alive c ctx hctx).clients j hj (by simp),
      fun r hr _ => (h.alive c ctx hctx).recording r hr (by simp)⟩
  have hlist : ∀ c ∈ s.ppAllContexts, (s.contexts c).isSome = true := fun c hc =>
    (h.inv.live c).mp hc
  obtain ⟨s1, hs1, h1, halive1, hclients1, hsome1, hoff1⟩ :=
    foldlM_recordGoneClient (s := s.setClient k (some cl')) (l := s.ppAllContexts) hinv
      (hbusy.setClient k _ (.inl rfl)) hlist
  have hoff : ∀ c, Off k s1 c := by
    intro c ctx hctx
    refine hoff1 c (.inl ((h.inv.live c).mpr ?_)) ctx hctx
    exact (hsome1 c).symm.trans (by rw [hctx]; rfl)
  have hgone : s1.running k ≠ true := by
    rw [running_eq, hclients1, setClient_self, hcl']
    rcases hstate with rfl | rfl <;> simp
  refine ⟨s1, ?_, ⟨h1, fun c ctx hctx => ⟨fun j hj _ => ?_, fun r hr _ => ?_⟩, fun k' hk' => ?_⟩,
    hgone⟩
  · rw [← hcl', changeState, clientStateChange, setClient_self, bind_some]
    rcases hstate with rfl | rfl
    · rw [hcl'] at hs1 ⊢
      exact hs1
    · rw [hcl'] at hs1 ⊢
      exact hs1
  · refine (halive1 c ctx hctx).clients j hj fun heq => ?_
    cases heq
    exact (hoff c ctx hctx).1 hj
  · refine (halive1 c ctx hctx).recording r hr fun heq => ?_
    cases heq
    exact (hoff c ctx hctx).2 hr
  · have hthere := (map_isSome (hclients1 k')).symm.trans hk'
    by_cases heq : k' = k
    · refine heq ▸ h.seated k ?_
      rw [hcl]
      rfl
    · rw [setClient_of_ne _ heq] at hthere
      exact h.seated k' hthere

theorem foldlM_deleteIfThere (h : Ready limitClients s) :
    ∃ s', l.foldlM deleteIfThere s = some s' ∧ Ready limitClients s' ∧
      s'.running k = s.running k := by
  induction l generalizing s with
  | nil => exact ⟨s, rfl, h, rfl⟩
  | cons c l ih =>
    obtain ⟨s1, hs1, h1, hrun1⟩ : ∃ s1, deleteIfThere s c = some s1 ∧ Ready limitClients s1 ∧
        s1.running k = s.running k := by
      unfold deleteIfThere
      by_cases hc : (s.contexts c).isSome = true
      · obtain ⟨ctx, hctx⟩ := isSome_iff_exists.mp hc
        obtain ⟨s1, hs1, hturn⟩ := h.inv.deleteContext hctx
        exact ⟨s1, by rw [if_pos hc, hs1], h.turn hturn (fun x hx => absurd hx (by simp)),
          hturn.running k⟩
      · exact ⟨s, if_neg hc, h, rfl⟩
    obtain ⟨s2, hs2, h2, hrun2⟩ := ih h1
    refine ⟨s2, ?_, h2, hrun2.trans hrun1⟩
    rw [foldlM_cons, hs1]
    exact hs2

theorem closeDownClient_ready
    (h : Ready limitClients s) (hcl : s.clients k = some cl) (retain : Bool) (owned : List Nat) :
    ∃ s', closeDownClient s k retain owned = some s' ∧ Ready limitClients s' := by
  rw [closeDownClient, hcl, bind_some]
  by_cases hretain : retain = true ∧ cl.state ≠ .retained
  · rw [if_pos hretain]
    obtain ⟨s1, hs1, h1, -⟩ := leave_ready h hcl (.inr rfl)
    exact ⟨s1, hs1, h1⟩
  · rw [if_neg hretain]
    obtain ⟨s1, hs1, h1, hrun1⟩ := leave_ready h hcl (.inl rfl)
    obtain ⟨s2, hs2, h2, hrun2⟩ := foldlM_deleteIfThere (k := k) (l := owned) h1
    have hgone : s2.running k ≠ true := hrun2 ▸ hrun1
    rw [hs1, bind_some, hs2, map_some]
    refine ⟨_, rfl, h2.inv.removeClient fun c ctx hctx => (h2.free hgone hctx).1,
      h2.alive.setClient k none (.inr hgone), fun k' hk' => ?_⟩
    by_cases heq : k' = k
    · rw [heq, setClient_self] at hk'
      cases hk'
    · rw [setClient_of_ne _ heq] at hk'
      exact h2.seated k' hk'

/-- A request is read from a client that is running and is not ignored, as the recording client
of an enabled context is. -/
def Reads (s : State) (requester : Nat) : Prop :=
  requester ≠ 0 ∧ s.running requester = true ∧
    ∀ c ∈ s.enabled, (s.contexts c).bind (·.pRecordingClient) ≠ some requester

/-- The actions that can come in a state: the requests of a client, a connection on a number that
is free, and the end of a client that is there. -/
def Possible (limitClients : Nat) (s : State) : Action → Prop
  | .createContext requester .. | .registerClients requester .. | .unregisterClients requester ..
  | .enableContext requester _ | .disableContext requester _ | .freeContext requester _ =>
    Reads s requester
  | .connect k => 0 < k ∧ k < limitClients ∧ (s.clients k).isNone
  | .establish k _ => 0 < k ∧ (s.clients k).map (·.state) = some .initial
  | .close k _ _ => 0 < k ∧ (s.clients k).isSome

instance decidableReads (s : State) (requester : Nat) : Decidable (Reads s requester) := by
  unfold Reads
  infer_instance

instance decidablePossible (limitClients : Nat) (s : State) :
    ∀ a, Decidable (Possible limitClients s a)
  | .createContext requester .. => decidableReads s requester
  | .registerClients requester .. => decidableReads s requester
  | .unregisterClients requester .. => decidableReads s requester
  | .enableContext requester _ => decidableReads s requester
  | .disableContext requester _ => decidableReads s requester
  | .freeContext requester _ => decidableReads s requester
  | .connect k => inferInstanceAs (Decidable (0 < k ∧ k < limitClients ∧ (s.clients k).isNone))
  | .establish k _ => inferInstanceAs (Decidable (0 < k ∧ (s.clients k).map (·.state) = some .initial))
  | .close k _ _ => inferInstanceAs (Decidable (0 < k ∧ (s.clients k).isSome))

section

variable {limitClients : Nat} {s : State} {requester : Nat}

theorem Ready.currentClients (h : Ready limitClients s) (hr : Reads s requester)
    {r : Option Nat} (hexcluded : r ≠ some requester) : currentClients limitClients s r ≠ [] :=
  ne_nil_of_mem (mem_currentClients.mpr ⟨requester, rfl,
    h.seated requester (running_isSome hr.2.1), hr.1, hr.2.1, hexcluded⟩)

variable {ctx : Context}

theorem Ready.not_recording {c : Nat} (h : Ready limitClients s)
    (hr : Reads s requester) (hctx : s.contexts c = some ctx) :
    ctx.pRecordingClient ≠ some requester := by
  intro heq
  have hen : c ∈ s.enabled := (h.inv.front c ctx hctx).front.mpr (by rw [heq]; rfl)
  exact hr.2.2 c hen (by rw [hctx]; exact heq)

theorem Context.Alive.recorded (h : ctx.Alive s none) {l : List Registration} {r : Option Nat}
    (hl : ∀ x ∈ specsOf l, x ∈ specsOf ctx.pListOfRCAP ∨ Recorded s r x) :
    Context.Alive s none { ctx with pListOfRCAP := l } :=
  ⟨fun k hk hb => (hl _ hk).elim (fun hold => h.clients k hold hb) (·.1), h.recording⟩

theorem createContext_ready (h : Ready limitClients s) (hr : Reads s requester)
    (c : Nat) (specs : List Specifier) (set : Option (List RecordSetInterval)) :
    ∃ s' b, procRecordCreateContext limitClients s c specs set = some (s', b) ∧
      Ready limitClients s' := by
  by_cases hc : (s.contexts c).isSome = true
  · exact ⟨s, false, if_pos hc, h⟩
  · have hnone : s.contexts c = none := not_isSome_iff_eq_none.mp hc
    obtain ⟨s', b, hs', hor⟩ := h.inv.createContext hnone (h.currentClients hr (by simp)) specs set
    refine ⟨s', b, hs', ?_⟩
    rcases hor with rfl | ⟨l, hturn, hmem⟩
    · exact h
    · refine h.turn hturn fun x hx => ?_
      cases hx
      exact ⟨fun k hk _ => (hmem _ hk).1, fun r hr => absurd hr (by simp)⟩

theorem registerClients_ready {c : Nat} (h : Ready limitClients s)
    (hr : Reads s requester) (hctx : s.contexts c = some ctx) (specs : List Specifier)
    (set : Option (List RecordSetInterval)) :
    ∃ s' b, recordRegisterClients limitClients s c specs set = some (s', b) ∧
      Ready limitClients s' := by
  obtain ⟨s', b, hs', hor⟩ := h.inv.registerClients hctx
    (h.currentClients hr (h.not_recording hr hctx)) specs set
  refine ⟨s', b, hs', ?_⟩
  rcases hor with rfl | ⟨l, hturn, hmem⟩
  · exact h
  · refine h.turn hturn fun x hx => ?_
    cases hx
    exact (h.alive c ctx hctx).recorded hmem

theorem unregisterClients_ready (h : Ready limitClients s) (c : Nat) (specs : List Specifier) :
    ∃ s' b, procRecordUnregisterClients limitClients s c specs = some (s', b) ∧
      Ready limitClients s' := by
  unfold procRecordUnregisterClients
  by_cases hno : (s.contexts c).isNone = true ∨ ¬ sanityCheckClientSpecifiers s none specs = true
  · exact ⟨s, false, if_pos hno, h⟩
  · have hc : (s.contexts c).isSome = true := by
      rw [← ne_none_iff_isSome, ne_eq, ← isNone_iff_eq_none]
      exact fun hnone => hno (.inl hnone)
    obtain ⟨ctx, hctx⟩ := isSome_iff_exists.mp hc
    obtain ⟨s', l, hs', hturn, hmem⟩ := h.inv.deleteClients hctx
      (canonicalizeClientSpecifiers limitClients s none specs)
    refine ⟨s', true, ?_, h.turn hturn fun x hx => ?_⟩
    · rw [if_neg hno, hs', map_some]
    · cases hx
      exact (h.alive c ctx hctx).less (fun x hx => ((hmem x).mp hx).1) _ (.inr rfl)

theorem enableContext_ready (h : Ready limitClients s) (hr : Reads s requester) (c : Nat) :
    ∃ s' b, procRecordEnableContext s c requester = some (s', b) ∧ Ready limitClients s' := by
  cases hctx : s.contexts c with
  | none => exact ⟨s, false, by rw [procRecordEnableContext, hctx], h⟩
  | some ctx =>
    by_cases hrec : ctx.pRecordingClient.isSome = true
    · refine ⟨s, false, ?_, h⟩
      rw [procRecordEnableContext, hctx]
      exact if_pos hrec
    · obtain ⟨s', l, hs', hturn, hmem⟩ :=
        h.inv.enableContext hctx (not_isSome_iff_eq_none.mp hrec) requester
      refine ⟨s', true, hs', h.turn hturn fun x hx => ?_⟩
      cases hx
      refine ⟨fun k hk hb => (h.alive c ctx hctx).clients k (hmem _ hk).1 hb, fun r heq _ => ?_⟩
      cases heq
      exact hr.2.1

theorem step_ready {a : Action} (h : Ready limitClients s) (hp : Possible limitClients s a) :
    ∃ s' b, step limitClients s a = some (s', b) ∧ Ready limitClients s' := by
  cases a with
  | createContext requester c specs set => exact createContext_ready h hp c specs set
  | registerClients requester c specs set =>
    cases hctx : s.contexts c with
    | none => exact ⟨s, false, by rw [step, hctx]; rfl, h⟩
    | some ctx =>
      obtain ⟨s', b, hs', hready⟩ := registerClients_ready h hp hctx specs set
      exact ⟨s', b, by rw [step, hctx, if_neg (by simp), hs'], hready⟩
  | unregisterClients requester c specs => exact unregisterClients_ready h c specs
  | enableContext requester c => exact enableContext_ready h hp c
  | disableContext requester c =>
    cases hctx : s.contexts c with
    | none => exact ⟨s, false, by rw [step, hctx]; rfl, h⟩
    | some ctx =>
      obtain ⟨s', hs', hturn⟩ := h.inv.disableContext hctx
      refine ⟨s', true, by rw [step, hctx, if_neg (by simp), hs', map_some], ?_⟩
      refine h.turn hturn fun x hx => ?_
      cases hx
      exact (h.alive c ctx hctx).less (fun x hx => hx) none (.inl rfl)
  | freeContext requester c =>
    cases hctx : s.contexts c with
    | none => exact ⟨s, false, by rw [step, hctx]; rfl, h⟩
    | some ctx =>
      obtain ⟨s', hs', hturn⟩ := h.inv.deleteContext hctx
      refine ⟨s', true, by rw [step, hctx, if_neg (by simp), hs', map_some], ?_⟩
      exact h.turn hturn fun x hx => absurd hx (by simp)
  | connect k =>
    obtain ⟨-, hlimit, hnone⟩ := hp
    have hk : s.running k ≠ true := by
      rw [running, isNone_iff_eq_none.mp hnone]
      simp
    exact ⟨_, true, rfl, h.setClient hk hlimit rfl (by simp)⟩
  | establish k swapped =>
    obtain ⟨-, hstate⟩ := hp
    obtain ⟨cl, hcl, hinitial⟩ := map_eq_some_iff.mp hstate
    have hk : s.running k ≠ true := by
      rw [running, hcl, any_some, hinitial]
      simp
    have hplain : (if swapped then Handler.swappedProc else .proc) ≠ .recordARequest := by
      cases swapped <;> simp
    obtain ⟨s', hs', hready⟩ := establish_ready h hk (h.seated k (by rw [hcl]; rfl)) hplain
    exact ⟨s', true, by rw [step, hs', map_some], hready⟩
  | close k retain owned =>
    obtain ⟨cl, hcl⟩ := isSome_iff_exists.mp hp.2
    obtain ⟨s', hs', hready⟩ := closeDownClient_ready h hcl retain owned
    exact ⟨s', true, by rw [step, hs', map_some], hready⟩

theorem start_ready (hlimit : 0 < limitClients) : Ready limitClients start := by
  have hclient : ∀ k cl, start.clients k = some cl → cl = ⟨.initial, .initial, none⟩ := by
    intro k cl hcl
    simp only [start] at hcl
    split at hcl
    · exact (some.inj hcl).symm
    · cases hcl
  refine ⟨⟨nodup_nil, fun c => by simp [start], le_refl _,
    fun c ctx h => absurd h (by simp [start]), fun c ctx h => absurd h (by simp [start]),
    fun c ctx r h => absurd h (by simp [start]), fun k cl hcl => ?_, rfl, fun k cl hcl => ?_⟩,
    fun c ctx h => absurd h (by simp [start]), fun k hk => ?_⟩
  · rw [hclient k cl hcl]
    refine hookedBy_nothing rfl fun ivs => ?_
    rintro ⟨c, hen, -⟩
    exact absurd hen not_mem_nil
  · rw [hclient k cl hcl]
    simp
  · by_cases hz : k = 0
    · exact hz ▸ hlimit
    · simp [start, hz] at hk

end

def Selects (s : State) (k j : Nat) : Prop :=
  ∃ c ∈ s.enabled, ∃ ctx, s.contexts c = some ctx ∧ ∃ pRCAP ∈ ctx.pListOfRCAP,
    .client k ∈ pRCAP.pClientIDs ∧ ∃ ivs, pRCAP.pRequestMajorOpSet = some ivs ∧ j ∈ members ivs

structure Followed (s : State) : Prop where
  enabled : s.numEnabledContexts ≤ s.ppAllContexts.length ∧ ∀ c ctx, s.contexts c = some ctx →
    (c ∈ s.ppAllContexts.take s.numEnabledContexts ↔ ctx.pRecordingClient.isSome = true)
  listed : s.ppAllContexts.Nodup ∧ ∀ c, c ∈ s.ppAllContexts ↔ (s.contexts c).isSome = true
  once : ∀ c ctx, s.contexts c = some ctx → (specsOf ctx.pListOfRCAP).Nodup
  nonempty : ∀ c ctx, s.contexts c = some ctx → ∀ pRCAP ∈ ctx.pListOfRCAP, pRCAP.pClientIDs ≠ []
  alive : ∀ c ctx, s.contexts c = some ctx → ∀ k, .client k ∈ specsOf ctx.pListOfRCAP →
    s.running k = true
  count : s.numEnabledRCAPs = (s.enabled.map (rcapsOn s)).sum
  apart : ∀ c ctx r, s.contexts c = some ctx → ctx.pRecordingClient = some r →
    .client r ∉ specsOf ctx.pListOfRCAP
  hooks : ∀ k cl, s.clients k = some cl → ∀ j, cl.vector ≠ .recordARequest ∧
    (cl.requestVector j = .recordARequest ↔ Selects s k j) ∧
    (¬ Selects s k j → cl.requestVector j = cl.vector)

theorem Inv.selects (h : Inv s) (k j : Nat) :
    Selects s k j ↔ ∃ ivs, Total s k ivs ∧ j ∈ members ivs := by
  constructor
  · rintro ⟨c, hen, ctx, hctx, pRCAP, hmem, hin, ivs, hset, hj⟩
    exact ⟨ivs, ⟨c, hen, (setOnContext_iff hctx (h.registers c ctx hctx).unique).mpr
      ⟨pRCAP, hmem, hin, hset⟩⟩, hj⟩
  · rintro ⟨ivs, ⟨c, hen, hset⟩, hj⟩
    obtain ⟨ctx, hctx⟩ := isSome_iff_exists.mp ((h.live c).mp (mem_of_mem_take hen))
    obtain ⟨pRCAP, hmem, hin, hset⟩ :=
      (setOnContext_iff hctx (h.registers c ctx hctx).unique).mp hset
    exact ⟨c, hen, ctx, hctx, pRCAP, hmem, hin, ivs, hset, hj⟩

theorem Ready.followed (h : Ready limitClients s) : Followed s := by
  refine ⟨⟨h.inv.bound, fun c ctx hctx => (h.inv.front c ctx hctx).front⟩,
    ⟨h.inv.nodup, h.inv.live⟩, fun c ctx hctx => (h.inv.registers c ctx hctx).unique,
    fun c ctx hctx => (h.inv.registers c ctx hctx).nonempty,
    fun c ctx hctx k hk => (h.alive c ctx hctx).clients k hk (by simp), ?_, h.inv.apart,
    fun k cl hcl j => ?_⟩
  · have hnodup : s.enabled.Nodup := (take_sublist _ _).nodup h.inv.nodup
    rw [h.inv.count, sum_toFinset _ hnodup]
  · have hooked := h.inv.hooked k cl hcl
    have hplain := h.inv.plain k cl hcl
    have hleft : ¬ Selects s k j → cl.requestVector j = cl.vector := fun hnot =>
      hooked.plain j fun ivs hw hj => hnot ((h.inv.selects k j).mpr ⟨ivs, hw, hj⟩)
    refine ⟨hplain, ⟨fun heq => ?_, fun hsel => ?_⟩, hleft⟩
    · by_contra hnot
      exact hplain ((hleft hnot).symm.trans heq)
    · obtain ⟨ivs, hw, hj⟩ := (h.inv.selects k j).mp hsel
      exact hooked.hooked j ivs hw hj

/-- In every run the hooks follow the registrations, and no assertion fails. -/
theorem hooks_followed {limitClients : Nat} (hlimit : 0 < limitClients) {actions : List Action}
    (hpossible : Run.Guarded (step limitClients) (Possible limitClients) State.start actions) :
    ∃ s outs, Run.exec (step limitClients) State.start actions = some (s, outs) ∧ Followed s := by
  obtain ⟨s, outs, hrun, hready⟩ := Run.exec_invariant (fun _ _ => step_ready)
    (start_ready hlimit) hpossible
  exact ⟨s, outs, hrun, hready.followed⟩

/-- Two clients are recorded, one of them from its connection on, and the second one records. -/
def twoRecorded : List Action :=
  [.connect 1, .establish 1 false, .createContext 1 7 [.allClients] (some [⟨1, 3⟩]),
    .createContext 1 8 [.currentClients] (some [⟨3, 5⟩]), .connect 2, .establish 2 true,
    .enableContext 2 7, .enableContext 1 8, .connect 3, .establish 3 false,
    .registerClients 3 7 [.resource 1 true] none, .unregisterClients 3 8 [.resource 1 true],
    .close 2 false [7]]

theorem hooks_followed_two : ∃ s outs,
    Run.exec (step 4) State.start twoRecorded = some (s, outs) ∧ Followed s :=
  hooks_followed (by decide) (by decide +kernel)

end Xfront.Record.Hooks
