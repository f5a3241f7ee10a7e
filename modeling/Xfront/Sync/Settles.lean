import Xfront.Sync.Firing

/-!
# What becomes of the groups

Events of a step counted by group and alarm. A group that goes is freed once and its client is
told once; a group that is freed by itself goes quietly.
-/

namespace Xfront.Sync

open List

def isAttend (g : Nat) : Event → Bool
  | .attend g' _ => g' == g
  | .counterNotify .. | .awaitFreed _ | .alarmNotify .. => false

def isFreed (g : Nat) : Event → Bool
  | .awaitFreed g' => g' == g
  | .counterNotify .. | .attend .. | .alarmNotify .. => false

def isNotify (a : Nat) : Event → Bool
  | .alarmNotify a' .. => a' == a
  | .counterNotify .. | .attend .. | .awaitFreed _ => false

theorem Unblocks.counts {g : Nat} {client : Client} {events : List Event}
    (h : Unblocks g client events) : (∀ g', events.countP (isAttend g') = if g = g' then 1 else 0) ∧
    (∀ g', events.countP (isFreed g') = if g = g' then 1 else 0) ∧
    (∀ a, events.countP (isNotify a) = 0) ∧
    ∀ g' c, .attend g' c ∈ events → g' = g ∧ c = client := by
  obtain ⟨notifies, rfl, hnotifies⟩ := h
  have hzero : ∀ test : Event → Bool, (∀ es, test (.counterNotify client es) = false) →
      notifies.countP test = 0 := by
    intro test htest
    rw [countP_eq_zero]
    intro e he
    obtain ⟨es, rfl⟩ := hnotifies e he
    rw [htest]
    exact Bool.false_ne_true
  refine ⟨fun g' => ?_, fun g' => ?_, fun a => ?_, fun g' c hmem => ?_⟩
  · rw [countP_append, hzero _ fun _ => rfl]
    simp [countP_cons, isAttend]
  · rw [countP_append, hzero _ fun _ => rfl]
    simp [countP_cons, isFreed]
  · rw [countP_append, hzero _ fun _ => rfl]
    simp [isNotify]
  · rcases mem_append.mp hmem with hmem | hmem
    · obtain ⟨es, heq⟩ := hnotifies _ hmem
      cases heq
    · simpa using hmem

/-- `quiet` tells which groups go without a word to their client. -/
structure Settles (quiet : Nat → Bool) (s : State) (events : List Event) (s' : State) : Prop where
  groups : ∀ g u, s.await g = some u → ∃ gone : Bool, s'.await g = (if gone then none else some u) ∧
    events.countP (isFreed g) = (if gone then 1 else 0) ∧
    events.countP (isAttend g) = if gone && !quiet g then 1 else 0
  clients : ∀ g u c, s.await g = some u → .attend g c ∈ events → c = u.client
  gone : ∀ g, g < s.awaits.length → s.await g = none → s'.await g = none ∧
    events.countP (isFreed g) = 0 ∧ events.countP (isAttend g) = 0
  length : s.awaits.length ≤ s'.awaits.length

def isOther : Event → Bool
  | .attend .. | .awaitFreed _ => false
  | .counterNotify .. | .alarmNotify .. => true

section

variable {quiet : Nat → Bool} {s s₁ s₂ : State} {events events₁ events₂ : List Event}
  {g : Nat} {u : SyncAwaitUnion}

theorem lt_of_await (h : s.await g = some u) : g < s.awaits.length := by
  by_contra hge
  rw [State.await, getElem?_eq_none (Nat.le_of_not_lt hge)] at h
  cases h

theorem countP_other (h : ∀ e ∈ events, isOther e = true) (g : Nat) :
    events.countP (isFreed g) = 0 ∧ events.countP (isAttend g) = 0 := by
  refine ⟨countP_eq_zero.mpr fun e he => ?_, countP_eq_zero.mpr fun e he => ?_⟩
  all_goals
    have hother := h e he
    cases e <;> first | exact Bool.false_ne_true | cases hother

theorem Settles.none (hawaits : ∀ g, g < s.awaits.length → s₁.await g = s.await g)
    (hlength : s.awaits.length ≤ s₁.awaits.length)
    (hevents : ∀ e ∈ events, isOther e = true) : Settles quiet s events s₁ := by
  refine ⟨fun g u hu => ⟨false, ?_, ?_, ?_⟩, fun g u c _ hmem => ?_, fun g hlt hg => ⟨?_, ?_⟩, hlength⟩
  · rw [hawaits g (lt_of_await hu), hu]
    rfl
  · exact (countP_other hevents g).1
  · exact (countP_other hevents g).2
  · cases hevents _ hmem
  · rw [hawaits g hlt, hg]
  · exact countP_other hevents g

theorem Settles.same (hawaits : s₁.awaits = s.awaits) (hevents : ∀ e ∈ events, isOther e = true) :
    Settles quiet s events s₁ :=
  Settles.none (fun g _ => by rw [State.await, hawaits, State.await]) (le_of_eq (by rw [hawaits]))
    hevents

theorem Settles.refl : Settles quiet s [] s := Settles.same rfl fun _ he => nomatch he

theorem Settles.andThen {quiet₁ quiet₂ : Nat → Bool} (h₁ : Settles quiet₁ s events₁ s₁)
    (h₂ : Settles quiet₂ s₁ events₂ s₂) (hquiet : ∀ g, g < s.awaits.length → quiet g =
      if 0 < events₁.countP (isFreed g) then quiet₁ g else quiet₂ g) :
    Settles quiet s (events₁ ++ events₂) s₂ := by
  refine ⟨fun g u hu => ?_, fun g u c hu hmem => ?_, fun g hlt hg => ?_,
    le_trans h₁.length h₂.length⟩
  · obtain ⟨gone₁, hawait₁, hfreed₁, hattend₁⟩ := h₁.groups g u hu
    rw [countP_append, countP_append, hattend₁, hquiet g (lt_of_await hu), hfreed₁]
    cases gone₁ with
    | true =>
      obtain ⟨hnone, hfreed₂, hattend₂⟩ :=
        h₂.gone g (lt_of_lt_of_le (lt_of_await hu) h₁.length) hawait₁
      exact ⟨true, hnone, by rw [hfreed₂]; rfl, by rw [hattend₂]; rfl⟩
    | false =>
      obtain ⟨gone₂, hawait₂, hfreed₂, hattend₂⟩ := h₂.groups g u hawait₁
      refine ⟨gone₂, hawait₂, ?_, ?_⟩
      · rw [hfreed₂, if_neg Bool.false_ne_true, zero_add]
      · simp only [hattend₂, Bool.false_and, Bool.false_eq_true, if_false, zero_add, lt_irrefl]
  · rcases mem_append.mp hmem with hmem | hmem
    · exact h₁.clients g u c hu hmem
    · obtain ⟨gone₁, hawait₁, -⟩ := h₁.groups g u hu
      cases gone₁ with
      | false => exact h₂.clients g u c hawait₁ hmem
      | true =>
        obtain ⟨-, -, hattend₂⟩ := h₂.gone g (lt_of_lt_of_le (lt_of_await hu) h₁.length) hawait₁
        have hpos : 0 < events₂.countP (isAttend g) :=
          countP_pos_iff.mpr ⟨_, hmem, beq_self_eq_true g⟩
        omega
  · obtain ⟨hg₁, hfreed₁, hattend₁⟩ := h₁.gone g hlt hg
    obtain ⟨hg₂, hfreed₂, hattend₂⟩ := h₂.gone g (lt_of_lt_of_le hlt h₁.length) hg₁
    refine ⟨hg₂, ?_, ?_⟩
    · rw [countP_append, hfreed₁, hfreed₂]
    · rw [countP_append, hattend₁, hattend₂]

theorem Settles.trans (h₁ : Settles quiet s events₁ s₁) (h₂ : Settles quiet s₁ events₂ s₂) :
    Settles quiet s (events₁ ++ events₂) s₂ := h₁.andThen h₂ fun g _ => by split <;> rfl

theorem Settles.fired {view : View} (hu : s.await g = some u)
    (hunblocks : Unblocks g u.client events) (hfreed : Freed s g view s₁) :
    Settles (fun _ => false) s events s₁ := by
  obtain ⟨hattends, hfrees, -, hclients⟩ := hunblocks.counts
  refine ⟨fun g' u' hu' => ⟨decide (g = g'), ?_, ?_, ?_⟩, fun g' u' c hu' hmem => ?_,
    fun g' _ hg' => ?_, ?_⟩
  · simp only [hfreed.await, decide_eq_true_eq, hu']
  · simp only [hfrees, decide_eq_true_eq]
  · simp only [hattends, Bool.not_false, Bool.and_true, decide_eq_true_eq]
  · obtain ⟨rfl, rfl⟩ := hclients g' c hmem
    rw [hu] at hu'
    cases hu'
    rfl
  · have hne : g ≠ g' := by
      rintro rfl
      rw [hu] at hg'
      cases hg'
    rw [hfreed.await, hfrees, hattends, if_neg hne, if_neg hne]
    exact ⟨hg', rfl, rfl⟩
  · exact le_of_eq (by rw [hfreed.awaits, length_set])

theorem Settles.freed {view : View} (hu : s.await g = some u)
    (hfreed : Freed s g view s₁) : Settles (· == g) s [.awaitFreed g] s₁ := by
  have hcount : ∀ g', [Event.awaitFreed g].countP (isFreed g') = if g = g' then 1 else 0 := by
    intro g'
    simp [countP_cons, isFreed]
  refine ⟨fun g' u' hu' => ⟨decide (g = g'), ?_, ?_, ?_⟩, fun g' u' c _ hmem => ?_,
    fun g' _ hg' => ?_, ?_⟩
  · simp only [hfreed.await, decide_eq_true_eq, hu']
  · simp only [hcount, decide_eq_true_eq]
  · by_cases hg : g = g'
    · simp [isAttend, hg]
    · simp [isAttend, hg]
  · simp at hmem
  · have hne : g ≠ g' := by
      rintro rfl
      rw [hu] at hg'
      cases hg'
    rw [hfreed.await, hcount, if_neg hne, if_neg hne]
    exact ⟨hg', rfl, rfl⟩
  · exact le_of_eq (by rw [hfreed.awaits, length_set])

end

end Xfront.Sync
