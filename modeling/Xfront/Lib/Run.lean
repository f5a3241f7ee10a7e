import Mathlib

/-!
# Runs of a machine

A machine takes one action after another and may get stuck. `exec_simulates`
lifts a relation that every step keeps to whole runs, `exec_invariant` does so
for an invariant, and `accept_prefix` compares two words of an
automaton whose outputs are determined by what is visible of them.
-/

namespace Xfront.Run

open List Option

variable {S A O T E I : Type}

def exec (step : S → A → Option (S × O)) : S → List A → Option (S × List O)
  | s, [] => some (s, [])
  | s, a :: as => (step s a).bind fun (s', o) =>
    (exec step s' as).map fun (s'', os) => (s'', o :: os)

/-- Every action meets `guard` in the state it is taken in. -/
def Guarded (step : S → A → Option (S × O)) (guard : S → A → Prop) : S → List A → Prop
  | _, [] => True
  | s, a :: as => guard s a ∧ ∀ s' o, step s a = some (s', o) → Guarded step guard s' as

instance decidableGuarded (step : S → A → Option (S × O)) (guard : S → A → Prop)
    [∀ s a, Decidable (guard s a)] : ∀ s as, Decidable (Guarded step guard s as)
  | _, [] => isTrue trivial
  | s, a :: as =>
    have : ∀ s', Decidable (Guarded step guard s' as) := fun s' =>
      decidableGuarded step guard s' as
    decidable_of_iff (guard s a ∧ ∀ r ∈ step s a, Guarded step guard r.1 as)
      (and_congr_right fun _ => ⟨fun h s' o hs => h (s', o) hs, fun h r hr => h r.1 r.2 hr⟩)

/-- `told` holds of every step of a run: the state, the action, what it led to. -/
def Always (step : S → A → Option (S × O)) (told : S → A → S → O → Prop) : S → List A → Prop
  | _, [] => True
  | s, a :: as => ∀ s' o, step s a = some (s', o) → told s a s' o ∧ Always step told s' as

def accept (astep : T → O → Option T) : T → List O → Option T
  | t, [] => some t
  | t, o :: os => (astep t o).bind fun t' => accept astep t' os

variable {step : S → A → Option (S × O)} {s s' : S}

theorem exec_cons {a : A} {o : O} (as : List A) (h : step s a = some (s', o)) :
    exec step s (a :: as) = (exec step s' as).map fun (s'', os) => (s'', o :: os) := by
  rw [exec, h, bind_some]

variable {as : List A} {os : List O}

theorem exec_append (h : exec step s as = some (s', os)) (bs : List A) :
    exec step s (as ++ bs) = (exec step s' bs).map fun (s'', os') => (s'', os ++ os') := by
  induction as generalizing s os with
  | nil =>
    cases h
    simp
  | cons a as ih =>
    obtain ⟨⟨u, o⟩, hu, hrest⟩ := bind_eq_some_iff.mp h
    obtain ⟨⟨u', os'⟩, hexec, he⟩ := map_eq_some_iff.mp hrest
    cases he
    rw [cons_append, exec_cons _ hu, ih hexec, Option.map_map]
    rfl

variable {astep : T → O → Option T}

theorem accept_cons {t t' : T} {o : O} (os : List O)
    (h : astep t o = some t') : accept astep t (o :: os) = accept astep t' os := by
  rw [accept, h, bind_some]

theorem accept_append (t : T) (os os' : List O) :
    accept astep t (os ++ os') = (accept astep t os).bind fun u => accept astep u os' := by
  induction os generalizing t with
  | nil => rfl
  | cons o os ih =>
    rw [cons_append, accept, accept, bind_assoc]
    congr 1
    funext u
    exact ih u

theorem accept_flatten (astep : T → O → Option T) (t : T) (outs : List (List O)) :
    accept (fun u os => accept astep u os) t outs = accept astep t outs.flatten := by
  induction outs generalizing t with
  | nil => rfl
  | cons os outs ih =>
    rw [flatten_cons, accept_append, accept]
    congr 1
    funext u
    exact ih u

variable {guard : S → A → Prop} {s : S}

theorem exec_simulates {R : S → T → Prop} (hstep : ∀ s t a, R s t → guard s a →
      ∃ s' o t', step s a = some (s', o) ∧ astep t o = some t' ∧ R s' t')
    {t : T} (hR : R s t) (hg : Guarded step guard s as) :
    ∃ s' os t', exec step s as = some (s', os) ∧ accept astep t os = some t' ∧ R s' t' := by
  induction as generalizing s t with
  | nil => exact ⟨s, [], t, rfl, rfl, hR⟩
  | cons a as ih =>
    obtain ⟨s', o, t', hs, ht, hR'⟩ := hstep s t a hR hg.1
    obtain ⟨s'', os, t'', hexec, hacc, hR''⟩ := ih hR' (hg.2 s' o hs)
    refine ⟨s'', o :: os, t'', ?_, ?_, hR''⟩
    · rw [exec_cons as hs, hexec, map_some]
    · rw [accept_cons os ht, hacc]

variable {inv : S → Prop}

theorem exec_invariant (hstep : ∀ s a, inv s → guard s a → ∃ s' o, step s a = some (s', o) ∧ inv s')
    (hinv : inv s) (hg : Guarded step guard s as) :
    ∃ s' os, exec step s as = some (s', os) ∧ inv s' := by
  induction as generalizing s with
  | nil => exact ⟨s, [], rfl, hinv⟩
  | cons a as ih =>
    obtain ⟨s', o, hs, hi⟩ := hstep s a hinv hg.1
    obtain ⟨s'', os, hexec, hi'⟩ := ih hi (hg.2 s' o hs)
    exact ⟨s'', o :: os, by rw [exec_cons as hs, hexec, map_some], hi'⟩

variable {told : S → A → S → O → Prop}

theorem always_of_guarded (hstep : ∀ s a s' o, guard s a → step s a = some (s', o) → told s a s' o)
    (hg : Guarded step guard s as) : Always step told s as := by
  induction as generalizing s with
  | nil => trivial
  | cons a as ih => exact fun s' o hs => ⟨hstep s a s' o hg.1 hs, ih (hg.2 s' o hs)⟩

theorem always_of_inv (inv : S → Prop)
    (hstep : ∀ s a s' o, inv s → guard s a → step s a = some (s', o) → inv s' ∧ told s a s' o)
    (hinv : inv s) (hg : Guarded step guard s as) : Always step told s as := by
  induction as generalizing s with
  | nil => trivial
  | cons a as ih =>
    intro s' o hs
    obtain ⟨hinv', htold⟩ := hstep s a s' o hinv hg.1 hs
    exact ⟨htold, ih hinv' (hg.2 s' o hs)⟩

theorem always_last {s t u : S} {a : A} {o : O} (h : exec step s as = some (t, os))
    (halways : Always step told s (as ++ [a])) (hstep : step t a = some (u, o)) : told t a u o := by
  induction as generalizing s os with
  | nil =>
    cases h
    exact (halways u o hstep).1
  | cons b as ih =>
    obtain ⟨⟨v, p⟩, hv, hrest⟩ := bind_eq_some_iff.mp h
    obtain ⟨⟨v', os'⟩, hexec, he⟩ := map_eq_some_iff.mp hrest
    cases he
    exact ih hexec (halways v p hv).2

theorem always_iff_guarded (inv : S → Prop)
    (hstep : ∀ s a s' o, inv s → step s a = some (s', o) → inv s' ∧ (told s a s' o ↔ guard s a))
    (hstuck : ∀ s a, step s a = none → guard s a) (hinv : inv s) :
    Always step told s as ↔ Guarded step guard s as := by
  induction as generalizing s with
  | nil => exact Iff.rfl
  | cons a as ih =>
    rw [Always, Guarded]
    cases hs : step s a with
    | none => simp [hstuck s a hs]
    | some r =>
      obtain ⟨s', o⟩ := r
      obtain ⟨hinv', htold⟩ := hstep s a s' o hinv hs
      constructor
      · intro halways
        obtain ⟨h, hrest⟩ := halways s' o rfl
        refine ⟨htold.mp h, ?_⟩
        rintro _ _ ⟨⟩
        exact (ih hinv').mp hrest
      · rintro ⟨h, hrest⟩ _ _ ⟨⟩
        exact ⟨htold.mpr h, (ih hinv').mpr (hrest s' o rfl)⟩

theorem exec_keeps (hstep : ∀ s a s' o, inv s → guard s a → step s a = some (s', o) → inv s')
    (hinv : inv s) (hg : Guarded step guard s as)
    (h : exec step s as = some (s', os)) : inv s' := by
  induction as generalizing s os with
  | nil =>
    cases h
    exact hinv
  | cons a as ih =>
    obtain ⟨⟨u, o⟩, hu, hrest⟩ := bind_eq_some_iff.mp h
    obtain ⟨⟨u', os'⟩, hexec, he⟩ := map_eq_some_iff.mp hrest
    cases he
    exact ih (hstep s a u o hinv hg.1 hu) (hg.2 u o hu) hexec

theorem guarded_true (s : S) (as : List A) : Guarded step (fun _ _ => True) s as := by
  induction as generalizing s with
  | nil => trivial
  | cons a as ih => exact ⟨trivial, fun s' _ _ => ih s'⟩

theorem guarded_cons {a : A} {o : O} (h : guard s a) (hs : step s a = some (s', o))
    (hg : Guarded step guard s' as) : Guarded step guard s (a :: as) := by
  refine ⟨h, fun u p hu => ?_⟩
  rw [hs] at hu
  cases hu
  exact hg

theorem guarded_and {guard guard' : S → A → Prop}
    (hg : Guarded step guard s as) (hg' : Guarded step guard' s as) :
    Guarded step (fun s a => guard s a ∧ guard' s a) s as := by
  induction as generalizing s with
  | nil => trivial
  | cons a as ih =>
    exact ⟨⟨hg.1, hg'.1⟩, fun s' o hs => ih (hg.2 s' o hs) (hg'.2 s' o hs)⟩

theorem guarded_of_always (hstep : ∀ s a s' o, step s a = some (s', o) → told s a s' o → guard s a)
    (h : exec step s as = some (s', os))
    (halways : Always step told s as) : Guarded step guard s as := by
  induction as generalizing s os with
  | nil => trivial
  | cons a as ih =>
    obtain ⟨⟨u, o⟩, hu, hrest⟩ := bind_eq_some_iff.mp h
    obtain ⟨⟨u', os'⟩, hexec, he⟩ := map_eq_some_iff.mp hrest
    cases he
    obtain ⟨htold, halways'⟩ := halways u o hu
    exact guarded_cons (hstep s a u o hu htold) hu (ih hexec halways')

theorem guarded_of_exec
    (hstep : ∀ s a, inv s → guard s a → ∃ s' o, step s a = some (s', o) ∧ inv s')
    (hstuck : ∀ s a, inv s → ¬ guard s a → step s a = none)
    (hinv : inv s) (h : exec step s as = some (s', os)) : Guarded step guard s as := by
  induction as generalizing s s' os with
  | nil => trivial
  | cons a as ih =>
    obtain ⟨⟨u, o⟩, hu, hrest⟩ := bind_eq_some_iff.mp h
    obtain ⟨⟨u', os'⟩, hexec, _⟩ := map_eq_some_iff.mp hrest
    have hg : guard s a := by
      by_contra hng
      rw [hstuck s a hinv hng] at hu
      cases hu
    obtain ⟨v, o', hv, hi⟩ := hstep s a hinv hg
    rw [hv] at hu
    cases hu
    refine ⟨hg, fun w p hw => ?_⟩
    rw [hv] at hw
    cases hw
    exact ih hi hexec

theorem accept_project {U : Type} {estep : U → E → Option U} {v : T → U} {pick : O → Option E}
    (hskip : ∀ t o t', astep t o = some t' → pick o = none → v t' = v t)
    (htake : ∀ t o t' e, astep t o = some t' → pick o = some e →
      estep (v t) e = some (v t')) {t t' : T} (h : accept astep t os = some t') :
    accept estep (v t) (os.filterMap pick) = some (v t') := by
  induction os generalizing t with
  | nil =>
    cases h
    rfl
  | cons o os ih =>
    obtain ⟨u, hu, hrest⟩ := bind_eq_some_iff.mp h
    cases hp : pick o with
    | none =>
      rw [filterMap_cons_none hp, ← hskip t o u hu hp]
      exact ih hrest
    | some e =>
      rw [filterMap_cons_some hp, accept_cons _ (htake t o u e hu hp)]
      exact ih hrest

theorem accept_prefix {estep : T → E → Option T} {shows : E → I}
    (hdet : ∀ t e e' t₁ t₂, estep t e = some t₁ → estep t e' = some t₂ → shows e = shows e' →
      e = e') {t t₁ t₂ : T} {w w' : List E} (h : accept estep t w = some t₁)
    (h' : accept estep t w' = some t₂) (hp : w.map shows <+: w'.map shows) : w <+: w' := by
  induction w generalizing t w' with
  | nil => exact nil_prefix
  | cons e w ih =>
    cases w' with
    | nil =>
      rw [map_nil, prefix_nil, map_cons] at hp
      cases hp
    | cons e' w' =>
      rw [map_cons, map_cons, cons_prefix_cons] at hp
      obtain ⟨u, hu, hrest⟩ := bind_eq_some_iff.mp h
      obtain ⟨u', hu', hrest'⟩ := bind_eq_some_iff.mp h'
      have he : e = e' := hdet t e e' u u' hu hu' hp.1
      subst he
      rw [hu] at hu'
      cases hu'
      exact cons_prefix_cons.mpr ⟨rfl, ih hrest hrest' hp.2⟩

end Xfront.Run
