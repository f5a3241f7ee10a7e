import Xfront.Record.Contexts

/-!
# The clients of a request

What `RecordCanonicalizeClientSpecifiers` makes of the specifiers of a request: each client
once, and no client that was not asked for.
-/

namespace Xfront.Record.Hooks
open Nat Bool

open List

def Specifier.named : Specifier → Option ClientSpec
  | .futureClients => some .futureClients
  | .resource k _ => some (.client k)
  | _ => none

variable {spec : Specifier} {n : Nat}

theorem dropEqual_mem {l : List Specifier} (hn : l.length ≤ n) :
    (dropEqual spec n l).length ≤ l.length ∧ ∀ x ∈ dropEqual spec n l, x ∈ l ∧ x ≠ spec := by
  induction n generalizing l with
  | zero =>
    rw [le_zero] at hn
    rw [eq_nil_of_length_eq_zero hn]
    exact ⟨le_refl _, fun x hx => nomatch hx⟩
  | succ n ih =>
    cases l with
    | nil => exact ⟨le_refl _, fun x hx => nomatch hx⟩
    | cons first rest =>
      rw [length_cons] at hn
      rw [dropEqual]
      by_cases hfirst : first = spec
      · rw [if_pos hfirst]
        rcases eq_nil_or_concat rest with rfl | ⟨init, last, rfl⟩
        · exact ⟨zero_le _, fun x hx => nomatch hx⟩
        · rw [concat_eq_append] at hn ⊢
          rw [getLast?_concat]
          dsimp only
          rw [dropLast_concat]
          rw [length_append, length_singleton] at hn
          obtain ⟨hlen, hmem⟩ := ih (l := last :: init) (by rw [length_cons]; omega)
          refine ⟨?_, fun x hx => ⟨?_, (hmem x hx).2⟩⟩
          · rw [length_cons] at hlen
            rw [length_cons, length_append, length_singleton]
            omega
          · refine mem_cons_of_mem _ (mem_append.mpr ?_)
            exact (mem_cons.mp (hmem x hx).1).elim
              (fun heq => .inr (heq ▸ mem_cons_self)) Or.inl
      · rw [if_neg hfirst]
        obtain ⟨hlen, hmem⟩ := ih (l := rest) (by omega)
        refine ⟨succ_le_succ hlen, fun x hx => ?_⟩
        rcases mem_cons.mp hx with rfl | hx
        · exact ⟨mem_cons_self, hfirst⟩
        · exact ⟨mem_cons_of_mem _ (hmem x hx).1, (hmem x hx).2⟩

theorem eq_of_named {spec' : Specifier} (h : spec.stripped = spec)
    (h' : spec'.stripped = spec') (hnamed : spec.named = spec'.named) (hsome : spec'.named ≠ none) :
    spec = spec' := by
  cases spec <;> cases spec' <;> simp_all [Specifier.named, Specifier.stripped]

structure Partly (good : ClientSpec → Prop) (before : List ClientSpec) (specs : List Specifier) :
    Prop where
  nodup : before.Nodup
  fit : ∀ x ∈ before, good x
  stripped : ∀ spec ∈ specs, spec.stripped = spec
  named : ∀ spec ∈ specs, ∀ x, spec.named = some x → good x ∧ x ∉ before

variable {good : ClientSpec → Prop} {before : List ClientSpec} {x : ClientSpec}

theorem Partly.next {rest : List Specifier} (h : Partly good before (spec :: rest))
    (hx : spec.named = some x) : Partly good (before ++ [x]) (dropEqual spec rest.length rest) := by
  obtain ⟨hgood, hnot⟩ := h.named spec mem_cons_self x hx
  have hmem : ∀ y ∈ dropEqual spec rest.length rest, y ∈ rest ∧ y ≠ spec :=
    (dropEqual_mem (le_refl rest.length)).2
  refine ⟨?_, ?_, ?_, ?_⟩
  · rw [nodup_append]
    refine ⟨h.nodup, nodup_singleton x, fun y hy z hz heq => hnot ?_⟩
    rw [← mem_singleton.mp hz, ← heq]
    exact hy
  · intro y hy
    rcases mem_append.mp hy with hy | hy
    · exact h.fit y hy
    · rw [mem_singleton.mp hy]
      exact hgood
  · exact fun spec' hspec' => h.stripped spec' (mem_cons_of_mem _ (hmem spec' hspec').1)
  · intro spec' hspec' y hy
    obtain ⟨hin, hne⟩ := hmem spec' hspec'
    obtain ⟨hgood', hnot'⟩ := h.named spec' (mem_cons_of_mem _ hin) y hy
    refine ⟨hgood', fun hy' => ?_⟩
    rcases mem_append.mp hy' with hy' | hy'
    · exact hnot' hy'
    · refine hne ?_
      rw [mem_singleton] at hy'
      subst hy'
      exact eq_of_named (h.stripped spec' (mem_cons_of_mem _ hin))
        (h.stripped spec mem_cons_self) (hy.trans hx.symm) (by rw [hx]; simp)

variable {specs : List Specifier}

theorem canonicalizeFrom_spec {current : List ClientSpec} (hnodup : current.Nodup)
    (hcurrent : ∀ x ∈ current, good x ∧ x ≠ .futureClients) (hfuture : good .futureClients)
    (hn : specs.length ≤ n) (h : Partly good before specs) :
    (canonicalizeFrom current n before specs).Nodup ∧
      (∀ x ∈ canonicalizeFrom current n before specs, good x) ∧
      (current ≠ [] → before ≠ [] ∨ specs ≠ [] → canonicalizeFrom current n before specs ≠ []) := by
  induction n generalizing before specs with
  | zero =>
    rw [le_zero] at hn
    rw [eq_nil_of_length_eq_zero hn, canonicalizeFrom]
    · exact ⟨h.nodup, h.fit, fun _ hne => hne.resolve_right fun hnil => hnil rfl⟩
    · simp
  | succ n ih =>
    cases specs with
    | nil => exact ⟨h.nodup, h.fit, fun _ hne => hne.resolve_right fun hnil => hnil rfl⟩
    | cons spec rest =>
      rw [length_cons] at hn
      have hlen : (dropEqual spec rest.length rest).length ≤ rest.length :=
        (dropEqual_mem (le_refl rest.length)).1
      have hmore : ∀ x : ClientSpec, before ++ [x] ≠ [] := fun x =>
        append_ne_nil_of_right_ne_nil _ (cons_ne_nil _ _)
      cases spec with
      | allClients =>
        rw [canonicalizeFrom]
        refine ⟨?_, fun x hx => ?_, fun _ _ => ?_⟩
        · rw [nodup_append]
          refine ⟨hnodup, nodup_singleton _, fun x hx y hy heq => (hcurrent x hx).2 ?_⟩
          rw [heq, mem_singleton.mp hy]
        · rcases mem_append.mp hx with hx | hx
          · exact (hcurrent x hx).1
          · rw [mem_singleton.mp hx]
            exact hfuture
        · exact append_ne_nil_of_right_ne_nil _ (cons_ne_nil _ _)
      | currentClients => exact ⟨hnodup, fun x hx => (hcurrent x hx).1, fun hne _ => hne⟩
      | futureClients | resource k found =>
        rw [canonicalizeFrom]
        obtain ⟨hnodup', hgood', hne'⟩ := ih (by omega) (h.next rfl)
        exact ⟨hnodup', hgood', fun hne _ => hne' hne (.inl (hmore _))⟩

def Recorded (s : State) (excludespec : Option Nat) : ClientSpec → Prop
  | .client k => s.running k = true ∧ excludespec ≠ some k
  | .futureClients => True

variable {s : State} {excludespec : Option Nat}

theorem mem_currentClients {limitClients : Nat} : x ∈ currentClients limitClients s excludespec ↔
      ∃ k, x = .client k ∧ k < limitClients ∧ k ≠ 0 ∧ s.running k = true ∧
        excludespec ≠ some k := by
  rw [currentClients, mem_map]
  refine exists_congr fun k => ?_
  rw [mem_filter, mem_range]
  simp only [and_eq_true, decide_eq_true_iff]
  tauto

theorem currentClients_nodup (limitClients : Nat) (s : State) (excludespec : Option Nat) :
    (currentClients limitClients s excludespec).Nodup := by
  refine List.Nodup.map ?_ ((nodup_range).filter _)
  intro a b hab
  cases hab
  rfl

theorem stripped_stripped (spec : Specifier) : spec.stripped.stripped = spec.stripped := by
  cases spec <;> rfl

theorem canonicalize_spec (limitClients : Nat)
    (hsane : sanityCheckClientSpecifiers s excludespec specs = true) :
    (canonicalizeClientSpecifiers limitClients s excludespec specs).Nodup ∧
      (∀ x ∈ canonicalizeClientSpecifiers limitClients s excludespec specs,
        Recorded s excludespec x) ∧ (currentClients limitClients s excludespec ≠ [] → specs ≠ [] →
        canonicalizeClientSpecifiers limitClients s excludespec specs ≠ []) := by
  have hpartly : Partly (Recorded s excludespec) [] (specs.map (·.stripped)) := by
    refine ⟨nodup_nil, fun x hx => absurd hx not_mem_nil, ?_, ?_⟩
    · intro spec hspec
      obtain ⟨spec', -, rfl⟩ := mem_map.mp hspec
      exact stripped_stripped spec'
    · intro spec hspec x hx
      obtain ⟨spec', hspec', rfl⟩ := mem_map.mp hspec
      refine ⟨?_, not_mem_nil⟩
      have hthis := all_eq_true.mp hsane spec' hspec'
      cases spec' with
      | currentClients => cases hx
      | allClients => cases hx
      | futureClients =>
        cases hx
        trivial
      | resource k found =>
        cases hx
        simp only [and_eq_true, decide_eq_true_iff] at hthis
        exact ⟨hthis.1.2, hthis.1.1.1⟩
  obtain ⟨hnodup, hgood, hne⟩ := canonicalizeFrom_spec (n := specs.length)
    (currentClients_nodup limitClients s excludespec)
    (fun x hx => by
      obtain ⟨k, rfl, -, -, hrun, hex⟩ := mem_currentClients.mp hx
      exact ⟨⟨hrun, hex⟩, by simp⟩)
    trivial (by rw [length_map]) hpartly
  exact ⟨hnodup, hgood, fun hcur hspecs => hne hcur (.inr fun hnil => hspecs
    (map_eq_nil_iff.mp hnil))⟩

end Xfront.Record.Hooks
