import Xfront.Lib.Run

/-!
# Groups of hits

What one pointer does at one barrier, as its client sees it: hits with an id, a leave that ends the
group, and requests that release an id.
-/

namespace Xfront.Barriers
open Bool

open List

inductive Entry
  | hit (id : Int)
  | leave (id : Int) (released destroyed : Bool)
  | release (id : Int)
deriving DecidableEq

def Entry.isRelease : Entry → Bool
  | .release _ => true
  | _ => false

def Entry.isLeave : Entry → Bool
  | .leave _ _ _ => true
  | _ => false

def generated (log : List Entry) : List Entry := log.filter fun e => !e.isRelease

def leaves (log : List Entry) : Nat := log.countP Entry.isLeave

def currentId (log : List Entry) : Int := 1 + leaves log

/-- The client has asked for the release of `i` while it was current. -/
def Released (log : List Entry) (i : Int) : Prop :=
  ∃ before after, log = before ++ .release i :: after ∧ i = currentId before

structure Group where
  id : Int
  hits : Nat
  leave : Option (Bool × Bool)

def Group.entries (g : Group) : List Entry :=
  replicate g.hits (.hit g.id) ++ (g.leave.map fun (r, d) => .leave g.id r d).toList

/-- The events form groups with increasing ids, all but the last of which are ended by a leave;
`released` tells when an id is released, and `bare` which groups need no hit. -/
structure Grouped (released : List Entry → Int → Prop) (bare : List Entry → Group → Prop)
    (log : List Entry) : Prop where
  groups : ∃ gs : List Group, generated log = gs.flatMap Group.entries ∧
    gs.Pairwise (fun g h => g.id < h.id) ∧ (∀ g ∈ gs, 0 < g.hits ∨ bare log g) ∧
    ∀ g ∈ gs.dropLast, g.leave.isSome
  hit : ∀ before i after, log = before ++ .hit i :: after → ¬ released before i
  leave : ∀ before i r d after, log = before ++ .leave i r d :: after →
    (r = true ↔ released before i ∨ d = true)

def Unhit (log : List Entry) (g : Group) : Prop := Released log g.id ∧ g.leave.isSome

structure Track where
  id : Int
  hits : Bool
  released : Bool
  destroyed : Bool

def Track.start : Track := { id := 1, hits := false, released := false, destroyed := false }

def Track.next (t : Track) : Entry → Option Track
  | .hit i => if i = t.id ∧ !t.released ∧ !t.destroyed then some { t with hits := true } else none
  | .leave i r d =>
    if i = t.id ∧ (t.hits || t.released) ∧ r = (t.released || d) ∧ !t.destroyed then
      some { id := t.id + 1, hits := false, released := false, destroyed := d }
    else none
  | .release i =>
    if t.destroyed then none else if i = t.id then some { t with released := true } else some t

section

variable {log : List Entry} {t t' : Track} {e : Entry} {i : Int}

theorem leaves_snoc (log : List Entry) (e : Entry) :
    leaves (log ++ [e]) = leaves log + if e.isLeave then 1 else 0 := by
  rw [leaves, leaves, countP_append, countP_singleton]

theorem currentId_snoc (log : List Entry) (e : Entry) :
    currentId (log ++ [e]) = currentId log + if e.isLeave then 1 else 0 := by
  rw [currentId, currentId, leaves_snoc]
  split <;> push_cast <;> omega

theorem generated_snoc (log : List Entry) (e : Entry) :
    generated (log ++ [e]) = generated log ++ if e.isRelease then [] else [e] := by
  rw [generated, generated, filter_append]
  cases h : e.isRelease <;> simp [h]

theorem snoc_split {before after : List Entry} {e' : Entry}
    (h : log ++ [e] = before ++ e' :: after) :
    (before = log ∧ e' = e ∧ after = []) ∨ ∃ rest, after = rest ++ [e] ∧
      log = before ++ e' :: rest := by
  rcases eq_nil_or_concat' after with rfl | ⟨rest, x, rfl⟩
  · obtain ⟨hb, he⟩ := append_inj' h rfl
    cases he
    exact .inl ⟨hb.symm, rfl, rfl⟩
  · have h' : log ++ [e] = (before ++ e' :: rest) ++ [x] := by
      rw [h, append_assoc, cons_append]
    obtain ⟨hb, he⟩ := append_inj' h' rfl
    cases he
    exact .inr ⟨rest, rfl, hb⟩

theorem released_snoc :
    Released (log ++ [e]) i ↔ Released log i ∨ e = .release i ∧ i = currentId log := by
  constructor
  · rintro ⟨before, after, h, hi⟩
    rcases snoc_split h with ⟨rfl, he, _⟩ | ⟨rest, _, hl⟩
    · exact .inr ⟨he.symm, hi⟩
    · exact .inl ⟨before, rest, hl, hi⟩
  · rintro (⟨before, after, rfl, hi⟩ | ⟨rfl, hi⟩)
    · exact ⟨before, after ++ [e], by rw [append_assoc, cons_append], hi⟩
    · exact ⟨log, [], rfl, hi⟩

theorem Released.le (h : Released log i) : i ≤ currentId log := by
  obtain ⟨before, after, rfl, rfl⟩ := h
  rw [currentId, currentId, leaves, leaves, countP_append]
  push_cast
  omega

structure Track.Reads (t : Track) (log : List Entry) : Prop where
  id : t.id = currentId log
  released : t.destroyed = false → (t.released = true ↔ Released log t.id)
  groups : ∃ (gs : List Group) (n : Nat),
    generated log = gs.flatMap Group.entries ++ replicate n (.hit t.id) ∧
    gs.Pairwise (fun g h => g.id < h.id) ∧ (∀ g ∈ gs, g.id < t.id ∧ g.leave.isSome ∧
      (0 < g.hits ∨ Released log g.id)) ∧ (0 < n ↔ t.hits = true)
  hit : ∀ before i after, log = before ++ .hit i :: after → ¬ Released before i
  leave : ∀ before i r d after, log = before ++ .leave i r d :: after →
    (r = true ↔ Released before i ∨ d = true)

theorem Track.reads_start : Track.start.Reads [] where
  id := rfl
  released := fun _ => ⟨fun h => (nomatch h), fun ⟨before, after, h, _⟩ => by
    cases before <;> cases h⟩
  groups := ⟨[], 0, rfl, .nil, fun _ h => (nomatch h), ⟨fun h => (nomatch h), fun h => (nomatch h)⟩⟩
  hit := fun before _ _ h => by cases before <;> cases h
  leave := fun before _ _ _ _ h => by cases before <;> cases h

section
variable (h : t.Reads log)
include h

theorem Track.Reads.hit_snoc (he : ∀ i, e ≠ .hit i) :
    ∀ before i after, log ++ [e] = before ++ .hit i :: after → ¬ Released before i := by
  intro before i after hs
  rcases snoc_split hs with ⟨_, he', _⟩ | ⟨rest, _, hl⟩
  · exact absurd he'.symm (he i)
  · exact h.hit before i rest hl

theorem Track.Reads.leave_snoc (he : ∀ i r d, e ≠ .leave i r d) :
    ∀ before i r d after, log ++ [e] = before ++ .leave i r d :: after →
      (r = true ↔ Released before i ∨ d = true) := by
  intro before i r d after hs
  rcases snoc_split hs with ⟨_, he', _⟩ | ⟨rest, _, hl⟩
  · exact absurd he'.symm (he i r d)
  · exact h.leave before i r d rest hl

theorem Track.Reads.groups_snoc (he : e.isRelease = true) : ∃ (gs : List Group) (n : Nat),
      generated (log ++ [e]) = gs.flatMap Group.entries ++ replicate n (.hit t.id) ∧
      gs.Pairwise (fun g h => g.id < h.id) ∧ (∀ g ∈ gs, g.id < t.id ∧ g.leave.isSome ∧
        (0 < g.hits ∨ Released (log ++ [e]) g.id)) ∧ (0 < n ↔ t.hits = true) := by
  obtain ⟨gs, n, hgen, hpair, hgs, hn⟩ := h.groups
  refine ⟨gs, n, ?_, hpair, fun g hg => ?_, hn⟩
  · rw [generated_snoc, if_pos he, append_nil, hgen]
  · obtain ⟨hlt, hleave, hb⟩ := hgs g hg
    exact ⟨hlt, hleave, hb.imp_right fun hr => released_snoc.mpr (.inl hr)⟩

theorem Track.Reads.next_hit (hn : t.next (.hit i) = some t') : t'.Reads (log ++ [.hit i]) := by
  rw [Track.next] at hn
  split at hn
  next hc =>
    obtain ⟨rfl, hr, hd⟩ := hc
    have hd' : t.destroyed = false := by simpa using hd
    have hrel : ¬ Released log t.id := fun hR => by
      rw [(h.released hd').mpr hR] at hr
      cases hr
    cases hn
    obtain ⟨gs, n, hgen, hpair, hgs, _⟩ := h.groups
    refine ⟨?_, fun _ => ?_, ⟨gs, n + 1, ?_, hpair, fun g hg => ?_, ?_⟩, ?_,
      h.leave_snoc (by rintro i r d ⟨⟩)⟩
    · rw [currentId_snoc, ← h.id]
      exact (Int.add_zero _).symm
    · refine (h.released hd').trans ⟨fun hR => released_snoc.mpr (.inl hR), fun hR => ?_⟩
      rcases released_snoc.mp hR with hR | ⟨⟨⟩, _⟩
      exact hR
    · rw [generated_snoc, hgen, replicate_succ', ← append_assoc]
      rfl
    · obtain ⟨hlt, hleave, hb⟩ := hgs g hg
      exact ⟨hlt, hleave, hb.imp_right fun hR => released_snoc.mpr (.inl hR)⟩
    · exact ⟨fun _ => rfl, fun _ => Nat.succ_pos n⟩
    · intro before j after hs
      rcases snoc_split hs with ⟨rfl, he, _⟩ | ⟨rest, _, hl⟩
      · cases he
        exact hrel
      · exact h.hit before j rest hl
  next => cases hn

theorem Track.Reads.next_leave {r d : Bool}
    (hn : t.next (.leave i r d) = some t') : t'.Reads (log ++ [.leave i r d]) := by
  rw [Track.next] at hn
  split at hn
  next hc =>
    obtain ⟨rfl, hopen, hr, hd⟩ := hc
    have hd' : t.destroyed = false := by simpa using hd
    cases hn
    obtain ⟨gs, n, hgen, hpair, hgs, hpos⟩ := h.groups
    refine ⟨?_, fun _ => ?_, ⟨gs ++ [⟨t.id, n, some (r, d)⟩], 0, ?_, ?_, fun g hg => ?_, ?_⟩,
      h.hit_snoc (by rintro i ⟨⟩), ?_⟩
    · rw [currentId_snoc, ← h.id]
      rfl
    · refine ⟨fun hf => (nomatch hf), fun hR => ?_⟩
      rcases released_snoc.mp hR with hR | ⟨⟨⟩, _⟩
      have := hR.le
      have hid := h.id
      simp only at this
      omega
    · rw [generated_snoc, hgen, flatMap_append, append_assoc]
      simp [Group.entries, Entry.isRelease]
    · refine pairwise_append.mpr ⟨hpair, pairwise_singleton _ _, fun g hg g' hg' => ?_⟩
      rw [mem_singleton.mp hg']
      exact (hgs g hg).1
    · rcases mem_append.mp hg with hg | hg
      · obtain ⟨hlt, hleave, hb⟩ := hgs g hg
        exact ⟨by simp only; omega, hleave, hb.imp_right fun hR => released_snoc.mpr (.inl hR)⟩
      · rw [mem_singleton.mp hg]
        refine ⟨by simp only; omega, rfl, ?_⟩
        rcases (or_eq_true _ _).mp hopen with hh | hrel
        · exact .inl (hpos.mpr hh)
        · exact .inr (released_snoc.mpr (.inl ((h.released hd').mp hrel)))
    · exact ⟨fun hf => absurd hf (lt_irrefl 0), fun hf => (nomatch hf)⟩
    · intro before j r' d' after hs
      rcases snoc_split hs with ⟨rfl, he, _⟩ | ⟨rest, _, hl⟩
      · cases he
        rw [hr, or_eq_true, h.released hd']
      · exact h.leave before j r' d' rest hl
  next => cases hn

theorem Track.Reads.next_release (hn : t.next (.release i) = some t') :
    t'.Reads (log ++ [.release i]) := by
  have hid : currentId (log ++ [.release i]) = currentId log := by
    rw [currentId_snoc]
    exact Int.add_zero _
  have hhit := h.hit_snoc (e := .release i) (by rintro i ⟨⟩)
  have hleave := h.leave_snoc (e := .release i) (by rintro i r d ⟨⟩)
  have hgroups := h.groups_snoc (e := .release i) rfl
  rw [Track.next] at hn
  split at hn
  next => cases hn
  next hd =>
    have hd' : t.destroyed = false := by simpa using hd
    split at hn
    next hi =>
      cases hn
      refine ⟨h.id.trans hid.symm, fun _ => ⟨fun _ => ?_, fun _ => rfl⟩, hgroups, hhit, hleave⟩
      exact released_snoc.mpr (.inr ⟨by rw [hi], h.id⟩)
    next hi =>
      cases hn
      refine ⟨h.id.trans hid.symm, fun _ => (h.released hd').trans
        ⟨fun hR => released_snoc.mpr (.inl hR), fun hR => ?_⟩, hgroups, hhit, hleave⟩
      rcases released_snoc.mp hR with hR | ⟨he, _⟩
      · exact hR
      · cases he
        exact absurd rfl hi

theorem Track.Reads.next (hn : t.next e = some t') : t'.Reads (log ++ [e]) := by
  cases e with
  | hit i => exact h.next_hit hn
  | leave i r d => exact h.next_leave hn
  | release i => exact h.next_release hn

theorem Track.reads_of_accept {rest : List Entry}
    (ha : Run.accept Track.next t rest = some t') : t'.Reads (log ++ rest) := by
  induction rest generalizing t log with
  | nil =>
    cases ha
    rwa [append_nil]
  | cons e rest ih =>
    obtain ⟨u, hu, hrest⟩ := Option.bind_eq_some_iff.mp ha
    rw [append_cons]
    exact ih (h.next hu) hrest

theorem Track.Reads.grouped : Grouped Released Unhit log := by
  refine ⟨?_, h.hit, h.leave⟩
  obtain ⟨gs, n, hgen, hpair, hgs, _⟩ := h.groups
  have hall : ∀ g ∈ gs, 0 < g.hits ∨ Unhit log g := fun g hg =>
    (hgs g hg).2.2.imp_right fun hR => ⟨hR, (hgs g hg).2.1⟩
  cases n with
  | zero =>
    refine ⟨gs, by rw [hgen, replicate_zero, append_nil], hpair, hall,
      fun g hg => (hgs g (dropLast_subset gs hg)).2.1⟩
  | succ n =>
    refine ⟨gs ++ [⟨t.id, n + 1, none⟩], ?_, ?_, fun g hg => ?_, fun g hg => ?_⟩
    · rw [hgen, flatMap_append]
      simp [Group.entries]
    · refine pairwise_append.mpr ⟨hpair, pairwise_singleton _ _, fun g hg g' hg' => ?_⟩
      rw [mem_singleton.mp hg']
      exact (hgs g hg).1
    · rcases mem_append.mp hg with hg | hg
      · exact hall g hg
      · rw [mem_singleton.mp hg]
        exact .inl (Nat.succ_pos n)
    · rw [dropLast_concat] at hg
      exact (hgs g hg).2.1

end

theorem Track.grouped (ha : Run.accept Track.next Track.start log = some t) :
    Grouped Released Unhit log := by
  have h := Track.reads_of_accept Track.reads_start ha
  exact h.grouped

end

end Xfront.Barriers
