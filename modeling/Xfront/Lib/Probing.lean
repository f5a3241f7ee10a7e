import Mathlib

/-!
# Open addressing

A table of slots that is searched from a place the signature gives, by a stride the signature gives,
with marks for the slots that were freed.
-/

namespace Xfront.Probing
open Nat Option Bool

open List

variable {V : Type}

inductive Slot (V : Type) where
  | empty
  | deleted
  | used (signature : Nat) (value : V)
  deriving DecidableEq

def Slot.entry : Slot V → Option (Nat × V)
  | used signature value => some (signature, value)
  | _ => none

def entries (slots : List (Slot V)) : List (Nat × V) := slots.filterMap Slot.entry

def stride (rehash signature : Nat) : Nat :=
  if signature % rehash = 0 then 1 else signature % rehash

def advance (size elt step : Nat) : Nat :=
  if size ≤ elt + step then elt + step - size else elt + step

/-- The search. `step` is 0 until the first slot was passed and `del` is the first
freed slot that was passed; a search that comes back to it ends there. `fuel` is twice
the number of slots: a search that takes more steps goes round and does not end. -/
def search (slots : List (Slot V)) (rehash signature : Nat) (test : V → Bool) :
    Nat → Nat → Nat → Option Nat → Option Nat
  | 0, _, _, _ => none
  | fuel + 1, elt, step, del =>
    let step' := if step = 0 then stride rehash signature else step
    let again := search slots rehash signature test fuel (advance slots.length elt step') step'
    match slots[elt]? with
    | none => none
    | some .empty => some (del.getD elt)
    | some .deleted =>
      match del with
      | none => again (some elt)
      | some d => if elt = d then some elt else again (some d)
    | some (.used s v) => if s = signature ∧ test v = true then some elt else again del

def find (slots : List (Slot V)) (rehash signature : Nat) (test : V → Bool) : Option Nat :=
  search slots rehash signature test (2 * slots.length) (signature % slots.length) 0 none

def place (size rehash signature k : Nat) : Nat := (signature + k * stride rehash signature) % size

structure Sizes (size rehash : Nat) : Prop where
  prime : size.Prime
  pos : 0 < rehash
  le : rehash ≤ size

/-- Trial division by every second number from `d` on. -/
def noFactor (n : Nat) : Nat → Nat → Bool
  | 0, _ => false
  | fuel + 1, d =>
    bif blt n (d * d) then true
    else bif Nat.beq (n % d) 0 then false
    else noFactor n fuel (d + 2)

theorem prime_of_noFactor {n fuel : Nat} (htwo : 2 ≤ n) (hodd : n % 2 = 1)
    (h : noFactor n fuel 3 = true) : n.Prime := by
  by_contra hn
  have hsq := minFac_sq_le_self (by omega : 0 < n) hn
  have hdvd := minFac_dvd n
  have hp := minFac_prime (by omega : n ≠ 1)
  have hpodd : n.minFac % 2 = 1 := by
    rcases hp.eq_two_or_odd with he | ho
    · rw [he] at hdvd
      omega
    · exact ho
  have hgo : ∀ fuel d, d % 2 = 1 → d ≤ n.minFac → noFactor n fuel d = false := by
    intro fuel
    induction fuel with
    | zero => exact fun _ _ _ => rfl
    | succ fuel ih =>
      intro d hd hle
      have hlt : blt n (d * d) = false := by
        have hmul := Nat.mul_le_mul hle hle
        rw [pow_two] at hsq
        rw [eq_false_iff, ne_eq, blt_eq]
        omega
      rw [noFactor, hlt, cond_false]
      by_cases he : d = n.minFac
      · rw [he, mod_eq_zero_of_dvd hdvd]
        rfl
      · rw [ih (d + 2) (by omega) (by omega)]
        cases Nat.beq (n % d) 0 <;> rfl
  have hthree : 3 ≤ n.minFac := by
    have h2 := hp.two_le
    omega
  rw [hgo fuel 3 rfl hthree] at h
  cases h
section

variable {size rehash signature : Nat}

theorem stride_pos : 0 < stride rehash signature := by
  unfold stride
  split <;> omega

theorem Sizes.stride_lt (h : Sizes size rehash) : stride rehash signature < size := by
  unfold stride
  split
  · exact h.prime.one_lt
  · exact lt_of_lt_of_le (mod_lt _ h.pos) h.le

theorem Sizes.coprime (h : Sizes size rehash) : (stride rehash signature).Coprime size :=
  (coprime_of_lt_prime stride_pos.ne' h.stride_lt h.prime).symm

theorem Sizes.place_lt (h : Sizes size rehash) (k : Nat) : place size rehash signature k < size :=
  mod_lt _ h.prime.pos

theorem Sizes.advance_place (h : Sizes size rehash) (k : Nat) :
    advance size (place size rehash signature k) (stride rehash signature) =
      place size rehash signature (k + 1) := by
  have hlt : place size rehash signature k < size := h.place_lt k
  have hs : stride rehash signature < size := h.stride_lt
  have hmod : place size rehash signature (k + 1) =
      (place size rehash signature k + stride rehash signature) % size := by
    rw [place, place, mod_add_mod, add_assoc, ← succ_mul]
  rw [hmod, advance]
  split
  next hle =>
    rw [mod_eq_sub_mod hle, mod_eq_of_lt (by omega)]
  next hle => rw [mod_eq_of_lt (by omega)]

theorem place_add_size (k : Nat) :
    place size rehash signature (k + size) = place size rehash signature k := by
  rw [place, place, add_mul, ← add_assoc, add_mul_mod_self_left]

theorem Sizes.exists_place (h : Sizes size rehash) (signature : Nat) {i : Nat} (hi : i < size) :
    ∃ k < size, place size rehash signature k = i := by
  have hcoprime : (stride rehash signature).Coprime size := h.coprime
  obtain ⟨k, hk, hmod⟩ := exists_mul_mod_eq_of_coprime
    (i + (size - signature % size)) hcoprime h.prime.ne_zero
  refine ⟨k, hk, ?_⟩
  have hs : signature % size < size := mod_lt _ h.prime.pos
  have hadd : signature % size + (i + (size - signature % size)) = i + size := by omega
  rw [place, mul_comm, add_mod, hmod, ← add_mod, ← mod_add_mod, hadd,
    add_mod_right, mod_eq_of_lt hi]

theorem Sizes.le_of_place_eq (h : Sizes size rehash) {j k : Nat} (hjk : j < k)
    (heq : place size rehash signature j = place size rehash signature k) : j + size ≤ k := by
  have hmod : Nat.ModEq size (j * stride rehash signature) (k * stride rehash signature) :=
    Nat.ModEq.add_left_cancel' signature heq
  have hdvd := (modEq_iff_dvd' (Nat.mul_le_mul_right _ hjk.le)).mp hmod
  rw [← Nat.sub_mul] at hdvd
  have hle := le_of_dvd (by omega) (h.coprime.symm.dvd_of_dvd_mul_right hdvd)
  omega

end

section

variable {slots : List (Slot V)} {rehash signature : Nat} {test : V → Bool}

def Match (slots : List (Slot V)) (signature : Nat) (test : V → Bool) (i : Nat) : Prop :=
  ∃ v, slots[i]? = some (.used signature v) ∧ test v = true

structure Ok (slots : List (Slot V)) (rehash : Nat) : Prop where
  sizes : Sizes slots.length rehash
  reach : ∀ i s v, slots[i]? = some (.used s v) → ∃ k, place slots.length rehash s k = i ∧
    ∀ j < k, slots[place slots.length rehash s j]? ≠ some .empty

structure Free (slots : List (Slot V)) (rehash signature i : Nat) : Prop where
  slot : slots[i]? = some .empty ∨ slots[i]? = some .deleted
  reach : ∃ k, place slots.length rehash signature k = i ∧
    ∀ j < k, slots[place slots.length rehash signature j]? ≠ some .empty

/-- What a search has passed before it comes to its `k`-th place. -/
structure Passed (slots : List (Slot V)) (rehash signature : Nat) (test : V → Bool) (k : Nat)
    (del : Option Nat) : Prop where
  nonempty : ∀ j < k, slots[place slots.length rehash signature j]? ≠ some .empty
  unmatched : ∀ j < k, ¬ Match slots signature test (place slots.length rehash signature j)
  first : del = none → ∀ j < k, slots[place slots.length rehash signature j]? ≠ some .deleted
  mark : ∀ d ∈ del, ∃ m < k, place slots.length rehash signature m = d ∧ slots[d]? = some .deleted ∧
    (∀ j < m, slots[place slots.length rehash signature j]? ≠ some .deleted) ∧
    ∀ j, m < j → j < k → place slots.length rehash signature j ≠ d

theorem Passed.start : Passed slots rehash signature test 0 none :=
  ⟨fun _ h => (nomatch h), fun _ h => (nomatch h), fun _ _ h => (nomatch h), fun _ h => (nomatch h)⟩

def Found (slots : List (Slot V)) (rehash signature : Nat) (test : V → Bool) (i : Nat) : Prop :=
  Match slots signature test i ∨ Free slots rehash signature i ∧ ∀ j, ¬ Match slots signature test j

variable {k : Nat} {del : Option Nat}

theorem Passed.lt (h : Passed slots rehash signature test k del) (hs : Sizes slots.length rehash)
    (hfree : ∃ i : Nat, slots[i]? = some .empty ∨ slots[i]? = some .deleted) :
    k < 2 * slots.length := by
  obtain ⟨i, hi⟩ := hfree
  have hlt : i < slots.length := by
    by_contra hge
    rw [getElem?_eq_none (not_lt.mp hge)] at hi
    rcases hi with hi | hi <;> cases hi
  obtain ⟨m, hm, hplace⟩ := hs.exists_place signature hlt
  by_contra hk
  have hdel : slots[place slots.length rehash signature m]? = some .deleted := by
    rw [← hplace] at hi
    exact hi.resolve_left (h.nonempty m (by omega))
  cases hd : del with
  | none => exact h.first hd m (by omega) hdel
  | some d =>
    obtain ⟨n, hn, hnd, -, hfirst, hback⟩ := h.mark d hd
    have hnm : n ≤ m := by
      by_contra hlt
      exact hfirst m (by omega) hdel
    refine hback (n + slots.length) ?_ (by omega) ?_
    · exact Nat.lt_add_of_pos_right hs.prime.pos
    · rw [place_add_size, hnd]

theorem Passed.unmatched_all {d : Nat} (h : Passed slots rehash signature test k (some d))
    (hs : Sizes slots.length rehash) (hk : place slots.length rehash signature k = d) (j : Nat) :
    ¬ Match slots signature test j := by
  intro hmatch
  obtain ⟨m, hm, hmd, -, -, -⟩ := h.mark d rfl
  have hround := hs.le_of_place_eq hm (hmd.trans hk.symm)
  have hlt : j < slots.length := by
    obtain ⟨v, hv, -⟩ := hmatch
    exact (List.getElem?_eq_some_iff.mp hv).1
  obtain ⟨n, hn, hplace⟩ := hs.exists_place signature hlt
  exact h.unmatched n (by omega) (hplace ▸ hmatch)

theorem Passed.unmatched_of_empty (h : Passed slots rehash signature test k del)
    (hok : Ok slots rehash)
    (hempty : slots[place slots.length rehash signature k]? = some .empty) (j : Nat) :
    ¬ Match slots signature test j := by
  rintro ⟨v, hv, htest⟩
  obtain ⟨m, hm, hreach⟩ := hok.reach j signature v hv
  rcases lt_trichotomy m k with hlt | rfl | hgt
  · exact h.unmatched m hlt ⟨v, hm ▸ hv, htest⟩
  · rw [hm, hv] at hempty
    cases hempty
  · exact hreach k hgt hempty

theorem Passed.free {d : Nat} (h : Passed slots rehash signature test k (some d)) :
    Free slots rehash signature d := by
  obtain ⟨m, hm, hmd, hdel, -, -⟩ := h.mark d rfl
  exact ⟨.inr hdel, m, hmd, fun j hj => h.nonempty j (by omega)⟩

theorem Passed.pass (h : Passed slots rehash signature test k del)
    (hempty : slots[place slots.length rehash signature k]? ≠ some .empty)
    (hmatch : ¬ Match slots signature test (place slots.length rehash signature k))
    (hfirst : del = none → slots[place slots.length rehash signature k]? ≠ some .deleted)
    (hback : ∀ d ∈ del, place slots.length rehash signature k ≠ d) :
    Passed slots rehash signature test (k + 1) del where
  nonempty := fun j hj => (Nat.lt_succ_iff_lt_or_eq.mp hj).elim (h.nonempty j) fun he => he ▸ hempty
  unmatched := fun j hj =>
    (Nat.lt_succ_iff_lt_or_eq.mp hj).elim (h.unmatched j) fun he => he ▸ hmatch
  first := fun hd j hj =>
    (Nat.lt_succ_iff_lt_or_eq.mp hj).elim (h.first hd j) fun he => he ▸ hfirst hd
  mark := fun d hd => by
    obtain ⟨m, hm, hmd, hdel, hf, hb⟩ := h.mark d hd
    exact ⟨m, lt_succ_of_lt hm, hmd, hdel, hf, fun j hmj hj =>
      (Nat.lt_succ_iff_lt_or_eq.mp hj).elim (hb j hmj) fun he => he ▸ hback d hd⟩

theorem Passed.note (h : Passed slots rehash signature test k none)
    (hdel : slots[place slots.length rehash signature k]? = some .deleted) :
    Passed slots rehash signature test (k + 1)
      (some (place slots.length rehash signature k)) where
  nonempty := fun j hj => (Nat.lt_succ_iff_lt_or_eq.mp hj).elim (h.nonempty j) fun he => by
    rw [he, hdel]
    exact fun h => nomatch h
  unmatched := fun j hj =>
    (Nat.lt_succ_iff_lt_or_eq.mp hj).elim (h.unmatched j) fun he => by
      rintro ⟨v, hv, -⟩
      rw [he, hdel] at hv
      cases hv
  first := fun hd => nomatch hd
  mark := fun d hd => by
    cases hd
    exact ⟨k, lt_succ_self k, rfl, hdel, h.first rfl, fun j hkj hj => by omega⟩

theorem search_found (hok : Ok slots rehash)
    (hfree : ∃ i : Nat, slots[i]? = some .empty ∨ slots[i]? = some .deleted) {fuel step : Nat}
    (hfuel : fuel + k = 2 * slots.length) (hstep : step = 0 ∨ step = stride rehash signature)
    (h : Passed slots rehash signature test k del) :
    ∃ i, search slots rehash signature test fuel (place slots.length rehash signature k) step del =
      some i ∧ Found slots rehash signature test i := by
  induction fuel generalizing k step del with
  | zero =>
    have hlt := h.lt hok.sizes hfree
    omega
  | succ fuel ih =>
    have hstep' : (if step = 0 then stride rehash signature else step) =
        stride rehash signature := by
      rcases hstep with rfl | rfl
      · exact if_pos rfl
      · exact if_neg stride_pos.ne'
    have hagain : ∀ del', Passed slots rehash signature test (k + 1) del' → ∃ i,
        search slots rehash signature test fuel
          (advance slots.length (place slots.length rehash signature k) (stride rehash signature))
          (stride rehash signature) del' = some i ∧ Found slots rehash signature test i := by
      intro del' h'
      rw [hok.sizes.advance_place]
      exact ih (by omega) (.inr rfl) h'
    have hlt : place slots.length rehash signature k < slots.length := hok.sizes.place_lt k
    have hget := getElem?_eq_getElem hlt
    unfold search
    rw [hstep', hget]
    cases hslot : slots[place slots.length rehash signature k] with
    | empty =>
      rw [hslot] at hget
      refine ⟨_, rfl, .inr ⟨?_, h.unmatched_of_empty hok hget⟩⟩
      cases del with
      | none => exact ⟨.inl hget, k, rfl, h.nonempty⟩
      | some d => exact h.free
    | deleted =>
      rw [hslot] at hget
      cases del with
      | none => exact hagain _ (h.note hget)
      | some d =>
        dsimp only
        by_cases hd : place slots.length rehash signature k = d
        · rw [if_pos hd]
          exact ⟨_, rfl, .inr ⟨hd ▸ h.free, h.unmatched_all hok.sizes hd⟩⟩
        · rw [if_neg hd]
          refine hagain _ (h.pass ?_ ?_ (fun hn => nomatch hn) ?_)
          · rw [hget]
            exact fun h => nomatch h
          · rintro ⟨v, hv, -⟩
            rw [hget] at hv
            cases hv
          · rintro _ ⟨⟩
            exact hd
    | used s v =>
      rw [hslot] at hget
      dsimp only
      by_cases hm : s = signature ∧ test v = true
      · rw [if_pos hm]
        exact ⟨_, rfl, .inl ⟨v, hm.1 ▸ hget, hm.2⟩⟩
      · rw [if_neg hm]
        refine hagain _ (h.pass ?_ ?_ (fun _ => ?_) ?_)
        · rw [hget]
          exact fun h => nomatch h
        · rintro ⟨v', hv, htest⟩
          rw [hget] at hv
          cases hv
          exact hm ⟨rfl, htest⟩
        · rw [hget]
          exact fun h => nomatch h
        · rintro d hd he
          obtain ⟨-, -, -, hdel, -, -⟩ := h.mark d hd
          rw [← he, hget] at hdel
          cases hdel

theorem find_found (hok : Ok slots rehash)
    (hfree : ∃ i : Nat, slots[i]? = some .empty ∨ slots[i]? = some .deleted) (signature : Nat)
    (test : V → Bool) :
    ∃ i, find slots rehash signature test = some i ∧ Found slots rehash signature test i := by
  have hplace : place slots.length rehash signature 0 = signature % slots.length := by
    rw [place, zero_mul, add_zero]
  rw [find, ← hplace]
  exact search_found hok hfree rfl (.inl rfl) Passed.start

end

section

variable {slots : List (Slot V)} {rehash signature i : Nat} {test : V → Bool} {v : V}

theorem mem_entries {s : Nat} : (s, v) ∈ entries slots ↔ ∃ i : Nat, slots[i]? = some (.used s v) := by
  rw [entries, mem_filterMap]
  constructor
  · rintro ⟨slot, hslot, he⟩
    obtain ⟨i, hi⟩ := mem_iff_getElem?.mp hslot
    cases slot with
    | empty => cases he
    | deleted => cases he
    | used s' v' =>
      cases he
      exact ⟨i, hi⟩
  · rintro ⟨i, hi⟩
    exact ⟨_, mem_of_getElem? hi, rfl⟩

theorem not_match_iff : (∀ j, ¬ Match slots signature test j) ↔
    ∀ x ∈ entries slots, x.1 = signature → test x.2 = false := by
  constructor
  · rintro h ⟨s, v⟩ hx rfl
    obtain ⟨j, hj⟩ := mem_entries.mp hx
    exact eq_false_iff.mpr fun ht => h j ⟨v, hj, ht⟩
  · rintro h j ⟨v, hv, ht⟩
    have hf := h (signature, v) (mem_entries.mpr ⟨j, hv⟩) rfl
    rw [ht] at hf
    cases hf

theorem exists_rest (slots : List (Slot V)) (i : Nat) (hi : i < slots.length) :
    ∃ rest, ∀ slot, (entries (slots.set i slot)).Perm (slot.entry.toList ++ rest) := by
  refine ⟨entries (slots.take i) ++ entries (slots.drop (i + 1)), fun slot => ?_⟩
  rw [set_eq_take_append_cons_drop, if_pos hi, entries, filterMap_append, filterMap_cons]
  cases hs : slot.entry with
  | none => exact List.Perm.refl _
  | some x => exact perm_middle

theorem entries_set {slot : Slot V} (h : slots[i]? = some slot) (slot' : Slot V) :
    ∃ rest, (entries slots).Perm (slot.entry.toList ++ rest) ∧
      (entries (slots.set i slot')).Perm (slot'.entry.toList ++ rest) := by
  obtain ⟨hi, hget⟩ := List.getElem?_eq_some_iff.mp h
  obtain ⟨rest, hrest⟩ := exists_rest slots i hi
  have hself := hrest slot
  rw [← hget, set_getElem_self, hget] at hself
  exact ⟨rest, hself, hrest slot'⟩

theorem Free.entries_set (h : Free slots rehash signature i) (v : V) :
    (entries (slots.set i (.used signature v))).Perm ((signature, v) :: entries slots) := by
  rcases h.slot with hs | hs
  all_goals
    obtain ⟨rest, hrest, hset⟩ := Probing.entries_set hs (.used signature v)
    exact hset.trans (List.Perm.cons _ hrest.symm)

theorem entries_delete (h : slots[i]? = some (.used signature v)) :
    (entries slots).Perm ((signature, v) :: entries (slots.set i .deleted)) := by
  obtain ⟨rest, hrest, hset⟩ := entries_set h .deleted
  exact hrest.trans (List.Perm.cons _ hset.symm)

theorem Ok.set (h : Ok slots rehash) {slot : Slot V} (hslot : slot ≠ .empty)
    (hreach : ∀ s v, slot = .used s v → ∃ k, place slots.length rehash s k = i ∧
      ∀ j < k, slots[place slots.length rehash s j]? ≠ some .empty) :
    Ok (slots.set i slot) rehash := by
  have hstill : ∀ j : Nat, slots[j]? ≠ some .empty → (slots.set i slot)[j]? ≠ some .empty := by
    intro j hj
    rw [getElem?_set]
    split
    · split
      · exact fun he => hslot (some.inj he)
      · exact fun he => nomatch he
    · exact hj
  refine ⟨by rw [length_set]; exact h.sizes, fun j s v hj => ?_⟩
  rw [length_set]
  have hold : ∃ k, place slots.length rehash s k = j ∧
      ∀ m < k, slots[place slots.length rehash s m]? ≠ some .empty := by
    rw [getElem?_set] at hj
    split at hj
    next hij =>
      split at hj
      · exact hij ▸ hreach s v (some.inj hj)
      · cases hj
    next => exact h.reach j s v hj
  obtain ⟨k, hk, hne⟩ := hold
  exact ⟨k, hk, fun m hm => hstill _ (hne m hm)⟩

theorem Ok.store (h : Ok slots rehash) (hi : Free slots rehash signature i) (v : V) :
    Ok (slots.set i (.used signature v)) rehash :=
  h.set (fun he => nomatch he) fun s v' he => by
    cases he
    exact hi.reach

theorem Ok.replace (h : Ok slots rehash) (hi : slots[i]? = some (.used signature v)) (v' : V) :
    Ok (slots.set i (.used signature v')) rehash :=
  h.set (fun he => nomatch he) fun s w he => by
    cases he
    exact h.reach i signature v hi

theorem Ok.delete (h : Ok slots rehash) : Ok (slots.set i .deleted) rehash :=
  h.set (fun he => nomatch he) fun _ _ he => nomatch he

theorem exists_free (h : (entries slots).length < slots.length) :
    ∃ i : Nat, slots[i]? = some .empty ∨ slots[i]? = some .deleted := by
  obtain ⟨slot, hslot, hnone⟩ := length_filterMap_lt_length_iff_exists.mp h
  obtain ⟨i, hi⟩ := mem_iff_getElem?.mp hslot
  refine ⟨i, ?_⟩
  rw [hi]
  cases slot with
  | empty => exact .inl rfl
  | deleted => exact .inr rfl
  | used => cases hnone

def new (size : Nat) : List (Slot V) := replicate size Slot.empty

theorem new_entries (size : Nat) : entries (new size : List (Slot V)) = [] := by
  rw [entries, new, filterMap_eq_nil_iff]
  intro slot hslot
  rw [eq_of_mem_replicate hslot]
  rfl

theorem new_ok {size : Nat} (h : Sizes size rehash) : Ok (new size : List (Slot V)) rehash := by
  refine ⟨?_, fun i s v hi => ?_⟩
  · rw [new, length_replicate]
    exact h
  · cases eq_of_mem_replicate (mem_of_getElem? hi)

def moveInto (rehash : Nat) (same : V → V → Bool) (slots : List (Slot V)) :
    List (Slot V) → Option (List (Slot V))
  | [] => some slots
  | .used s v :: rest =>
    (find slots rehash s (same v)).bind fun i => moveInto rehash same (slots.set i (.used s v)) rest
  | _ :: rest => moveInto rehash same slots rest

theorem moveInto_spec (same : V → V → Bool) {old : List (Slot V)} (hok : Ok slots rehash)
    (hroom : (entries slots).length + (entries old).length < slots.length)
    (hapart : (entries old ++ entries slots).Pairwise fun x y =>
      x.1 = y.1 → same x.2 y.2 = false ∧ same y.2 x.2 = false) :
    ∃ slots', moveInto rehash same slots old = some slots' ∧ Ok slots' rehash ∧
      slots'.length = slots.length ∧ (entries slots').Perm (entries old ++ entries slots) := by
  induction old generalizing slots with
  | nil => exact ⟨slots, rfl, hok, rfl, List.Perm.refl _⟩
  | cons slot old ih =>
    cases slot with
    | empty | deleted => exact ih hok hroom hapart
    | used s v =>
      have hcons : entries (Slot.used s v :: old) = (s, v) :: entries old := rfl
      rw [hcons] at hroom hapart ⊢
      rw [length_cons] at hroom
      obtain ⟨hhead, htail⟩ := pairwise_cons.mp hapart
      obtain ⟨i, hfind, hfound⟩ := find_found hok (exists_free (by omega)) s (same v)
      have hnone : ∀ j, ¬ Match slots s (same v) j :=
        not_match_iff.mpr fun x hx hs => (hhead x (mem_append_right _ hx) hs.symm).1
      rcases hfound with hmatch | ⟨hfree, -⟩
      · exact absurd hmatch (hnone i)
      have hset := hfree.entries_set v
      have hperm : (entries old ++ entries (slots.set i (.used s v))).Perm
          ((s, v) :: (entries old ++ entries slots)) :=
        (List.Perm.append_left _ hset).trans perm_middle
      obtain ⟨slots', hmove, hok', hlen, hentries⟩ := ih (hok.store hfree v)
        (by rw [length_set, hset.length_eq, length_cons]; omega)
        ((hperm.pairwise_iff fun {x y} hxy he => (hxy he.symm).symm).mpr hapart)
      refine ⟨slots', ?_, hok', hlen.trans (length_set ..), hentries.trans hperm⟩
      rw [moveInto, hfind, bind_some, hmove]

end

end Xfront.Probing
