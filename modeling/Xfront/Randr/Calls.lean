import Xfront.Randr.Model

/-!
# What the calls on output properties write

Each call is described by what the properties of each name are afterwards.
-/

namespace Xfront.Randr

open List Option
open Keyed (lookup update erase)

def PropertyValue.Bounded (v : PropertyValue) : Prop :=
  v.data.length ≤ v.size * (v.format / 8)

variable {old : PropertyValue} {type format : Nat} {mode : PropMode} {value : Bytes}

theorem newValue_bounded {len : Nat} (hsame : mode ≠ .replace → format = old.format) :
    (newValue old type format mode len value).Bounded := by
  rw [PropertyValue.Bounded]
  cases mode with
  | replace => exact length_take_le _ _
  | prepend | append =>
    obtain rfl := hsame (fun h => nomatch h)
    simp only [newValue, length_append, length_take, add_mul]
    omega

theorem newValue_zero (hold : old.Bounded) (hmode : mode ≠ .replace) (hformat : format = old.format)
    (htype : old.type = type) : newValue old type format mode 0 value = old := by
  subst hformat htype
  have htake : old.data.take (old.size * (old.format / 8)) = old.data := take_of_length_le hold
  cases mode with
  | replace => exact absurd rfl hmode
  | prepend | append => simp [newValue, htake]

theorem same_iff {pending current : PropertyValue} (hp : pending.Bounded) (hc : current.Bounded) :
    pending.same current = true ↔ pending = current := by
  obtain ⟨type, format, size, data⟩ := pending
  obtain ⟨type', format', size', data'⟩ := current
  simp only [PropertyValue.same, Bool.and_eq_true, decide_eq_true_eq, PropertyValue.mk.injEq,
    and_assoc]
  refine and_congr_right fun ht => and_congr_right fun hf => and_congr_right fun hs => ?_
  subst hf hs
  rw [take_of_length_le hp, take_of_length_le hc]

structure Property.Good (p : Property) : Prop where
  current : p.current.Bounded
  pending : p.pending.Bounded
  idle : p.isPending = false → p.pending = initOutputPropertyValue

structure Tidy (output : Output) : Prop where
  names : (output.properties.map Property.propertyName).Nodup
  good : ∀ name p, queryOutputProperty output name = some p → p.Good

/-- The property `k` is `p` afterwards and the others are as before. -/
structure Wrote (output : Output) (k : Nat) (p : Property) (flag : Bool) (output' : Output) :
    Prop where
  read : ∀ name, queryOutputProperty output' name =
    if name = k then some p else queryOutputProperty output name
  names : (output'.properties.map Property.propertyName).Nodup
  flag : output'.pendingProperties = flag

variable {output output' : Output} {k : Nat} {p : Property}

theorem query_name (h : queryOutputProperty output k = some p) : p.propertyName = k :=
  Keyed.key_of_lookup h

theorem initOutputPropertyValue_bounded : initOutputPropertyValue.Bounded := Nat.zero_le _

theorem createOutputProperty_good (property : Nat) : (createOutputProperty property).Good :=
  ⟨initOutputPropertyValue_bounded, initOutputPropertyValue_bounded, fun _ => rfl⟩

variable {flag : Bool}

theorem wrote_tidy (htidy : Tidy output) (h : Wrote output k p flag output')
    (hp : p.Good) : Tidy output' := by
  refine ⟨h.names, fun name q hq => ?_⟩
  rw [h.read name] at hq
  split at hq
  · cases hq
    exact hp
  · exact htidy.good name q hq

theorem wrote_add (htidy : Tidy output) (hnone : queryOutputProperty output k = none)
    (hname : p.propertyName = k) :
    Wrote output k p output.pendingProperties
      { output with properties := p :: output.properties } where
  read name := by
    rw [queryOutputProperty, Keyed.lookup_cons, hname]
    by_cases h : name = k
    · rw [if_pos h.symm, if_pos h]
    · rw [if_neg (Ne.symm h), if_neg h, queryOutputProperty]
  names := by
    rw [map_cons, hname]
    exact nodup_cons.mpr ⟨Keyed.lookup_eq_none.mp hnone, htidy.names⟩
  flag := rfl

theorem wrote_update (htidy : Tidy output) (hsome : queryOutputProperty output k = some p)
    {f : Property → Property} (hf : ∀ q, (f q).propertyName = q.propertyName) :
    Wrote output k (f p) output.pendingProperties
      { output with properties := update Property.propertyName f k output.properties } where
  read name := by
    rw [queryOutputProperty] at hsome
    rw [queryOutputProperty, Keyed.lookup_update hf, hsome, map_some, queryOutputProperty]
  names := by
    rw [Keyed.update_keys hf]
    exact htidy.names
  flag := rfl

theorem wrote_self (htidy : Tidy output) (hsome : queryOutputProperty output k = some p) :
    Wrote output k p output.pendingProperties output where
  read name := by
    split
    · next h => rw [h, hsome]
    · rfl
  names := htidy.names
  flag := rfl

theorem Property.setValue_name (p : Property) (pending : Bool) (v : PropertyValue) :
    (p.setValue pending v).propertyName = p.propertyName := by
  rw [setValue]
  split <;> rfl

theorem Property.setValue_isPending (p : Property) (pending : Bool) (v : PropertyValue) :
    (p.setValue pending v).isPending = p.isPending := by
  rw [setValue]
  split <;> rfl

theorem Property.setValue_value (p : Property) (pending : Bool) :
    p.setValue pending (p.value pending) = p := by
  rw [setValue, value]
  split <;> rfl

theorem Property.value_bounded (hp : p.Good) (pending : Bool) : (p.value pending).Bounded := by
  rw [value]
  split
  · exact hp.pending
  · exact hp.current

theorem Property.setValue_good (hp : p.Good) {pending : Bool} {v : PropertyValue}
    (hv : v.Bounded) : (p.setValue pending v).Good := by
  rw [setValue]
  split
  · next h =>
    refine ⟨hp.current, hv, fun hidle => ?_⟩
    rw [hidle, Bool.and_false] at h
    cases h
  · exact ⟨hv, hp.pending, hp.idle⟩

theorem finishChange_wrote (h : Wrote output k p flag output')
    (nonDesktopAtom : Nat) (pending : Bool) (q : Property) :
    Wrote output k p (flag || (pending && q.isPending))
      (finishChange nonDesktopAtom output' pending q) := by
  rw [finishChange]
  split
  · next hp =>
    refine ⟨h.read, h.names, ?_⟩
    rw [hp, Bool.or_true]
  · next hp =>
    rw [Bool.not_eq_true] at hp
    rw [hp, Bool.or_false, noticePropertyChange]
    split
    · exact ⟨h.read, h.names, h.flag⟩
    · exact h

def Room (memory : Bool) (n format : Nat) : Prop :=
  memory = true ∨ n = 0 ∨ format / 8 = 0

def Change.new (stuff : Change) (p : Property) : PropertyValue :=
  newValue (p.value stuff.pending) stuff.type stuff.format stuff.mode stuff.len stuff.value

def Change.Refused (stuff : Change) (p : Property) : Prop :=
  stuff.mode ≠ .replace ∧ (stuff.format ≠ (p.value stuff.pending).format ∨
      (p.value stuff.pending).type ≠ stuff.type) ∨
    (stuff.mode = .replace ∨ 0 < stuff.len) ∧
      (¬ Room stuff.memory.data (stuff.new p).size stuff.format ∨
        stuff.pending = true ∧ stuff.accepts = false)

theorem not_room {memory : Bool} {n : Nat} :
    ((!memory) = true ∧ n ≠ 0 ∧ format / 8 ≠ 0) ↔ ¬ Room memory n format := by
  simp only [Room, not_or, Bool.not_eq_true', Bool.not_eq_true, ne_eq]

variable {stuff : Change}

theorem changeOutputProperty_listed (htidy : Tidy output) (nonDesktopAtom : Nat)
    (hq : queryOutputProperty output stuff.property = some p) : (stuff.Refused p ∧
      ∃ rc, changeOutputProperty nonDesktopAtom output stuff = (output, rc) ∧ rc ≠ .success) ∨
    (¬ stuff.Refused p ∧
      ∃ output', changeOutputProperty nonDesktopAtom output stuff = (output', .success) ∧
        Wrote output stuff.property (p.setValue stuff.pending (stuff.new p))
          (output.pendingProperties || (stuff.pending && p.isPending)) output') := by
  have hgood := htidy.good _ p hq
  unfold changeOutputProperty
  simp only [hq, isNone_some, getD_some, Bool.false_and, Bool.false_eq_true, if_false]
  have hnew : newValue (p.value stuff.pending) stuff.type stuff.format stuff.mode stuff.len
      stuff.value = stuff.new p := rfl
  rw [hnew]
  by_cases hformat : stuff.format ≠ (p.value stuff.pending).format ∧ stuff.mode ≠ .replace
  · rw [if_pos hformat]
    exact .inl ⟨.inl ⟨hformat.2, .inl hformat.1⟩, _, rfl, (by simp)⟩
  by_cases htype : (p.value stuff.pending).type ≠ stuff.type ∧ stuff.mode ≠ .replace
  · rw [if_neg hformat, if_pos htype]
    exact .inl ⟨.inl ⟨htype.2, .inr htype.1⟩, _, rfl, (by simp)⟩
  rw [if_neg hformat, if_neg htype]
  have hmatch : ¬(stuff.mode ≠ .replace ∧ (stuff.format ≠ (p.value stuff.pending).format ∨
      (p.value stuff.pending).type ≠ stuff.type)) := by
    rintro ⟨hmode, hf | ht⟩
    · exact hformat ⟨hf, hmode⟩
    · exact htype ⟨ht, hmode⟩
  by_cases hset : stuff.mode = .replace ∨ 0 < stuff.len
  · rw [if_pos hset]
    by_cases hroom : Room stuff.memory.data (stuff.new p).size stuff.format
    · rw [if_neg fun h => not_room.mp h hroom]
      by_cases haccepts : stuff.pending = true ∧ stuff.accepts = false
      · rw [if_pos (by simp [haccepts])]
        exact .inl ⟨.inr ⟨hset, .inr haccepts⟩, _, rfl, (by simp)⟩
      · rw [if_neg (by simpa using haccepts)]
        refine .inr ⟨?_, _, rfl, ?_⟩
        · rintro (h | ⟨-, h | h⟩)
          · exact hmatch h
          · exact h hroom
          · exact haccepts h
        · have h := finishChange_wrote (wrote_update htidy hq fun q =>
            Property.setValue_name q stuff.pending (stuff.new p)) nonDesktopAtom stuff.pending
            (p.setValue stuff.pending (stuff.new p))
          rw [Property.setValue_isPending] at h
          exact h
    · rw [if_pos (not_room.mpr hroom)]
      exact .inl ⟨.inr ⟨hset, .inl hroom⟩, _, rfl, (by simp)⟩
  · rw [if_neg hset]
    obtain ⟨hmode, hlen⟩ := not_or.mp hset
    obtain ⟨hf, ht⟩ : stuff.format = (p.value stuff.pending).format ∧
        (p.value stuff.pending).type = stuff.type :=
      ⟨by_contra fun h => hmatch ⟨hmode, .inl h⟩, by_contra fun h => hmatch ⟨hmode, .inr h⟩⟩
    refine .inr ⟨?_, _, rfl, ?_⟩
    · rintro (h | ⟨h, -⟩)
      · exact hmatch h
      · exact hset h
    · have hold : stuff.new p = p.value stuff.pending := by
        rw [Change.new, Nat.eq_zero_of_not_pos hlen]
        exact newValue_zero (Property.value_bounded hgood _) hmode hf ht
      rw [hold, Property.setValue_value]
      exact finishChange_wrote (wrote_self htidy hq) nonDesktopAtom stuff.pending p

theorem changeOutputProperty_unlisted (htidy : Tidy output) (nonDesktopAtom : Nat)
    (hq : queryOutputProperty output stuff.property = none) :
    (∃ rc, changeOutputProperty nonDesktopAtom output stuff = (output, rc) ∧ rc ≠ .success) ∨
      ∃ output' p, changeOutputProperty nonDesktopAtom output stuff = (output', .success) ∧
        Wrote output stuff.property p output.pendingProperties output' ∧ p.Good ∧
          p.isPending = false := by
  unfold changeOutputProperty
  simp only [hq, isNone_none, getD_none, if_true, Bool.true_and, ne_eq,
    not_true_eq_false, and_false, if_false, true_or]
  have hnew : (newValue ((createOutputProperty stuff.property).value stuff.pending) stuff.type
      stuff.format .replace stuff.len stuff.value).Bounded :=
    newValue_bounded fun h => absurd rfl h
  generalize newValue ((createOutputProperty stuff.property).value stuff.pending) stuff.type
    stuff.format .replace stuff.len stuff.value = new at hnew ⊢
  have hname := Property.setValue_name (createOutputProperty stuff.property) stuff.pending new
  have hidle := Property.setValue_isPending (createOutputProperty stuff.property) stuff.pending new
  split
  · exact .inl ⟨_, rfl, (by simp)⟩
  split
  · exact .inl ⟨_, rfl, (by simp)⟩
  split
  · exact .inl ⟨_, rfl, (by simp)⟩
  · have h := finishChange_wrote (wrote_add htidy hq hname) nonDesktopAtom stuff.pending
      ((createOutputProperty stuff.property).setValue stuff.pending new)
    rw [hidle, createOutputProperty, Bool.and_false, Bool.or_false] at h
    exact .inr ⟨_, _, rfl, h, Property.setValue_good (createOutputProperty_good _) hnew, hidle⟩

theorem new_bounded (h : ¬ stuff.Refused p) : (stuff.new p).Bounded :=
  newValue_bounded fun hmode => by_contra fun hf => h (.inl ⟨hmode, .inl hf⟩)

theorem Property.configure_good (hp : p.Good) (stuff : Configure) : (p.configure stuff).Good where
  current := hp.current
  pending := by
    rw [configure]
    split
    · exact initOutputPropertyValue_bounded
    · exact hp.pending
  idle h := by
    rw [configure] at h ⊢
    dsimp only at h ⊢
    cases hpend : p.isPending with
    | false =>
      rw [Bool.false_and, if_neg Bool.false_ne_true]
      exact hp.idle hpend
    | true => rw [h, Bool.not_false, Bool.and_true, if_pos rfl]

theorem configureOutputProperty_cases (htidy : Tidy output) (stuff : Configure) :
    (∃ rc, configureOutputProperty output stuff = (output, rc) ∧ rc ≠ .success) ∨
      ∃ output', configureOutputProperty output stuff = (output', .success) ∧
        Wrote output stuff.property (((queryOutputProperty output stuff.property).getD
            (createOutputProperty stuff.property)).configure stuff)
          output.pendingProperties output' := by
  unfold configureOutputProperty
  dsimp only
  split
  · exact .inl ⟨_, rfl, (by simp)⟩
  split
  · exact .inl ⟨_, rfl, (by simp)⟩
  split
  · exact .inl ⟨_, rfl, (by simp)⟩
  split
  · exact .inl ⟨_, rfl, (by simp)⟩
  · refine .inr ⟨_, rfl, ?_⟩
    cases hq : queryOutputProperty output stuff.property with
    | none => exact wrote_add htidy hq rfl
    | some p =>
      have h := wrote_update (f := (·.configure stuff)) htidy hq fun _ => rfl
      exact h

theorem query_delete (htidy : Tidy output) (name : Nat) :
    queryOutputProperty (deleteOutputProperty output k) name =
      if name = k then none else queryOutputProperty output name :=
  Keyed.lookup_erase htidy.names

theorem delete_tidy (htidy : Tidy output) (k : Nat) : Tidy (deleteOutputProperty output k) := by
  refine ⟨(Keyed.erase_sublist.map _).nodup htidy.names, fun name q hq => ?_⟩
  rw [query_delete htidy] at hq
  split at hq
  · cases hq
  · exact htidy.good name q hq

def Property.Differs (p : Property) : Prop := p.isPending = true ∧ p.pending ≠ p.current

instance (p : Property) : Decidable p.Differs := inferInstanceAs (Decidable (_ ∧ _))

def Property.Fits (p : Property) (memory : Nat → Bool) : Prop :=
  Room (memory p.propertyName) p.pending.size p.pending.format

instance (p : Property) (memory : Nat → Bool) : Decidable (p.Fits memory) :=
  inferInstanceAs (Decidable (_ ∨ _))

def Property.posted (memory : Nat → Bool) (p : Property) : Property :=
  if p.Differs ∧ p.Fits memory then { p with current := p.pending } else p

theorem post_change (htidy : Tidy output) (nonDesktopAtom : Nat) (memory : Nat → Bool)
    (hq : queryOutputProperty output k = some p) (hdiff : p.Differs) :
    ∃ output' rc, changeOutputProperty nonDesktopAtom output (p.postChange memory) = (output', rc) ∧
      Wrote output k (p.posted memory) output.pendingProperties output' ∧
      (rc = .success ↔ p.Fits memory) := by
  obtain rfl := query_name hq
  have hgood := htidy.good _ p hq
  have hnew : (p.postChange memory).new p = p.pending := by
    rw [Change.new, Property.postChange, newValue]
    rw [take_of_length_le hgood.pending]
  have hlisted := changeOutputProperty_listed htidy nonDesktopAtom
    (show queryOutputProperty output (p.postChange memory).property = some p from hq)
  rw [hnew] at hlisted
  have hrefused : (p.postChange memory).Refused p ↔ ¬ p.Fits memory := by
    rw [Change.Refused, hnew]
    simp [Property.postChange, Property.Fits]
  rcases hlisted with ⟨hr, rc, hdone, hrc⟩ | ⟨hr, output', hdone, hwrote⟩
  · refine ⟨output, rc, hdone, ?_, iff_of_false hrc (hrefused.mp hr)⟩
    rw [Property.posted, if_neg fun h => hrefused.mp hr h.2]
    exact wrote_self htidy hq
  · have hfits : p.Fits memory := not_not.mp fun h => hr (hrefused.mpr h)
    refine ⟨output', .success, hdone, ?_, iff_of_true rfl hfits⟩
    rw [Property.posted, if_pos ⟨hdiff, hfits⟩]
    have hsame : (p.postChange memory).pending = false := rfl
    rw [hsame, Bool.false_and, Bool.or_false, Property.setValue, Bool.false_and,
      if_neg Bool.false_ne_true] at hwrote
    exact hwrote

theorem posted_good (hp : p.Good) (memory : Nat → Bool) : (p.posted memory).Good := by
  rw [Property.posted]
  split
  · exact ⟨hp.pending, hp.pending, hp.idle⟩
  · exact hp

structure Posted (memory : Nat → Bool) (names : List Nat) (output output' : Output)
    (posted : List (Nat × Rc)) : Prop where
  tidy : Tidy output'
  flag : output'.pendingProperties = output.pendingProperties
  read : ∀ name, queryOutputProperty output' name =
    if name ∈ names then (queryOutputProperty output name).map (·.posted memory)
    else queryOutputProperty output name
  failed : ∀ name, (∃ rc, (name, rc) ∈ posted ∧ rc ≠ .success) ↔ name ∈ names ∧
    ∃ p, queryOutputProperty output name = some p ∧ p.Differs ∧ ¬ p.Fits memory

variable {names : List Nat}

theorem posted_skip {memory : Nat → Bool} {posted : List (Nat × Rc)}
    (hskip : ∀ p, queryOutputProperty output k = some p → ¬ p.Differs)
    (h : Posted memory names output output' posted) :
    Posted memory (k :: names) output output' posted := by
  refine ⟨h.tidy, h.flag, fun name => ?_, fun name => ?_⟩
  · rw [h.read]
    by_cases hk : name = k
    · rw [if_pos (mem_cons.mpr (.inl hk)), hk]
      have hsame : (queryOutputProperty output k).map (·.posted memory) =
          queryOutputProperty output k := by
        cases hq : queryOutputProperty output k with
        | none => rfl
        | some p => rw [map_some, Property.posted, if_neg fun h => hskip p hq h.1]
      rw [hsame, ite_self]
    · simp only [mem_cons, hk, false_or]
  · rw [h.failed]
    refine and_congr_left fun ⟨p, hq, hdiff, _⟩ => ?_
    have hk : name ≠ k := fun hk => hskip p (hk ▸ hq) hdiff
    simp only [mem_cons, hk, false_or]

theorem postProperties_posted (nonDesktopAtom : Nat) (memory : Nat → Bool)
    (hnd : names.Nodup) (htidy : Tidy output) :
    ∃ output' posted, postProperties nonDesktopAtom memory names output = (output', posted) ∧
      Posted memory names output output' posted := by
  induction names generalizing output with
  | nil =>
    refine ⟨output, [], rfl, htidy, rfl, fun name => (if_neg not_mem_nil).symm, fun name => ?_⟩
    simp
  | cons name names ih =>
    obtain ⟨hnot, hnd'⟩ := nodup_cons.mp hnd
    rw [postProperties]
    cases hq : queryOutputProperty output name with
    | none =>
      obtain ⟨output', posted, hdone, hposted⟩ := ih hnd' htidy
      exact ⟨output', posted, hdone, posted_skip (fun p hp => by rw [hq] at hp; cases hp) hposted⟩
    | some p =>
      have hgood := htidy.good name p hq
      by_cases hdiff : p.Differs
      · obtain ⟨output₁, rc, hchange, hwrote, hrc⟩ :=
          post_change htidy nonDesktopAtom memory hq hdiff
        obtain ⟨output', posted, hdone, hposted⟩ :=
          ih hnd' (wrote_tidy htidy hwrote (posted_good hgood memory))
        have hsame : ¬ p.pending.same p.current = true := fun h =>
          hdiff.2 ((same_iff hgood.pending hgood.current).mp h)
        dsimp only
        rw [if_neg (by simp [hdiff.1]), if_neg hsame, hchange]
        rw [hdone]
        refine ⟨output', _, rfl, hposted.tidy, hposted.flag.trans hwrote.flag, fun x => ?_,
          fun x => ?_⟩
        · rw [hposted.read, hwrote.read]
          by_cases hx : x = name
          · rw [hx, if_neg hnot, if_pos rfl, if_pos mem_cons_self, hq, map_some]
          · simp only [mem_cons, hx, false_or, if_false]
        · by_cases hx : x = name
          · subst hx
            constructor
            · rintro ⟨rc', hmem, hfail⟩
              rcases mem_cons.mp hmem with he | hmem
              · cases he
                exact ⟨mem_cons_self, p, hq, hdiff, fun h => hfail (hrc.mpr h)⟩
              · exact absurd ((hposted.failed x).mp ⟨rc', hmem, hfail⟩).1 hnot
            · rintro ⟨-, q, hq', -, hfits⟩
              rw [hq] at hq'
              cases hq'
              exact ⟨rc, mem_cons_self, fun h => hfits (hrc.mp h)⟩
          · have h := hposted.failed x
            rw [hwrote.read, if_neg hx] at h
            simp only [mem_cons, Prod.mk.injEq, hx, false_and, false_or]
            exact h
      · obtain ⟨output', posted, hdone, hposted⟩ := ih hnd' htidy
        refine ⟨output', posted, ?_, posted_skip (fun q hq' => ?_) hposted⟩
        · dsimp only
          by_cases hpend : (!p.isPending) = true
          · rw [if_pos hpend, hdone]
          · rw [if_neg hpend, if_pos, hdone]
            refine (same_iff hgood.pending hgood.current).mpr ?_
            exact by_contra fun hne => hdiff ⟨by simpa using hpend, hne⟩
        · rw [hq] at hq'
          cases hq'
          exact hdiff

theorem postPendingProperties_posted (htidy : Tidy output) (nonDesktopAtom : Nat)
    (memory : Nat → Bool) (hflag : output.pendingProperties = true) :
    ∃ output' posted, postPendingProperties nonDesktopAtom output memory = (output', posted) ∧
      Tidy output' ∧ output'.pendingProperties = false ∧ (∀ name, queryOutputProperty output' name =
        (queryOutputProperty output name).map (·.posted memory)) ∧
      ∀ name, (∃ rc, (name, rc) ∈ posted ∧ rc ≠ .success) ↔
        ∃ p, queryOutputProperty output name = some p ∧ p.Differs ∧ ¬ p.Fits memory := by
  have hlisted : ∀ name p, queryOutputProperty output name = some p →
      name ∈ output.properties.map Property.propertyName := fun name p hq =>
    not_not.mp fun h => by rw [queryOutputProperty, Keyed.lookup_eq_none.mpr h] at hq; cases hq
  have htidy' : Tidy { output with pendingProperties := false } := ⟨htidy.names, htidy.good⟩
  obtain ⟨output', posted, hdone, hposted⟩ :=
    postProperties_posted nonDesktopAtom memory htidy.names htidy'
  refine ⟨output', posted, ?_, hposted.tidy, hposted.flag, fun name => ?_, fun name => ?_⟩
  · rw [postPendingProperties, hflag, if_neg (by decide), hdone]
  · rw [hposted.read]
    split
    · rfl
    · next hno =>
      cases hq : queryOutputProperty output name with
      | none => exact hq
      | some p => exact absurd (hlisted name p hq) hno
  · rw [hposted.failed]
    exact ⟨fun h => h.2, fun ⟨p, hq, h⟩ => ⟨hlisted name p hq, p, hq, h⟩⟩

end Xfront.Randr
