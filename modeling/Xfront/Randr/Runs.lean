import Xfront.Lib.Run
import Xfront.Randr.Calls

/-!
# Runs of calls on output properties

Beside the output a run keeps the story of its pending properties: which of them a client
has changed since they last became pending, and for which of these the last post failed.
-/

namespace Xfront.Randr
open Bool

open Option Function
open Run (exec Guarded Always)

structure Story where
  changed : Nat → Bool
  failed : Nat → Bool

structure Tracked where
  output : Output
  story : Story

open Property Story

def Tracked.pendingAt (s : Tracked) (name : Nat) : Bool :=
  (queryOutputProperty s.output name).any isPending

def Story.change (story : Story) (property : Nat) : Story :=
  ⟨update story.changed property true, update story.failed property false⟩

def Story.forget (story : Story) (property : Nat) : Story :=
  ⟨update story.changed property false, update story.failed property false⟩

theorem Story.change_changed (story : Story) (k name : Nat) :
    (story.change k).changed name = if name = k then true else story.changed name :=
  update_apply _ _ _ _

theorem Story.forget_changed (story : Story) (k name : Nat) :
    (story.forget k).changed name = if name = k then false else story.changed name :=
  update_apply _ _ _ _

theorem Story.forget_failed (story : Story) (k name : Nat) :
    (story.forget k).failed name = if name = k then false else story.failed name :=
  update_apply _ _ _ _

/-- A change made the way clients make them is one with `pending`. -/
def Tracked.after (s : Tracked) (call : Call) (result : Result) : Story :=
  match call with
  | .change stuff =>
    if result.rc = .success ∧ stuff.pending = true ∧ s.pendingAt stuff.property = true then
      s.story.change stuff.property
    else s.story
  | .post _ =>
    if s.output.pendingProperties then
      { s.story with failed := fun name => result.posted.any fun (n, rc) => n = name ∧ rc ≠ .success }
    else s.story
  | .configure stuff =>
    if result.rc = .success ∧ ¬(stuff.pending = true ∧ s.pendingAt stuff.property = true) then
      s.story.forget stuff.property
    else s.story
  | .delete property => s.story.forget property

def track (nonDesktopAtom : Nat) (s : Tracked) (call : Call) : Option (Tracked × Result) :=
  let (output, result) := step nonDesktopAtom s.output call
  some (⟨output, s.after call result⟩, result)

def start : Tracked := ⟨newOutput, fun _ => false, fun _ => false⟩

def Call.clientChange : Call → Option Change
  | .change stuff => if stuff.pending then some stuff else none
  | _ => none

def Call.isPost : Call → Bool
  | .post _ => true
  | _ => false

structure Told (s : Tracked) (call : Call) (s' : Tracked) (result : Result) : Prop where
  client : ∀ stuff ∈ call.clientChange, ∀ p ∈ queryOutputProperty s.output stuff.property,
    p.isPending = true → ∃ v, ∀ name, queryOutputProperty s'.output name =
      if name = stuff.property then some { p with pending := v }
      else queryOutputProperty s.output name
  error : result.rc ≠ .success → s'.output = s.output
  post : call.isPost = true → ∀ name, queryOutputProperty s'.output name =
    (queryOutputProperty s.output name).map fun p =>
      if p.isPending && s.story.changed name then { p with current := p.pending } else p

def Flagged (s : Tracked) : Prop :=
  ∀ name, ∀ p ∈ queryOutputProperty s.output name, p.isPending = true →
    s.story.changed name = true → p.pending ≠ p.current →
    s.output.pendingProperties = true ∨ s.story.failed name = true

/-- A post meets differing values only of properties that a client has changed, while the
flag is set and there is memory, or of others while it is clear. -/
def Clear (s : Tracked) : Call → Prop
  | .post memory => ∀ name, ∀ p ∈ queryOutputProperty s.output name, p.Differs →
    if s.story.changed name then s.output.pendingProperties = true ∧ p.Fits memory
    else s.output.pendingProperties = false
  | _ => True

/-- A driver that changes the current value of a property which a client has changed, while
the flag is clear, makes it the pending value. -/
def Spares (s : Tracked) : Call → Prop
  | .change stuff => stuff.pending = false → s.output.pendingProperties = false →
    ∀ p ∈ queryOutputProperty s.output stuff.property, p.isPending = true →
      s.story.changed stuff.property = true → s.story.failed stuff.property = false →
      stuff.Refused p ∨ stuff.new p = p.pending
  | _ => True

structure Inv (s : Tracked) : Prop where
  tidy : Tidy s.output
  known : ∀ name, s.story.changed name = true →
    ∃ p, queryOutputProperty s.output name = some p ∧ p.isPending = true
  unset : ∀ name p, queryOutputProperty s.output name = some p →
    s.story.changed name = false → p.pending = initOutputPropertyValue

theorem inv_start : Inv start := by
  refine ⟨⟨List.nodup_nil, fun name p h => ?_⟩, fun name h => ?_, fun name p h => ?_⟩
  · cases h
  · cases h
  · cases h

theorem flagged_start : Flagged start := fun _ _ h => by cases h

structure Kept (s : Tracked) (call : Call) (s' : Tracked) (result : Result) : Prop where
  inv : Inv s'
  told : Told s call s' result ↔ Clear s call
  flagged : Spares s call → Flagged s → Flagged s'

variable {s : Tracked} {p : Property}

theorem pendingAt_eq {name : Nat}
    (h : queryOutputProperty s.output name = some p) : s.pendingAt name = p.isPending := by
  rw [Tracked.pendingAt, h, any_some]

theorem pendingAt_iff {name : Nat} : s.pendingAt name = true ↔
    ∃ p, queryOutputProperty s.output name = some p ∧ p.isPending = true :=
  any_eq_true _ _

variable {call : Call}

theorem kept_refused (h : Inv s) (hpost : call.isPost = false) {result : Result}
    (hclear : Clear s call) (hstory : s.after call result = s.story) :
    Kept s call ⟨s.output, s.after call result⟩ result := by
  rw [hstory]
  refine ⟨h, iff_of_true ⟨fun stuff _ p hp _ => ⟨p.pending, fun name => ?_⟩, fun _ => rfl,
    fun hp => ?_⟩ hclear, fun _ hf => hf⟩
  · split
    · next hn => exact hn ▸ hp
    · rfl
  · rw [hpost] at hp
    cases hp

variable {output' : Output}

theorem kept_changePending (h : Inv s) {stuff : Change}
    (hpending : stuff.pending = true) (hq : queryOutputProperty s.output stuff.property = some p)
    (hp : p.isPending = true) {v : PropertyValue} (hv : v.Bounded)
    (hwrote : Wrote s.output stuff.property { p with pending := v } true output') :
    Kept s (.change stuff) ⟨output', s.after (.change stuff) ⟨.success, []⟩⟩ ⟨.success, []⟩ := by
  have hafter : s.after (.change stuff) ⟨.success, []⟩ = s.story.change stuff.property :=
    if_pos ⟨rfl, hpending, (pendingAt_eq hq).trans hp⟩
  have hgood := h.tidy.good _ p hq
  rw [hafter]
  refine ⟨⟨wrote_tidy h.tidy hwrote ⟨hgood.current, hv, fun hidle => ?_⟩, fun name hname => ?_,
    fun name q hq' hname => ?_⟩, iff_of_true ⟨fun stuff' hstuff' q hq' _ => ?_,
    fun herr => absurd rfl herr, fun hpost => by cases hpost⟩ trivial,
    fun _ _ _ _ _ _ _ _ => .inl hwrote.flag⟩
  · rw [hp] at hidle
    cases hidle
  · rw [hwrote.read]
    split
    · exact ⟨_, rfl, hp⟩
    · next hne =>
      rw [change_changed, if_neg hne] at hname
      exact h.known name hname
  · rw [hwrote.read] at hq'
    split at hq'
    · next heq =>
      rw [change_changed, if_pos heq] at hname
      cases hname
    · next hne =>
      rw [change_changed, if_neg hne] at hname
      exact h.unset name q hq' hname
  · rw [Call.clientChange, if_pos hpending] at hstuff'
    cases hstuff'
    rw [hq] at hq'
    cases hq'
    exact ⟨v, hwrote.read⟩

theorem kept_changeCurrent (h : Inv s) {stuff : Change}
    (hold : ∀ q, queryOutputProperty s.output stuff.property = some q →
      q.pending = p.pending ∧ q.isPending = p.isPending)
    (hnew : queryOutputProperty s.output stuff.property = none → p.isPending = false)
    (hidle : (stuff.pending && p.isPending) = false) (hp : p.Good)
    (hwrote : Wrote s.output stuff.property p s.output.pendingProperties output')
    (hspares : Spares s (.change stuff) → p.isPending = true →
      s.story.changed stuff.property = true → p.pending ≠ p.current →
        s.output.pendingProperties = true ∨ s.story.failed stuff.property = true) :
    Kept s (.change stuff) ⟨output', s.after (.change stuff) ⟨.success, []⟩⟩ ⟨.success, []⟩ := by
  have hafter : s.after (.change stuff) ⟨.success, []⟩ = s.story := by
    refine if_neg fun ⟨_, hpending, hat⟩ => ?_
    cases hq : queryOutputProperty s.output stuff.property with
    | none =>
      rw [Tracked.pendingAt, hq] at hat
      cases hat
    | some q =>
      rw [pendingAt_eq hq, (hold q hq).2] at hat
      rw [hpending, hat] at hidle
      cases hidle
  rw [hafter]
  refine ⟨⟨wrote_tidy h.tidy hwrote hp, fun name hname => ?_, fun name q hq hname => ?_⟩,
    iff_of_true ⟨fun stuff' hstuff' q hq hpend => ?_, fun herr => absurd rfl herr,
      fun hpost => by cases hpost⟩ trivial, fun hguard hflagged name q hq hpend hname hne => ?_⟩
  · obtain ⟨q, hq, hpend⟩ := h.known name hname
    rw [hwrote.read]
    split
    · next heq =>
      refine ⟨p, rfl, ?_⟩
      rw [← (hold q (heq ▸ hq)).2, hpend]
    · exact ⟨q, hq, hpend⟩
  · rw [hwrote.read] at hq
    split at hq
    · next heq =>
      cases hq
      cases hq : queryOutputProperty s.output name with
      | none => exact hp.idle (hnew (heq ▸ hq))
      | some r => rw [← (hold r (heq ▸ hq)).1, h.unset name r hq hname]
    · exact h.unset name q hq hname
  · rw [Call.clientChange] at hstuff'
    split at hstuff'
    · next hpending =>
      cases hstuff'
      rw [hpending, ← (hold q hq).2, hpend] at hidle
      cases hidle
    · cases hstuff'
  · rw [hwrote.read] at hq
    rw [hwrote.flag]
    split at hq
    · next heq =>
      cases hq
      rw [heq] at hname ⊢
      exact hspares hguard hpend hname hne
    · exact hflagged name q hq hpend hname hne

theorem kept_change (nonDesktopAtom : Nat) (h : Inv s) (stuff : Change) :
    ∃ output' rc, changeOutputProperty nonDesktopAtom s.output stuff = (output', rc) ∧
      Kept s (.change stuff) ⟨output', s.after (.change stuff) ⟨rc, []⟩⟩ ⟨rc, []⟩ := by
  have hrefused : ∀ rc, rc ≠ .success →
      Kept s (.change stuff) ⟨s.output, s.after (.change stuff) ⟨rc, []⟩⟩ ⟨rc, []⟩ :=
    fun rc hrc => kept_refused h rfl trivial (if_neg fun hn => hrc hn.1)
  cases hq : queryOutputProperty s.output stuff.property with
  | none =>
    rcases changeOutputProperty_unlisted h.tidy nonDesktopAtom hq with
      ⟨rc, hdone, hrc⟩ | ⟨output', p, hdone, hwrote, hp, hidle⟩
    · exact ⟨_, _, hdone, hrefused rc hrc⟩
    · refine ⟨_, _, hdone, kept_changeCurrent h (fun q hq' => ?_) (fun _ => hidle) ?_ hp hwrote
        fun _ hpend => ?_⟩
      · rw [hq] at hq'
        cases hq'
      · rw [hidle, Bool.and_false]
      · rw [hidle] at hpend
        cases hpend
  | some p =>
    have hgood := h.tidy.good _ p hq
    rcases changeOutputProperty_listed h.tidy nonDesktopAtom hq with
      ⟨-, rc, hdone, hrc⟩ | ⟨hok, output', hdone, hwrote⟩
    · exact ⟨_, _, hdone, hrefused rc hrc⟩
    refine ⟨_, _, hdone, ?_⟩
    have hbound := new_bounded hok
    rw [setValue] at hwrote
    by_cases hset : (stuff.pending && p.isPending) = true
    · rw [if_pos hset, hset, Bool.or_true] at hwrote
      obtain ⟨hpending, hpend⟩ := and_eq_true_iff.mp hset
      exact kept_changePending h hpending hq hpend hbound hwrote
    · rw [if_neg hset, eq_false_iff.mpr hset, Bool.or_false] at hwrote
      refine kept_changeCurrent (p := { p with current := stuff.new p }) h (fun q hq' => ?_)
        (fun hnone => ?_) (eq_false_iff.mpr hset)
        ⟨hbound, hgood.pending, hgood.idle⟩ hwrote fun hguard hpend hname hne => ?_
      · rw [hq] at hq'
        cases hq'
        exact ⟨rfl, rfl⟩
      · rw [hq] at hnone
        cases hnone
      · by_contra hno
        obtain ⟨hflag, hfailed⟩ := not_or.mp hno
        have hdriver : stuff.pending = false := by
          rw [hpend, Bool.and_true] at hset
          exact eq_false_iff.mpr hset
        rcases hguard hdriver (eq_false_iff.mpr hflag) p hq hpend hname
          (eq_false_iff.mpr hfailed) with hr | heq
        · exact hok hr
        · exact hne heq.symm

theorem kept_forget (h : Inv s) (hchange : call.clientChange = none)
    (hpost : call.isPost = false) (hclear : Clear s call) {k : Nat}
    (htidy : Tidy output') (hflag : output'.pendingProperties = s.output.pendingProperties)
    (hread : ∀ name, name ≠ k →
      queryOutputProperty output' name = queryOutputProperty s.output name)
    (hunset : ∀ p, queryOutputProperty output' k = some p → p.pending = initOutputPropertyValue) :
    Kept s call ⟨output', s.story.forget k⟩ ⟨.success, []⟩ := by
  refine ⟨⟨htidy, fun name hname => ?_, fun name p hq hname => ?_⟩,
    iff_of_true ⟨fun stuff hstuff => ?_, fun herr => absurd rfl herr, fun hp => ?_⟩ hclear,
    fun _ hflagged name p hq hpend hname hne => ?_⟩
  · dsimp only at hname ⊢
    rw [forget_changed] at hname
    split at hname
    · cases hname
    · next hk =>
      rw [hread name hk]
      exact h.known name hname
  · dsimp only at hname hq
    rw [forget_changed] at hname
    split at hname
    · next hk => exact hunset p (hk ▸ hq)
    · next hk =>
      rw [hread name hk] at hq
      exact h.unset name p hq hname
  · rw [hchange] at hstuff
    cases hstuff
  · rw [hpost] at hp
    cases hp
  · dsimp only at hq hname ⊢
    rw [forget_changed] at hname
    split at hname
    · cases hname
    · next hk =>
      rw [hread name hk] at hq
      rw [hflag, forget_failed, if_neg hk]
      exact hflagged name p hq hpend hname hne

theorem kept_configure (h : Inv s) (stuff : Configure) :
    ∃ output' rc, configureOutputProperty s.output stuff = (output', rc) ∧
      Kept s (.configure stuff) ⟨output', s.after (.configure stuff) ⟨rc, []⟩⟩ ⟨rc, []⟩ := by
  rcases configureOutputProperty_cases h.tidy stuff with ⟨rc, hdone, hrc⟩ | ⟨output', hdone, hwrote⟩
  · exact ⟨_, _, hdone, kept_refused h rfl trivial (if_neg fun hn => hrc hn.1)⟩
  refine ⟨_, _, hdone, ?_⟩
  have hgood : ((queryOutputProperty s.output stuff.property).getD
      (createOutputProperty stuff.property)).Good := by
    cases hq : queryOutputProperty s.output stuff.property with
    | none => exact createOutputProperty_good _
    | some p => exact h.tidy.good _ p hq
  have htidy := wrote_tidy h.tidy hwrote (configure_good hgood stuff)
  by_cases hstays : stuff.pending = true ∧ s.pendingAt stuff.property = true
  · have hafter : s.after (.configure stuff) ⟨.success, []⟩ = s.story :=
      if_neg fun hn => hn.2 hstays
    obtain ⟨p, hq, hpend⟩ := pendingAt_iff.mp hstays.2
    rw [hq, getD_some, configure, hpend, hstays.1, Bool.not_true, Bool.and_false,
      if_neg Bool.false_ne_true] at hwrote
    rw [hafter]
    refine ⟨⟨htidy, fun name hname => ?_, fun name q hq' hname => ?_⟩,
      iff_of_true ⟨fun _ hstuff => ?_, fun herr => absurd rfl herr, fun hp => ?_⟩ trivial,
      fun _ hflagged name q hq' hpend' hname hne => ?_⟩
    · rw [hwrote.read]
      split
      · exact ⟨_, rfl, rfl⟩
      · exact h.known name hname
    · rw [hwrote.read] at hq'
      split at hq'
      · next hk =>
        cases hq'
        exact h.unset name p (hk ▸ hq) hname
      · exact h.unset name q hq' hname
    · cases hstuff
    · cases hp
    · rw [hwrote.read] at hq'
      rw [hwrote.flag]
      split at hq'
      · next hk =>
        cases hq'
        exact hflagged name p (hk ▸ hq) hpend hname hne
      · exact hflagged name q hq' hpend' hname hne
  · have hafter : s.after (.configure stuff) ⟨.success, []⟩ = s.story.forget stuff.property :=
      if_pos ⟨rfl, hstays⟩
    rw [hafter]
    have hclear : Clear s (.configure stuff) := trivial
    refine kept_forget h rfl rfl hclear htidy hwrote.flag
      (fun name hk => ?_) fun p hq => ?_
    · rw [hwrote.read, if_neg hk]
    · rw [hwrote.read, if_pos rfl] at hq
      cases hq
      rw [configure]
      split
      · rfl
      · next hkeep =>
        refine hgood.idle (eq_false_iff.mpr fun hpend => ?_)
        rw [hpend, Bool.true_and] at hkeep
        refine hstays ⟨by simpa using hkeep, ?_⟩
        cases hq : queryOutputProperty s.output stuff.property with
        | none =>
          rw [hq, getD_none] at hpend
          cases hpend
        | some p =>
          rw [hq, getD_some] at hpend
          exact (pendingAt_eq hq).trans hpend

theorem kept_delete (h : Inv s) (property : Nat) :
    Kept s (.delete property) ⟨deleteOutputProperty s.output property,
      s.after (.delete property) ⟨.success, []⟩⟩ ⟨.success, []⟩ := by
  have hclear : Clear s (.delete property) := trivial
  refine kept_forget h rfl rfl hclear (delete_tidy h.tidy property) rfl (fun name hk => ?_)
    fun p hq => ?_
  · rw [query_delete h.tidy, if_neg hk]
  · rw [query_delete h.tidy, if_pos rfl] at hq
    cases hq

theorem posted_pending (p : Property) (memory : Nat → Bool) :
    (p.posted memory).isPending = p.isPending ∧ (p.posted memory).pending = p.pending := by
  rw [posted]
  split
  · exact ⟨rfl, rfl⟩
  · exact ⟨rfl, rfl⟩

theorem post_same (h : p.pending = p.current) : { p with current := p.pending } = p := by
  obtain ⟨_, _, _, _, _, current, pending⟩ := p
  obtain rfl : pending = current := h
  rfl

theorem kept_postClear (h : Inv s) {memory : Nat → Bool} (hflag : s.output.pendingProperties = false) :
    Kept s (.post memory) s ⟨.success, []⟩ := by
  refine ⟨h, ⟨fun htold name p hq hdiff => ?_, fun hclear => ⟨fun stuff hstuff => ?_,
    fun herr => absurd rfl herr, fun _ name => ?_⟩⟩, fun _ hf => hf⟩
  · split
    · next hname =>
      have hread := htold.post rfl name
      rw [hq, map_some, hdiff.1, hname, Bool.true_and, if_pos rfl] at hread
      exact absurd (congrArg current (some.inj hread)).symm hdiff.2
    · exact hflag
  · cases hstuff
  · cases hq : queryOutputProperty s.output name with
    | none => rfl
    | some p =>
      rw [map_some]
      split
      · next hset =>
        obtain ⟨hpend, hname⟩ := and_eq_true_iff.mp hset
        by_cases hdiff : p.Differs
        · have hc := hclear name p hq hdiff
          rw [if_pos hname, hflag] at hc
          cases hc.1
        · have hsame : p.pending = p.current := by_contra fun hne => hdiff ⟨hpend, hne⟩
          rw [post_same hsame]
      · rfl

theorem kept_postSet (h : Inv s) {memory : Nat → Bool}
    {posted : List (Nat × Rc)} (hflag : s.output.pendingProperties = true) (htidy : Tidy output')
    (hread : ∀ name, queryOutputProperty output' name =
      (queryOutputProperty s.output name).map (·.posted memory))
    (hfailed : ∀ name, (∃ rc, (name, rc) ∈ posted ∧ rc ≠ .success) ↔
      ∃ p, queryOutputProperty s.output name = some p ∧ p.Differs ∧ ¬ p.Fits memory) :
    Kept s (.post memory) ⟨output', s.after (.post memory) ⟨.success, posted⟩⟩
      ⟨.success, posted⟩ := by
  have hafter : s.after (.post memory) ⟨.success, posted⟩ = { s.story with
      failed := fun name => posted.any fun (n, rc) => n = name ∧ rc ≠ .success } := if_pos hflag
  rw [hafter]
  refine ⟨⟨htidy, fun name hname => ?_, fun name q hq hname => ?_⟩, ⟨fun htold name p hq hdiff => ?_,
    fun hclear => ⟨fun _ hstuff => ?_, fun herr => absurd rfl herr, fun _ name => ?_⟩⟩,
    fun _ _ name q hq hpend hname hne => .inr ?_⟩
  · obtain ⟨p, hq, hpend⟩ := h.known name hname
    refine ⟨p.posted memory, ?_, (posted_pending p memory).1.trans hpend⟩
    rw [hread, hq, map_some]
  · rw [hread] at hq
    obtain ⟨p, hp, rfl⟩ := map_eq_some_iff.mp hq
    exact (posted_pending p memory).2.trans (h.unset name p hp hname)
  · have hpost := htold.post rfl name
    rw [hread, hq, map_some, map_some, some.injEq] at hpost
    split
    · next hname =>
      refine ⟨hflag, ?_⟩
      rw [hdiff.1, hname, Bool.and_true, if_pos rfl, Property.posted] at hpost
      by_contra hfits
      rw [if_neg fun hn => hfits hn.2] at hpost
      exact hdiff.2 (congrArg Property.current hpost).symm
    · next hname =>
      have hfits : p.Fits memory := by
        rw [Property.Fits, h.unset name p hq (eq_false_iff.mpr hname)]
        exact .inr (.inl rfl)
      rw [eq_false_iff.mpr hname, Bool.and_false, if_neg Bool.false_ne_true, Property.posted,
        if_pos ⟨hdiff, hfits⟩] at hpost
      exact absurd (congrArg Property.current hpost) hdiff.2
  · cases hstuff
  · rw [hread]
    cases hq : queryOutputProperty s.output name with
    | none => rfl
    | some p =>
      rw [map_some, map_some, Property.posted]
      by_cases hdiff : p.Differs
      · have hc := hclear name p hq hdiff
        split at hc
        · next hname =>
          rw [if_pos ⟨hdiff, hc.2⟩, hdiff.1, hname, Bool.and_true, if_pos rfl]
        · rw [hflag] at hc
          cases hc
      · rw [if_neg fun hn => hdiff hn.1]
        split
        · next hset =>
          have hsame : p.pending = p.current :=
            by_contra fun hne => hdiff ⟨(and_eq_true_iff.mp hset).1, hne⟩
          rw [post_same hsame]
        · rfl
  · dsimp only at hq ⊢
    rw [hread] at hq
    obtain ⟨p, hp, rfl⟩ := map_eq_some_iff.mp hq
    have hdiff : p.Differs := by
      refine ⟨(posted_pending p memory).1.symm.trans hpend, fun hsame => hne ?_⟩
      rw [Property.posted, if_neg fun hn => hn.1.2 hsame, hsame]
    have hfits : ¬ p.Fits memory := by
      intro hfits
      rw [Property.posted, if_pos ⟨hdiff, hfits⟩] at hne
      exact hne rfl
    obtain ⟨rc, hmem, hrc⟩ := (hfailed name).mpr ⟨p, hp, hdiff, hfits⟩
    exact List.any_eq_true.mpr ⟨(name, rc), hmem, decide_eq_true ⟨rfl, hrc⟩⟩

theorem kept_post (nonDesktopAtom : Nat) (h : Inv s) (memory : Nat → Bool) : ∃ output' posted,
      postPendingProperties nonDesktopAtom s.output memory = (output', posted) ∧
      Kept s (.post memory) ⟨output', s.after (.post memory) ⟨.success, posted⟩⟩
        ⟨.success, posted⟩ := by
  cases hflag : s.output.pendingProperties with
  | false =>
    refine ⟨s.output, [], ?_, ?_⟩
    · rw [postPendingProperties, hflag, Bool.not_false, if_pos rfl]
    · have hafter : s.after (.post memory) ⟨.success, []⟩ = s.story :=
        if_neg (eq_false_iff.mp hflag)
      rw [hafter]
      exact kept_postClear h hflag
  | true =>
    obtain ⟨output', posted, hdone, htidy, -, hread, hfailed⟩ :=
      postPendingProperties_posted h.tidy nonDesktopAtom memory hflag
    exact ⟨output', posted, hdone, kept_postSet h hflag htidy hread hfailed⟩

theorem track_kept (nonDesktopAtom : Nat) (h : Inv s) {s' : Tracked}
    {result : Result} (hs : track nonDesktopAtom s call = some (s', result)) :
    Kept s call s' result := by
  rw [track] at hs
  cases call with
  | change stuff =>
    obtain ⟨output', rc, hdone, hkept⟩ := kept_change nonDesktopAtom h stuff
    rw [step, hdone] at hs
    cases hs
    exact hkept
  | post memory =>
    obtain ⟨output', posted, hdone, hkept⟩ := kept_post nonDesktopAtom h memory
    rw [step, hdone] at hs
    cases hs
    exact hkept
  | configure stuff =>
    obtain ⟨output', rc, hdone, hkept⟩ := kept_configure h stuff
    rw [step, hdone] at hs
    cases hs
    exact hkept
  | delete property =>
    cases hs
    exact kept_delete h property

/-- In every run each call does what it should exactly where it is clear of the properties
that no client has changed; and where drivers spare the values that wait for a post, none is
left without the flag. -/
theorem outputs_run (nonDesktopAtom : Nat) (calls : List Call) :
    Always (track nonDesktopAtom) (fun s call s' result => Told s call s' result ↔ Clear s call)
        start calls ∧ (Guarded (track nonDesktopAtom) Spares start calls →
        Always (track nonDesktopAtom) (fun _ _ s' _ => Flagged s') start calls) := by
  refine ⟨?_, fun hguarded => ?_⟩
  · refine Run.always_of_inv Inv (fun s call s' result hinv _ hs => ?_) inv_start
      (Run.guarded_true start calls)
    have hkept := track_kept nonDesktopAtom hinv hs
    exact ⟨hkept.inv, hkept.told⟩
  · refine Run.always_of_inv (fun s => Inv s ∧ Flagged s)
      (fun s call s' result hinv hspares hs => ?_) ⟨inv_start, flagged_start⟩ hguarded
    have hkept := track_kept nonDesktopAtom hinv.1 hs
    exact ⟨⟨hkept.inv, hkept.flagged hspares hinv.2⟩, hkept.flagged hspares hinv.2⟩

def configured (property : Nat) (pending : Bool) : Call :=
  .configure ⟨property, pending, false, false, [], ⟨true, true⟩⟩

def changed (property : Nat) (pending : Bool) (byte : BitVec 8) : Call :=
  .change ⟨property, xaInteger, 8, .replace, 1, [byte], pending, true, ⟨true, true⟩⟩

def postedCalls : List Call :=
  [configured 1 true, changed 1 false 5, changed 1 true 7, .post fun _ => true]

theorem postedCalls_guarded : Guarded (track 0) Spares start postedCalls := by
  refine Run.guarded_cons trivial rfl (Run.guarded_cons (fun _ _ _ _ _ h => ?_) rfl
    (Run.guarded_cons (fun h => ?_) rfl (Run.guarded_cons trivial rfl trivial)))
  · exact absurd h (by decide)
  · cases h

theorem outputs_run_posted :
    Always (track 0) (fun s call s' result => Told s call s' result ↔ Clear s call) start
        postedCalls ∧ Always (track 0) (fun _ _ s' _ => Flagged s') start postedCalls :=
  ⟨(outputs_run 0 postedCalls).1, (outputs_run 0 postedCalls).2 postedCalls_guarded⟩

/-- A driver has set property 1 before it became pending; the post is for property 2. -/
def emptyingCalls : List Call :=
  [configured 1 false, changed 1 false 5, configured 1 true, configured 2 true, changed 2 true 7,
    .post fun _ => true]

/-- The post empties the property that no client has changed. -/
theorem emptied_by_post : ((exec (track 0) start emptyingCalls).bind fun r =>
        (queryOutputProperty r.1.output 1).map Property.current) = some initOutputPropertyValue ∧
      ¬ Always (track 0) Told start emptyingCalls := by
  refine ⟨by decide, fun h => ?_⟩
  have hpost := (((((h _ _ rfl).2 _ _ rfl).2 _ _ rfl).2 _ _ rfl).2 _ _ rfl).2 _ _ rfl
  exact absurd (hpost.1.post rfl 1) (by decide)

end Xfront.Randr
