import Xfront.Lib.Keyed
import Xfront.Lib.Run
import Xfront.XIProperty.Model

/-!
# Runs of requests on device properties

What a request may do to the property list, and the one kind of request that does more.
-/

namespace Xfront.XIProperty

open List Option
open Run (exec Guarded Always)

section

variable {σ : Type}

structure WellFormed (dev : Device σ) : Prop where
  names : (dev.properties.map Property.propertyName).Nodup
  data : ∀ p ∈ dev.properties, p.value.data.length = p.value.size * (p.value.format / 8)

/-- The `DeleteProperty` handlers that were asked for a property, and their answers. -/
def deletesAsked (log : List Event) (property : Nat) : List (Nat × Rc) :=
  log.filterMap fun
    | .deleteAsked handler name rc => if name = property then some (handler, rc) else none
    | _ => none

def combined (old : PropertyValue) (type format len : Nat) (value : Bytes) :
    PropMode → PropertyValue
  | .replace => ⟨type, format, len, value.take (len * (format / 8))⟩
  | .append => { old with
      size := old.size + len
      data := old.data ++ value.take (len * (old.format / 8)) }
  | .prepend => { old with
      size := old.size + len
      data := value.take (len * (old.format / 8)) ++ old.data }

/-- The list after an accepted change: a property that was not there is new and can be
deleted; of one that was, the value is combined as the mode says. -/
def Stored (properties properties' : List Property) (property type format : Nat)
    (mode : PropMode) (len : Nat) (value : Bytes) : Prop :=
  match properties.find? (·.propertyName = property) with
  | none => properties' =
      ⟨property, combined ⟨0, 0, 0, []⟩ type format len value .replace, true⟩ :: properties
  | some p => (mode ≠ .replace → type = p.value.type ∧ format = p.value.format) ∧
      properties' = properties.map fun q =>
        if q.propertyName = property then
          { q with value := combined p.value type format len value mode }
        else q

def Request.change : Request → Option ChangeReq
  | .xChange stuff => some stuff
  | .xiChange stuff => some stuff
  | _ => none

structure Told (dev : Device σ) (request : Request) (dev' : Device σ) (out : Out) : Prop where
  removed : ∀ p ∈ dev.properties, (∀ q ∈ dev'.properties, q.propertyName ≠ p.propertyName) →
    p.deletable = true ∧ deletesAsked out.log p.propertyName =
      (dev.handlers.filter (·.deleteProperty.isSome)).map fun h => (h.id, .success)
  vetoed : ∀ stuff ∈ request.change, out.rc ≠ .success → dev'.properties = dev.properties
  checked : ∀ stuff ∈ request.change, ∀ handler property rc,
    .setAsked handler property true rc ∈ out.log → rc ≠ .success → out.rc ≠ .success
  stored : ∀ stuff ∈ request.change, out.rc = .success → ∃ mode,
    PropMode.ofWire stuff.mode = some mode ∧ Stored dev.properties dev'.properties stuff.property
      stuff.type stuff.format mode stuff.nUnits stuff.rest
  others : request.change = none → dev'.properties.Sublist dev.properties

section

variable {ask : Handler σ → Option (σ → σ × Rc)} {event : Handler σ → Rc → Event}

variable {handlers : List (Handler σ)}

theorem askHandlers_success {driver driver' : σ} {log : List Event}
    (h : askHandlers ask event handlers driver = (driver', .success, log)) :
    log = (handlers.filter fun x => (ask x).isSome).map fun x => event x .success := by
  induction handlers generalizing driver log with
  | nil =>
    cases h
    rfl
  | cons handler handlers ih =>
    rw [askHandlers] at h
    cases hask : ask handler with
    | none =>
      rw [hask] at h
      rw [filter_cons_of_neg (by simp [hask])]
      exact ih h
    | some call =>
      rw [hask] at h
      dsimp only at h
      rw [filter_cons_of_pos (by simp [hask]), map_cons]
      by_cases hrc : (call driver).2 = .success
      · rw [if_neg (not_not.mpr hrc)] at h
        generalize hrest : askHandlers ask event handlers (call driver).1 = rest at h
        obtain ⟨d, r, l⟩ := rest
        simp only [Prod.mk.injEq] at h
        obtain ⟨rfl, rfl, rfl⟩ := h
        rw [hrc, ih hrest]
      · rw [if_pos hrc] at h
        exact absurd (congrArg (fun r => r.2.1) h) hrc

theorem tellHandlers_checkonly {property : Nat} {value : PropertyValue}
    {driver : σ} {handler name : Nat} {rc : Rc} :
    .setAsked handler name true rc ∉ (tellHandlers property value handlers driver).2 := by
  induction handlers generalizing driver with
  | nil => exact not_mem_nil
  | cons x handlers ih =>
    rw [tellHandlers]
    cases x.setProperty with
    | none => exact ih
    | some call =>
      intro hmem
      rcases mem_cons.mp hmem with he | hmem
      · cases he
      · exact ih hmem

end

section

variable {properties : List Property} {property : Nat} {p : Property}

theorem storeValue_eq_map (hnd : (properties.map Property.propertyName).Nodup)
    (value : PropertyValue) : storeValue property value properties =
      properties.map fun q => if q.propertyName = property then { q with value } else q := by
  induction properties with
  | nil => rfl
  | cons q properties ih =>
    obtain ⟨hnot, hnd'⟩ := nodup_cons.mp hnd
    rw [storeValue, map_cons]
    by_cases hq : q.propertyName = property
    · rw [if_pos hq, if_pos hq]
      have hsame : (properties.map fun q => if q.propertyName = property then { q with value }
          else q) = properties := by
        refine (map_congr_left fun x hx => ?_).trans (List.map_id properties)
        refine if_neg fun he => hnot ?_
        rw [hq, ← he]
        exact List.mem_map_of_mem hx
      rw [hsame]
    · rw [if_neg hq, if_neg hq, ih hnd']

theorem find_mem (h : properties.find? (·.propertyName = property) = some p) :
    p ∈ properties ∧ p.propertyName = property :=
  ⟨Keyed.mem_of_lookup h, Keyed.key_of_lookup h⟩

theorem find_of_mem (hnd : (properties.map Property.propertyName).Nodup) (hp : p ∈ properties) :
    properties.find? (·.propertyName = p.propertyName) = some p :=
  Keyed.lookup_of_mem hnd hp

theorem mem_unlink (dev : Device σ) (hnd : (dev.properties.map Property.propertyName).Nodup)
    {q : Property} : q ∈ (unlink dev property).properties ↔
      q ∈ dev.properties ∧ q.propertyName ≠ property :=
  Keyed.mem_erase hnd

end

variable {dev : Device σ}

/-- What a change may come to: it is refused and leaves the list, or it is accepted, with
no check that failed, and the list is `properties`. -/
def Changed (dev : Device σ) (properties : List Property) (r : Device σ × Rc × List Event) : Prop :=
  r.1.handlers = dev.handlers ∧ (r.2.1 ≠ .success ∧ r.1.properties = dev.properties ∨
      r.2.1 = .success ∧ r.1.properties = properties ∧
        ∀ handler name rc, .setAsked handler name true rc ∈ r.2.2 → rc = .success)

variable {log : List Event}

theorem changed_refused {rc : Rc} {properties : List Property}
    (h : rc ≠ .success) : Changed dev properties (dev, rc, log) := ⟨rfl, .inl ⟨h, rfl⟩⟩

theorem commitProperty_changed {prop : Property} {add : Bool} {new : PropertyValue}
    {event : List Event} (hevent : ∀ handler name rc, .setAsked handler name true rc ∉ event) :
    Changed dev (if add then { prop with value := new } :: dev.properties
      else storeValue prop.propertyName new dev.properties)
      (commitProperty dev prop add new event) := by
  rw [commitProperty]
  generalize hask : askHandlers _ _ _ _ = asked
  obtain ⟨driver, rc, checks⟩ := asked
  dsimp only
  by_cases hrc : rc = .success
  · subst hrc
    rw [if_neg (not_not.mpr rfl)]
    refine ⟨rfl, .inr ⟨rfl, rfl, fun handler name rc hmem => ?_⟩⟩
    rcases mem_append.mp hmem with hmem | hmem
    · rcases mem_append.mp hmem with hmem | hmem
      · rw [askHandlers_success hask] at hmem
        obtain ⟨x, -, he⟩ := List.mem_map.mp hmem
        cases he
        rfl
      · exact absurd hmem tellHandlers_checkonly
    · exact absurd hmem (hevent handler name rc)
  · rw [if_pos hrc]
    exact ⟨rfl, .inl ⟨hrc, rfl⟩⟩

theorem map_self (properties : List Property) (g : Property → Property)
    (h : ∀ q ∈ properties, g q = q) : properties.map g = properties :=
  (map_congr_left h).trans (List.map_id properties)

variable {old : PropertyValue} {type format len : Nat} {mode : PropMode} {value : Bytes}

theorem newValue_eq (hold : old.data.length = old.size * (old.format / 8))
    (hsame : mode ≠ .replace → type = old.type ∧ format = old.format) :
    newValue old type format mode len value = combined old type format len value mode := by
  cases mode with
  | replace => rfl
  | prepend | append =>
    obtain ⟨rfl, rfl⟩ := hsame (by simp)
    rw [newValue, combined, ← hold, take_length]

theorem combined_zero (hmode : mode ≠ .replace) : combined old type format 0 value mode = old := by
  cases mode with
  | replace => exact absurd rfl hmode
  | prepend | append => simp [combined]

theorem xiChangeDeviceProperty_changed (hwf : WellFormed dev) (property type format : Nat)
    (mode : PropMode) (len : Nat) (value : Bytes) (memory : Memory) :
    ∃ properties, Changed dev properties
        (xiChangeDeviceProperty dev property type format mode len value true memory) ∧
      ((xiChangeDeviceProperty dev property type format mode len value true memory).2.1 = .success →
        Stored dev.properties properties property type format mode len value) := by
  have hevent : ∀ what handler name rc,
      Event.setAsked handler name true rc ∉ [Event.notify property what] := by
    intro what handler name rc hmem
    cases mem_singleton.mp hmem
  unfold xiChangeDeviceProperty Stored
  rw [xiFetchDeviceProperty]
  cases hfind : dev.properties.find? (·.propertyName = property) with
  | none =>
    refine ⟨_, ?_, fun _ => rfl⟩
    simp only [isNone_none, getD_none, if_true, Bool.true_and, ne_eq,
      not_true_eq_false, false_and, if_false, true_or]
    split
    · exact changed_refused (fun h => nomatch h)
    split
    · exact changed_refused (fun h => nomatch h)
    · exact commitProperty_changed (hevent _)
  | some p =>
    obtain ⟨hp, hname⟩ := find_mem hfind
    simp only [isNone_some, getD_some, Bool.false_and, Bool.false_eq_true, if_false, if_true]
    by_cases hbad : mode ≠ .replace ∧ format ≠ p.value.format
    · rw [if_pos hbad]
      exact ⟨[], changed_refused (fun h => nomatch h), fun h => nomatch h⟩
    by_cases hbad' : mode ≠ .replace ∧ type ≠ p.value.type
    · rw [if_neg hbad, if_pos hbad']
      exact ⟨[], changed_refused (fun h => nomatch h), fun h => nomatch h⟩
    rw [if_neg hbad, if_neg hbad']
    have hsame : mode ≠ .replace → type = p.value.type ∧ format = p.value.format := fun h =>
      ⟨by_contra fun ht => hbad' ⟨h, ht⟩, by_contra fun hf => hbad ⟨h, hf⟩⟩
    refine ⟨_, ?_, fun _ => ⟨hsame, rfl⟩⟩
    rw [newValue_eq (hwf.data p hp) hsame]
    split
    · split
      · exact changed_refused (fun h => nomatch h)
      · have h : Changed dev _ (commitProperty dev p false
            (combined p.value type format len value mode) _) :=
          commitProperty_changed (hevent .modified)
        rw [if_neg Bool.false_ne_true, storeValue_eq_map hwf.names, hname] at h
        exact h
    · next hno =>
      obtain ⟨hmode, hlen⟩ := not_or.mp hno
      obtain rfl : len = 0 := by omega
      refine ⟨rfl, .inr ⟨rfl, ?_, fun handler name rc hmem => absurd hmem (hevent _ _ _ _)⟩⟩
      refine (map_self _ _ fun q hq => ?_).symm
      split
      · next hq' =>
        have hpq := find_of_mem hwf.names hq
        rw [hq', hfind] at hpq
        cases hpq
        rw [combined_zero hmode]
      · rfl

variable {property : Nat} {p : Property}

theorem stored_names {properties properties' : List Property}
    (h : Stored properties properties' property type format mode len value)
    (hp : p ∈ properties) : ∃ q ∈ properties', q.propertyName = p.propertyName := by
  unfold Stored at h
  split at h
  · subst h
    exact ⟨p, mem_cons_of_mem _ hp, rfl⟩
  · obtain ⟨-, rfl⟩ := h
    refine ⟨_, List.mem_map_of_mem hp, ?_⟩
    split <;> rfl

theorem combined_length (hold : old.data.length = old.size * (old.format / 8))
    (hsame : mode ≠ .replace → type = old.type ∧ format = old.format)
    (hlen : len * (format / 8) ≤ value.length) :
    (combined old type format len value mode).data.length =
      (combined old type format len value mode).size *
        ((combined old type format len value mode).format / 8) := by
  cases mode with
  | replace => exact length_take_of_le hlen
  | prepend =>
    obtain ⟨rfl, rfl⟩ := hsame (fun h => nomatch h)
    simp only [combined, length_append, length_take_of_le hlen, hold, add_mul]
    exact add_comm _ _
  | append =>
    obtain ⟨rfl, rfl⟩ := hsame (fun h => nomatch h)
    simp only [combined, length_append, length_take_of_le hlen, hold, add_mul]

variable {dev' : Device σ}

theorem wellFormed_stored (hwf : WellFormed dev)
    (h : Stored dev.properties dev'.properties property type format mode len value)
    (hlen : len * (format / 8) ≤ value.length) : WellFormed dev' := by
  unfold Stored at h
  split at h
  · next hfind =>
    rw [find?_eq_none] at hfind
    constructor
    · rw [h, map_cons]
      refine nodup_cons.mpr ⟨fun hmem => ?_, hwf.names⟩
      obtain ⟨q, hq, hname⟩ := List.mem_map.mp hmem
      exact hfind q hq (decide_eq_true hname)
    · intro q hq
      rw [h] at hq
      rcases mem_cons.mp hq with rfl | hq
      · exact length_take_of_le hlen
      · exact hwf.data q hq
  · next p hfind =>
    obtain ⟨hsame, h⟩ := h
    constructor
    · rw [h, List.map_map]
      refine (congrArg List.Nodup (map_congr_left fun q _ => ?_)).mpr hwf.names
      rw [Function.comp_apply]
      split <;> rfl
    · intro q hq
      rw [h] at hq
      obtain ⟨x, hx, rfl⟩ := List.mem_map.mp hq
      split
      · exact combined_length (hwf.data p (find_mem hfind).1) hsame hlen
      · exact hwf.data x hx

theorem wellFormed_sublist (hwf : WellFormed dev)
    (h : dev'.properties.Sublist dev.properties) : WellFormed dev' where
  names := (h.map _).nodup hwf.names
  data q hq := hwf.data q (h.subset hq)

theorem deletesAsked_eq_nil (h : ∀ e ∈ log, ∀ handler name rc, e ≠ .deleteAsked handler name rc) :
    deletesAsked log property = [] := by
  refine filterMap_eq_nil_iff.mpr fun e he => ?_
  split
  · next handler name rc => exact absurd rfl (h _ he handler name rc)
  · rfl

theorem deletesAsked_asked (handlers : List (Handler σ)) (p : Property) (what : What) :
    deletesAsked (((handlers.filter (·.deleteProperty.isSome)).map fun x =>
      Event.deleteAsked x.id p.propertyName .success) ++ [.notify p.propertyName what])
        p.propertyName =
      (handlers.filter (·.deleteProperty.isSome)).map fun h => (h.id, .success) := by
  rw [deletesAsked, filterMap_append, filterMap_map]
  refine (append_nil _).trans (filterMap_eq_map_iff_forall_eq_some.mpr fun x _ => ?_)
  exact if_pos rfl

variable {request : Request} {out : Out}

theorem told_kept (hchange : request.change = none) (h : dev'.properties = dev.properties) :
    Told dev request dev' out where
  removed p hp hgone := absurd rfl (hgone p (h ▸ hp))
  vetoed stuff hstuff := by rw [hchange] at hstuff; cases hstuff
  checked stuff hstuff := by rw [hchange] at hstuff; cases hstuff
  stored stuff hstuff := by rw [hchange] at hstuff; cases hstuff
  others _ := h ▸ List.Sublist.refl _

theorem told_unlink (hwf : WellFormed dev)
    (hchange : request.change = none) (hp : p ∈ dev.properties)
    (h : dev'.properties = (unlink dev p.propertyName).properties) :
    Told dev request dev' out ↔ p.deletable = true ∧ deletesAsked out.log p.propertyName =
      (dev.handlers.filter (·.deleteProperty.isSome)).map fun h => (h.id, .success) := by
  constructor
  · intro ht
    refine ht.removed p hp fun q hq => ?_
    rw [h] at hq
    exact ((mem_unlink dev hwf.names).mp hq).2
  · intro hok
    refine ⟨fun q hq hgone => ?_, ?_, ?_, ?_, fun _ => h ▸ eraseP_sublist⟩
    · have hname : q.propertyName = p.propertyName := by
        by_contra hne
        exact hgone q (h ▸ (mem_unlink dev hwf.names).mpr ⟨hq, hne⟩) rfl
      have hfind := find_of_mem hwf.names hq
      rw [hname, find_of_mem hwf.names hp] at hfind
      cases hfind
      exact hok
    all_goals
      intro stuff hstuff
      rw [hchange] at hstuff
      cases hstuff

theorem fixedSize_le {rest : Bytes} {n : Nat} (h : fixedSize rest n = true) : n ≤ rest.length := by
  have h' := (of_decide_eq_true h).2.2
  simp only [sizeofChangeReq] at h'
  omega

variable {validAtom : Nat → Bool}

theorem checkChangeProperty_rc {mode : Nat}
    {failure : Failure} (h : checkChangeProperty validAtom property type format mode = some failure) :
    failure.rc ≠ .success := by
  rw [checkChangeProperty] at h
  split at h
  · cases h
    exact fun h => nomatch h
  split at h
  · cases h
    exact fun h => nomatch h
  split at h
  · cases h
    exact fun h => nomatch h
  split at h
  · cases h
    exact fun h => nomatch h
  · cases h

theorem told_changeProperty (validAtom : Nat → Bool) (hwf : WellFormed dev)
    {stuff : ChangeReq} (hchange : request.change = some stuff) :
    WellFormed (changeProperty validAtom dev stuff).1 ∧
      Told dev request (changeProperty validAtom dev stuff).1
        (changeProperty validAtom dev stuff).2 := by
  have hrefused : ∀ (rc : Rc) (errorValue : Option Nat) (reply : Option GetReply),
      rc ≠ .success → Told dev request dev ⟨rc, errorValue, [], reply⟩ := by
    intro rc errorValue reply hrc
    refine ⟨fun p hp hgone => absurd rfl (hgone p hp), fun _ _ _ => rfl, ?_, ?_,
      fun _ => List.Sublist.refl _⟩
    · intro _ _ handler name rc' hmem
      cases hmem
    · exact fun _ _ h => absurd h hrc
  rw [changeProperty]
  split
  · next h => exact ⟨hwf, hrefused _ _ _ h⟩
  split
  · next failure hcheck =>
    exact ⟨hwf, hrefused _ _ _ (checkChangeProperty_rc hcheck)⟩
  next hcheck =>
  split
  · exact ⟨hwf, hrefused _ _ _ (fun h => nomatch h)⟩
  split
  · exact ⟨hwf, hrefused _ _ _ (fun h => nomatch h)⟩
  next hsize =>
  have hlen : stuff.nUnits * (stuff.format / 8) ≤ stuff.rest.length :=
    fixedSize_le (by simpa using hsize)
  obtain ⟨mode, hmode⟩ : ∃ mode, PropMode.ofWire stuff.mode = some mode := by
    refine ne_none_iff_exists'.mp fun hnone => ?_
    rw [checkChangeProperty, hnone, if_pos isNone_none] at hcheck
    cases hcheck
  rw [hmode, getD_some]
  obtain ⟨properties, ⟨-, hdone⟩, hstored⟩ := xiChangeDeviceProperty_changed hwf stuff.property
    stuff.type stuff.format mode stuff.nUnits stuff.rest stuff.memory
  generalize xiChangeDeviceProperty dev stuff.property stuff.type stuff.format mode stuff.nUnits
    stuff.rest true stuff.memory = r at hdone hstored
  obtain ⟨dev', rc, log⟩ := r
  rcases hdone with ⟨hrc, hprops⟩ | ⟨hrc, hprops, hchecks⟩
  · refine ⟨wellFormed_sublist hwf (hprops ▸ List.Sublist.refl _), ?_, fun _ _ _ => hprops, ?_,
      ?_, fun _ => hprops ▸ List.Sublist.refl _⟩
    · exact fun p hp hgone => absurd rfl (hgone p (hprops ▸ hp))
    · exact fun _ _ _ _ _ _ _ => hrc
    · exact fun _ _ h => absurd h hrc
  · have hst := hprops ▸ hstored hrc
    refine ⟨wellFormed_stored hwf hst hlen, ?_, fun _ _ h => absurd hrc h, ?_, ?_, ?_⟩
    · intro p hp hgone
      obtain ⟨q, hq, hname⟩ := stored_names hst hp
      exact absurd hname (hgone q hq)
    · intro _ _ handler name rc' hmem hne
      exact absurd (hchecks handler name rc' hmem) hne
    · intro stuff' hstuff' _
      rw [hchange] at hstuff'
      cases hstuff'
      exact ⟨mode, hmode, hst⟩
    · intro hnone
      rw [hchange] at hnone
      cases hnone

theorem told_deleteProperty (validAtom : Nat → Bool) (hwf : WellFormed dev)
    {stuff : DeleteReq} (hchange : request.change = none) :
    WellFormed (deleteProperty validAtom dev stuff).1 ∧
      Told dev request (deleteProperty validAtom dev stuff).1
        (deleteProperty validAtom dev stuff).2 := by
  rw [deleteProperty]
  split
  · exact ⟨hwf, told_kept hchange rfl⟩
  split
  · exact ⟨hwf, told_kept hchange rfl⟩
  rw [xiDeleteDeviceProperty, xiFetchDeviceProperty]
  cases hfind : dev.properties.find? (·.propertyName = stuff.property) with
  | none => exact ⟨hwf, told_kept hchange rfl⟩
  | some p =>
    obtain ⟨hp, hname⟩ := find_mem hfind
    dsimp only
    by_cases hkeep : (true && !p.deletable) = true
    · rw [if_pos hkeep]
      exact ⟨hwf, told_kept hchange rfl⟩
    rw [if_neg hkeep]
    generalize hask : askHandlers _ _ _ _ = asked
    obtain ⟨driver, rc, log⟩ := asked
    by_cases hrc : rc = .success
    · subst hrc
      rw [if_neg (not_not.mpr rfl)]
      refine ⟨wellFormed_sublist hwf eraseP_sublist, ?_⟩
      refine (told_unlink hwf hchange hp (hname ▸ rfl)).mpr ⟨by simpa using hkeep, ?_⟩
      rw [askHandlers_success hask]
      simp only [isSome_map]
      exact deletesAsked_asked dev.handlers p .deleted
    · rw [if_pos hrc]
      exact ⟨wellFormed_sublist hwf (List.Sublist.refl _), told_kept hchange rfl⟩

def ReadsToEnd (value : PropertyValue) (type : Nat) (offset length : BitVec 32) : Prop :=
  if type ≠ value.type ∧ type ≠ 0 then BitVec.ofNat 32 value.size = 0
  else
    let n := BitVec.ofNat 64 (value.format / 8 * value.size)
    let ind := (offset <<< 2).signExtend 64
    let limit := (4 * length).signExtend 64
    ind ≤ n ∧ (n - ind ≤ limit ∨ (n - (ind + limit)).setWidth 32 = 0)

/-- The request is one to read `p` to its end and delete it, and the handlers let it read. -/
structure ReadsAway (validAtom : Nat → Bool) (dev : Device σ) (stuff : GetReq) (p : Property) :
    Prop where
  access : stuff.access = .success
  delete : stuff.delete = 1
  atoms : validAtom stuff.property = true ∧ (stuff.type = 0 ∨ validAtom stuff.type = true)
  listed : p ∈ dev.properties
  name : p.propertyName = stuff.property
  allowed : (xiGetDeviceProperty dev p).2.1 = .success
  ends : ReadsToEnd p.value stuff.type stuff.longOffset stuff.longLength

def MayGo (dev : Device σ) (p : Property) : Prop :=
  p.deletable = true ∧ ∀ h ∈ dev.handlers, h.deleteProperty.isNone

def Spares (validAtom : Nat → Bool) (dev : Device σ) : Request → Prop
  | .xGet stuff => ∀ p, ReadsAway validAtom dev stuff p → MayGo dev p
  | .xiGet stuff => stuff.reply = .success → ∀ p, ReadsAway validAtom dev stuff p → MayGo dev p
  | _ => True

theorem readValue_end {value : PropertyValue} {offset length : BitVec 32} :
    (∃ reply ∈ readValue value type offset length, reply.bytesAfter = 0) ↔
      ReadsToEnd value type offset length := by
  rw [readValue, ReadsToEnd]
  by_cases htype : type ≠ value.type ∧ type ≠ 0
  · rw [if_pos htype, if_pos htype]
    simp
  rw [if_neg htype, if_neg htype]
  dsimp only
  generalize BitVec.ofNat 64 (value.format / 8 * value.size) = n
  generalize (offset <<< 2).signExtend 64 = ind
  generalize (4 * length).signExtend 64 = limit
  by_cases hind : n < ind
  · rw [if_pos hind]
    refine ⟨fun ⟨_, h, _⟩ => (not_mem_none _ h).elim, fun h => ?_⟩
    exact absurd h.1 (BitVec.not_le.mpr hind)
  rw [if_neg hind]
  have hle : ind ≤ n := BitVec.not_lt.mp hind
  by_cases hlt : n - ind < limit
  · rw [if_pos hlt]
    refine ⟨fun _ => ⟨hle, .inl (BitVec.le_of_lt hlt)⟩, fun _ => ⟨_, rfl, ?_⟩⟩
    have h0 : n - (ind + (n - ind)) = 0 := by
      rw [BitVec.add_comm, BitVec.sub_add_cancel, BitVec.sub_self]
      rfl
    simp only [h0]
    rfl
  · rw [if_neg hlt]
    constructor
    · rintro ⟨reply, hreply, hend⟩
      cases hreply
      exact ⟨hle, .inr hend⟩
    · rintro ⟨-, hfew | hend⟩
      · refine ⟨_, rfl, ?_⟩
        have heq : n - ind = limit := BitVec.le_antisymm hfew (BitVec.not_lt.mp hlt)
        have h0 : n - (ind + limit) = 0 := by
          rw [← heq, BitVec.add_comm, BitVec.sub_add_cancel, BitVec.sub_self]
          rfl
        simp [h0]
      · exact ⟨_, rfl, hend⟩

variable {driver : σ}

theorem askHandlers_log {ask : Handler σ → Option (σ → σ × Rc)}
    {event : Handler σ → Rc → Event} {e : Event}
    (h : e ∈ (askHandlers ask event handlers driver).2.2) : ∃ x rc, e = event x rc := by
  induction handlers generalizing driver with
  | nil => cases h
  | cons handler handlers ih =>
    rw [askHandlers] at h
    cases hask : ask handler with
    | none =>
      rw [hask] at h
      exact ih h
    | some call =>
      rw [hask] at h
      dsimp only at h
      split at h
      · exact ⟨handler, _, mem_singleton.mp h⟩
      · rcases mem_cons.mp h with he | h
        · exact ⟨handler, _, he⟩
        · exact ih h

theorem getProperty_log {delete : Nat} {offset length : BitVec 32} {r : Except Failure GetReply}
    (hget : getProperty validAtom dev property type delete offset length = (driver, log, r))
    {e : Event} (he : e ∈ log) : ∃ handler name rc, e = .getAsked handler name rc := by
  have h : e ∈ (getProperty validAtom dev property type delete offset length).2.1 := by
    rw [hget]
    exact he
  rw [getProperty] at h
  split at h
  · cases h
  split at h
  · cases h
  split at h
  · cases h
  split at h
  · cases h
  next p _ =>
  have hlog : ∀ e ∈ (xiGetDeviceProperty dev p).2.2, ∃ handler name rc,
      e = .getAsked handler name rc := fun e he => by
    obtain ⟨x, rc, rfl⟩ := askHandlers_log he
    exact ⟨x.id, p.propertyName, rc, rfl⟩
  dsimp only at h
  split at h
  · exact hlog e h
  split at h
  · exact hlog e h
  · exact hlog e h

variable {stuff : GetReq}

theorem getProperty_ok {reply : GetReply} (haccess : stuff.access = .success)
    (h : getProperty validAtom dev stuff.property stuff.type stuff.delete stuff.longOffset
      stuff.longLength = (driver, log, .ok reply)) :
    dev.properties.find? (·.propertyName = stuff.property) = none ∨
      ∃ p, dev.properties.find? (·.propertyName = stuff.property) = some p ∧
        (stuff.delete ≠ 0 ∧ reply.bytesAfter = 0 ↔ ReadsAway validAtom dev stuff p) := by
  rw [getProperty, xiFetchDeviceProperty] at h
  by_cases hatom : (!validAtom stuff.property) = true
  · rw [if_pos hatom] at h
    cases h
  by_cases hdelete : stuff.delete ≠ 1 ∧ stuff.delete ≠ 0
  · rw [if_neg hatom, if_pos hdelete] at h
    cases h
  by_cases htype : stuff.type ≠ 0 ∧ (!validAtom stuff.type) = true
  · rw [if_neg hatom, if_neg hdelete, if_pos htype] at h
    cases h
  rw [if_neg hatom, if_neg hdelete, if_neg htype] at h
  cases hfind : dev.properties.find? (·.propertyName = stuff.property) with
  | none => exact .inl rfl
  | some p =>
    refine .inr ⟨p, rfl, ?_⟩
    obtain ⟨hp, hname⟩ := find_mem hfind
    rw [hfind] at h
    dsimp only at h
    split at h
    · cases h
    next hrc =>
    split at h
    · cases h
    next reply' hread =>
    cases h
    constructor
    · rintro ⟨hdel, hend⟩
      refine ⟨haccess, by omega, ⟨by simpa using hatom, ?_⟩, hp, hname, not_not.mp hrc, ?_⟩
      · by_cases h0 : stuff.type = 0
        · exact .inl h0
        · exact .inr (by simpa [h0] using htype)
      · exact readValue_end.mp ⟨reply, hread, hend⟩
    · intro haway
      refine ⟨by rw [haway.delete]; exact Nat.one_ne_zero, ?_⟩
      obtain ⟨r, hr, hend⟩ := readValue_end.mpr haway.ends
      rw [hread] at hr
      cases hr
      exact hend

theorem told_unlink_unasked (hwf : WellFormed dev)
    (hchange : request.change = none) (hp : p ∈ dev.properties)
    (h : dev'.properties = (unlink dev p.propertyName).properties)
    (hlog : deletesAsked out.log p.propertyName = []) :
    Told dev request dev' out ↔ MayGo dev p := by
  rw [told_unlink hwf hchange hp h, hlog, MayGo]
  refine and_congr_right fun _ => ?_
  rw [eq_comm, map_eq_nil_iff, filter_eq_nil_iff]
  simp only [not_isSome_iff_eq_none, isNone_iff_eq_none]

theorem unlink_none (h : dev.properties.find? (·.propertyName = property) = none) :
    (unlink dev property).properties = dev.properties :=
  Keyed.erase_of_none h

theorem getProperty_away (hwf : WellFormed dev) (h : ReadsAway validAtom dev stuff p) :
    ∃ driver log reply, getProperty validAtom dev stuff.property stuff.type stuff.delete
      stuff.longOffset stuff.longLength = (driver, log, .ok reply) := by
  have hfind := find_of_mem hwf.names h.listed
  rw [h.name] at hfind
  have hatom : ¬(!validAtom stuff.property) = true := by
    rw [h.atoms.1]
    exact Bool.false_ne_true
  have hdelete : ¬(stuff.delete ≠ 1 ∧ stuff.delete ≠ 0) := fun hd => hd.1 h.delete
  have htype : ¬(stuff.type ≠ 0 ∧ (!validAtom stuff.type) = true) := by
    rintro ⟨hne, hbad⟩
    rcases h.atoms.2 with h0 | hok
    · exact hne h0
    · rw [hok] at hbad
      cases hbad
  obtain ⟨reply, hread, -⟩ := readValue_end.mpr h.ends
  rw [getProperty, if_neg hatom, if_neg hdelete, if_neg htype, xiFetchDeviceProperty, hfind]
  dsimp only
  rw [if_neg (not_not.mpr h.allowed), hread]
  exact ⟨_, _, _, rfl⟩

theorem told_read (hwf : WellFormed dev) {reply : GetReply}
    (hchange : request.change = none) (haccess : stuff.access = .success)
    (h : getProperty validAtom dev stuff.property stuff.type stuff.delete stuff.longOffset
      stuff.longLength = (driver, log, .ok reply))
    (hlog : ∀ e ∈ out.log, ∀ handler name rc, e ≠ .deleteAsked handler name rc)
    {gone : Bool} (hgone : gone = true ↔ stuff.delete ≠ 0 ∧ reply.bytesAfter = 0) :
    WellFormed (if gone = true then unlink { dev with driver } stuff.property
        else { dev with driver }) ∧
      (Told dev request (if gone = true then unlink { dev with driver } stuff.property
        else { dev with driver }) out ↔ ∀ p, ReadsAway validAtom dev stuff p → MayGo dev p) := by
  have hkept : WellFormed { dev with driver } := wellFormed_sublist hwf (List.Sublist.refl _)
  rcases getProperty_ok haccess h with hnone | ⟨p, hfind, haway⟩
  · have hno : ∀ p, ¬ ReadsAway validAtom dev stuff p := fun p ha =>
      find?_eq_none.mp hnone p ha.listed (decide_eq_true ha.name)
    split
    · exact ⟨wellFormed_sublist hwf eraseP_sublist, iff_of_true
        (told_kept hchange (unlink_none hnone)) fun p ha => absurd ha (hno p)⟩
    · exact ⟨hkept, iff_of_true (told_kept hchange rfl) fun p ha => absurd ha (hno p)⟩
  obtain ⟨hp, hname⟩ := find_mem hfind
  have honly : ∀ q, ReadsAway validAtom dev stuff q → q = p := fun q ha => by
    have hq := find_of_mem hwf.names ha.listed
    rw [ha.name, hfind] at hq
    exact (some.inj hq).symm
  split
  · next hg =>
    refine ⟨wellFormed_sublist hwf eraseP_sublist, ?_⟩
    have hread := haway.mp (hgone.mp hg)
    refine (told_unlink_unasked hwf hchange hp (hname ▸ rfl) (deletesAsked_eq_nil hlog)).trans ?_
    exact ⟨fun hgo q ha => (honly q ha).symm ▸ hgo, fun hall => hall p hread⟩
  · next hg =>
    refine ⟨hkept, iff_of_true (told_kept hchange rfl) fun q ha => ?_⟩
    obtain rfl := honly q ha
    exact absurd (hgone.mpr (haway.mpr ha)) hg

theorem told_procXGetDeviceProperty (validAtom : Nat → Bool) (hwf : WellFormed dev)
    (stuff : GetReq) : WellFormed (procXGetDeviceProperty validAtom dev stuff).1 ∧
      (Told dev (.xGet stuff) (procXGetDeviceProperty validAtom dev stuff).1
        (procXGetDeviceProperty validAtom dev stuff).2 ↔ Spares validAtom dev (.xGet stuff)) := by
  rw [procXGetDeviceProperty]
  by_cases haccess : stuff.access = .success
  · rw [if_neg (not_not.mpr haccess)]
    generalize hget : getProperty _ _ _ _ _ _ _ = got
    obtain ⟨driver, log, failure | reply⟩ := got
    · refine ⟨wellFormed_sublist hwf (List.Sublist.refl _),
        iff_of_true (told_kept rfl rfl) fun p ha => ?_⟩
      obtain ⟨_, _, _, hok⟩ := getProperty_away hwf ha
      rw [hget] at hok
      cases hok
    · refine told_read hwf rfl haccess hget (fun e he handler name rc heq => ?_) decide_eq_true_iff
      subst heq
      rcases mem_append.mp he with he | he
      · obtain ⟨_, _, _, h⟩ := getProperty_log hget he
        cases h
      · split at he
        · cases mem_singleton.mp he
        · cases he
  · rw [if_pos haccess]
    exact ⟨hwf, iff_of_true (told_kept rfl rfl) fun p ha => absurd ha.access haccess⟩

theorem told_procXIGetProperty (validAtom : Nat → Bool) (hwf : WellFormed dev) (stuff : GetReq) :
    WellFormed (procXIGetProperty validAtom dev stuff).1 ∧
      (Told dev (.xiGet stuff) (procXIGetProperty validAtom dev stuff).1
        (procXIGetProperty validAtom dev stuff).2 ↔ Spares validAtom dev (.xiGet stuff)) := by
  rw [procXIGetProperty]
  by_cases haccess : stuff.access = .success
  · rw [if_neg (not_not.mpr haccess)]
    generalize hget : getProperty _ _ _ _ _ _ _ = got
    obtain ⟨driver, log, failure | reply⟩ := got
    · refine ⟨wellFormed_sublist hwf (List.Sublist.refl _),
        iff_of_true (told_kept rfl rfl) fun _ p ha => ?_⟩
      obtain ⟨_, _, _, hok⟩ := getProperty_away hwf ha
      rw [hget] at hok
      cases hok
    · dsimp only
      by_cases hreply : stuff.reply = .success
      · rw [if_neg (not_not.mpr hreply)]
        simp only [Spares, hreply, forall_const]
        refine told_read hwf rfl haccess hget (fun e he handler name rc heq => ?_)
          decide_eq_true_iff
        subst heq
        rcases mem_append.mp he with he | he
        · obtain ⟨_, _, _, h⟩ := getProperty_log hget he
          cases h
        · split at he
          · cases mem_singleton.mp he
          · cases he
      · rw [if_pos hreply]
        exact ⟨wellFormed_sublist hwf (List.Sublist.refl _),
          iff_of_true (told_kept rfl rfl) fun h => absurd h hreply⟩
  · rw [if_pos haccess]
    exact ⟨hwf, iff_of_true (told_kept rfl rfl) fun _ p ha => absurd ha.access haccess⟩

theorem step_told (validAtom : Nat → Bool) (hwf : WellFormed dev) (request : Request) :
    WellFormed (step validAtom dev request).1 ∧
      (Told dev request (step validAtom dev request).1 (step validAtom dev request).2 ↔
        Spares validAtom dev request) := by
  cases request with
  | xChange stuff =>
    obtain ⟨hwf', htold⟩ := told_changeProperty validAtom hwf
      (show (Request.xChange stuff).change = some stuff from rfl)
    exact ⟨hwf', iff_of_true htold trivial⟩
  | xiChange stuff =>
    obtain ⟨hwf', htold⟩ := told_changeProperty validAtom hwf
      (show (Request.xiChange stuff).change = some stuff from rfl)
    exact ⟨hwf', iff_of_true htold trivial⟩
  | xDelete stuff =>
    obtain ⟨hwf', htold⟩ := told_deleteProperty validAtom hwf
      (show (Request.xDelete stuff).change = none from rfl)
    exact ⟨hwf', iff_of_true htold trivial⟩
  | xiDelete stuff =>
    obtain ⟨hwf', htold⟩ := told_deleteProperty validAtom hwf
      (show (Request.xiDelete stuff).change = none from rfl)
    exact ⟨hwf', iff_of_true htold trivial⟩
  | xGet stuff => exact told_procXGetDeviceProperty validAtom hwf stuff
  | xiGet stuff => exact told_procXIGetProperty validAtom hwf stuff

/-- In every run each request does what it should exactly where it spares what is protected. -/
theorem properties_run (validAtom : Nat → Bool) (dev : Device σ) (hwf : WellFormed dev)
    (requests : List Request) : Always (fun dev request => some (step validAtom dev request))
      (fun dev request dev' out => Told dev request dev' out ↔ Spares validAtom dev request)
      dev requests := by
  refine Run.always_of_inv WellFormed (fun s a s' o hinv _ hs => ?_) hwf
    (Run.guarded_true dev requests)
  obtain ⟨rfl, rfl⟩ := Prod.ext_iff.mp (some.inj hs)
  exact step_told validAtom hinv a

end

def guardedDevice : Device Unit := ⟨[⟨1, ⟨1, 8, 1, [7]⟩, false⟩], [], ()⟩

def readAway : GetReq := ⟨.success, 1, 0, 1, 0, 1, .success⟩

theorem guardedDevice_wellFormed : WellFormed guardedDevice := ⟨by decide, by decide⟩

theorem properties_run_guarded : WellFormed guardedDevice ∧
    Always (fun dev request => some (step (fun _ => true) dev request))
      (fun dev request dev' out => Told dev request dev' out ↔ Spares (fun _ => true) dev request)
      guardedDevice [.xDelete ⟨.success, 1⟩, .xGet readAway] :=
  ⟨guardedDevice_wellFormed,
    properties_run (fun _ => true) guardedDevice guardedDevice_wellFormed _⟩

/-- Reading the property to its end removes it. -/
theorem guarded_read_away :
    (procXGetDeviceProperty (fun _ => true) guardedDevice readAway).1.properties = [] ∧
      ¬ Told guardedDevice (.xGet readAway)
        (procXGetDeviceProperty (fun _ => true) guardedDevice readAway).1
        (procXGetDeviceProperty (fun _ => true) guardedDevice readAway).2 := by
  have hgone : (procXGetDeviceProperty (fun _ => true) guardedDevice readAway).1.properties = [] :=
    by decide
  refine ⟨hgone, fun h => ?_⟩
  have hremoved := h.removed _ mem_cons_self fun q hq => by
    rw [hgone] at hq
    cases hq
  exact Bool.false_ne_true hremoved.1

end Xfront.XIProperty
