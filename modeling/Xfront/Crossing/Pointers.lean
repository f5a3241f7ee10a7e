import Xfront.Crossing.EnterLeave

/-!
# Pointers that come and go

What a window is told of the pointers: the core events tell it of all of them at once,
the XI2 events of each alone.
-/

namespace Xfront.Crossing
open Option

open List
open Forests (Forest)
open Run (Guarded Always)

section

variable {W : Type} [DecidableEq W] {f : Forest W} {dev : Device} {ptrs : List (Option W)}
  {mode : Mode} {w A B : W}

theorem hasPointer_eq (hgrab : dev.grabbed = false) :
    hasPointer dev ptrs w = decide (presence f ptrs w = .on) := by
  rw [hasPointer, if_neg (by rw [hgrab]; exact Bool.false_ne_true), decide_eq_decide,
    presence_eq_on]

theorem firstPointerChild_isSome :
    (firstPointerChild f ptrs w).isSome = ptrs.any fun o => o.any (windowIsParent f w) := by
  rw [firstPointerChild]
  cases hfind : ptrs.find? fun o => o.any (windowIsParent f w) with
  | none =>
    rw [find?_eq_none] at hfind
    exact (any_eq_false.mpr hfind).symm
  | some o =>
    have hany := find?_some hfind
    obtain ⟨v, rfl, -⟩ := Option.any_eq_true .. |>.mp hany
    exact (any_eq_true.mpr ⟨_, mem_of_find?_eq_some hfind, hany⟩).symm

section
variable (hgrab : dev.grabbed = false)
include hgrab

theorem pointerInside_eq : pointerInside f dev ptrs w = decide (presence f ptrs w ≠ .outside) := by
  rw [pointerInside, hasPointer_eq (f := f) hgrab, firstPointerChild_isSome, Bool.eq_iff_iff,
    Bool.or_eq_true, decide_eq_true_iff, decide_eq_true_iff, Ne, presence_eq_outside,
    presence_eq_on, not_and_or, not_not, Bool.not_eq_false]

theorem seenAt_coreWindow (into : Bool) (detail : Detail) :
    seenAt w (coreWindow f dev ptrs mode into A detail) =
      if w = A then selfNotes into detail (presence f ptrs w) else [] := by
  rw [coreWindow, hasPointer_eq (f := f) hgrab, firstPointerChild_isSome]
  by_cases hw : w = A
  · subst hw
    rw [if_pos rfl]
    cases hr : presence f ptrs w with
    | on => rw [if_pos (decide_eq_true rfl)]; rfl
    | below =>
      have hb : (ptrs.any fun o => o.any (windowIsParent f w)) = true := by
        by_contra hf
        rw [Bool.not_eq_true] at hf
        have hout := presence_eq_outside.mpr ⟨fun hon => ?_, hf⟩
        · rw [hr] at hout
          cases hout
        · rw [presence_eq_on.mpr hon] at hr
          cases hr
      rw [hb]
      simp [seenAt_single, selfNotes]
    | outside =>
      rw [(presence_eq_outside.mp hr).2]
      simp [seenAt_single, selfNotes]
  · rw [if_neg hw]
    split
    · rfl
    · split
      all_goals rw [seenAt_single, if_neg (Ne.symm hw)]

theorem seenAt_coreInferior (into : Bool) : seenAt w (coreInferior dev ptrs mode into A) =
      if w = A then inferiorNotes into (presence f ptrs w) else [] := by
  rw [coreInferior, hasPointer_eq (f := f) hgrab]
  by_cases hw : w = A
  · subst hw
    rw [if_pos rfl, inferiorNotes]
    by_cases hr : presence f ptrs w = .on
    · rw [if_pos (decide_eq_true hr), if_pos hr]
      rfl
    · rw [if_neg (by simpa using hr), if_neg hr, seenAt_single, if_pos rfl]
  · rw [if_neg hw]
    split
    · rfl
    · rw [seenAt_single, if_neg (Ne.symm hw)]

theorem seenAt_coreEnterNotifies (x : Option W) (detail : Detail) :
    seenAt w (coreEnterNotifies f dev ptrs mode x B detail) =
      if w ∈ f.between B x then wayNotes true detail (presence f ptrs w) else [] := by
  rw [coreEnterNotifies, seenAt_enterNotifies (true, detail) (fun _ _ => ⟨rfl, rfl⟩)
    (Forest.up_nodup B), pointerInside_eq hgrab]
  exact ite_wayNotes true detail _

theorem seenAt_coreLeaveNotifies {x : Option W} (hx : x ≠ some A)
    (detail : Detail) : seenAt w (coreLeaveNotifies f dev ptrs mode A x detail) =
      if w ∈ f.between A x then wayNotes false detail (presence f ptrs w) else [] := by
  rw [coreLeaveNotifies, if_neg hx, seenAt_leaveNotifies (false, detail) (fun _ _ => ⟨rfl, rfl⟩)
    (fun a b hab hb => ?_), pointerInside_eq hgrab]
  · exact ite_wayNotes false detail _
  · rw [pointerInside_eq hgrab, decide_eq_true_iff] at hb ⊢
    exact presence_up hab hb

end

theorem common_ne_left : f.common A B ≠ some A := fun h => by
  have hmem := find?_some h
  exact Forest.not_mem_up_self A (of_decide_eq_true hmem)

theorem coreEnterLeave_tells (hgrab : dev.grabbed = false) (hne : A ≠ B) :
    Tells ((own f (some A) w).sup (presence f ptrs w)) ((own f (some B) w).sup (presence f ptrs w))
      (seenAt w (if windowIsParent f A B then coreEnterLeaveToDescendant f dev ptrs mode A B
        else if windowIsParent f B A then coreEnterLeaveToAncestor f dev ptrs mode A B
        else coreEnterLeaveNonLinear f dev ptrs mode A B)) := by
  by_cases hAB : A ∈ f.up B
  · rw [if_pos (windowIsParent_iff.mpr hAB), coreEnterLeaveToDescendant, seenAt_append,
      seenAt_append, seenAt_coreInferior (f := f) hgrab, seenAt_coreEnterNotifies hgrab,
      seenAt_coreWindow hgrab]
    exact tells_descendant hAB w _
  rw [if_neg (mt windowIsParent_iff.mp hAB)]
  by_cases hBA : B ∈ f.up A
  · rw [if_pos (windowIsParent_iff.mpr hBA), coreEnterLeaveToAncestor, seenAt_append, seenAt_append,
      seenAt_coreInferior (f := f) hgrab,
      seenAt_coreLeaveNotifies hgrab (fun he => hne (some.inj he).symm),
      seenAt_coreWindow hgrab]
    exact tells_ancestor hBA w _
  · rw [if_neg (mt windowIsParent_iff.mp hBA), coreEnterLeaveNonLinear, seenAt_append,
      seenAt_append, seenAt_append, seenAt_coreWindow hgrab, seenAt_coreWindow hgrab,
      seenAt_coreEnterNotifies hgrab, seenAt_coreLeaveNotifies hgrab common_ne_left]
    exact tells_nonlinear hne hAB hBA (.inl rfl) w _

theorem sup_outside (p : Presence) : p.sup .outside = p := by
  cases p <;> rfl

theorem seenAt_deviceEnterNotifies (x : Option W) (detail : Detail) :
    seenAt w (deviceEnterNotifies f mode x B detail) =
      if w ∈ f.between B x then wayNotes true detail .outside else [] := by
  rw [deviceEnterNotifies, seenAt_enterNotifies (true, detail) (fun _ _ => ⟨rfl, rfl⟩)
    (Forest.up_nodup B)]
  exact ite_wayNotes true detail .outside

theorem seenAt_deviceLeaveNotifies {x : Option W} (hx : x ≠ some A) (detail : Detail) :
    seenAt w (deviceLeaveNotifies f mode A x detail) =
      if w ∈ f.between A x then wayNotes false detail .outside else [] := by
  rw [deviceLeaveNotifies, if_neg hx, seenAt_leaveNotifies (false, detail) (fun _ _ => ⟨rfl, rfl⟩)
    (fun _ _ _ h => absurd h Bool.false_ne_true)]
  exact ite_wayNotes false detail .outside

theorem seenAt_self (into : Bool) (detail : Detail) : seenAt w [⟨into, mode, detail, A, none⟩] =
      if w = A then selfNotes into detail .outside else [] := by
  rw [seenAt_single]
  exact if_congr eq_comm rfl rfl

theorem seenAt_inferior (into : Bool) : seenAt w [⟨into, mode, .inferior, A, none⟩] =
    if w = A then inferiorNotes into .outside else [] := by
  rw [seenAt_single]
  exact if_congr eq_comm rfl rfl

def ofDevice (d : Nat) (events : List (DeviceEvent W)) : List (Event W) :=
  (events.filter (·.deviceid = d)).map DeviceEvent.event

theorem common_ne_right : f.common B A ≠ some A := fun h => by
  have hmem := mem_of_find?_eq_some h
  exact Forest.not_mem_up_self A hmem

theorem deviceEnterLeave_tells {sourceid : Nat} (hne : A ≠ B)
    (hmode : mode ≠ .passiveGrab ∧ mode ≠ .passiveUngrab) :
    Tells (own f (some A) w) (own f (some B) w)
      (seenAt w (ofDevice dev.id (deviceEnterLeaveEvents f dev sourceid A B mode))) := by
  have hsends : ∀ into, deviceSends mode into = true := by
    intro into
    simp [deviceSends, hmode.1, hmode.2]
  have hall : ∀ events : List (Event W), ofDevice dev.id
      ((events.filter fun e => deviceSends mode e.into).map fun e => ⟨dev.id, sourceid, e⟩) =
        events := by
    intro events
    have hsame : ∀ e ∈ events.map fun e => (⟨dev.id, sourceid, e⟩ : DeviceEvent W),
        decide (e.deviceid = dev.id) = true := by
      intro e he
      obtain ⟨e', -, rfl⟩ := List.mem_map.mp he
      exact decide_eq_true rfl
    have hkept : (events.filter fun e => deviceSends mode e.into) = events :=
      filter_eq_self.mpr fun e _ => hsends e.into
    rw [ofDevice, hkept, filter_eq_self.mpr hsame, List.map_map]
    exact List.map_id' events
  rw [deviceEnterLeaveEvents, hall, ← sup_outside (own f (some A) w), ← sup_outside (own f (some B) w)]
  by_cases hAB : A ∈ f.up B
  · rw [if_pos (windowIsParent_iff.mpr hAB), seenAt_append, seenAt_append, seenAt_inferior,
      seenAt_deviceEnterNotifies, seenAt_self]
    exact tells_descendant hAB w .outside
  rw [if_neg (mt windowIsParent_iff.mp hAB)]
  by_cases hBA : B ∈ f.up A
  · rw [if_pos (windowIsParent_iff.mpr hBA), seenAt_append, seenAt_append, seenAt_self,
      seenAt_deviceLeaveNotifies (fun he => hne (Option.some.inj he).symm), seenAt_inferior]
    exact tells_ancestor hBA w .outside
  · rw [if_neg (mt windowIsParent_iff.mp hBA)]
    rw [seenAt_append, seenAt_append, seenAt_append, seenAt_self, seenAt_self,
      seenAt_deviceEnterNotifies, seenAt_deviceLeaveNotifies common_ne_right]
    exact tells_nonlinear hne hAB hBA (.inr rfl) w .outside

variable (f)

def step (ptrs : List (Option W)) (m : Move W) : Option (List (Option W) × Sent W) :=
  some (doEnterLeaveEvents f ptrs m)

structure Normal (ptrs : List (Option W)) (m : Move W) : Prop where
  master : m.dev.master = true
  pointer : m.dev.pointer = true
  grabbed : m.dev.grabbed = false
  fromWin : ptrs[m.dev.id]? = some (some m.fromWin)
  mode : m.mode ≠ .passiveGrab ∧ m.mode ≠ .passiveUngrab

instance (ptrs : List (Option W)) (m : Move W) : Decidable (Normal ptrs m) :=
  decidable_of_iff (m.dev.master = true ∧ m.dev.pointer = true ∧ m.dev.grabbed = false ∧
    ptrs[m.dev.id]? = some (some m.fromWin) ∧ m.mode ≠ .passiveGrab ∧ m.mode ≠ .passiveUngrab)
    ⟨fun h => ⟨h.1, h.2.1, h.2.2.1, h.2.2.2.1, h.2.2.2.2⟩, fun h => ⟨h.1, h.2, h.3, h.4, h.5⟩⟩

/-- The core events tell each window of all pointers, the XI2 events of each device tell
it of that device. -/
structure Consistent (ptrs ptrs' : List (Option W)) (sent : Sent W) : Prop where
  core : ∀ w, Tells (presence f ptrs w) (presence f ptrs' w) (seenAt w sent.core)
  device : ∀ d w, Tells (own f ptrs[d]?.join w) (own f ptrs'[d]?.join w)
    (seenAt w (ofDevice d sent.device))

variable {f}

theorem tells_nothing (p : Presence) : Tells p p [] := ⟨Nat.zero_le _, fun _ => rfl, rfl⟩

theorem doEnterLeaveEvents_consistent {m : Move W} (hn : Normal ptrs m) :
    Consistent f ptrs (doEnterLeaveEvents f ptrs m).1 (doEnterLeaveEvents f ptrs m).2 := by
  rw [doEnterLeaveEvents, if_neg (by simp [hn.pointer])]
  by_cases hsame : m.fromWin = m.toWin
  · rw [if_pos hsame]
    exact ⟨fun w => tells_nothing _, fun d w => tells_nothing _⟩
  rw [if_neg hsame, if_pos hn.mode, coreEnterLeaveEvents, if_neg (by simp [hn.master])]
  obtain ⟨hlt, hget⟩ := List.getElem?_eq_some_iff.mp hn.fromWin
  have hself : ptrs.set m.dev.id (some m.fromWin) = ptrs := by
    rw [← hget, set_getElem_self]
  constructor
  · intro w
    have hold := presence_set (f := f) hlt (some m.fromWin) w
    rw [hself] at hold
    dsimp only
    rw [set_set, hold, presence_set hlt (some m.toWin)]
    exact coreEnterLeave_tells hn.grabbed hsame
  · intro d w
    dsimp only
    rw [set_set]
    by_cases hd : d = m.dev.id
    · subst hd
      rw [hn.fromWin, getElem?_set_self hlt]
      exact deviceEnterLeave_tells hsame hn.mode
    · have hnone : ofDevice d (deviceEnterLeaveEvents f m.dev m.sourceid m.fromWin m.toWin m.mode) =
          [] := by
        rw [ofDevice, filter_eq_nil_iff.mpr, map_nil]
        intro e he
        obtain ⟨e', -, rfl⟩ := mem_map.mp he
        exact fun h => hd (of_decide_eq_true h).symm
      rw [getElem?_set_ne (Ne.symm hd), hnone]
      exact tells_nothing _

end

def smallForest : Forest Nat where
  parent := fun w => if w = 0 then none else if w = 3 then some 2 else some 0
  rank := fun w => w
  rank_lt := fun w p h => by
    split at h
    · cases h
    · split at h
      all_goals
        cases h
        omega

def meeting : List (Move Nat) :=
  let first : Device := ⟨0, true, true, false⟩
  let second : Device := ⟨1, true, true, false⟩
  [⟨first, 5, 0, 3, .normal⟩, ⟨second, 6, 0, 2, .normal⟩, ⟨first, 5, 3, 1, .normal⟩,
    ⟨second, 6, 2, 3, .normal⟩, ⟨second, 6, 3, 0, .normal⟩, ⟨first, 5, 1, 2, .normal⟩]

end Xfront.Crossing
