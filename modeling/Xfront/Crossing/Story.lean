import Xfront.Lib.Forests
import Xfront.Lib.Run

/-!
# What a window is told

Enter and leave events, and focus events alike, tell a window whether a device is on it, below it or
outside.
-/

namespace Xfront.Crossing
open Option

open List
open Forests (Forest)

inductive Detail where
  | ancestor
  | virtual
  | inferior
  | nonlinear
  | nonlinearVirtual
  | pointer
  | pointerRoot
  | detailNone
  deriving DecidableEq

inductive Mode where
  | normal
  | grab
  | ungrab
  | whileGrabbed
  | passiveGrab
  | passiveUngrab
  deriving DecidableEq

/-- An enter or a leave event, `into` telling which; a focus event has no `child`. -/
structure Event (W : Type) where
  into : Bool
  mode : Mode
  detail : Detail
  win : W
  child : Option W

inductive Presence where
  | outside
  | below
  | on
  deriving DecidableEq

def Presence.of (here above : Bool) : Presence :=
  if here then .on else if above then .below else .outside

def Presence.sup : Presence → Presence → Presence
  | .on, _ => .on
  | _, .on => .on
  | .below, _ => .below
  | _, .below => .below
  | .outside, .outside => .outside

section

variable {W : Type} [DecidableEq W] (f : Forest W)

/-- `WindowIsParent`: one of the windows above `child`. -/
def windowIsParent (parent child : W) : Bool := decide (parent ∈ f.up child)

instance lawful_loc : LawfulBEq (Option W) := inferInstance

def own (loc : Option W) (w : W) : Presence :=
  .of (decide (loc = some w)) (loc.any (windowIsParent f w))

/-- What the devices at `locs` are to a window: one is on it, or none is but one is on a
window below it. -/
def presence (locs : List (Option W)) (w : W) : Presence :=
  .of (decide (some w ∈ locs)) (locs.any fun loc => loc.any (windowIsParent f w))

variable {f} {locs : List (Option W)}

theorem presence_eq_on {w : W} : presence f locs w = .on ↔ some w ∈ locs := by
  unfold presence Presence.of
  by_cases h : some w ∈ locs
  · simp [h]
  · simp only [h, decide_false, Bool.false_eq_true, if_false, iff_false]
    split <;> exact fun h => nomatch h

theorem presence_eq_outside {w : W} : presence f locs w = .outside ↔
      some w ∉ locs ∧ (locs.any fun loc => loc.any (windowIsParent f w)) = false := by
  unfold presence Presence.of
  by_cases h : some w ∈ locs
  · simp [h]
  · simp only [h, decide_false, Bool.false_eq_true, if_false, not_false_eq_true, true_and]
    cases locs.any fun loc => loc.any (windowIsParent f w) <;> simp

theorem of_or (here here' above above' : Bool) : Presence.of (here || here') (above || above') =
    (Presence.of here above).sup (Presence.of here' above') := by
  revert here here' above above'
  decide

theorem any_set {α : Type} (p : α → Bool) {l : List α} {i : Nat} (hi : i < l.length) (a b : α)
    (hb : p b = false) : (l.set i a).any p = (p a || (l.set i b).any p) := by
  rw [set_eq_take_append_cons_drop, if_pos hi, set_eq_take_append_cons_drop, if_pos hi]
  simp only [any_append, any_cons, hb, Bool.false_or]
  cases p a <;> simp

theorem presence_set {i : Nat} (hi : i < locs.length) (loc : Option W) (w : W) :
    presence f (locs.set i loc) w = (own f loc w).sup (presence f (locs.set i none) w) := by
  have hmem : decide (some w ∈ locs.set i loc) =
      (decide (loc = some w) || decide (some w ∈ locs.set i none)) := by
    have hany := any_set (fun o => decide (o = some w)) hi loc none rfl
    have heq : ∀ l : List (Option W), decide (some w ∈ l) = l.any fun o => decide (o = some w) := by
      intro l
      rw [Bool.eq_iff_iff, decide_eq_true_iff, List.any_eq_true]
      exact ⟨fun h => ⟨_, h, decide_eq_true rfl⟩, fun ⟨o, ho, he⟩ => of_decide_eq_true he ▸ ho⟩
    rw [heq, heq, hany]
  rw [presence, hmem, any_set (fun loc => loc.any (windowIsParent f w)) hi loc none rfl, of_or]
  rfl

theorem presence_up {a b : W} (hab : a ∈ f.up b)
    (h : presence f locs b ≠ .outside) : presence f locs a ≠ .outside := by
  intro hout
  obtain ⟨-, hnone⟩ := presence_eq_outside.mp hout
  rw [List.any_eq_false] at hnone
  refine h (presence_eq_outside.mpr ⟨fun hb => ?_, List.any_eq_false.mpr fun loc hloc hl => ?_⟩)
  · exact hnone _ hb (decide_eq_true hab)
  · obtain ⟨v, rfl, hv⟩ := Option.any_eq_true .. |>.mp hl
    exact hnone _ hloc (decide_eq_true (Forest.up_trans hab (of_decide_eq_true hv)))

end

def Presence.next : Presence → Bool × Detail → Option Presence
  | .outside, (true, .ancestor) => some .on
  | .outside, (true, .nonlinear) => some .on
  | .outside, (true, .virtual) => some .below
  | .outside, (true, .nonlinearVirtual) => some .below
  | .below, (true, .inferior) => some .on
  | .on, (false, .inferior) => some .below
  | .on, (false, .ancestor) => some .outside
  | .on, (false, .nonlinear) => some .outside
  | .below, (false, .virtual) => some .outside
  | .below, (false, .nonlinearVirtual) => some .outside
  | _, _ => none

/-- The events of a move lead from what a window was to what it is, in one step if that
is not the same and in none if it is. -/
def Tells (old new : Presence) (notes : List (Bool × Detail)) : Prop :=
  notes.length ≤ 1 ∧ (old = new → notes = []) ∧ Run.accept Presence.next old notes = some new

instance (old new : Presence) (notes : List (Bool × Detail)) : Decidable (Tells old new notes) :=
  inferInstanceAs (Decidable (_ ∧ _))

/-! ### The three ways to move

What a window is told when others are `r` to it: on the window that is left or entered,
on it when the move goes to or comes from below, and on the way. -/

def selfNotes (into : Bool) (detail : Detail) : Presence → List (Bool × Detail)
  | .on => []
  | .below => [(into, .inferior)]
  | .outside => [(into, detail)]

def inferiorNotes (into : Bool) (r : Presence) : List (Bool × Detail) :=
  if r = .on then [] else [(into, .inferior)]

def wayNotes (into : Bool) (detail : Detail) (r : Presence) : List (Bool × Detail) :=
  if r = .outside then [(into, detail)] else []

theorem ite_wayNotes {p : Prop} [Decidable p] (into : Bool) (detail : Detail) (r : Presence) :
    (if p ∧ decide (r ≠ .outside) = false then [(into, detail)] else []) =
      if p then wayNotes into detail r else [] := by
  by_cases hp : p <;> cases r <;> simp [hp, wayNotes]

/-- `isA` and `isB` say that the window is where the move begins or ends, `upA` and `upB`
that it is above. -/
theorem bool_nonlinear (isA isB upA upB : Bool) (r : Presence) (hA : isA = true → upA = false)
    (hB : isB = true → upB = false) (hAB : isA = true → upB = false ∧ isB = false)
    (hBA : isB = true → upA = false) :
    Tells ((Presence.of isA upA).sup r) ((Presence.of isB upB).sup r)
      ((if isA then selfNotes false .nonlinear r else []) ++
        (if upA && !upB then wayNotes false .nonlinearVirtual r else []) ++
        (if upB && !upA then wayNotes true .nonlinearVirtual r else []) ++
        (if isB then selfNotes true .nonlinear r else [])) := by
  revert isA isB upA upB
  cases r <;> decide

theorem bool_ancestor (isA isB upA upB : Bool) (r : Presence) (hA : isA = true → upA = false)
    (hB : isB = true → upB = false ∧ upA = true) (hAB : isA = true → upB = false ∧ isB = false)
    (hup : upB = true → upA = true) :
    Tells ((Presence.of isA upA).sup r) ((Presence.of isB upB).sup r)
      ((if isA then selfNotes false .ancestor r else []) ++
        (if upA && !isB && !upB then wayNotes false .virtual r else []) ++
        (if isB then inferiorNotes true r else [])) := by
  revert isA isB upA upB
  cases r <;> decide

theorem bool_descendant (isA isB upA upB : Bool) (r : Presence)
    (hA : isA = true → upA = false ∧ upB = true) (hB : isB = true → upB = false)
    (hBA : isB = true → upA = false ∧ isA = false) (hup : upA = true → upB = true) :
    Tells ((Presence.of isA upA).sup r) ((Presence.of isB upB).sup r)
      ((if isA then inferiorNotes false r else []) ++
        (if upB && !isA && !upA then wayNotes true .virtual r else []) ++
        (if isB then selfNotes true .ancestor r else [])) := by
  revert isA isB upA upB
  cases r <;> decide

section

variable {W : Type} [DecidableEq W] {f : Forest W} {A B : W}

theorem windowIsParent_iff : windowIsParent f A B = true ↔ A ∈ f.up B := decide_eq_true_iff

theorem own_some (v w : W) : own f (some v) w = .of (decide (w = v)) (decide (w ∈ f.up v)) := by
  rw [own, any_some, windowIsParent]
  congr 1
  exact decide_eq_decide.mpr (some_inj.trans eq_comm)

theorem tells_nonlinear (hne : A ≠ B) (hAB : A ∉ f.up B) (hBA : B ∉ f.up A) {x : Option W}
    (hx : x = f.common A B ∨ x = f.common B A) (w : W) (r : Presence) :
    Tells ((own f (some A) w).sup r) ((own f (some B) w).sup r)
      ((if w = A then selfNotes false .nonlinear r else []) ++
        (if w ∈ f.between A x then wayNotes false .nonlinearVirtual r else []) ++
        (if w ∈ f.between B x then wayNotes true .nonlinearVirtual r else []) ++
        (if w = B then selfNotes true .nonlinear r else [])) := by
  have h := bool_nonlinear (decide (w = A)) (decide (w = B)) (decide (w ∈ f.up A))
    (decide (w ∈ f.up B)) r
  simp only [decide_eq_true_iff, decide_eq_false_iff_not, Bool.and_eq_true, Bool.not_eq_true']
    at h
  have hbetween : (w ∈ f.between A x ↔ w ∈ f.up A ∧ w ∉ f.up B) ∧
      (w ∈ f.between B x ↔ w ∈ f.up B ∧ w ∉ f.up A) := by
    rcases hx with rfl | rfl
    · exact ⟨Forest.mem_between_common, Forest.mem_between_common_right⟩
    · exact ⟨Forest.mem_between_common_right, Forest.mem_between_common⟩
  rw [own_some, own_some]
  simp only [hbetween.1, hbetween.2]
  refine h ?_ ?_ ?_ ?_
  · rintro rfl
    exact Forest.not_mem_up_self w
  · rintro rfl
    exact Forest.not_mem_up_self w
  · rintro rfl
    exact ⟨hAB, hne⟩
  · rintro rfl
    exact hBA

theorem tells_ancestor (hBA : B ∈ f.up A) (w : W) (r : Presence) :
    Tells ((own f (some A) w).sup r) ((own f (some B) w).sup r)
      ((if w = A then selfNotes false .ancestor r else []) ++
        (if w ∈ f.between A (some B) then wayNotes false .virtual r else []) ++
        (if w = B then inferiorNotes true r else [])) := by
  have h := bool_ancestor (decide (w = A)) (decide (w = B)) (decide (w ∈ f.up A))
    (decide (w ∈ f.up B)) r
  simp only [decide_eq_true_iff, decide_eq_false_iff_not, Bool.and_eq_true, Bool.not_eq_true',
    and_assoc] at h
  rw [own_some, own_some]
  simp only [Forest.mem_between hBA]
  refine h ?_ ?_ ?_ ?_
  · rintro rfl
    exact Forest.not_mem_up_self w
  · rintro rfl
    exact ⟨Forest.not_mem_up_self w, hBA⟩
  · rintro rfl
    exact ⟨Forest.up_asymm hBA, fun he => Forest.not_mem_up_self B (he ▸ hBA)⟩
  · exact fun hw => Forest.up_trans hw hBA

theorem tells_descendant (hAB : A ∈ f.up B) (w : W) (r : Presence) :
    Tells ((own f (some A) w).sup r) ((own f (some B) w).sup r)
      ((if w = A then inferiorNotes false r else []) ++
        (if w ∈ f.between B (some A) then wayNotes true .virtual r else []) ++
        (if w = B then selfNotes true .ancestor r else [])) := by
  have h := bool_descendant (decide (w = A)) (decide (w = B)) (decide (w ∈ f.up A))
    (decide (w ∈ f.up B)) r
  simp only [decide_eq_true_iff, decide_eq_false_iff_not, Bool.and_eq_true, Bool.not_eq_true',
    and_assoc] at h
  rw [own_some, own_some]
  simp only [Forest.mem_between hAB]
  refine h ?_ ?_ ?_ ?_
  · rintro rfl
    exact ⟨Forest.not_mem_up_self w, hAB⟩
  · rintro rfl
    exact Forest.not_mem_up_self w
  · rintro rfl
    exact ⟨Forest.up_asymm hAB, fun he => Forest.not_mem_up_self A (he ▸ hAB)⟩
  · exact fun hw => Forest.up_trans hw hAB

end

section

variable {W : Type} [DecidableEq W]

def seenAt (w : W) (events : List (Event W)) : List (Bool × Detail) :=
  events.filterMap fun e => if e.win = w then some (e.into, e.detail) else none

theorem seenAt_append (w : W) (es es' : List (Event W)) :
    seenAt w (es ++ es') = seenAt w es ++ seenAt w es' := filterMap_append

theorem seenAt_nil (w : W) : seenAt w ([] : List (Event W)) = [] := rfl

theorem seenAt_single (w : W) (e : Event W) :
    seenAt w [e] = if e.win = w then [(e.into, e.detail)] else [] := by
  unfold seenAt
  rw [filterMap_cons]
  by_cases h : e.win = w
  · rw [if_pos h, if_pos h]
    rfl
  · rw [if_neg h, if_neg h]
    rfl

/-- Events on the windows from below `ancestor` down to the one above `child`, but for
those that `quiet` holds of. -/
def enterNotifies (quiet : W → Bool) (event : W → W → Event W) (ancestor : Option W) :
    W → List W → List (Event W)
  | _, [] => []
  | child, parent :: up =>
    if some parent = ancestor then []
    else enterNotifies quiet event ancestor parent up ++
      (if quiet parent then [] else [event parent child])

/-- Events on the windows from the one above `child` up to below `ancestor`, until one
that `stop` holds of. -/
def leaveNotifies (stop : W → Bool) (event : W → W → Event W) (ancestor : Option W) :
    W → List W → List (Event W)
  | _, [] => []
  | child, win :: up =>
    if some win = ancestor then []
    else if stop win then []
    else event win child :: leaveNotifies stop event ancestor win up

variable {f : Forest W} {quiet : W → Bool} {event : W → W → Event W} {child w : W}
  {ancestor : Option W}

theorem seenAt_event {note : Bool × Detail} (hevent : ∀ win child, (event win child).win = win ∧
    ((event win child).into, (event win child).detail) = note) (win : W) :
    seenAt w [event win child] = if w = win then [note] else [] := by
  rw [seenAt_single, (hevent win child).1, (hevent win child).2]
  exact if_congr eq_comm rfl rfl

theorem seenAt_enterNotifies (note : Bool × Detail) (hevent : ∀ win child, (event win child).win = win ∧
    ((event win child).into, (event win child).detail) = note) {up : List W} (hnd : up.Nodup) :
    seenAt w (enterNotifies quiet event ancestor child up) =
      if w ∈ up.takeWhile (fun a => decide (some a ≠ ancestor)) ∧ quiet w = false then [note]
      else [] := by
  induction up generalizing child with
  | nil => rfl
  | cons parent up ih =>
    obtain ⟨hparent, hup⟩ := nodup_cons.mp hnd
    rw [enterNotifies]
    by_cases hanc : some parent = ancestor
    · rw [if_pos hanc, takeWhile_cons_of_neg (by simp [hanc])]
      simp [seenAt_nil]
    rw [if_neg hanc, takeWhile_cons_of_pos (by simp [hanc]), seenAt_append, ih hup]
    have hrest : parent ∉ up.takeWhile fun a => decide (some a ≠ ancestor) := fun hm =>
      hparent ((takeWhile_sublist _).subset hm)
    cases hq : quiet parent with
    | true =>
      rw [if_pos rfl, seenAt_nil, append_nil]
      refine if_congr ?_ rfl rfl
      rw [mem_cons]
      refine ⟨fun h => ⟨.inr h.1, h.2⟩, fun h => ⟨h.1.resolve_left fun he => ?_, h.2⟩⟩
      rw [he, hq] at h
      cases h.2
    | false =>
      rw [if_neg Bool.false_ne_true, seenAt_event hevent]
      by_cases hw : w = parent
      · subst hw
        rw [if_neg fun h => hrest h.1, if_pos rfl, if_pos ⟨mem_cons_self, hq⟩]
        rfl
      · simp [hw]

theorem seenAt_leaveNotifies (note : Bool × Detail) (hevent : ∀ win child, (event win child).win = win ∧
    ((event win child).into, (event win child).detail) = note)
    (hmono : ∀ a b, a ∈ f.up b → quiet b = true → quiet a = true) :
    seenAt w (leaveNotifies quiet event ancestor child (f.up child)) =
      if w ∈ f.between child ancestor ∧ quiet w = false then [note] else [] := by
  unfold Forest.between
  induction child using f.induct with
  | hroot child hp =>
    rw [Forest.up_none hp]
    rfl
  | hchild child p hp ih =>
    rw [Forest.up_some hp, leaveNotifies]
    by_cases hanc : some p = ancestor
    · rw [if_pos hanc, takeWhile_cons_of_neg (by simp [hanc])]
      simp [seenAt_nil]
    rw [if_neg hanc, takeWhile_cons_of_pos (by simp [hanc])]
    cases hq : quiet p with
    | true =>
      rw [if_pos rfl, seenAt_nil, if_neg]
      rintro ⟨hw, hwq⟩
      have hup : w = p ∨ w ∈ f.up p := 
        (mem_cons.mp hw).imp_right fun hm => (takeWhile_sublist _).subset hm
      rcases hup with rfl | hup
      · rw [hq] at hwq
        cases hwq
      · rw [hmono w p hup hq] at hwq
        cases hwq
    | false =>
      rw [if_neg Bool.false_ne_true, ← singleton_append, seenAt_append, seenAt_event hevent, ih]
      have hrest : p ∉ (f.up p).takeWhile fun a => decide (some a ≠ ancestor) := fun hm =>
        Forest.not_mem_up_self p ((takeWhile_sublist _).subset hm)
      by_cases hw : w = p
      · subst hw
        rw [if_pos rfl, if_neg fun h => hrest h.1, if_pos ⟨mem_cons_self, hq⟩]
        rfl
      · simp [hw]

end

end Xfront.Crossing
