import Xfront.Crossing.Focus

/-!
# Keyboards whose foci move

What a window is told of the foci of all keyboards, and the one move that tells a root
window what it should not be told.
-/

namespace Xfront.Crossing

open List Option
open Forests (Forest)
open Run (exec Guarded Always)

def Detail.counts : Detail → Bool
  | .pointer | .pointerRoot | .detailNone => false
  | _ => true

section

variable {W : Type} [DecidableEq W] {f : Forest W} {m : FocusMove W} {fw : List (FocusWin W)}
  {w A B : W}

def countedAt (w : W) (events : List (Event W)) : List (Bool × Detail) :=
  seenAt w (events.filter fun e => e.detail.counts)

theorem countedAt_append (w : W) (es es' : List (Event W)) :
    countedAt w (es ++ es') = countedAt w es ++ countedAt w es' := by
  rw [countedAt, filter_append, seenAt_append]
  rfl

variable {detail : Detail}

theorem countedAt_single (into : Bool) (mode : Mode) (win : W) (h : detail.counts = true) :
    countedAt w [focusEvent into mode detail win] = if w = win then [(into, detail)] else [] := by
  have hkept : ([focusEvent into mode detail win].filter fun e => e.detail.counts) =
      [focusEvent into mode detail win] :=
    filter_eq_self.mpr fun e he => mem_singleton.mp he ▸ h
  rw [countedAt, hkept, seenAt_single]
  exact if_congr eq_comm rfl rfl

def Silent (es : List (Event W)) : Prop := ∀ e ∈ es, e.detail.counts = false

variable {es : List (Event W)}

theorem Silent.countedAt (h : Silent es) (w : W) : countedAt w es = [] := by
  rw [Crossing.countedAt, filter_eq_nil_iff.mpr fun e he => ?_]
  · rfl
  · rw [h e he]
    exact Bool.false_ne_true

variable {es' : List (Event W)}

theorem Silent.append (h : Silent es) (h' : Silent es') :
    Silent (es ++ es') := fun e he => (mem_append.mp he).elim (h e) (h' e)

theorem silent_nil : Silent ([] : List (Event W)) := fun _ he => nomatch he

theorem silent_ite {p : Prop} [Decidable p] (h : Silent es)
    (h' : Silent es') : Silent (if p then es else es') := by
  split
  · exact h
  · exact h'

theorem silent_flatMap {l : List W} {g : W → List (Event W)} (h : ∀ x, Silent (g x)) :
    Silent (l.flatMap g) := fun e he => by
  obtain ⟨x, -, hx⟩ := mem_flatMap.mp he
  exact h x e hx

theorem silent_outNotify (pwinParent : W) (exclude : FocusWin W) (inclusive : Bool) :
    Silent (coreFocusOutNotifyPointerEvents f m pwinParent exclude inclusive) := by
  unfold coreFocusOutNotifyPointerEvents
  split
  · exact silent_nil
  · refine silent_ite silent_nil (silent_ite silent_nil fun e he => ?_)
    obtain ⟨win, -, rfl⟩ := List.mem_map.mp he
    rfl

theorem silent_inRecurse (stopAt : W) (inclusive : Bool) (up : List W) :
    Silent (coreFocusInRecurse m stopAt inclusive up) := by
  induction up with
  | nil => exact silent_nil
  | cons win up ih =>
    refine silent_ite silent_nil (ih.append fun e he => ?_)
    cases mem_singleton.mp he
    rfl

theorem silent_inNotify (pwinParent : W) (exclude : Option W) (inclusive : Bool) :
    Silent (coreFocusInNotifyPointerEvents f m pwinParent exclude inclusive) := by
  unfold coreFocusInNotifyPointerEvents
  split
  · exact silent_nil
  · exact silent_ite silent_nil (silent_ite silent_nil (silent_inRecurse _ _ _))

theorem silent_pseudo (into : Bool) (o : FocusWin W) (ho : o.window = none) (root : W) :
    Silent [focusEvent into m.mode (pseudoDetail o) root] := fun e he => by
  cases mem_singleton.mp he
  cases o with
  | win w => cases ho
  | _ => rfl

def places (fw : List (FocusWin W)) : List (Option W) := fw.map FocusWin.window

theorem hasFocus_eq : hasFocus fw w = decide (presence f (places fw) w = .on) := by
  rw [hasFocus, decide_eq_decide, presence_eq_on, places, List.mem_map]
  constructor
  · exact fun h => ⟨_, h, rfl⟩
  · rintro ⟨o, ho, he⟩
    cases o with
    | win v =>
      cases he
      exact ho
    | _ => cases he

theorem firstFocusChild_isSome : (firstFocusChild f fw w).isSome =
    (places fw).any fun o => o.any (windowIsParent f w) := by
  rw [firstFocusChild, places, List.any_map]
  cases hfind : fw.find? fun o => o.window.any (windowIsParent f w) with
  | none =>
    rw [find?_eq_none] at hfind
    exact (List.any_eq_false.mpr hfind).symm
  | some o =>
    have hany := find?_some hfind
    obtain ⟨v, hv, -⟩ := Option.any_eq_true .. |>.mp hany
    rw [bind_some, hv]
    exact (List.any_eq_true.mpr ⟨o, mem_of_find?_eq_some hfind, hany⟩).symm

theorem focusInside_eq : focusInside f fw w = decide (presence f (places fw) w ≠ .outside) := by
  rw [focusInside, hasFocus_eq (f := f), firstFocusChild_isSome, Bool.eq_iff_iff,
    Bool.or_eq_true, decide_eq_true_iff, decide_eq_true_iff, Ne, presence_eq_outside,
    presence_eq_on, not_and_or, not_not, Bool.not_eq_false]

theorem focus_cases : hasFocus fw w = true ∧ presence f (places fw) w = .on ∨
    hasFocus fw w = false ∧ (∃ child, firstFocusChild f fw w = some child) ∧
      presence f (places fw) w = .below ∨
    hasFocus fw w = false ∧ firstFocusChild f fw w = none ∧ presence f (places fw) w = .outside := by
  have hfocus : hasFocus fw w = decide (presence f (places fw) w = .on) := hasFocus_eq
  have hchild : (firstFocusChild f fw w).isSome = _ := firstFocusChild_isSome
  have hout : presence f (places fw) w = .outside ↔ _ := presence_eq_outside
  have hon : presence f (places fw) w = .on ↔ _ := presence_eq_on
  rw [← hchild] at hout
  cases hr : presence f (places fw) w with
  | on => exact .inl ⟨by rw [hfocus, hr]; rfl, rfl⟩
  | below =>
    refine .inr (.inl ⟨by rw [hfocus, hr]; rfl, ?_, rfl⟩)
    rw [hr] at hon hout
    rw [← isSome_iff_exists]
    by_contra hc
    rw [Bool.not_eq_true] at hc
    exact Presence.noConfusion (hout.mpr ⟨fun h => Presence.noConfusion (hon.mpr h), hc⟩)
  | outside =>
    refine .inr (.inr ⟨by rw [hfocus, hr]; rfl, ?_, rfl⟩)
    have hc := (hout.mp hr).2
    rwa [isSome_eq_false_iff, isNone_iff_eq_none] at hc

variable {below : W → List (Event W)} {alone : List (Event W)}

theorem countedAt_outWindow (hd : detail.counts = true) (hbelow : ∀ v, Silent (below v))
    (halone : Silent alone) : countedAt w (focusOutWindow f m fw A detail below alone) =
      if w = A then selfNotes false detail (presence f (places fw) w) else [] := by
  rw [focusOutWindow]
  rcases focus_cases (f := f) (w := A) with ⟨hf, hr⟩ | ⟨hf, ⟨child, hc⟩, hr⟩ | ⟨hf, hc, hr⟩
  · rw [if_pos hf]
    by_cases hw : w = A
    · rw [if_pos hw, hw, hr]
      rfl
    · rw [if_neg hw]
      rfl
  · rw [if_neg (by rw [hf]; exact Bool.false_ne_true), hc]
    rw [countedAt_append, (hbelow child).countedAt, countedAt_single false m.mode A rfl]
    by_cases hw : w = A
    · rw [if_pos hw, if_pos hw, hw, hr]
      rfl
    · rw [if_neg hw, if_neg hw]
      rfl
  · rw [if_neg (by rw [hf]; exact Bool.false_ne_true), hc]
    rw [countedAt_append, halone.countedAt, countedAt_single false m.mode A hd]
    by_cases hw : w = A
    · rw [if_pos hw, if_pos hw, hw, hr]
      rfl
    · rw [if_neg hw, if_neg hw]
      rfl

theorem countedAt_inWindow (hd : detail.counts = true) (hbelow : ∀ v, Silent (below v))
    (halone : Silent alone) : countedAt w (focusInWindow f m fw B detail below alone) =
      if w = B then selfNotes true detail (presence f (places fw) w) else [] := by
  rw [focusInWindow]
  rcases focus_cases (f := f) (w := B) with ⟨hf, hr⟩ | ⟨hf, ⟨child, hc⟩, hr⟩ | ⟨hf, hc, hr⟩
  · rw [if_pos hf]
    by_cases hw : w = B
    · rw [if_pos hw, hw, hr]
      rfl
    · rw [if_neg hw]
      rfl
  · rw [if_neg (by rw [hf]; exact Bool.false_ne_true), hc]
    dsimp only
    rw [← singleton_append, countedAt_append, (hbelow child).countedAt,
      countedAt_single true m.mode B rfl, append_nil]
    by_cases hw : w = B
    · rw [if_pos hw, if_pos hw, hw, hr]
      rfl
    · rw [if_neg hw, if_neg hw]
  · rw [if_neg (by rw [hf]; exact Bool.false_ne_true), hc]
    rw [← singleton_append, countedAt_append, halone.countedAt,
      countedAt_single true m.mode B hd, append_nil]
    by_cases hw : w = B
    · rw [if_pos hw, if_pos hw, hw, hr]
      rfl
    · rw [if_neg hw, if_neg hw]

theorem countedAt_inferior {into : Bool}
    (hes : countedAt w es = if w = A then [(into, .inferior)] else []) :
    countedAt w (if hasFocus fw A then [] else es) =
      if w = A then inferiorNotes into (presence f (places fw) w) else [] := by
  rw [hasFocus_eq (f := f)]
  by_cases hw : w = A
  · subst hw
    rw [if_pos rfl] at hes ⊢
    rw [inferiorNotes]
    by_cases hr : presence f (places fw) w = .on
    · rw [if_pos (decide_eq_true hr), if_pos hr]
      rfl
    · rw [if_neg (by rwa [decide_eq_true_iff]), if_neg hr, hes]
  · rw [if_neg hw] at hes ⊢
    split
    · rfl
    · exact hes

theorem countedAt_eq_seenAt (h : ∀ e ∈ es, e.detail.counts = true) :
    countedAt w es = seenAt w es := by
  rw [countedAt, filter_eq_self.mpr h]

variable {event : W → W → Event W}

theorem counts_enterNotifies {quiet : W → Bool}
    (hevent : ∀ win child, (event win child).detail.counts = true) (ancestor : Option W)
    (child : W) (up : List W) :
    ∀ e ∈ enterNotifies quiet event ancestor child up, e.detail.counts = true := by
  induction up generalizing child with
  | nil => simp [enterNotifies]
  | cons parent up ih =>
    rw [enterNotifies]
    split
    · simp
    · intro e he
      rcases mem_append.mp he with he | he
      · exact ih parent e he
      · split at he
        · cases he
        · cases mem_singleton.mp he
          exact hevent parent child

theorem counts_leaveNotifies {stop : W → Bool}
    (hevent : ∀ win child, (event win child).detail.counts = true) (ancestor : Option W)
    (child : W) (up : List W) :
    ∀ e ∈ leaveNotifies stop event ancestor child up, e.detail.counts = true := by
  induction up generalizing child with
  | nil => simp [leaveNotifies]
  | cons win up ih =>
    rw [leaveNotifies]
    split
    · simp
    · split
      · simp
      · intro e he
        rcases mem_cons.mp he with rfl | he
        · exact hevent win child
        · exact ih win e he

theorem countedAt_inEvents (hd : detail.counts = true) (x : Option W) :
    countedAt w (coreFocusInEvents f m fw x B detail) =
      if w ∈ f.between B x then wayNotes true detail (presence f (places fw) w) else [] := by
  rw [coreFocusInEvents, countedAt_eq_seenAt (counts_enterNotifies (fun _ _ => hd) x B (f.up B)),
    seenAt_enterNotifies (true, detail) (fun _ _ => ⟨rfl, rfl⟩) (Forest.up_nodup B),
    focusInside_eq]
  exact ite_wayNotes true detail _

theorem countedAt_outEvents (hd : detail.counts = true) {x : Option W} (hx : x ≠ some A) :
    countedAt w (coreFocusOutEvents f m fw A x detail) =
      if w ∈ f.between A x then wayNotes false detail (presence f (places fw) w) else [] := by
  rw [coreFocusOutEvents, if_neg hx, countedAt_eq_seenAt (counts_leaveNotifies (fun _ _ => hd) x A (f.up A)),
    seenAt_leaveNotifies (false, detail) (fun _ _ => ⟨rfl, rfl⟩) (fun a b hab hb => ?_),
    focusInside_eq]
  · exact ite_wayNotes false detail _
  · rw [focusInside_eq, decide_eq_true_iff] at hb ⊢
    exact presence_up hab hb

theorem rootOf_cases (B : W) : f.up B = [] ∧ rootOf f B = B ∨
    rootOf f B ∈ f.up B ∧ f.up (rootOf f B) = [] := by
  induction B using f.induct with
  | hroot B hp => exact .inl ⟨Forest.up_none hp, by rw [rootOf, Forest.up_none hp]; rfl⟩
  | hchild B p hp ih =>
    have hroot : rootOf f B = rootOf f p := by
      rw [rootOf, Forest.up_some hp, getLastD_cons]
      rfl
    rw [hroot, Forest.up_some hp]
    rcases ih with ⟨hup, he⟩ | ⟨hmem, hup⟩
    · exact .inr ⟨by rw [he]; exact mem_cons_self, by rw [he, hup]⟩
    · exact .inr ⟨mem_cons_of_mem p hmem, hup⟩

def Leads (old new : Presence) (notes : List (Bool × Detail)) : Prop :=
  Run.accept Presence.next old notes = some new

theorem leads_same (w : W) (r : Presence) :
    Leads ((own f (some A) w).sup r) ((own f (some A) w).sup r)
      ((if w = A then selfNotes false .nonlinear r else []) ++
        (if w = A then selfNotes true .nonlinear r else [])) := by
  rw [own_some]
  by_cases hw : w = A
  · rw [if_pos hw, if_pos hw, decide_eq_true hw]
    cases r <;> rfl
  · rw [if_neg hw, if_neg hw]
    rfl

theorem sup_own_none (w : W) (r : Presence) : (own f none w).sup r = r := by
  cases r <;> rfl

theorem leads_out (w : W) (r : Presence) : Leads ((own f (some A) w).sup r) r
      ((if w = A then selfNotes false .nonlinear r else []) ++
        (if w ∈ f.up A then wayNotes false .nonlinearVirtual r else [])) := by
  rw [own_some]
  by_cases hw : w = A
  · subst hw
    rw [if_pos rfl, if_neg (Forest.not_mem_up_self w), decide_eq_true rfl]
    cases r <;> rfl
  · rw [if_neg hw, decide_eq_false hw]
    by_cases hup : w ∈ f.up A
    · rw [if_pos hup, decide_eq_true hup]
      cases r <;> rfl
    · rw [if_neg hup, decide_eq_false hup]
      cases r <;> rfl

theorem leads_in (w : W) (r : Presence) : Leads r ((own f (some B) w).sup r)
      ((if w ∈ f.up B then wayNotes true .nonlinearVirtual r else []) ++
        (if w = B then selfNotes true .nonlinear r else [])) := by
  rw [own_some]
  by_cases hw : w = B
  · subst hw
    rw [if_pos rfl, if_neg (Forest.not_mem_up_self w), decide_eq_true rfl]
    cases r <;> rfl
  · rw [if_neg hw, decide_eq_false hw]
    by_cases hup : w ∈ f.up B
    · rw [if_pos hup, decide_eq_true hup]
      cases r <;> rfl
    · rw [if_neg hup, decide_eq_false hup]
      cases r <;> rfl

theorem coreFocusWindows_leads (w : W) : Leads ((own f (some A) w).sup (presence f (places fw) w))
      ((own f (some B) w).sup (presence f (places fw) w))
      (countedAt w (if windowIsParent f A B then coreFocusToDescendant f m fw A B
        else if windowIsParent f B A then coreFocusToAncestor f m fw A B
        else coreFocusNonLinear f m fw A B)) := by
  by_cases hAB : A ∈ f.up B
  · have hout : countedAt w (coreFocusOutNotifyPointerEvents f m A (.win B) false ++
        [focusEvent false m.mode .inferior A]) = if w = A then [(false, .inferior)] else [] := by
      rw [countedAt_append, (silent_outNotify _ _ _).countedAt, countedAt_single false m.mode A rfl]
      rfl
    rw [if_pos (windowIsParent_iff.mpr hAB), coreFocusToDescendant, countedAt_append,
      countedAt_append, countedAt_inferior (f := f) hout, countedAt_inEvents rfl,
      countedAt_inWindow rfl (fun _ => silent_inNotify _ _ _) silent_nil]
    exact (tells_descendant hAB w _).2.2
  rw [if_neg (mt windowIsParent_iff.mp hAB)]
  by_cases hBA : B ∈ f.up A
  · have hne : some B ≠ some A := fun he =>
      Forest.not_mem_up_self A ((some.inj he) ▸ hBA)
    have hin : countedAt w (focusEvent true m.mode .inferior B ::
        coreFocusInNotifyPointerEvents f m B (some A) false) =
          if w = B then [(true, .inferior)] else [] := by
      rw [← singleton_append, countedAt_append, (silent_inNotify _ _ _).countedAt,
        countedAt_single true m.mode B rfl, append_nil]
    rw [if_pos (windowIsParent_iff.mpr hBA), coreFocusToAncestor, countedAt_append,
      countedAt_append, countedAt_inferior (f := f) hin, countedAt_outEvents rfl hne,
      countedAt_outWindow rfl (fun _ => silent_outNotify _ _ _) silent_nil]
    exact (tells_ancestor hBA w _).2.2
  · have hne : f.common A B ≠ some A := fun h => by
      have hmem := find?_some h
      exact Forest.not_mem_up_self A (of_decide_eq_true hmem)
    rw [if_neg (mt windowIsParent_iff.mp hBA), coreFocusNonLinear, countedAt_append,
      countedAt_append, countedAt_append, countedAt_inEvents rfl, countedAt_outEvents rfl hne,
      countedAt_outWindow rfl (fun _ => silent_outNotify _ _ _) (silent_outNotify _ _ _),
      countedAt_inWindow rfl (fun _ => silent_inNotify _ _ _) (silent_inNotify _ _ _)]
    by_cases hsame : A = B
    · subst hsame
      have hno : w ∉ f.between A (f.common A A) := fun h =>
        absurd (Forest.mem_between_common.mp h).1 (Forest.mem_between_common.mp h).2
      rw [if_neg hno, if_neg hno, append_nil, append_nil]
      exact leads_same w _
    · exact (tells_nonlinear hsame hAB hBA (.inl rfl) w _).2.2

variable {o : FocusWin W}

theorem coreFocusToPseudo_leads (ho : o.window = none) (w : W) :
    Leads ((own f (some A) w).sup (presence f (places fw) w)) (presence f (places fw) w)
      (countedAt w (coreFocusToPointerRootOrNone f m fw A o)) := by
  have hscr : ∀ root, Silent (coreFocusToPointerRootOrNoneScr f m fw o root) := fun root =>
    silent_ite silent_nil ((silent_pseudo true o ho root).append
      (silent_ite (silent_inNotify _ _ _) silent_nil))
  have hne : (none : Option W) ≠ some A := (some_ne_none A).symm
  rw [coreFocusToPointerRootOrNone, countedAt_append, countedAt_append,
    countedAt_outWindow rfl (fun _ => silent_outNotify _ _ _) (silent_outNotify _ _ _),
    countedAt_outEvents rfl hne, (silent_flatMap hscr).countedAt, append_nil,
    Forest.between_none]
  exact leads_out w _

theorem countedAt_fromPseudo (ho : o.window = none) (w : W) :
    countedAt w (coreFocusFromPointerRootOrNone f m fw o B) =
      (if B ≠ rootOf f B then (if w = rootOf f B then [(true, .nonlinearVirtual)] else []) ++
        (if w ∈ f.between B (some (rootOf f B)) then
          wayNotes true .nonlinearVirtual (presence f (places fw) w) else []) else []) ++
      (if w = B then selfNotes true .nonlinear (presence f (places fw) w) else []) := by
  have hscr : ∀ root, Silent (coreFocusFromPointerRootOrNoneScr f m fw o root) := fun root =>
    silent_ite silent_nil ((silent_ite (silent_outNotify _ _ _) silent_nil).append
      (silent_pseudo false o ho root))
  rw [coreFocusFromPointerRootOrNone, countedAt_append, countedAt_append,
    (silent_flatMap hscr).countedAt, nil_append,
    countedAt_inWindow rfl (fun _ => silent_inNotify _ _ _) (silent_inNotify _ _ _)]
  congr 1
  by_cases hroot : B ≠ rootOf f B
  · rw [if_pos hroot, if_pos hroot, ← singleton_append, countedAt_append,
      countedAt_single true m.mode (rootOf f B) rfl, countedAt_inEvents rfl]
  · rw [if_neg hroot, if_neg hroot]
    rfl

theorem coreFocusFromPseudo_leads (ho : o.window = none) :
    (∀ w, Leads (presence f (places fw) w) ((own f (some B) w).sup (presence f (places fw) w))
      (countedAt w (coreFocusFromPointerRootOrNone f m fw o B))) ↔
      B = rootOf f B ∨ presence f (places fw) (rootOf f B) = .outside := by
  constructor
  · intro h
    by_contra hnot
    obtain ⟨hroot, hr⟩ := not_or.mp hnot
    have hmem := (rootOf_cases B).resolve_left fun hc => hroot hc.2.symm
    have htold := h (rootOf f B)
    have hno : rootOf f B ∉ f.between B (some (rootOf f B)) := fun hb =>
      ((Forest.mem_between hmem.1).mp hb).2.1 rfl
    rw [countedAt_fromPseudo ho, if_pos hroot, if_pos rfl, if_neg hno, if_neg (Ne.symm hroot)]
      at htold
    unfold Leads at htold
    cases hp : presence f (places fw) (rootOf f B) with
    | outside => exact hr hp
    | _ =>
      rw [hp] at htold
      cases htold
  · intro h w
    have hin := leads_in (f := f) (B := B) w (presence f (places fw) w)
    rw [countedAt_fromPseudo ho]
    rcases rootOf_cases (f := f) B with ⟨hup, hB⟩ | ⟨hmem, hup⟩
    · rw [if_neg (not_not.mpr hB.symm)]
      rwa [hup, if_neg not_mem_nil] at hin
    · have hroot : B ≠ rootOf f B := fun he => by
        rw [← he] at hmem
        exact Forest.not_mem_up_self B hmem
      have hr := h.resolve_left hroot
      rw [if_pos hroot]
      by_cases hw : w = rootOf f B
      · have hno : rootOf f B ∉ f.between B (some (rootOf f B)) := fun hb =>
          ((Forest.mem_between hmem).mp hb).2.1 rfl
        subst hw
        rw [if_pos hmem, hr] at hin
        rw [if_pos rfl, if_neg hno, hr]
        exact hin
      · have hiff : w ∈ f.between B (some (rootOf f B)) ↔ w ∈ f.up B := by
          rw [Forest.mem_between hmem, hup]
          exact ⟨fun hb => hb.1, fun hb => ⟨hb, hw, not_mem_nil⟩⟩
        rw [if_neg hw, nil_append]
        simp only [hiff]
        exact hin

theorem silent_switch {o' : FocusWin W} (ho : o.window = none) (ho' : o'.window = none) :
    Silent (coreFocusPointerRootNoneSwitch f m fw o o') :=
  silent_flatMap fun root => silent_ite silent_nil
    (((silent_ite (silent_outNotify _ _ _) silent_nil).append
      ((silent_pseudo false o ho root).append (silent_pseudo true o' ho' root))).append
      (silent_ite (silent_inNotify _ _ _) silent_nil))

variable (f)

def focusStep (fw : List (FocusWin W)) (m : FocusMove W) :
    Option (List (FocusWin W) × List (Event W)) :=
  some (doFocusEvents f m fw)

structure Regular (fw : List (FocusWin W)) (m : FocusMove W) : Prop where
  master : m.master = true
  keyboard : m.keyboard = true
  fromWin : fw[m.id]? = some m.fromWin

instance (fw : List (FocusWin W)) (m : FocusMove W) : Decidable (Regular fw m) :=
  decidable_of_iff (m.master = true ∧ m.keyboard = true ∧ fw[m.id]? = some m.fromWin)
    ⟨fun h => ⟨h.1, h.2.1, h.2.2⟩, fun h => ⟨h.1, h.2, h.3⟩⟩

/-- A focus that comes from `PointerRoot` or `None` comes to a root, or to a window whose
root neither is nor has below it the focus of a keyboard. -/
def Unseen (fw : List (FocusWin W)) (m : FocusMove W) : Prop :=
  match m.fromWin, m.toWin with
  | .win _, _ => True
  | _, .win B => B = rootOf f B ∨ presence f (places fw) (rootOf f B) = .outside
  | _, _ => True

variable {f}

omit [DecidableEq W] in
theorem places_set (i : Nat) (o : FocusWin W) : places (fw.set i o) =
    (places fw).set i o.window := map_set

theorem presence_places {i : Nat} (hi : i < fw.length) (o : FocusWin W) (w : W) :
    presence f (places (fw.set i o)) w =
      (own f o.window w).sup (presence f (places (fw.set i .noneWin)) w) := by
  rw [places_set, places_set]
  exact presence_set (by rwa [places, length_map]) o.window w

theorem doFocusEvents_leads (hn : Regular fw m) :
    (∀ w, Leads (presence f (places fw) w) (presence f (places (doFocusEvents f m fw).1) w)
      (countedAt w (doFocusEvents f m fw).2)) ↔ Unseen f fw m := by
  obtain ⟨hlt, hget⟩ := List.getElem?_eq_some_iff.mp hn.fromWin
  have hself : fw.set m.id m.fromWin = fw := by rw [← hget, set_getElem_self]
  have hold := fun w => presence_places (f := f) hlt m.fromWin w
  rw [hself] at hold
  have hnew := fun o w => presence_places (f := f) hlt o w
  rw [doFocusEvents, if_neg (by simp [hn.keyboard])]
  by_cases hskip : m.fromWin = m.toWin ∧ m.mode ≠ .grab ∧ m.mode ≠ .ungrab
  · rw [if_pos hskip]
    refine iff_of_true (fun w => rfl) ?_
    unfold Unseen
    rw [← hskip.1]
    cases m.fromWin <;> trivial
  rw [if_neg hskip, coreFocusEvents, if_neg (by simp [hn.master])]
  unfold Unseen
  dsimp only
  rw [set_set]
  -- a focus that was nowhere leaves the others where they are
  have hpseudo : ∀ o : FocusWin W, o.window = none → m.fromWin = o → ∀ w,
      presence f (places fw) w = presence f (places (fw.set m.id .noneWin)) w := by
    intro o ho hfrom w
    rw [hold, hfrom, ho, sup_own_none]
  have hnone : ∀ o : FocusWin W, o.window = none → ∀ w, presence f (places (fw.set m.id o)) w =
        presence f (places (fw.set m.id .noneWin)) w := by
    intro o ho w
    rw [hnew, ho, sup_own_none]
  cases hfrom : m.fromWin with
  | win A =>
    rw [hfrom] at hold
    refine iff_of_true (fun w => ?_) trivial
    rw [hold]
    cases m.toWin with
    | win B =>
      rw [hnew (.win B)]
      exact coreFocusWindows_leads w
    | noneWin => exact coreFocusToPseudo_leads rfl w
    | pointerRoot =>
      rw [hnone .pointerRoot rfl]
      exact coreFocusToPseudo_leads rfl w
  | noneWin | pointerRoot =>
    have hsame := hpseudo _ rfl hfrom
    cases m.toWin with
    | win B =>
      simp only [hsame, hnew (.win B)]
      exact coreFocusFromPseudo_leads rfl
    | noneWin =>
      refine iff_of_true (fun w => ?_) trivial
      rw [hsame, (silent_switch rfl rfl).countedAt]
      rfl
    | pointerRoot =>
      refine iff_of_true (fun w => ?_) trivial
      rw [hsame, hnone .pointerRoot rfl, (silent_switch rfl rfl).countedAt]
      rfl

theorem keyboards_run (f : Forest W) (fw : List (FocusWin W)) (moves : List (FocusMove W))
    (hg : Guarded (focusStep f) Regular fw moves) : Always (focusStep f) (fun fw m fw' sent =>
      (∀ w, Run.accept Presence.next (presence f (places fw) w) (countedAt w sent) =
        some (presence f (places fw') w)) ↔ Unseen f fw m) fw moves :=
  Run.always_of_guarded (fun fw m fw' sent hn hstep => by
    have he : doFocusEvents f m fw = (fw', sent) := some.inj hstep
    have hleads := doFocusEvents_leads (f := f) hn
    rwa [he] at hleads) hg

end

def pair : Forest Nat where
  parent := fun w => if w = 0 then none else some 0
  rank := fun w => w
  rank_lt := fun w p h => by
    split at h
    · cases h
    · cases h
      omega

/-- Two keyboards: one has its focus on a window, the other's comes there from nowhere. -/
def joining : List (FocusMove Nat) :=
  [⟨0, true, true, 2, [], none, [0], .noneWin, .win 1, .normal⟩,
    ⟨1, true, true, 3, [], none, [0], .pointerRoot, .win 1, .normal⟩]

theorem keyboards_run_joining : Guarded (focusStep pair) Regular [.noneWin, .pointerRoot] joining ∧
    Always (focusStep pair) (fun fw m fw' sent =>
      (∀ w, Run.accept Presence.next (presence pair (places fw) w) (countedAt w sent) =
        some (presence pair (places fw') w)) ↔ Unseen pair fw m) [.noneWin, .pointerRoot] joining :=
  have hg : Guarded (focusStep pair) Regular [.noneWin, .pointerRoot] joining := by
    decide +kernel
  ⟨hg, keyboards_run _ _ _ hg⟩

/-- The root is told of the second focus as if it had been told of none. -/
theorem root_told_twice : ∃ fw sent, exec (focusStep pair) [.noneWin, .pointerRoot] joining =
      some (fw, sent) ∧ Run.accept Presence.next (presence pair (places [.noneWin, .pointerRoot]) 0)
      (sent.flatMap (countedAt 0)) = none := by
  have hrun : (exec (focusStep pair) [.noneWin, .pointerRoot] joining).map
      (fun r => r.2.flatMap (countedAt 0)) =
        some [(true, .nonlinearVirtual), (true, .nonlinearVirtual)] := by decide +kernel
  obtain ⟨⟨fw, sent⟩, hexec, htold⟩ := map_eq_some_iff.mp hrun
  refine ⟨fw, sent, hexec, ?_⟩
  dsimp only at htold
  rw [htold]
  decide

end Xfront.Crossing
