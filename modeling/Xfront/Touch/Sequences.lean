import Xfront.Lib.Run
import Xfront.Touch.Listening

/-!
# Touch sequences

A touch from its begin on: updates, the physical end, and requests to accept or reject it.
-/

namespace Xfront.Touch.Delivery

open List Option
open Resource (XID Limits)
open Run (Guarded Always)
open Point

inductive Action
  | update
  | physicalEnd
  | acceptReject (client : Nat) (mode : Mode) (window : Nat)
  deriving DecidableEq

/-- `accepted` has the listeners for which an accept has been requested. -/
structure Story where
  touch : Point
  physicallyEnded : Bool
  accepted : List XID

def Story.step (L : Limits) (s : Story) : Action → Option (Story × Status)
  | .update =>
    if s.physicallyEnded then none
    else some ({ s with touch := s.touch.processTouchEvent { type := .touchUpdate } none }, .success)
  | .physicalEnd =>
    if s.physicallyEnded then none
    else
      some ({ s with
        touch := s.touch.processTouchEvent { type := .touchEnd } none
        physicallyEnded := true }, .success)
  | .acceptReject client mode window =>
    let result := s.touch.touchAcceptReject L client mode window
    let listener := (s.touch.requested L client window).map fun (_, l) => l.listener
    let accepted := if mode = .accept then listener.toList ++ s.accepted else s.accepted
    some ({ s with touch := result.2, accepted := accepted }, result.1)

def Keeps (L : Limits) (s : Story) : Action → Prop
  | .acceptReject client .accept window =>
    ∀ r ∈ s.touch.requested L client window, r.2.state ≠ .awaitingBegin
  | _ => True

instance (L : Limits) (s : Story) : ∀ a, Decidable (Keeps L s a)
  | .acceptReject client .accept window =>
    inferInstanceAs (Decidable (∀ r ∈ s.touch.requested L client window, r.2.state ≠ .awaitingBegin))
  | .acceptReject _ .reject _ | .update | .physicalEnd => isTrue trivial

/-- What each listener is told is in order; the listeners are told that they own the touch in
their own order; when the touch is over, each that was told of it has had its end; and after
the physical end it lasts only while a grab owns it that has not accepted it. -/
structure Told (all : List XID) (s : Story) : Prop where
  phases : ∀ r, (phase s.touch.sent r).isSome = true
  owners : (owned s.touch.sent).Sublist all
  finished : s.touch.active = false → ∀ r, phase s.touch.sent r ≠ some .begun
  lasts : s.physicallyEnded = true → s.touch.active = true → ∃ owner others,
    s.touch.listeners = owner :: others ∧ owner.type = .grab ∧ owner.listener ∉ s.accepted

structure Inv (all : List XID) (s : Story) : Prop where
  stage : Stage all s.accepted s.touch
  pending : s.touch.active = true → s.touch.pendingFinish = s.physicallyEnded

variable {all acc : List XID} {t : Point} {l : Listener} {a b rest : List Listener} {p : Phase}
  {L : Limits}

theorem Settled.told {sent : Sent} {r : XID} (h : Settled sent r) :
    (phase sent r).isSome = true ∧ phase sent r ≠ some .begun := by
  rcases h with h | h <;> rw [h] <;> exact ⟨rfl, by decide⟩

theorem Led.phases (h : Led all acc t l rest p) (r : XID) : (phase t.sent r).isSome = true := by
  by_cases hr : r ∈ ids t.listeners
  · rw [h.listeners] at hr
    rcases mem_cons.mp hr with rfl | hr
    · rw [h.owner]
      rfl
    · obtain ⟨x, hx, rfl⟩ := List.mem_map.mp hr
      cases ho : x.xi2mask.touchOwnership with
      | true =>
        rw [((h.waits x hx).told ho).2]
        rfl
      | false =>
        rw [((h.waits x hx).untold ho).2.1]
        rfl
  · exact (h.gone r hr).told.1

variable {s : Story}

theorem told_of_inv (h : Inv all s) : Told all s := by
  cases h.stage with
  | owns l rest howns _ hlasts =>
    refine ⟨howns.phases, (sublist_append_left _ _).trans howns.owners, fun ha => ?_,
      fun he ha => ?_⟩
    · rw [howns.active] at ha
      cases ha
    · rw [← h.pending ha, hlasts] at he
      cases he
  | ends l rest hends hacc hfinishes =>
    refine ⟨hends.phases, (sublist_append_left _ _).trans hends.owners, fun ha => ?_,
      fun _ _ => ⟨l, rest, hends.listeners, hends.grab, hacc⟩⟩
    rw [hends.active] at ha
    cases ha
  | idle hactive hnone hlasts hsilent =>
    refine ⟨fun r => ?_, ?_, fun ha => ?_, fun he ha => ?_⟩
    · rw [hsilent]
      rfl
    · rw [hsilent]
      exact nil_sublist all
    · rw [hactive] at ha
      cases ha
    · rw [← h.pending ha, hlasts] at he
      cases he
  | finished hover =>
    refine ⟨fun r => (hover.settled r).told.1, hover.owners, fun _ r => (hover.settled r).told.2,
      fun _ ha => ?_⟩
    rw [hover.inactive] at ha
    cases ha

variable {window i : Nat} {client : Nat}

theorem requested_some (h : t.requested L client window = some (i, l)) :
    ∃ a b, t.listeners = a ++ l :: b ∧ a.length = i := by
  obtain ⟨⟨l', i'⟩, hfind, heq⟩ := map_eq_some_iff.mp h
  cases heq
  have hget := mem_zipIdx_iff_getElem?.mp (mem_of_find?_eq_some hfind)
  obtain ⟨hlt, hl⟩ := List.getElem?_eq_some_iff.mp hget
  have hsplit := take_append_drop i t.listeners
  rw [drop_eq_getElem_cons hlt, hl] at hsplit
  exact ⟨_, _, hsplit.symm, length_take_of_le (le_of_lt hlt)⟩

theorem Led.alone (h : Led all acc t l [] p) (acc' : List XID) : Led all acc' t l [] p :=
  ⟨h.toBase, h.listeners, fun _ hx => (nomatch hx), h.owners, h.owner⟩

variable {x : Listener}

theorem Led.acceptOther (h : Led all acc t l (a ++ x :: b) p) (hx : x.state ≠ .awaitingBegin) :
    Led all (x.listener :: acc) (t.setState (a.length + 1) .earlyAccept) l
      (a ++ { x with state := .earlyAccept } :: b) p := by
  have hlist : t.listeners = (l :: a) ++ x :: b := h.listeners
  have hn := h.nodup
  rw [hlist] at hn
  obtain ⟨hbefore, hafter⟩ := ids_nodup hn
  have hset : t.setState (a.length + 1) .earlyAccept =
      { t with listeners := (l :: a) ++ { x with state := .earlyAccept } :: b } :=
    setState_eq hlist .earlyAccept
  have hids : ids ((l :: a) ++ { x with state := .earlyAccept } :: b) = ids t.listeners := by
    rw [hlist]
    simp [ids]
  have hother : ∀ y ∈ a ++ b, y.listener ≠ x.listener := fun y hy =>
    (mem_append.mp hy).elim (fun hy => hbefore y (mem_cons_of_mem l hy)) (hafter y)
  have hwaits : ∀ y ∈ a ++ b, Waits t.sent t.history (x.listener :: acc) y := by
    intro y hy
    have hw := h.waits y ((((sublist_cons_self x b).append_left a)).subset hy)
    exact ⟨hw.told, hw.untold, fun hs hmem =>
      (mem_cons.mp hmem).elim (hother y hy) (hw.accepted hs)⟩
  rw [hset]
  refine ⟨⟨hids ▸ h.nodup, hids ▸ h.sub, ?_, ?_, ?_, h.active, h.trace, fun r hr => ?_⟩, rfl, ?_,
    ?_, h.owner⟩
  · have hgrabs := h.grabs
    rw [hlist] at hgrabs
    rw [hgrabs, countP_append, countP_append]
    rfl
  · have htouches := h.touches
    rw [hlist] at htouches
    intro y hy
    rcases mem_append.mp hy with hy | hy
    · exact htouches y (mem_append_left _ hy)
    · rcases mem_cons.mp hy with rfl | hy
      · exact (htouches x (mem_append_right _ mem_cons_self)).withState _
      · exact htouches y (mem_append_right _ (mem_cons_of_mem x hy))
  · have horder := h.order
    rw [hlist] at horder
    obtain ⟨h₁, h₂, h₃⟩ := pairwise_append.mp horder
    refine pairwise_append.mpr ⟨h₁, ?_, fun y hy z hz => ?_⟩
    · exact pairwise_cons.mpr (pairwise_cons.mp h₂)
    · exact h₃ y hy x mem_cons_self
  · exact h.gone r (hids ▸ hr)
  · intro y hy
    rcases mem_append.mp hy with hy | hy
    · exact hwaits y (mem_append_left b hy)
    · rcases mem_cons.mp hy with rfl | hy
      · have hw := h.waits x (mem_append_right a mem_cons_self)
        exact ⟨fun ho => ⟨.inr rfl, (hw.told ho).2⟩,
          fun ho => absurd (hw.untold ho).1 hx, fun hne => absurd rfl hne⟩
      · exact hwaits y (mem_append_right a hy)
  · have howners := h.owners
    simpa [ids] using howners

variable {ended : Bool}

theorem Handed.inv {t' : Point} (h : Handed all acc t t')
    (hp : t.pendingFinish = ended) : Inv all ⟨t', ended, acc⟩ :=
  ⟨h.stage, fun ha => (h.pending ha).trans hp⟩

theorem Owns.request (h : Owns all acc t l rest)
    (hacc : Unaccepted acc l) (hp : t.pendingFinish = false) (he : ended = false)
    (hx : t.listeners = a ++ x :: b) (hi : a.length = i) :
    Inv all ⟨t.touchListenerAcceptReject L i x .reject, ended, acc⟩ ∧ (x.state ≠ .awaitingBegin →
        Inv all ⟨t.touchListenerAcceptReject L i x .accept, ended, x.listener :: acc⟩) := by
  subst hi he
  rw [h.listeners] at hx
  cases a with
  | nil =>
    obtain ⟨rfl, rfl⟩ := cons.inj hx
    refine ⟨h.reject.inv hp, fun _ => ?_⟩
    obtain ⟨haccept, hsame⟩ := h.accept
    have hwho : Owns all (l.listener :: acc) t.processAccept { l with state := .hasAccepted } [] :=
      ⟨haccept.toLed.alone _, haccept.state⟩
    exact ⟨.owns _ _ hwho (fun _ hne => absurd rfl hne) (hsame.trans hp), fun _ => hsame.trans hp⟩
  | cons y a =>
    obtain ⟨rfl, rfl⟩ := cons.inj hx
    have hstate : l.state = .isOwner := h.state.resolve_right fun hs => by simpa using hs.2
    have hne : l.listener ≠ x.listener := h.apart h.listeners x (mem_append_right a mem_cons_self)
    refine ⟨?_, fun hx => ?_⟩
    · obtain ⟨hled, hsame⟩ := h.toLed.rejectOther (L := L)
      exact ⟨.owns _ _ ⟨hled, .inl hstate⟩ hacc (hsame.trans hp), fun _ => hsame.trans hp⟩
    · have hled := h.toLed.acceptOther hx
      refine ⟨.owns _ _ ⟨hled, .inl hstate⟩ (fun hg hs hmem => ?_) hp, fun _ => hp⟩
      exact (mem_cons.mp hmem).elim hne (hacc hg hs)

theorem Ends.request (h : Ends all acc t l rest)
    (hacc : l.listener ∉ acc) (hp : t.pendingFinish = true) (he : ended = true)
    (hx : t.listeners = a ++ x :: b) (hi : a.length = i) :
    Inv all ⟨t.touchListenerAcceptReject L i x .reject, ended, acc⟩ ∧ (x.state ≠ .awaitingBegin →
        Inv all ⟨t.touchListenerAcceptReject L i x .accept, ended, x.listener :: acc⟩) := by
  subst hi he
  rw [h.listeners] at hx
  cases a with
  | nil =>
    obtain ⟨rfl, rfl⟩ := cons.inj hx
    exact ⟨h.reject.inv hp, fun _ => h.accept.handed.inv hp⟩
  | cons y a =>
    obtain ⟨rfl, rfl⟩ := cons.inj hx
    have hne : l.listener ≠ x.listener := h.apart h.listeners x (mem_append_right a mem_cons_self)
    refine ⟨?_, fun hx => ?_⟩
    · obtain ⟨hled, hsame⟩ := h.toLed.rejectOther (L := L)
      exact ⟨.ends _ _ ⟨hled, h.state, h.grab⟩ hacc (hsame.trans hp), fun _ => hsame.trans hp⟩
    · have hled := h.toLed.acceptOther hx
      refine ⟨.ends _ _ ⟨hled, h.state, h.grab⟩ (fun hmem => ?_) hp, fun _ => hp⟩
      exact (mem_cons.mp hmem).elim hne hacc

theorem idle_deliver (hnone : t.listeners = []) (ev : DeviceEvent) :
    t.deliverTouchEvents ev none = (t.touchEventHistoryPush ev, ev) := by
  have hlist : (t.touchEventHistoryPush ev).listeners = [] := by
    rw [push_listeners]
    exact hnone
  rw [deliverTouchEvents, hlist]
  rfl

theorem inv_update (h : Inv all s) (he : s.physicallyEnded = false) :
    Inv all { s with touch := s.touch.processTouchEvent { type := .touchUpdate } none } := by
  cases h.stage with
  | owns l rest howns hacc hlasts =>
    obtain ⟨hled, hsame⟩ := howns.toLed.update (e := { type := .touchUpdate }) rfl
    exact ⟨.owns l rest ⟨hled, howns.state⟩ hacc (hsame.trans hlasts), fun _ =>
      hsame.trans (hlasts.trans he.symm)⟩
  | ends l rest hends _ hfinishes =>
    have hp := h.pending hends.active
    rw [hfinishes, he] at hp
    cases hp
  | idle hactive hnone hlasts hsilent =>
    have hidle : ∃ history, s.touch.processTouchEvent { type := .touchUpdate } none =
        { s.touch with history := history } := by
      rw [processTouchEvent, if_neg (by rw [hactive]; decide)]
      split
      · exact ⟨_, rfl⟩
      · rw [idle_deliver hnone]
        exact ⟨_, push_listeners _⟩
    obtain ⟨history, hidle⟩ := hidle
    rw [hidle]
    exact ⟨.idle hactive hnone hlasts hsilent, h.pending⟩
  | finished hover =>
    rw [processTouchEvent, hover.inactive, if_pos Bool.not_false]
    exact h

theorem inv_end (h : Inv all s) (he : s.physicallyEnded = false) : Inv all { s with
      touch := s.touch.processTouchEvent { type := .touchEnd } none
      physicallyEnded := true } := by
  have hprocess : s.touch.active = true → s.touch.processTouchEvent { type := .touchEnd } none =
        let r := s.touch.deliverTouchEvents { type := .touchEnd } none
        if r.2.type = .touchEnd then r.1.touchEndTouch else r.1 := by
    intro hactive
    rw [processTouchEvent, if_neg (by rw [hactive]; decide), if_neg fun hc => hc.1 rfl]
  cases h.stage with
  | owns l rest howns hacc _ =>
    rw [hprocess howns.active]
    obtain ⟨hpend, hover⟩ := howns.end (e := { type := .touchEnd }) rfl rfl rfl
    by_cases hp : rest ≠ [] ∨ s.touch.numGrabs > 0 ∧ l.state ≠ .hasAccepted
    · obtain ⟨hends, hfinish, htype⟩ := hpend hp
      rw [if_neg (by rw [htype]; decide)]
      refine ⟨.ends _ _ hends ?_ hfinish, fun _ => hfinish⟩
      refine hacc hends.grab fun hs => ?_
      have hrest : rest = [] := by
        rcases howns.state with hs' | ⟨-, hrest⟩
        · rw [hs'] at hs
          cases hs
        · exact hrest
      exact (hp.resolve_left (not_not_intro hrest)).2 hs
    · obtain ⟨hover, -, -, -, htype⟩ := hover hp
      rw [if_pos htype]
      exact ⟨.finished hover, fun ha => by rw [hover.inactive] at ha; cases ha⟩
  | ends l rest hends _ hfinishes =>
    have hp := h.pending hends.active
    rw [hfinishes, he] at hp
    cases hp
  | idle hactive hnone _ hsilent =>
    rw [hprocess hactive, idle_deliver hnone]
    rw [if_pos rfl]
    have hsent : (s.touch.touchEventHistoryPush { type := .touchEnd }).sent = [] := by
      rw [push_listeners]
      exact hsilent
    have hover : Over all
        (s.touch.touchEventHistoryPush { type := .touchEnd }).touchEndTouch := by
      refine over_end (fun r => ?_) ?_
      · rw [hsent]
        exact .inl rfl
      · rw [hsent]
        exact nil_sublist all
    exact ⟨.finished hover, by rintro ⟨⟩⟩
  | finished hover =>
    rw [processTouchEvent, hover.inactive, if_pos Bool.not_false]
    exact ⟨.finished hover, fun ha => by rw [hover.inactive] at ha; cases ha⟩

theorem requested_none (hnone : t.listeners = []) (client window : Nat) :
    t.requested L client window = none := by
  rw [requested, hnone]
  rfl

theorem inv_request {mode : Mode} (h : Inv all s)
    (hkeeps : Keeps L s (.acceptReject client mode window)) :
    ∀ r ∈ s.step L (.acceptReject client mode window), Inv all r.1 := by
  intro r hr
  rw [Story.step] at hr
  obtain rfl := some.inj hr
  rw [touchAcceptReject]
  cases hreq : s.touch.requested L client window with
  | none =>
    have htouch : (if !s.touch.active then (Status.badValue, s.touch) else (.badAccess, s.touch)).2 =
        s.touch := by
      split <;> rfl
    rw [htouch, map_none, toList_none, nil_append, ite_self]
    exact h
  | some r =>
    obtain ⟨i, x⟩ := r
    obtain ⟨a, b, hx, hi⟩ := requested_some hreq
    have hactive : s.touch.active = true := by
      cases h.stage with
      | owns l rest howns => exact howns.active
      | ends l rest hends => exact hends.active
      | idle hactive => exact hactive
      | finished hover =>
        rw [requested_none hover.none] at hreq
        cases hreq
    have hboth : Inv all ⟨s.touch.touchListenerAcceptReject L i x .reject, s.physicallyEnded,
          s.accepted⟩ ∧ (x.state ≠ .awaitingBegin →
        Inv all ⟨s.touch.touchListenerAcceptReject L i x .accept, s.physicallyEnded,
          x.listener :: s.accepted⟩) := by
      cases h.stage with
      | owns l rest howns hacc hlasts =>
        exact howns.request hacc hlasts ((h.pending hactive).symm.trans hlasts) hx hi
      | ends l rest hends hacc hfinishes =>
        exact hends.request hacc hfinishes ((h.pending hactive).symm.trans hfinishes) hx hi
      | idle _ hnone =>
        rw [requested_none hnone] at hreq
        cases hreq
      | finished hover =>
        rw [requested_none hover.none] at hreq
        cases hreq
    rw [hactive, Bool.not_true, if_neg Bool.false_ne_true]
    rw [map_some, toList_some, singleton_append]
    cases mode with
    | reject => exact hboth.1
    | accept => exact hboth.2 (hkeeps (i, x) hreq)

theorem step_inv {s' : Story} {action : Action} {status : Status} (h : Inv all s)
    (hkeeps : Keeps L s action) (hs : s.step L action = some (s', status)) : Inv all s' := by
  cases action with
  | update =>
    rw [Story.step] at hs
    cases he : s.physicallyEnded with
    | true =>
      rw [he, if_pos rfl] at hs
      cases hs
    | false =>
      rw [he, if_neg Bool.false_ne_true] at hs
      cases hs
      have hinv := inv_update h he
      rw [he] at hinv
      exact hinv
  | physicalEnd =>
    rw [Story.step] at hs
    cases he : s.physicallyEnded with
    | true =>
      rw [he, if_pos rfl] at hs
      cases hs
    | false =>
      rw [he, if_neg Bool.false_ne_true] at hs
      cases hs
      exact inv_end h he
  | acceptReject client mode window => exact inv_request h hkeeps (s', status) hs

structure Listed (n : Nat) (t : Point) : Prop where
  trace : t.spriteTraceGood = n
  grabs : t.numGrabs = t.listeners.countP fun l => l.grab.isSome
  touches : ∀ l ∈ t.listeners, l.Touches
  order : t.listeners.Pairwise fun l _ => l.type = .grab
  active : t.active = true
  lasts : t.pendingFinish = false
  silent : t.sent = []
  history : t.history = some [] ∨
    t.history = none ∧ ∀ l ∈ t.listeners, l.xi2mask.touchOwnership = true

variable {n : Nat}

def AllGrabs (t : Point) : Prop := ∀ l ∈ t.listeners, l.type = .grab

theorem Listed.allocate (h : Listed n t) : Listed n t.touchEventHistoryAllocate := by
  refine ⟨h.trace, h.grabs, h.touches, h.order, h.active, h.lasts, h.silent, .inl ?_⟩
  rw [touchEventHistoryAllocate]
  rcases h.history with hh | ⟨hh, -⟩ <;> rw [hh] <;> rfl

theorem Listed.add {resource : XID} {type : TouchListenerType}
    {grab : Option GrabRec} {mask : XI2Mask} (h : Listed n t) (hg : AllGrabs t)
    (hl : Listener.Touches ⟨resource, type, .awaitingBegin, window, grab, mask⟩) :
    Listed n ((if mask.touchOwnership then t else t.touchEventHistoryAllocate).touchAddListener
      resource type window grab mask) := by
  have hadd : ∀ t : Point, Listed n t → AllGrabs t →
      (t.history = some [] ∨ mask.touchOwnership = true) →
      Listed n (t.touchAddListener resource type window grab mask) := by
    intro t h hg hm
    refine ⟨h.trace, ?_, fun x hx => ?_, ?_, h.active, h.lasts, h.silent, ?_⟩
    · rw [touchAddListener]
      rw [countP_append, countP_singleton, h.grabs]
      split <;> rfl
    · rcases mem_append.mp hx with hx | hx
      · exact h.touches x hx
      · rw [mem_singleton.mp hx]
        exact hl
    · exact pairwise_append.mpr ⟨h.order, pairwise_singleton _ _, fun x hx _ _ => hg x hx⟩
    · rcases hm with hm | hm
      · exact .inl hm
      · refine h.history.imp_right fun ⟨hh, hall⟩ => ⟨hh, fun x hx => ?_⟩
        rcases mem_append.mp hx with hx | hx
        · exact hall x hx
        · rw [mem_singleton.mp hx]
          exact hm
  split
  · next hm => exact hadd t h hg (.inr hm)
  · refine hadd _ h.allocate hg (.inl ?_)
    rw [touchEventHistoryAllocate]
    rcases h.history with hh | ⟨hh, -⟩ <;> rw [hh] <;> rfl

theorem Listed.addGrab {grab : GrabRec} (h : Listed n t) (hg : AllGrabs t)
    (hxi2 : grab.grabtype = .xi2) (hbegin : grab.xi2mask.touchBegin = true) :
    Listed n (t.touchAddGrabListener grab) ∧ AllGrabs (t.touchAddGrabListener grab) := by
  rw [touchAddGrabListener, hxi2]
  rw [if_pos hbegin]
  refine ⟨h.add hg ⟨hbegin, .inl ⟨rfl, grab, rfl, rfl, hxi2, rfl⟩⟩, fun x hx => ?_⟩
  rcases mem_append.mp hx with hx | hx
  · refine hg x ?_
    split at hx <;> exact hx
  · rw [mem_singleton.mp hx]

variable {wins : List Window}

theorem Listed.addPassive (h : Listed n t) (hg : AllGrabs t)
    (hwins : ∀ win ∈ wins, ∀ grab ∈ win.passiveGrab,
      grab.grabtype = .xi2 ∧ grab.xi2mask.touchBegin = true) :
    Listed n (wins.foldl touchAddPassiveGrabListener t) ∧
      AllGrabs (wins.foldl touchAddPassiveGrabListener t) := by
  induction wins generalizing t with
  | nil => exact ⟨h, hg⟩
  | cons win wins ih =>
    have hone : Listed n (t.touchAddPassiveGrabListener win) ∧
        AllGrabs (t.touchAddPassiveGrabListener win) := by
      rw [touchAddPassiveGrabListener]
      split
      · exact ⟨h, hg⟩
      · next grab hgrab =>
        obtain ⟨hxi2, hbegin⟩ := hwins win mem_cons_self grab hgrab
        exact h.addGrab hg hxi2 hbegin
    exact ih hone.1 hone.2 fun win' hw => hwins win' (mem_cons_of_mem win hw)

theorem Listed.addRegular (h : Listed n t) (hg : AllGrabs t) :
    Listed n (addRegularListener wins t) := by
  induction wins with
  | nil => exact h
  | cons win wins ih =>
    rw [addRegularListener, touchAddRegularListener]
    cases win.inputClients with
    | none => exact ih
    | some client =>
      by_cases hbegin : client.xi2mask.touchBegin = true
      · dsimp only
        rw [if_pos hbegin]
        exact h.add hg ⟨hbegin, .inr ⟨rfl, rfl⟩⟩
      · dsimp only
        rw [if_neg hbegin]
        exact ih

variable {activeGrab : Option GrabRec} {spriteTrace : List Window}

theorem setupTouch_listed (hgrabs : ∀ win ∈ spriteTrace, ∀ grab ∈ win.passiveGrab,
      grab.grabtype = .xi2 ∧ grab.xi2mask.touchBegin = true) :
    Listed spriteTrace.length (setupTouch activeGrab spriteTrace) := by
  have hstart : Listed spriteTrace.length ⟨true, false, spriteTrace.length, [], 0, none, []⟩ :=
    ⟨rfl, rfl, fun _ hl => (nomatch hl), List.Pairwise.nil, rfl, rfl, rfl,
      .inr ⟨rfl, fun _ hl => nomatch hl⟩⟩
  have hnone : AllGrabs ⟨true, false, spriteTrace.length, [], 0, none, []⟩ := fun _ hl => nomatch hl
  rw [setupTouch]
  split
  · exact hstart
  · rw [touchSetupListeners]
    have hactive : ∀ t : Point, Listed spriteTrace.length t → AllGrabs t →
        Listed spriteTrace.length (activeGrab.elim t t.touchAddActiveGrabListener) ∧
          AllGrabs (activeGrab.elim t t.touchAddActiveGrabListener) := by
      intro t hstart hnone
      cases activeGrab with
      | none => exact ⟨hstart, hnone⟩
      | some grab =>
        rw [elim_some, touchAddActiveGrabListener]
        split
        · next hg => exact hstart.addGrab hnone hg.1 hg.2
        · exact ⟨hstart, hnone⟩
    obtain ⟨hlisted, hall⟩ := hactive _ hstart hnone
    obtain ⟨hlisted, hall⟩ := hlisted.addPassive hall hgrabs
    exact hlisted.addRegular hall

theorem push_begin (h : t.history = some []) :
    Replayable (t.touchEventHistoryPush { type := .touchBegin }).history := by
  rw [touchEventHistoryPush, h]
  exact ⟨_, [], rfl, rfl, by simp⟩

theorem owned_all (rs : List XID) : owned (tell .touchOwnership rs) = rs := by
  induction rs with
  | nil => rfl
  | cons r rs ih => exact congrArg (r :: ·) ih

theorem begin_phases (h : ∀ x ∈ rest, l.listener ≠ x.listener) (hn : (ids rest).Nodup) (r : XID) :
    phase (tell .touchBegin [l.listener] ++ tell .touchOwnership (wanting [l]) ++
      tell .touchBegin (wanting rest)) r = if l.listener = r then some .begun
        else if r ∈ wanting rest then some .begun else some .fresh := by
  have hnil : phase [] l.listener = some .fresh := rfl
  have hfirst : ∀ r, phase (tell .touchBegin [l.listener]) r =
      if l.listener = r then some .begun else some .fresh := phase_moved hnil rfl
  have howner : ∀ r, phase (tell .touchBegin [l.listener] ++ tell .touchOwnership (wanting [l])) r =
      if l.listener = r then some .begun else some .fresh := by
    intro r
    by_cases ho : l.xi2mask.touchOwnership = true
    · have hw : wanting [l] = [l.listener] := by simp [wanting, ids, ho]
      rw [hw]
      exact (phase_same ((hfirst _).trans (if_pos rfl)) rfl r).trans (hfirst r)
    · have hw : wanting [l] = [] := by simp [wanting, ids, ho]
      rw [hw]
      exact hfirst r
  have hfresh : ∀ r ∈ wanting rest, phase (tell .touchBegin [l.listener] ++
      tell .touchOwnership (wanting [l])) r = some .fresh := by
    intro r hr
    obtain ⟨x, hx, rfl⟩ := List.mem_map.mp ((wanting_sublist rest).subset hr)
    rw [howner, if_neg (h x hx)]
  refine (phase_each ((wanting_sublist rest).nodup hn) hfresh rfl r).trans ?_
  rw [howner]
  by_cases hr : r ∈ wanting rest
  · rw [if_pos hr, if_pos hr, ite_self]
  · rw [if_neg hr, if_neg hr]

theorem Listed.begin (h : Listed n t) (hn : n ≠ 0) (hids : (ids t.listeners).Nodup)
    (hl : t.listeners = l :: rest) :
    let t' := (t.deliverTouchEvents { type := .touchBegin } none).1
    Owns (ids t.listeners) [] t' (owning l) (rest.map waiting) ∧ t'.pendingFinish = false := by
  intro t'
  let pushed := t.touchEventHistoryPush { type := .touchBegin }
  have hpushed : pushed = { t with history := pushed.history } := push_listeners _
  have hlist : pushed.listeners = t.listeners := by rw [hpushed]
  have hsent : pushed.sent = [] := by
    rw [hpushed]
    exact h.silent
  have hbase : Base (ids t.listeners) pushed := by
    refine ⟨hlist ▸ hids, hlist ▸ List.Sublist.refl _, ?_, hlist ▸ h.touches, hlist ▸ h.order, ?_,
      ?_, fun r _ => ?_⟩
    · rw [hlist, ← h.grabs, hpushed]
    · rw [hpushed]
      exact h.active
    · rw [hpushed]
      exact h.trace ▸ hn
    · rw [hsent]
      exact .inl rfl
  have hl' : pushed.listeners = l :: rest := hlist.trans hl
  have hbegin := begin_eq hl' hbase.nodup hbase.touches (hbase.heard hl')
    (show DeviceEvent.type { type := .touchBegin } = .touchBegin from rfl)
  let sent := tell .touchBegin [l.listener] ++ tell .touchOwnership (wanting [l]) ++
    tell .touchBegin (wanting rest)
  have ht' : t' = { pushed with listeners := owning l :: rest.map waiting, sent := sent } := by
    show (t.deliverTouchEvents _ none).1 = _
    rw [deliverTouchEvents, hbegin, hsent, nil_append]
  have hother := hbase.apart hl'
  have hphase := begin_phases hother (by
    rw [hl] at hids
    exact (nodup_cons.mp hids).2)
  have hsame : ids (owning l :: rest.map waiting) = ids t.listeners := by
    rw [hl]
    simp [ids, owning, waiting]
  rw [ht']
  refine ⟨⟨⟨⟨hsame ▸ hids, hsame ▸ List.Sublist.refl _, ?_, fun x hx => ?_, ?_, hbase.active,
    hbase.trace, fun r hr => ?_⟩, rfl, fun x hx => ?_, ?_, ?_⟩, ?_⟩, ?_⟩
  · dsimp only
    rw [hbase.grabs, hl', countP_cons, countP_cons, countP_map]
    rfl
  · rcases mem_cons.mp hx with rfl | hx
    · exact (h.touches l (hl ▸ mem_cons_self)).withState _
    · obtain ⟨y, hy, rfl⟩ := List.mem_map.mp hx
      exact (h.touches y (hl ▸ mem_cons_of_mem l hy)).withState _
  · have horder := h.order
    rw [hl] at horder
    obtain ⟨hfirst, hrest⟩ := pairwise_cons.mp horder
    refine pairwise_cons.mpr ⟨fun x hx => ?_, pairwise_map.mpr hrest⟩
    obtain ⟨y, hy, rfl⟩ := List.mem_map.mp hx
    exact hfirst y hy
  · dsimp only at hr
    rw [hsame, hl] at hr
    refine .inl ((hphase r).trans ?_)
    obtain ⟨hne, hin⟩ := not_or.mp fun hr' => hr (mem_cons.mpr hr')
    rw [if_neg (Ne.symm hne), if_neg fun hw => hin ((wanting_sublist rest).subset hw)]
  · obtain ⟨y, hy, rfl⟩ := List.mem_map.mp hx
    have hne : l.listener ≠ y.listener := hother y hy
    refine ⟨fun ho => ⟨.inl (if_pos ho), (hphase _).trans ?_⟩,
      fun ho => ⟨if_neg (by rw [show y.xi2mask.touchOwnership = false from ho]; decide),
        (hphase _).trans ?_, ?_⟩, fun _ => not_mem_nil⟩
    · exact (if_neg hne).trans (if_pos (List.mem_map_of_mem (mem_filter.mpr ⟨hy, ho⟩)))
    · refine (if_neg hne).trans (if_neg fun hw => ?_)
      obtain ⟨z, hz, hzy⟩ := List.mem_map.mp hw
      obtain ⟨hz, hzo⟩ := mem_filter.mp hz
      rw [hl] at hids
      have hnd : (ids rest).Nodup := (nodup_cons.mp hids).2
      rw [inj_on_of_nodup_map hnd hz hy hzy, show y.xi2mask.touchOwnership = false from ho] at hzo
      cases hzo
    · refine push_begin (h.history.resolve_right fun hh => ?_)
      have hall := hh.2 y (hl ▸ mem_cons_of_mem l hy)
      rw [show y.xi2mask.touchOwnership = false from ho] at hall
      cases hall
  · have howned : owned sent = wanting [l] := by
      simp only [sent]
      rw [owned_append, owned_append, owned_all, owned_tell [l.listener] (by decide),
        owned_tell (wanting rest) (by decide), nil_append, append_nil]
    have hrest : ids (rest.map waiting) = ids rest := by simp [ids, waiting]
    rw [howned, hrest, hl]
    exact (wanting_sublist [l]).append_right (ids rest)
  · exact (hphase _).trans (if_pos rfl)
  · by_cases hreg : l.type = .regular
    · exact .inr ⟨if_pos hreg, by rw [hbase.alone hl' (by rw [hreg]; decide)]; rfl⟩
    · exact .inl (if_neg hreg)
  · show pushed.pendingFinish = false
    rw [hpushed]
    exact h.lasts

def begun (activeGrab : Option GrabRec) (spriteTrace : List Window) : Story :=
  ⟨beginTouch activeGrab spriteTrace, false, []⟩

theorem begun_inv (hgrabs : ∀ win ∈ spriteTrace, ∀ grab ∈ win.passiveGrab,
      grab.grabtype = .xi2 ∧ grab.xi2mask.touchBegin = true)
    (hids : (ids (setupTouch activeGrab spriteTrace).listeners).Nodup) :
    Inv (ids (setupTouch activeGrab spriteTrace).listeners) (begun activeGrab spriteTrace) := by
  have hlisted : Listed spriteTrace.length (setupTouch activeGrab spriteTrace) :=
    setupTouch_listed hgrabs
  rw [begun, beginTouch]
  split
  · next hnone =>
    have hsetup : setupTouch activeGrab spriteTrace = ⟨true, false, spriteTrace.length, [], 0, none, []⟩ :=
      if_pos hnone
    rw [hsetup]
    exact ⟨.idle rfl rfl rfl rfl, fun _ => rfl⟩
  · next hne =>
    have hlen : spriteTrace.length ≠ 0 := fun hzero => hne (length_eq_zero_iff.mp hzero)
    cases hl : (setupTouch activeGrab spriteTrace).listeners with
    | nil =>
      rw [idle_deliver hl]
      rw [push_listeners]
      exact ⟨.idle hlisted.active hl hlisted.lasts hlisted.silent, fun _ => hlisted.lasts⟩
    | cons l rest =>
      rw [← hl]
      obtain ⟨howns, hlasts⟩ := hlisted.begin hlen hids hl
      exact ⟨.owns _ _ howns (fun _ _ => not_mem_nil) hlasts, fun _ => hlasts⟩

def limits : Limits := ⟨256, Resource.allowed_256⟩

def touchGrab (resource : XID) (window : Nat) (ownership : Bool) : GrabRec :=
  ⟨resource, window, .xi2, ⟨true, ownership⟩⟩

/-- Grabs of client 1 on the root and of client 2 on a window, where client 2 selects touches
as well. Only the selection wants ownership events. -/
def sharedWindow : List Window :=
  [⟨1, some (touchGrab 0x200001 1 false), none⟩,
    ⟨2, some (touchGrab 0x400001 2 false), some ⟨0x400002, ⟨true, true⟩⟩⟩]

end Xfront.Touch.Delivery
