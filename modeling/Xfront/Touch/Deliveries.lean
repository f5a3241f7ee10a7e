import Xfront.Touch.Delivery

/-!
# What a delivery does

The loops over the listeners, written out for listeners with ids of their own that have
grabs for touches or select touch events.
-/

namespace Xfront.Touch.Delivery
open DeviceEvent

open List Option
open Resource (XID Limits)

def Listener.Touches (l : Listener) : Prop :=
  l.xi2mask.touchBegin = true ∧
    (l.type = .grab ∧ (∃ g, l.grab = some g ∧ g.resource = l.listener ∧ g.grabtype = .xi2 ∧
      g.xi2mask = l.xi2mask) ∨ l.type = .regular ∧ l.grab = none)

theorem Listener.Touches.withState {l : Listener} (h : l.Touches) (state : TouchListenerState) :
    { l with state := state }.Touches := h

theorem Listener.Touches.notPointer {l : Listener} (h : l.Touches) : l.isPointer = false := by
  rcases h.2 with ⟨hl, -⟩ | ⟨hl, -⟩ <;> simp [Listener.isPointer, hl]

def ids (ls : List Listener) : List XID := ls.map Listener.listener

def wanting (ls : List Listener) : List XID := ids (ls.filter fun l => l.xi2mask.touchOwnership)

def tell (type : EventType) (rs : List XID) : Sent := rs.map fun r => (r, type)

theorem tell_append (type : EventType) (rs rs' : List XID) :
    tell type (rs ++ rs') = tell type rs ++ tell type rs' :=
  map_append

theorem wanting_append (ls ls' : List Listener) : wanting (ls ++ ls') = wanting ls ++ wanting ls' := by
  rw [wanting, filter_append, ids, map_append]
  rfl

namespace Point

variable {t : Point} {l : Listener} {a b rest : List Listener} {E : Type} {type : E → EventType}
  {deliver : Point → E → Nat → Listener → XI2Mask → Point × E}

theorem retrieve_eq (h : l.Touches) {type : EventType}
    (ht : type ≠ .touchOwnership ∨ l.xi2mask.touchOwnership = true) :
    retrieveTouchDeliveryData l type = some l.xi2mask := by
  obtain ⟨hbegin, ⟨hl, g, hg, -, -, hmask⟩ | ⟨hl, -⟩⟩ := h
  · simp only [retrieveTouchDeliveryData, hl, hg, map_some, hmask]
  · simp only [retrieveTouchDeliveryData, hl]
    split
    · next heq => rw [if_pos (ht.resolve_left (not_not_intro heq))]
    · rfl

theorem isOwner_head (h : t.listeners = l :: rest) : t.touchResourceIsOwner l.listener = true := by
  rw [touchResourceIsOwner, h, head?_cons, any_some, decide_eq_true_iff]

theorem isOwner_other (h : t.listeners = l :: rest) {r : XID} (hr : r ≠ l.listener) :
    t.touchResourceIsOwner r = false := by
  rw [touchResourceIsOwner, h, head?_cons, any_some, decide_eq_false_iff_not]
  exact hr.symm

theorem modify_split (f : Listener → Listener) :
    (a ++ l :: b).modify a.length f = a ++ f l :: b := by
  induction a with
  | nil => rfl
  | cons x a ih => exact congrArg (x :: ·) ih

theorem setState_eq (h : t.listeners = a ++ l :: b) (state : TouchListenerState) :
    t.setState a.length state = { t with listeners := a ++ { l with state := state } :: b } := by
  rw [setState, h, modify_split]

theorem setState_head (h : t.listeners = l :: rest) (state : TouchListenerState) :
    t.setState 0 state = { t with listeners := { l with state := state } :: rest } :=
  setState_eq (a := []) h state

theorem deliverOne_eq (h : l.grab.isSome = true ∨ t.numGrabs = 0 ∨ l.xi2mask.touchOwnership = true)
    (type : EventType) :
    t.deliverOneTouchEvent l type = { t with sent := t.sent ++ tell type [l.listener] } := by
  rw [deliverOneTouchEvent, if_neg]
  · rfl
  · rintro ⟨hg, hn, ho⟩
    rcases h with h | h | h
    · rw [isNone_iff_eq_none.mp hg] at h
      cases h
    · exact hn h
    · rw [h] at ho
      cases ho

theorem deliverFrom_succ (resource : Option XID) (n i : Nat) (t : Point) (ev : E) :
    deliverFrom type deliver resource (n + 1) i t ev =
      deliverFrom type deliver resource n (i + 1) (deliverTo type deliver resource i t ev).1
        (deliverTo type deliver resource i t ev).2 := rfl

theorem deliverFrom_add (resource : Option XID) (m n i : Nat) (t : Point) (ev : E) :
    deliverFrom type deliver resource (m + n) i t ev = deliverFrom type deliver resource n (i + m)
        (deliverFrom type deliver resource m i t ev).1
        (deliverFrom type deliver resource m i t ev).2 := by
  induction m generalizing i t ev with
  | zero => rw [zero_add]; rfl
  | succ m ih =>
    rw [Nat.succ_add, deliverFrom_succ, deliverFrom_succ, ih, add_assoc, add_comm 1 m]

theorem deliverFrom_skip {r : XID} {n i : Nat} {ev : E}
    (h : ∀ j l, i ≤ j → j < i + n → t.listeners[j]? = some l → l.listener ≠ r) :
    deliverFrom type deliver (some r) n i t ev = (t, ev) := by
  induction n generalizing i with
  | zero => rfl
  | succ n ih =>
    have hone : deliverTo type deliver (some r) i t ev = (t, ev) := by
      rw [deliverTo]
      split
      · rfl
      · next l hl =>
        have hne := h i l (le_refl i) (by omega) hl
        rw [if_pos (by simpa using hne)]
    rw [deliverFrom_succ, hone]
    exact ih fun j l hj hn hl => h j l (by omega) (by omega) hl

theorem deliverTo_eq {resource : Option XID} {i : Nat} {ev : E} {mask : XI2Mask}
    (hl : t.listeners[i]? = some l) (hr : ∀ r ∈ resource, l.listener = r)
    (hm : retrieveTouchDeliveryData l (type ev) = some mask) :
    deliverTo type deliver resource i t ev = deliver t ev i l mask := by
  rw [deliverTo, hl]
  dsimp only
  rw [if_neg, hm]
  cases resource with
  | none => exact Bool.false_ne_true
  | some r => simpa using hr r rfl

theorem ids_nodup (hn : (ids (a ++ l :: b)).Nodup) :
    (∀ x ∈ a, x.listener ≠ l.listener) ∧ ∀ x ∈ b, x.listener ≠ l.listener := by
  rw [ids, map_append, map_cons, nodup_append] at hn
  obtain ⟨-, hb, hdis⟩ := hn
  refine ⟨fun x hx => hdis _ (List.mem_map_of_mem hx) _ mem_cons_self, fun x hx heq => ?_⟩
  exact (nodup_cons.mp hb).1 (heq ▸ List.mem_map_of_mem hx)

theorem deliverFrom_one {ev : E} {mask : XI2Mask} (hl : t.listeners = a ++ l :: b)
    (hn : (ids t.listeners).Nodup) (hm : retrieveTouchDeliveryData l (type ev) = some mask)
    (hkeep : ids (deliver t ev a.length l mask).1.listeners = ids t.listeners) :
    deliverFrom type deliver (some l.listener) t.listeners.length 0 t ev =
      deliver t ev a.length l mask := by
  obtain ⟨ha, hb⟩ := ids_nodup (hl ▸ hn)
  have hlen : t.listeners.length = a.length + (1 + b.length) := by
    rw [hl, length_append, length_cons, add_comm 1]
  have hbefore : deliverFrom type deliver (some l.listener) a.length 0 t ev = (t, ev) := by
    refine deliverFrom_skip fun j x _ hj hx => ha x ?_
    rw [hl, getElem?_append_left (by omega)] at hx
    exact mem_of_getElem? hx
  have hat : deliverFrom type deliver (some l.listener) 1 (0 + a.length) t ev =
      deliver t ev a.length l mask := by
    rw [deliverFrom_succ, zero_add, deliverTo_eq (by rw [hl]; simp) (by simp) hm]
    rfl
  rw [hlen, deliverFrom_add, hbefore, deliverFrom_add, hat]
  refine deliverFrom_skip fun j x hj hlt hx heq => ?_
  have hid : (ids t.listeners)[j]? = some l.listener := by
    rw [← hkeep, ids, getElem?_map, hx, map_some, heq]
  rw [ids, hl, map_append, map_cons,
    getElem?_append_right (by rw [length_map]; omega), length_map] at hid
  obtain ⟨k, hk⟩ : ∃ k, j - a.length = k + 1 := ⟨j - a.length - 1, by omega⟩
  rw [hk, getElem?_cons_succ] at hid
  obtain ⟨y, hy, hyl⟩ := List.mem_map.mp (mem_of_getElem? hid)
  exact hb y hy hyl

theorem deliverOwnership_eq (h : t.listeners = l :: rest) (hn : (ids t.listeners).Nodup)
    (hl : l.Touches) (ho : l.xi2mask.touchOwnership = true) :
    t.deliverOwnershipEvent l.listener = { t with
        listeners := { l with state := .isOwner } :: rest
        sent := t.sent ++ tell .touchOwnership [l.listener] } := by
  have hone : t.deliverTouchOwnership 0 l = { t with
        listeners := { l with state := .isOwner } :: rest
        sent := t.sent ++ tell .touchOwnership [l.listener] } := by
    rw [deliverTouchOwnership, isOwner_head h, if_pos rfl, deliverOne_eq (.inr (.inr ho))]
    exact setState_head (by exact h) .isOwner
  rw [deliverOwnershipEvent, deliverFrom_one (a := []) h hn (retrieve_eq hl (.inr ho))]
  · exact hone
  · dsimp only [length_nil]
    rw [hone, h]
    rfl

theorem push_listeners (ev : DeviceEvent) :
    t.touchEventHistoryPush ev = { t with history := (t.touchEventHistoryPush ev).history } := by
  rw [touchEventHistoryPush]
  split
  · rfl
  · split
    · rfl
    · split
      · rfl
      · split <;> rfl

variable {ev : DeviceEvent}

theorem updates_from (h : t.listeners = l :: a ++ b)
    (hn : (ids t.listeners).Nodup) (hb : ∀ x ∈ b, x.Touches) (he : ev.type = .touchUpdate) :
    deliverFrom DeviceEvent.type deliverTouchEvent none b.length (l :: a).length t ev =
      ({ t with sent := t.sent ++ tell .touchUpdate (wanting b) }, ev) := by
  induction b generalizing t a with
  | nil => simp [deliverFrom, wanting, ids, tell]
  | cons x b ih =>
    have hx := hb x mem_cons_self
    have hother : t.touchResourceIsOwner x.listener = false := by
      refine isOwner_other h fun heq => ?_
      rw [h, cons_append] at hn
      exact (nodup_cons.mp hn).1 (heq ▸ List.mem_map_of_mem (by simp))
    have hone : deliverTo DeviceEvent.type deliverTouchEvent none (l :: a).length t ev =
        ({ t with sent := t.sent ++ tell .touchUpdate (wanting [x]) }, ev) := by
      rw [deliverTo_eq (by rw [h]; simp) (by simp)
        (retrieve_eq hx (.inl (by rw [he]; decide))), deliverTouchEvent]
      simp only [he, hx.notPointer, hother, Bool.false_or, Bool.false_eq_true, if_false]
      by_cases ho : x.xi2mask.touchOwnership = true
      · rw [if_pos ho, deliverOne_eq (.inr (.inr ho))]
        simp [wanting, ids, ho]
      · rw [if_neg ho]
        simp [wanting, ids, ho, tell]
    rw [length_cons, deliverFrom_succ, hone]
    have hrest := ih (t := { t with sent := t.sent ++ tell .touchUpdate (wanting [x]) })
      (a := a ++ [x]) (by simpa using h) hn fun y hy => hb y (mem_cons_of_mem x hy)
    rw [show (l :: (a ++ [x])).length = (l :: a).length + 1 by simp] at hrest
    have hsplit : tell .touchUpdate (wanting (x :: b)) =
        tell .touchUpdate (wanting [x]) ++ tell .touchUpdate (wanting b) := by
      rw [← tell_append, ← wanting_append, singleton_append]
    rw [hrest, hsplit, ← append_assoc]

theorem update_eq (h : t.listeners = l :: rest) (hn : (ids t.listeners).Nodup)
    (ht : ∀ x ∈ t.listeners, x.Touches) (hl : l.grab.isSome = true ∨ t.numGrabs = 0)
    (he : ev.type = .touchUpdate) :
    deliverFrom DeviceEvent.type deliverTouchEvent none t.listeners.length 0 t ev =
      ({ t with sent := t.sent ++ tell .touchUpdate (l.listener :: wanting rest) }, ev) := by
  have hl' : l.Touches := ht l (h ▸ mem_cons_self)
  have hone : deliverTo DeviceEvent.type deliverTouchEvent none 0 t ev =
      ({ t with sent := t.sent ++ tell .touchUpdate [l.listener] }, ev) := by
    rw [deliverTo_eq (by rw [h]; rfl) (by simp) (retrieve_eq hl' (.inl (by rw [he]; decide))),
      deliverTouchEvent]
    simp only [he, hl'.notPointer, isOwner_head h, Bool.true_or, Bool.false_eq_true, if_false,
      if_true]
    rw [deliverOne_eq (hl.imp_right .inl)]
  have hlen : t.listeners.length = rest.length + 1 := congrArg length h
  rw [hlen, deliverFrom_succ, hone]
  have hrest := updates_from
    (t := { t with sent := t.sent ++ tell .touchUpdate [l.listener] }) (a := []) (b := rest)
    h hn (fun x hx => ht x (h ▸ mem_cons_of_mem l hx)) he
  rw [show [l].length = 0 + 1 from rfl] at hrest
  have hsplit : tell .touchUpdate (l.listener :: wanting rest) =
      tell .touchUpdate [l.listener] ++ tell .touchUpdate (wanting rest) :=
    tell_append _ [l.listener] _
  rw [hrest, hsplit, ← append_assoc]

theorem end_eq (h : t.listeners = l :: rest) (hn : (ids t.listeners).Nodup)
    (ht : ∀ x ∈ t.listeners, x.Touches) (hl : l.grab.isSome = true ∨ t.numGrabs = 0)
    (hs : l.state = .isOwner ∨ l.state = .hasAccepted) (he : ev.type = .touchEnd)
    (ha : ev.touchAccept = false) (hr : ev.touchReject = false) :
    let pending := rest ≠ [] ∨ t.numGrabs > 0 ∧ l.state ≠ .hasAccepted
    ∃ ev', deliverFrom DeviceEvent.type deliverTouchEvent none t.listeners.length 0 t ev = ({ t with
          listeners := { l with state := .hasEnd } :: rest
          pendingFinish := t.pendingFinish || decide pending
          sent := t.sent ++ tell .touchEnd [l.listener] ++ tell .touchUpdate (wanting rest) },
        ev') ∧ ev'.type = if pending then .touchUpdate else .touchEnd := by
  intro pending
  have hl' : l.Touches := ht l (h ▸ mem_cons_self)
  have hlen : t.listeners.length = rest.length + 1 := congrArg length h
  have hcond : ((t.listeners.length > 1 ∨ t.numGrabs > 0 ∧ l.state ≠ .hasAccepted) ∧
      True ∧ True) ↔ pending := by
    have hpos : rest.length + 1 > 1 ↔ rest ≠ [] := by
      rw [← length_pos_iff_ne_nil]
      omega
    rw [hlen, hpos, and_true, and_true]
  have hwaits : l.state ≠ .awaitingBegin := by
    rintro heq
    rw [heq] at hs
    rcases hs with hs | hs <;> cases hs
  have hends : l.state ≠ .hasEnd := by
    rintro heq
    rw [heq] at hs
    rcases hs with hs | hs <;> cases hs
  let t' : Point := { t with
    listeners := { l with state := .hasEnd } :: rest
    pendingFinish := t.pendingFinish || decide pending
    sent := t.sent ++ tell .touchEnd [l.listener] }
  let ev' : DeviceEvent :=
    if pending then { ev with type := .touchUpdate, touchPendingEnd := true } else ev
  have hone : deliverTo DeviceEvent.type deliverTouchEvent none 0 t ev = (t', ev') := by
    rw [deliverTo_eq (by rw [h]; rfl) (by simp) (retrieve_eq hl' (.inl (by rw [he]; decide))),
      deliverTouchEvent]
    simp only [he]
    rw [deliverTouchEndEvent]
    simp only [hl'.notPointer, isOwner_head h, ha, hr, Bool.false_eq_true, if_false, if_true,
      if_neg hwaits, Bool.not_true, Bool.and_false, Bool.or_false, Bool.not_false, Bool.true_and]
    rw [if_pos (decide_eq_true hends), deliverOne_eq (hl.imp_right .inl)]
    by_cases hp : pending
    · rw [if_pos (by exact hcond.mpr hp)]
      rw [setState_head (by exact h)]
      simp only [t', ev', if_pos hp, decide_eq_true hp, Bool.or_true, ha, hr]
    · rw [if_neg (by exact fun hc => hp (hcond.mp hc))]
      rw [setState_head (by exact h)]
      simp only [t', ev', if_neg hp, decide_eq_false hp, Bool.or_false]
  have hty : ev'.type = if pending then .touchUpdate else .touchEnd := by
    by_cases hp : pending
    · simp only [ev', if_pos hp]
    · simp only [ev', if_neg hp, he]
  refine ⟨ev', ?_, hty⟩
  rw [hlen, deliverFrom_succ, hone]
  by_cases hp : pending
  · have hrest := updates_from (t := t') (a := []) (b := rest) rfl ?_ (fun x hx => ?_)
      (hty.trans (if_pos hp))
    · exact hrest
    · rw [h] at hn
      exact hn
    · exact ht x (h ▸ mem_cons_of_mem l hx)
  · obtain rfl : rest = [] := not_not.mp fun hne => hp (.inl hne)
    simp [deliverFrom, t', wanting, ids, tell]

theorem endOne_eq (h : t.listeners = a ++ l :: b) (hn : (ids t.listeners).Nodup) (hl : l.Touches)
    (hh : l.state ≠ .awaitingBegin →
      l.grab.isSome = true ∨ t.numGrabs = 0 ∨ l.xi2mask.touchOwnership = true)
    (he : ev.type = .touchEnd)
    (hr : ev.touchReject = true ∨ ev.touchAccept = true ∧ a ≠ []) (hs : l.state ≠ .hasEnd) :
    (deliverFrom DeviceEvent.type deliverTouchEvent (some l.listener) t.listeners.length 0 t ev).1 =
      { t with
        listeners := a ++ { l with state := .hasEnd } :: b
        sent := t.sent ++
          tell .touchEnd (if l.state = .awaitingBegin then [] else [l.listener]) } := by
  have hone : (t.deliverTouchEvent ev a.length l l.xi2mask).1 = { t with
        listeners := a ++ { l with state := .hasEnd } :: b
        sent := t.sent ++
          tell .touchEnd (if l.state = .awaitingBegin then [] else [l.listener]) } := by
    rw [deliverTouchEvent]
    simp only [he]
    rw [deliverTouchEndEvent]
    simp only [hl.notPointer, Bool.false_eq_true, if_false]
    by_cases hw : l.state = .awaitingBegin
    · rw [if_pos hw, if_pos hw, setState_eq h, tell, map_nil, append_nil]
    · have hnow : (ev.touchReject || (ev.touchAccept && !t.touchResourceIsOwner l.listener)) =
          true := by
        rcases hr with hr | ⟨hacc, hne⟩
        · rw [hr, Bool.true_or]
        · obtain ⟨y, a', rfl⟩ := exists_cons_of_ne_nil hne
          have hother : l.listener ≠ y.listener := by
            rw [h] at hn
            exact fun heq => (ids_nodup hn).1 y mem_cons_self heq.symm
          rw [isOwner_other h hother, hacc]
          exact Bool.or_true _
      rw [if_neg hw, if_neg hw, if_pos hnow, if_pos hs, deliverOne_eq (hh hw)]
      exact setState_eq (by exact h) .hasEnd
  rw [deliverFrom_one h hn (retrieve_eq hl (.inl (by rw [he]; decide))), hone]
  rw [hone, h]
  simp only [ids, map_append, map_cons]

theorem endOwner_eq (h : t.listeners = l :: rest)
    (hn : (ids t.listeners).Nodup) (hl : l.Touches) (he : ev.type = .touchEnd)
    (ha : ev.touchAccept = true) (hr : ev.touchReject = false) (hs : l.state = .hasEnd) :
    (deliverFrom DeviceEvent.type deliverTouchEvent (some l.listener) t.listeners.length 0 t ev).1 =
      t := by
  have hone : t.deliverTouchEvent ev 0 l l.xi2mask = (t, ev) := by
    rw [deliverTouchEvent]
    simp only [he]
    rw [deliverTouchEndEvent]
    simp only [hl.notPointer, isOwner_head h, hs, ha, hr, Bool.false_eq_true, if_false]
    simp
  rw [deliverFrom_one (a := []) h hn (retrieve_eq hl (.inl (by rw [he]; decide))), length_nil, hone]
  rw [length_nil, hone]

def waiting (l : Listener) : Listener :=
  { l with state := if l.xi2mask.touchOwnership then .awaitingOwner else .awaitingBegin }

def owning (l : Listener) : Listener :=
  { l with state := if l.type = .regular then .hasAccepted else .isOwner }

theorem begin_from (h : t.listeners = l :: a ++ b)
    (hn : (ids t.listeners).Nodup) (hb : ∀ x ∈ b, x.Touches) (he : ev.type = .touchBegin) :
    deliverFrom DeviceEvent.type deliverTouchEvent none b.length (l :: a).length t ev = ({ t with
        listeners := l :: a ++ b.map waiting
        sent := t.sent ++ tell .touchBegin (wanting b) }, ev) := by
  induction b generalizing t a with
  | nil => simp [deliverFrom, wanting, ids, tell, ← h]
  | cons x b ih =>
    have hx := hb x mem_cons_self
    have hother : t.touchResourceIsOwner x.listener = false := by
      refine isOwner_other h fun heq => ?_
      rw [h, cons_append] at hn
      exact (nodup_cons.mp hn).1 (heq ▸ List.mem_map_of_mem (by simp))
    let t' : Point := { t with
      listeners := l :: (a ++ [waiting x]) ++ b
      sent := t.sent ++ tell .touchBegin (wanting [x]) }
    have hone : deliverTo DeviceEvent.type deliverTouchEvent none (l :: a).length t ev = (t', ev) := by
      rw [deliverTo_eq (by rw [h]; simp) (by simp)
        (retrieve_eq hx (.inl (by rw [he]; decide))), deliverTouchEvent]
      simp only [he]
      rw [deliverTouchBeginEvent]
      simp only [hx.notPointer, hother, Bool.false_or, Bool.false_eq_true, if_false, Bool.not_false,
        if_true]
      by_cases ho : x.xi2mask.touchOwnership = true
      · rw [if_pos ho, deliverOne_eq (.inr (.inr ho)), setState_eq (by exact h)]
        simp [t', wanting, ids, ho, waiting]
      · rw [if_neg ho, setState_eq (by exact h)]
        simp [t', wanting, ids, ho, waiting, tell]
    have hids : ids t'.listeners = ids t.listeners := by
      rw [h]
      simp [t', ids, waiting]
    have hrest := ih (t := t') (a := a ++ [waiting x]) rfl (hids ▸ hn)
      fun y hy => hb y (mem_cons_of_mem x hy)
    rw [show (l :: (a ++ [waiting x])).length = (l :: a).length + 1 by simp] at hrest
    have hsplit : tell .touchBegin (wanting (x :: b)) =
        tell .touchBegin (wanting [x]) ++ tell .touchBegin (wanting b) := by
      rw [← tell_append, ← wanting_append, singleton_append]
    rw [length_cons, deliverFrom_succ, hone, hrest, hsplit, ← append_assoc]
    simp [t']

theorem beginOwner_eq (h : t.listeners = l :: rest) (hn : (ids t.listeners).Nodup)
    (hl : l.Touches) (hh : l.grab.isSome = true ∨ t.numGrabs = 0) :
    t.deliverTouchBeginEvent 0 l l.xi2mask = { t with
        listeners := owning l :: rest
        sent := t.sent ++ tell .touchBegin [l.listener] ++ tell .touchOwnership (wanting [l]) } := by
  rw [deliverTouchBeginEvent]
  simp only [hl.notPointer, isOwner_head h, Bool.true_or, Bool.false_eq_true, if_false, if_true,
    Bool.not_true]
  rw [deliverOne_eq (hh.imp_right .inl)]
  by_cases ho : l.xi2mask.touchOwnership = true
  · rw [if_pos ho, deliverOwnership_eq
      (t := { t with sent := t.sent ++ tell .touchBegin [l.listener] }) h hn hl ho,
      setState_head (by rfl)]
    simp [wanting, ids, ho, owning]
  · rw [if_neg ho, setState_head (by exact h)]
    simp [wanting, ids, ho, owning, tell]

theorem begin_eq (h : t.listeners = l :: rest) (hn : (ids t.listeners).Nodup)
    (ht : ∀ x ∈ t.listeners, x.Touches) (hl : l.grab.isSome = true ∨ t.numGrabs = 0)
    (he : ev.type = .touchBegin) :
    deliverFrom DeviceEvent.type deliverTouchEvent none t.listeners.length 0 t ev = ({ t with
        listeners := owning l :: rest.map waiting
        sent := t.sent ++ tell .touchBegin [l.listener] ++ tell .touchOwnership (wanting [l]) ++
          tell .touchBegin (wanting rest) }, ev) := by
  have hl' : l.Touches := ht l (h ▸ mem_cons_self)
  have hlen : t.listeners.length = rest.length + 1 := congrArg length h
  let t' : Point := { t with
    listeners := owning l :: rest
    sent := t.sent ++ tell .touchBegin [l.listener] ++ tell .touchOwnership (wanting [l]) }
  have hone : deliverTo DeviceEvent.type deliverTouchEvent none 0 t ev = (t', ev) := by
    rw [deliverTo_eq (by rw [h]; rfl) (by simp) (retrieve_eq hl' (.inl (by rw [he]; decide))),
      deliverTouchEvent]
    simp only [he]
    rw [beginOwner_eq h hn hl' hl]
  have hids : ids t'.listeners = ids t.listeners := by
    rw [h]
    rfl
  have hrest := begin_from (t := t') (a := []) (b := rest) rfl (hids ▸ hn)
    (fun x hx => ht x (h ▸ mem_cons_of_mem l hx)) he
  rw [hlen, deliverFrom_succ, hone]
  exact hrest

theorem push_replaying (h : ev.touchReplaying = true) : t.touchEventHistoryPush ev = t := by
  rw [touchEventHistoryPush]
  split
  · rfl
  · rw [h, Bool.or_true, if_pos rfl, ite_self, ite_self]

theorem replayBegin_eq {e : DeviceEvent} (h : t.listeners = l :: rest)
    (hn : (ids t.listeners).Nodup) (hl : l.Touches)
    (hh : l.grab.isSome = true ∨ t.numGrabs = 0) (hactive : t.active = true)
    (htrace : t.spriteTraceGood ≠ 0) (he : e.type = .touchBegin) (hr : e.touchReplaying = true) :
    t.processTouchEvent e (some l.listener) = { t with
        listeners := owning l :: rest
        sent := t.sent ++ tell .touchBegin [l.listener] ++ tell .touchOwnership (wanting [l]) } := by
  have hone : t.deliverTouchEvent e 0 l l.xi2mask = (t.deliverTouchBeginEvent 0 l l.xi2mask, e) := by
    rw [deliverTouchEvent]
    simp only [he]
  rw [beginOwner_eq h hn hl hh] at hone
  rw [processTouchEvent, if_neg (by rw [hactive]; decide),
    if_neg fun hc => htrace hc.2, deliverTouchEvents, push_replaying hr,
    deliverFrom_one (a := []) h hn (retrieve_eq hl (.inl (by rw [he]; decide))), length_nil,
    hone]
  · dsimp only
    rw [he, if_neg (by decide)]
  · rw [length_nil, hone, h]
    rfl

theorem replayUpdate_eq (h : t.listeners = l :: rest)
    (hn : (ids t.listeners).Nodup) (hl : l.Touches)
    (hh : l.grab.isSome = true ∨ t.numGrabs = 0) (hactive : t.active = true)
    (htrace : t.spriteTraceGood ≠ 0) (he : ev.type = .touchUpdate) (hr : ev.touchReplaying = true) :
    t.processTouchEvent ev (some l.listener) =
      { t with sent := t.sent ++ tell .touchUpdate [l.listener] } := by
  have hone : t.deliverTouchEvent ev 0 l l.xi2mask =
      ({ t with sent := t.sent ++ tell .touchUpdate [l.listener] }, ev) := by
    rw [deliverTouchEvent]
    simp only [he, hl.notPointer, isOwner_head h, Bool.true_or, Bool.false_eq_true, if_false,
      if_true]
    rw [deliverOne_eq (hh.imp_right .inl)]
  rw [processTouchEvent, if_neg (by rw [hactive]; decide),
    if_neg fun hc => htrace hc.2, deliverTouchEvents, push_replaying hr,
    deliverFrom_one (a := []) h hn (retrieve_eq hl (.inl (by rw [he]; decide))), length_nil,
    hone]
  · dsimp only
    rw [he, if_neg (by decide)]
  · rw [length_nil, hone]

theorem replayUpdates_eq {u : List DeviceEvent} (h : t.listeners = l :: rest)
    (hn : (ids t.listeners).Nodup) (hl : l.Touches)
    (hh : l.grab.isSome = true ∨ t.numGrabs = 0) (hactive : t.active = true)
    (htrace : t.spriteTraceGood ≠ 0)
    (hus : ∀ v ∈ u, v.type = .touchUpdate ∧ v.touchReplaying = true) :
    u.foldl (fun t ev => t.processTouchEvent ev (some l.listener)) t =
      { t with sent := t.sent ++ u.map fun _ => (l.listener, .touchUpdate) } := by
  induction u generalizing t with
  | nil => simp
  | cons v u ih =>
    obtain ⟨hu, hr⟩ := hus v mem_cons_self
    have hrest := ih (t := { t with sent := t.sent ++ tell .touchUpdate [l.listener] }) h hn hh
      hactive htrace fun w hw => hus w (mem_cons_of_mem v hw)
    rw [foldl_cons, replayUpdate_eq h hn hl hh hactive htrace hu hr, hrest]
    simp [tell]

def Replayable (history : Option (List DeviceEvent)) : Prop :=
  ∃ e us, history = some (e :: us) ∧ e.type = .touchBegin ∧ ∀ u ∈ us, u.type = .touchUpdate

theorem replay_eq (h : t.listeners = l :: rest) (hn : (ids t.listeners).Nodup) (hl : l.Touches)
    (hh : l.grab.isSome = true ∨ t.numGrabs = 0) (hactive : t.active = true)
    (htrace : t.spriteTraceGood ≠ 0) (ho : l.xi2mask.touchOwnership = false)
    (hhist : Replayable t.history) :
    ∃ history n, Replayable history ∧ t.touchEventHistoryReplay l.listener = { t with
        listeners := owning l :: rest
        history := history
        sent := t.sent ++ tell .touchBegin [l.listener] ++
          tell .touchUpdate (replicate n l.listener) } := by
  obtain ⟨e, us, hhist, he, hus⟩ := hhist
  refine ⟨some ((e :: us).map replaying), us.length, ⟨_, _, rfl, he, ?_⟩, ?_⟩
  · intro u hu
    obtain ⟨v, hv, rfl⟩ := List.mem_map.mp hu
    exact hus v hv
  · have hids : ids (owning l :: rest) = ids t.listeners := by
      rw [h]
      rfl
    have hbegin := replayBegin_eq (e := e.replaying)
      (t := { t with history := some ((e :: us).map replaying) }) h hn hl hh hactive
      htrace he rfl
    have hupdates := replayUpdates_eq (l := owning l)
      (u := us.map replaying)
      (t := { t with
        listeners := owning l :: rest
        history := some ((e :: us).map replaying)
        sent := t.sent ++ tell .touchBegin [l.listener] ++ tell .touchOwnership (wanting [l]) })
      rfl (hids ▸ hn) hl hh hactive htrace fun u hu => ?_
    · rw [touchEventHistoryReplay, hhist]
      dsimp only
      rw [map_cons, foldl_cons]
      rw [map_cons] at hbegin hupdates
      rw [hbegin]
      refine hupdates.trans ?_
      simp [tell, wanting, ids, ho, owning, Function.comp_def]
    · obtain ⟨v, hv, rfl⟩ := List.mem_map.mp hu
      exact ⟨hus v hv, rfl⟩

theorem push_end (h : ev.type = .touchEnd) : t.touchEventHistoryPush ev = t := by
  rw [touchEventHistoryPush]
  split
  · rfl
  · rw [if_pos (by rw [h]; decide)]

theorem emitOne_eq {accept reject : Bool} (h : t.listeners = a ++ l :: b)
    (hn : (ids t.listeners).Nodup) (hl : l.Touches)
    (hh : l.state ≠ .awaitingBegin →
      l.grab.isSome = true ∨ t.numGrabs = 0 ∨ l.xi2mask.touchOwnership = true)
    (hr : reject = true ∨ accept = true ∧ a ≠ []) (hs : l.state ≠ .hasEnd) :
    t.touchEmitTouchEnd accept reject (some l.listener) = { t with
        listeners := a ++ { l with state := .hasEnd } :: b
        sent := t.sent ++
          tell .touchEnd (if l.state = .awaitingBegin then [] else [l.listener]) } := by
  rw [touchEmitTouchEnd, deliverTouchEvents, push_end rfl]
  exact endOne_eq h hn hl hh rfl hr hs

theorem find_eq (h : t.listeners = a ++ l :: b) (hn : (ids t.listeners).Nodup) :
    t.listeners.find? (fun x => x.listener = l.listener) = some l := by
  have ha : ∀ x ∈ a, ¬ decide (x.listener = l.listener) = true := by
    simpa using (ids_nodup (h ▸ hn)).1
  rw [h, find?_append, find?_eq_none.mpr ha, none_or, find?_cons_of_pos (by simp)]

theorem remove_eq (h : t.listeners = a ++ l :: b) (hn : (ids t.listeners).Nodup) :
    t.touchRemoveListener l.listener = { t with
        listeners := a ++ b
        numGrabs := if l.grab.isSome then t.numGrabs - 1 else t.numGrabs } := by
  have ha : ∀ x ∈ a, ¬ decide (x.listener = l.listener) = true := by
    simpa using (ids_nodup (h ▸ hn)).1
  rw [touchRemoveListener, find_eq h hn]
  rw [h, eraseP_append_right _ ha, eraseP_cons_of_pos (by simp)]

end Point

end Xfront.Touch.Delivery
