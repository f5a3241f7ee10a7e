import Xfront.Touch.Deliveries

/-!
# The listeners of a touch while it lasts

The first listener owns the touch, the others wait, and those that are gone have had their
end.
-/

namespace Xfront.Touch.Delivery

open List Option
open Resource (XID Limits)
open Point

variable {all acc : List XID} {t : Point} {l : Listener} {a b rest : List Listener} {p : Phase}

/-- A listener that waits: told that the touch has begun if it wants ownership events. Among
`acc` are the listeners that have accepted. -/
structure Waits (sent : Sent) (history : Option (List DeviceEvent)) (acc : List XID)
    (l : Listener) : Prop where
  told : l.xi2mask.touchOwnership = true →
    (l.state = .awaitingOwner ∨ l.state = .earlyAccept) ∧ phase sent l.listener = some .begun
  untold : l.xi2mask.touchOwnership = false →
    l.state = .awaitingBegin ∧ phase sent l.listener = some .fresh ∧ Replayable history
  accepted : l.state ≠ .earlyAccept → l.listener ∉ acc

def Settled (sent : Sent) (r : XID) : Prop :=
  phase sent r = some .fresh ∨ phase sent r = some .ended

structure Base (all : List XID) (t : Point) : Prop where
  nodup : (ids t.listeners).Nodup
  sub : (ids t.listeners).Sublist all
  grabs : t.numGrabs = t.listeners.countP fun l => l.grab.isSome
  touches : ∀ l ∈ t.listeners, l.Touches
  order : t.listeners.Pairwise fun l _ => l.type = .grab
  active : t.active = true
  trace : t.spriteTraceGood ≠ 0
  gone : ∀ r, r ∉ ids t.listeners → Settled t.sent r

structure Led (all acc : List XID) (t : Point) (l : Listener) (rest : List Listener) (p : Phase) :
    Prop extends Base all t where
  listeners : t.listeners = l :: rest
  waits : ∀ x ∈ rest, Waits t.sent t.history acc x
  owners : (owned t.sent ++ ids rest).Sublist all
  owner : phase t.sent l.listener = some p

structure Owns (all acc : List XID) (t : Point) (l : Listener) (rest : List Listener) :
    Prop extends Led all acc t l rest .begun where
  state : l.state = .isOwner ∨ l.state = .hasAccepted ∧ rest = []

structure Ends (all acc : List XID) (t : Point) (l : Listener) (rest : List Listener) :
    Prop extends Led all acc t l rest .ended where
  state : l.state = .hasEnd
  grab : l.type = .grab

structure Over (all : List XID) (t : Point) : Prop where
  inactive : t.active = false
  none : t.listeners = []
  settled : ∀ r, Settled t.sent r
  owners : (owned t.sent).Sublist all

def Unaccepted (acc : List XID) (l : Listener) : Prop :=
  l.type = .grab → l.state ≠ .hasAccepted → l.listener ∉ acc

inductive Stage (all acc : List XID) (t : Point) : Prop
  | owns (l : Listener) (rest : List Listener) (owns : Owns all acc t l rest)
      (unaccepted : Unaccepted acc l) (lasts : t.pendingFinish = false)
  | ends (l : Listener) (rest : List Listener) (ends : Ends all acc t l rest)
      (unaccepted : l.listener ∉ acc) (finishes : t.pendingFinish = true)
  | idle (active : t.active = true) (none : t.listeners = []) (lasts : t.pendingFinish = false)
      (silent : t.sent = [])
  | finished (isOver : Over all t)

theorem Listener.Touches.grab_isSome (h : l.Touches) : l.grab.isSome = true ↔ l.type = .grab := by
  rcases h.2 with ⟨hl, g, hg, -⟩ | ⟨hl, hg⟩
  · simp [hl, hg]
  · simp [hl, hg]

theorem Base.alone (h : Base all t) (hl : t.listeners = l :: rest) (hne : l.type ≠ .grab) :
    rest = [] := by
  cases rest with
  | nil => rfl
  | cons x rest =>
    have horder := h.order
    rw [hl, pairwise_cons] at horder
    exact absurd (horder.1 x mem_cons_self) hne

theorem Base.heard (h : Base all t) (hl : t.listeners = l :: rest) :
    l.grab.isSome = true ∨ t.numGrabs = 0 := by
  by_cases hg : l.grab.isSome = true
  · exact .inl hg
  · have ht := h.touches l (hl ▸ mem_cons_self)
    rw [h.grabs, hl, h.alone hl fun heq => hg (ht.grab_isSome.mpr heq)]
    exact .inr (by simpa using hg)

theorem Base.grabs_ne (h : Base all t) (hl : t.listeners = l :: rest)
    (hg : l.grab.isSome = true) : t.numGrabs ≠ 0 := by
  rw [h.grabs, hl]
  exact ne_of_gt (countP_pos_iff.mpr ⟨l, mem_cons_self, hg⟩)

variable {sent : Sent} {history : Option (List DeviceEvent)}

theorem Waits.notEnd (h : Waits sent history acc l) : l.state ≠ .hasEnd := by
  intro heq
  cases ho : l.xi2mask.touchOwnership with
  | true =>
    have hs := (h.told ho).1
    rw [heq] at hs
    rcases hs with hs | hs <;> cases hs
  | false =>
    have hs := (h.untold ho).1
    rw [heq] at hs
    cases hs

theorem Waits.awaiting
    (h : Waits sent history acc l) : l.state = .awaitingBegin ↔ l.xi2mask.touchOwnership = false := by
  constructor
  · intro heq
    by_contra ho
    have hs := (h.told (Bool.not_eq_false _ ▸ ho)).1
    rw [heq] at hs
    rcases hs with hs | hs <;> cases hs
  · exact fun ho => (h.untold ho).1

theorem Waits.same {sent' : Sent} {history' : Option (List DeviceEvent)}
    (h : Waits sent history acc l) (hp : phase sent' l.listener = phase sent l.listener)
    (hh : Replayable history → Replayable history') : Waits sent' history' acc l :=
  ⟨fun ho => ⟨(h.told ho).1, hp.trans (h.told ho).2⟩,
    fun ho => ⟨(h.untold ho).1, hp.trans (h.untold ho).2.1, hh (h.untold ho).2.2⟩, h.accepted⟩

theorem Settled.same {sent' : Sent} {r : XID} (h : Settled sent r)
    (hp : phase sent' r = phase sent r) : Settled sent' r := by
  rw [Settled, hp]
  exact h

theorem owned_tell {type : EventType} (rs : List XID) (h : type ≠ .touchOwnership) :
    owned (tell type rs) = [] := by
  refine owned_eq_nil fun e he => ?_
  obtain ⟨r, -, rfl⟩ := List.mem_map.mp he
  exact h

theorem over_end (hs : ∀ r, Settled t.sent r) (ho : (owned t.sent).Sublist all) :
    Over all t.touchEndTouch :=
  ⟨rfl, rfl, hs, ho⟩

theorem Base.apart (h : Base all t) (hl : t.listeners = l :: rest) :
    ∀ x ∈ rest, l.listener ≠ x.listener := by
  have hn := h.nodup
  rw [hl] at hn
  exact fun x hx heq => (ids_nodup (a := []) hn).2 x hx heq.symm

variable {t' : Point} {state : TouchListenerState}

theorem Base.relabel (h : Base all t) (hl : t.listeners = l :: rest)
    (hlist : t'.listeners = { l with state := state } :: rest)
    (hnum : t'.numGrabs = t.numGrabs) (hactive : t'.active = t.active)
    (htrace : t'.spriteTraceGood = t.spriteTraceGood)
    (hp : ∀ r, l.listener ≠ r → phase t'.sent r = phase t.sent r) : Base all t' := by
  have hids : ids t'.listeners = ids t.listeners := by
    rw [hlist, hl]
    rfl
  refine ⟨hids ▸ h.nodup, hids ▸ h.sub, ?_, ?_, ?_, hactive.trans h.active, htrace ▸ h.trace, ?_⟩
  · rw [hnum, h.grabs, hlist, hl]
    rfl
  · have ht := h.touches
    rw [hl] at ht
    obtain ⟨hl', hrest⟩ := forall_mem_cons.mp ht
    rw [hlist]
    exact forall_mem_cons.mpr ⟨hl', hrest⟩
  · have horder := h.order
    rw [hl] at horder
    obtain ⟨hl', hrest⟩ := pairwise_cons.mp horder
    rw [hlist]
    exact pairwise_cons.mpr ⟨hl', hrest⟩
  · intro r hr
    rw [hids, hl] at hr
    exact (h.gone r (hl ▸ hr)).same (hp r fun heq => hr (heq ▸ mem_cons_self))

theorem Led.frame {p' : Phase} (h : Led all acc t l rest p)
    (state : TouchListenerState) (hlist : t'.listeners = { l with state := state } :: rest)
    (hnum : t'.numGrabs = t.numGrabs) (hactive : t'.active = t.active)
    (htrace : t'.spriteTraceGood = t.spriteTraceGood)
    (hp : ∀ r, phase t'.sent r = if l.listener = r then some p' else phase t.sent r)
    (ho : owned t'.sent = owned t.sent) (hh : Replayable t.history → Replayable t'.history) :
    Led all acc t' { l with state := state } rest p' := by
  refine ⟨h.relabel h.listeners hlist hnum hactive htrace fun r hr => by rw [hp, if_neg hr], hlist,
    fun x hx => ?_, ho ▸ h.owners, by rw [hp, if_pos rfl]⟩
  exact (h.waits x hx).same (by rw [hp, if_neg (h.apart h.listeners x hx)]) hh

theorem wanting_begun
    (h : ∀ x ∈ rest, Waits sent history acc x) : ∀ r ∈ wanting rest, phase sent r = some .begun := by
  intro r hr
  obtain ⟨x, hx, rfl⟩ := List.mem_map.mp hr
  obtain ⟨hx, ho⟩ := mem_filter.mp hx
  exact ((h x hx).told ho).2

theorem push_replayable {ev : DeviceEvent} (he : ev.type = .touchUpdate)
    (h : Replayable t.history) : Replayable (t.touchEventHistoryPush ev).history := by
  obtain ⟨e, us, hhist, hbegin, hus⟩ := h
  have hsame : Replayable t.history := ⟨e, us, hhist, hbegin, hus⟩
  rw [touchEventHistoryPush, hhist]
  dsimp only
  rw [if_neg (by rw [he]; decide), if_neg (by simp [he])]
  split
  · exact hsame
  · refine ⟨e, (us ++ [ev]).take 98, rfl, hbegin, fun u hu => ?_⟩
    rcases mem_append.mp (mem_of_mem_take hu) with hu | hu
    · exact hus u hu
    · rw [mem_singleton.mp hu, he]

theorem Led.update (h : Led all acc t l rest .begun) {e : DeviceEvent}
    (he : e.type = .touchUpdate) : Led all acc (t.processTouchEvent e none) l rest .begun ∧
      (t.processTouchEvent e none).pendingFinish = t.pendingFinish := by
  let t' := t.touchEventHistoryPush e
  have ht' : t' = { t with history := t'.history } := push_listeners e
  have hlist : t'.listeners = t.listeners := by rw [ht']
  have hnum : t'.numGrabs = t.numGrabs := by rw [ht']
  have hsent : t'.sent = t.sent := by rw [ht']
  have hupdate := update_eq (t := t') (hlist ▸ h.listeners) (hlist ▸ h.nodup)
    (hlist ▸ h.touches) (hnum ▸ h.toBase.heard h.listeners) he
  have hresult : t.processTouchEvent e none =
      { t' with sent := t'.sent ++ tell .touchUpdate (l.listener :: wanting rest) } := by
    rw [processTouchEvent, if_neg (by rw [h.active]; decide), if_neg fun hc => h.trace hc.2,
      deliverTouchEvents, hupdate]
    dsimp only
    rw [he, if_neg (by decide)]
  have hbegun : ∀ r ∈ l.listener :: wanting rest, phase t'.sent r = some .begun := by
    rw [hsent]
    exact forall_mem_cons.mpr ⟨h.owner, wanting_begun h.waits⟩
  rw [hresult]
  refine ⟨h.frame l.state (hlist.trans h.listeners) hnum (by rw [ht']) (by rw [ht']) (fun r => ?_)
    ?_ (push_replayable he), by rw [ht']⟩
  · have hp := phase_updates hbegun r
    rw [hsent] at hp
    dsimp only
    rw [hsent]
    refine hp.trans ?_
    split
    · next heq => rw [← heq, h.owner]
    · rfl
  · dsimp only
    rw [owned_append, owned_tell _ (by decide), append_nil, hsent]

theorem Owns.end (h : Owns all acc t l rest) {e : DeviceEvent} (he : e.type = .touchEnd)
    (ha : e.touchAccept = false) (hr : e.touchReject = false) :
    let r := t.deliverTouchEvents e none
    let pending := rest ≠ [] ∨ t.numGrabs > 0 ∧ l.state ≠ .hasAccepted
    (pending → Ends all acc r.1 { l with state := .hasEnd } rest ∧ r.1.pendingFinish = true ∧
        r.2.type = .touchUpdate) ∧
      (¬ pending → Over all r.1.touchEndTouch ∧ r.1.listeners = [{ l with state := .hasEnd }] ∧
        r.1.numGrabs = t.numGrabs ∧ r.1.pendingFinish = t.pendingFinish ∧
        r.2.type = .touchEnd) := by
  intro r pending
  have hstate : l.state = .isOwner ∨ l.state = .hasAccepted := h.state.imp_right And.left
  obtain ⟨ev', hend, hty⟩ := end_eq h.listeners h.nodup h.touches (h.heard h.listeners) hstate he ha
    hr
  have hr' : r = deliverFrom DeviceEvent.type deliverTouchEvent none t.listeners.length 0 t e := by
    show deliverTouchEvents t e none = _
    rw [deliverTouchEvents, push_end he]
  have hmoved : ∀ r, phase (t.sent ++ tell .touchEnd [l.listener]) r =
      if l.listener = r then some .ended else phase t.sent r := phase_moved h.owner rfl
  have hother : ∀ r ∈ wanting rest, l.listener ≠ r := by
    intro r hr heq
    obtain ⟨x, hx, rfl⟩ := List.mem_map.mp hr
    have hn := h.nodup
    rw [h.listeners] at hn
    exact (ids_nodup (a := []) hn).2 x (mem_filter.mp hx).1 heq.symm
  have hphase : ∀ r, phase (t.sent ++ tell .touchEnd [l.listener] ++
      tell .touchUpdate (wanting rest)) r =
        if l.listener = r then some .ended else phase t.sent r := fun r => by
    refine (phase_updates (fun r' hr' => ?_) r).trans (hmoved r)
    rw [hmoved, if_neg (hother r' hr')]
    exact wanting_begun h.waits r' hr'
  have howned : owned (t.sent ++ tell .touchEnd [l.listener] ++
      tell .touchUpdate (wanting rest)) = owned t.sent := by
    rw [owned_append, owned_append, owned_tell _ (by decide), owned_tell _ (by decide),
      append_nil, append_nil]
  rw [hr', hend]
  refine ⟨fun hp => ⟨⟨h.frame .hasEnd rfl rfl rfl rfl hphase howned id, rfl, ?_⟩, ?_, ?_⟩,
    fun hp => ⟨over_end (fun r => ?_) ?_, ?_, rfl, ?_, ?_⟩⟩
  · have hl := h.touches l (h.listeners ▸ mem_cons_self)
    by_contra hne
    have hrest := h.alone h.listeners hne
    rcases hp with hp | ⟨hp, -⟩
    · exact hp hrest
    · rw [h.grabs, h.listeners, hrest] at hp
      obtain ⟨x, hx, hgrab⟩ := countP_pos_iff.mp hp
      rw [mem_singleton.mp hx] at hgrab
      exact hne (hl.grab_isSome.mp hgrab)
  · rw [decide_eq_true hp, Bool.or_true]
  · exact hty.trans (if_pos hp)
  · rw [Settled, hphase]
    by_cases heq : l.listener = r
    · rw [if_pos heq]
      exact .inr rfl
    · rw [if_neg heq]
      refine h.gone r fun hr => ?_
      rw [h.listeners, not_not.mp fun hne => hp (.inl hne)] at hr
      exact heq (mem_singleton.mp hr).symm
  · show (owned (t.sent ++ tell .touchEnd [l.listener] ++ tell .touchUpdate _)).Sublist all
    rw [howned]
    exact (sublist_append_left _ _).trans h.owners
  · rw [not_not.mp fun hne => hp (.inl hne)]
  · rw [decide_eq_false hp, Bool.or_false]
  · exact hty.trans (if_neg hp)

structure Next (all acc : List XID) (t : Point) : Prop extends Base all t where
  waits : ∀ x ∈ t.listeners, Waits t.sent t.history acc x
  owners : (owned t.sent ++ ids t.listeners).Sublist all

theorem Next.lead (h : Next all acc t) (hl : t.listeners = l :: rest)
    (hlist : t'.listeners = { l with state := state } :: rest)
    (hnum : t'.numGrabs = t.numGrabs) (hactive : t'.active = t.active)
    (htrace : t'.spriteTraceGood = t.spriteTraceGood)
    (hp : ∀ r, phase t'.sent r = if l.listener = r then some .begun else phase t.sent r)
    (ho : owned t'.sent = owned t.sent ∨ owned t'.sent = owned t.sent ++ [l.listener])
    (hh : Replayable t.history → Replayable t'.history) :
    Led all acc t' { l with state := state } rest .begun := by
  refine ⟨h.relabel hl hlist hnum hactive htrace fun r hr => by rw [hp, if_neg hr], hlist,
    fun x hx => ?_, ?_, by rw [hp, if_pos rfl]⟩
  · have hw := h.waits x (hl ▸ mem_cons_of_mem l hx)
    exact hw.same (by rw [hp, if_neg (h.apart hl x hx)]) hh
  · have howners := h.owners
    rw [hl] at howners
    rcases ho with ho | ho
    · rw [ho]
      exact ((sublist_cons_self _ _).append_left _).trans howners
    · rw [ho, append_assoc]
      exact howners

theorem Next.own (h : Next all acc t) (hl : t.listeners = l :: rest) (L : Limits) :
    ∃ t' state, t.touchPuntToNextOwner L = t'.handOver L l ∧
      Owns all acc t' { l with state := state } rest ∧ t'.pendingFinish = t.pendingFinish ∧
      (l.type = .grab → state ≠ .hasAccepted) := by
  have hw := h.waits l (hl ▸ mem_cons_self)
  have ht := h.touches l (hl ▸ mem_cons_self)
  rw [touchPuntToNextOwner, hl]
  dsimp only
  cases ho : l.xi2mask.touchOwnership with
  | true =>
    obtain ⟨hstate, hbegun⟩ := hw.told ho
    rw [if_pos hstate, deliverOwnership_eq hl h.nodup ht ho]
    refine ⟨_, .isOwner, rfl, ⟨h.lead hl rfl rfl rfl rfl (fun r => ?_) (.inr ?_) id, .inl rfl⟩, rfl,
      fun _ => (nomatch ·)⟩
    · exact phase_moved hbegun rfl r
    · exact owned_append _ _
  | false =>
    obtain ⟨hstate, hfresh, hhist⟩ := hw.untold ho
    obtain ⟨history, n, hhist', hreplay⟩ := replay_eq hl h.nodup ht (h.heard hl) h.active h.trace ho
      hhist
    have hmoved : ∀ r, phase (t.sent ++ tell .touchBegin [l.listener]) r =
        if l.listener = r then some .begun else phase t.sent r := phase_moved hfresh rfl
    rw [if_neg (by rw [hstate]; decide), if_pos hstate, ht.notPointer, if_neg Bool.false_ne_true,
      hreplay]
    refine ⟨_, _, rfl, ⟨h.lead hl rfl rfl rfl rfl (fun r => ?_) (.inl ?_) fun _ => hhist', ?_⟩, rfl,
      ?_⟩
    · refine (phase_updates (fun r' hr' => ?_) r).trans (hmoved r)
      rw [hmoved, if_pos (eq_of_mem_replicate hr').symm]
    · dsimp only
      rw [owned_append, owned_append, owned_tell _ (by decide), owned_tell _ (by decide),
        append_nil, append_nil]
    · dsimp only
      by_cases hreg : l.type = .regular
      · rw [if_pos hreg]
        exact .inr ⟨rfl, h.alone hl (by rw [hreg]; decide)⟩
      · rw [if_neg hreg]
        exact .inl rfl
    · intro hgrab
      rw [if_neg (by rw [hgrab]; decide)]
      decide

theorem emitOthers (hl : t.listeners = l :: a ++ b) (hn : (ids t.listeners).Nodup)
    (hw : ∀ x ∈ b, x.Touches ∧ x.state ≠ .hasEnd ∧
      (x.state = .awaitingBegin ↔ x.xi2mask.touchOwnership = false)) :
    b.foldl (fun t x => t.touchEmitTouchEnd true false (some x.listener)) t = { t with
        listeners := l :: a ++ b.map fun x => { x with state := .hasEnd }
        sent := t.sent ++ tell .touchEnd (wanting b) } := by
  induction b generalizing t a with
  | nil => simp [tell, wanting, ids, ← hl]
  | cons x b ih =>
    obtain ⟨ht, hend, hawait⟩ := hw x mem_cons_self
    have htold : (if x.state = .awaitingBegin then [] else [x.listener]) = wanting [x] := by
      cases ho : x.xi2mask.touchOwnership with
      | true =>
        rw [if_neg fun heq => absurd (hawait.mp heq) (by rw [ho]; decide)]
        simp [wanting, ids, ho]
      | false =>
        rw [if_pos (hawait.mpr ho)]
        simp [wanting, ids, ho]
    have hemit : t.touchEmitTouchEnd true false (some x.listener) = _ :=
      emitOne_eq hl hn ht (fun hne => .inr (.inr ((Bool.not_eq_false _).mp (hne ∘ hawait.mpr))))
        (.inr ⟨rfl, cons_ne_nil l a⟩) hend
    rw [htold] at hemit
    have hrest := ih (t := { t with
        listeners := l :: (a ++ [{ x with state := .hasEnd }]) ++ b
        sent := t.sent ++ tell .touchEnd (wanting [x]) })
      (a := a ++ [{ x with state := .hasEnd }]) rfl ?_
      fun y hy => hw y (mem_cons_of_mem x hy)
    · have hsplit : tell .touchEnd (wanting (x :: b)) =
          tell .touchEnd (wanting [x]) ++ tell .touchEnd (wanting b) := by
        rw [← tell_append, ← wanting_append, singleton_append]
      rw [foldl_cons, hemit, hsplit, ← append_assoc]
      simpa using hrest
    · rw [hl] at hn
      simpa [ids] using hn

theorem removeOthers_eq (hl : t.listeners = l :: b) (hn : (ids t.listeners).Nodup)
    (hg : t.numGrabs = t.listeners.countP fun l => l.grab.isSome) :
    removeOthers b.length t =
      { t with listeners := [l], numGrabs := [l].countP fun l => l.grab.isSome } := by
  induction b generalizing t with
  | nil =>
    rw [length_nil, removeOthers, ← hl, ← hg]
  | cons x b ih =>
    have hremove := remove_eq (a := [l]) (b := b) hl hn
    have hrest := ih (t := t.touchRemoveListener x.listener) ?_ ?_ ?_
    · rw [length_cons, removeOthers, hl]
      dsimp only
      rw [hrest, hremove]
    · rw [hremove]
      rfl
    · rw [hremove]
      rw [hl] at hn
      exact hn.sublist (by simp [ids])
    · rw [hremove, hg, hl]
      simp only [countP_cons, singleton_append]
      split <;> omega

theorem wanting_sublist (ls : List Listener) : (wanting ls).Sublist (ids ls) := filter_sublist.map _

theorem Led.others (h : Led all acc t l rest p) :
    let t' := removeOthers rest.length
      (rest.foldl (fun t x => t.touchEmitTouchEnd true false (some x.listener)) t)
    Led all acc t' l [] p ∧ t'.pendingFinish = t.pendingFinish := by
  intro t'
  have hemit := emitOthers (a := []) (b := rest) h.listeners h.nodup fun x hx =>
    ⟨h.touches x (h.listeners ▸ mem_cons_of_mem l hx), (h.waits x hx).notEnd,
      (h.waits x hx).awaiting⟩
  let emitted : Point := { t with
    listeners := [l] ++ rest.map fun x => { x with state := .hasEnd }
    sent := t.sent ++ tell .touchEnd (wanting rest) }
  have hids : ids emitted.listeners = ids t.listeners := by
    rw [h.listeners]
    simp [emitted, ids]
  have hremove := removeOthers_eq (t := emitted)
    (b := rest.map fun x => { x with state := .hasEnd }) rfl (hids ▸ h.nodup) (by
      show t.numGrabs = _
      rw [h.grabs, h.listeners]
      simp [emitted, countP_cons, countP_map, Function.comp_def])
  have hlen : (rest.map fun x => { x with state := .hasEnd : Listener }).length = rest.length :=
    length_map _
  have ht' : t' = { t with
      listeners := [l]
      numGrabs := [l].countP fun l => l.grab.isSome
      sent := t.sent ++ tell .touchEnd (wanting rest) } := by
    show removeOthers rest.length _ = _
    rw [hemit, ← hlen]
    exact hremove
  have hn := h.nodup
  rw [h.listeners] at hn
  have hrest : (ids rest).Nodup := (nodup_cons.mp hn).2
  have hphase : ∀ r, phase (t.sent ++ tell .touchEnd (wanting rest)) r =
      if r ∈ wanting rest then some .ended else phase t.sent r :=
    phase_each ((wanting_sublist rest).nodup hrest) (wanting_begun h.waits) rfl
  have hlead : phase (t.sent ++ tell .touchEnd (wanting rest)) l.listener = some p := by
    refine (hphase _).trans ?_
    rw [if_neg fun hw => (nodup_cons.mp hn).1 ((wanting_sublist rest).subset hw), h.owner]
  rw [ht']
  refine ⟨⟨⟨?_, ?_, rfl, ?_, ?_, h.active, h.trace, fun r hr => ?_⟩, rfl, ?_, ?_, hlead⟩, rfl⟩
  · exact pairwise_singleton _ _
  · have hsub := h.sub
    rw [h.listeners] at hsub
    exact ((nil_sublist _).cons_cons _).trans hsub
  · exact fun x hx => mem_singleton.mp hx ▸ h.touches l (h.listeners ▸ mem_cons_self)
  · exact pairwise_singleton _ _
  · rw [Settled]
    dsimp only
    rw [hphase]
    by_cases hw : r ∈ wanting rest
    · rw [if_pos hw]
      exact .inr rfl
    · rw [if_neg hw]
      by_cases hin : r ∈ ids rest
      · obtain ⟨x, hx, rfl⟩ := List.mem_map.mp hin
        have ho : x.xi2mask.touchOwnership = false := by
          by_contra hne
          exact hw (List.mem_map_of_mem
            (mem_filter.mpr ⟨hx, (Bool.not_eq_false _).mp hne⟩))
        exact .inl ((h.waits x hx).untold ho).2.1
      · refine h.gone r ?_
        rw [h.listeners]
        exact fun hr' => (mem_cons.mp hr').elim
          (fun heq => hr (mem_singleton.mpr heq)) hin
  · simp
  · dsimp only
    rw [owned_append, owned_tell _ (by decide), append_nil]
    exact (List.Sublist.append_left (nil_sublist _) _).trans h.owners

theorem Owns.accept (h : Owns all acc t l rest) :
    Owns all acc t.processAccept { l with state := .hasAccepted } [] ∧
      t.processAccept.pendingFinish = t.pendingFinish := by
  obtain ⟨hled, hpending⟩ := h.toLed.others
  have hne : l.state ≠ .hasEnd := by
    intro heq
    have hs := h.state
    rw [heq] at hs
    rcases hs with hs | ⟨hs, -⟩ <;> cases hs
  have haccept : t.processAccept = (removeOthers rest.length (rest.foldl
      (fun t x => t.touchEmitTouchEnd true false (some x.listener)) t)).setState 0 .hasAccepted := by
    rw [processAccept, h.listeners]
    dsimp only
    rw [if_neg hne, hled.listeners, head?_cons, any_some, if_neg (by simpa using hne)]
  rw [haccept, setState_head hled.listeners]
  refine ⟨⟨hled.frame .hasAccepted rfl rfl rfl rfl (fun r => ?_) rfl id, .inr ⟨rfl, rfl⟩⟩, hpending⟩
  split
  · next heq => rw [← heq, hled.owner]
  · rfl

theorem Ends.accept (h : Ends all acc t l rest) : Over all t.processAccept := by
  obtain ⟨hled, -⟩ := h.toLed.others
  have howner : t.touchEmitTouchEnd true false (some l.listener) = t := by
    rw [touchEmitTouchEnd, deliverTouchEvents, push_end rfl]
    exact endOwner_eq h.listeners h.nodup (h.touches l (h.listeners ▸ mem_cons_self)) rfl rfl
      rfl h.state
  have haccept : t.processAccept = (removeOthers rest.length (rest.foldl
      (fun t x => t.touchEmitTouchEnd true false (some x.listener)) t)).touchEndTouch := by
    rw [processAccept, h.listeners]
    dsimp only
    rw [if_pos h.state, howner, hled.listeners, head?_cons, any_some,
      if_pos (decide_eq_true h.state)]
  rw [haccept]
  refine over_end (fun r => ?_) ((sublist_append_left _ _).trans hled.owners)
  by_cases heq : r = l.listener
  · rw [heq]
    exact .inr hled.owner
  · refine hled.gone r ?_
    rw [hled.listeners]
    exact fun hr => heq (mem_singleton.mp hr)

variable {L : Limits}

theorem requested_head (hl : t.listeners = l :: rest) :
    t.requested L (L.clientIdForXID l.listener) l.window = some (0, l) := by
  rw [requested, hl, zipIdx_cons, find?_cons_of_pos (by simp)]
  rfl

theorem activateEarlyAccept_eq (hl : t.listeners = l :: rest) (ht : l.Touches) :
    t.activateEarlyAccept L = if l.type = .grab then t.processAccept else t := by
  rw [activateEarlyAccept, hl]
  dsimp only
  rcases ht.2 with ⟨htype, g, hg, hres, -⟩ | ⟨htype, hg⟩
  · rw [htype, hg, if_pos rfl]
    dsimp only
    rw [hres, requested_head hl]
    rfl
  · rw [htype, hg, if_neg (by decide)]

structure Handed (all acc : List XID) (t t' : Point) : Prop where
  stage : Stage all acc t'
  pending : t'.active = true → t'.pendingFinish = t.pendingFinish

theorem Over.handed (h : Over all t') : Handed all acc t t' :=
  ⟨.finished h, fun ha => by rw [h.inactive] at ha; cases ha⟩

theorem Stage.handed (h : Stage all acc t') (hp : t'.pendingFinish = t.pendingFinish) :
    Handed all acc t t' :=
  ⟨h, fun _ => hp⟩

theorem Owns.handOver (h : Owns all acc t { l with state := state } rest) (ht : l.Touches)
    (hstate : l.type = .grab → state ≠ .hasAccepted)
    (hearly : l.state ≠ .earlyAccept → l.listener ∉ acc) : Handed all acc t (t.handOver L l) := by
  have hgrab : (l.grab.any fun g => g.grabtype ≠ .xi2 ∨ !g.xi2mask.touchBegin) = false := by
    rcases ht.2 with ⟨-, g, hg, -, hxi2, hmask⟩ | ⟨-, hg⟩
    · rw [hg, any_some, hxi2, hmask, ht.1]
      decide
    · rw [hg]
      rfl
  rw [Point.handOver]
  cases hp : t.pendingFinish with
  | false =>
    rw [if_neg Bool.false_ne_true, if_neg fun hc => Bool.false_ne_true hc.1]
    split
    · rw [activateEarlyAccept_eq h.listeners ht]
      split
      · obtain ⟨haccept, hsame⟩ := h.accept
        exact (Stage.owns _ _ haccept (fun _ hne => absurd rfl hne) (hsame.trans hp)).handed hsame
      · next hne => exact (Stage.owns _ _ h (fun hg => absurd hg hne) hp).handed rfl
    · next hne => exact (Stage.owns _ _ h (fun _ _ => hearly hne) hp).handed rfl
  | true =>
    rw [if_pos rfl]
    obtain ⟨hpend, hover⟩ := h.end (e := { type := .touchEnd, touchClientID := true }) rfl rfl rfl
    by_cases hpending : rest ≠ [] ∨ t.numGrabs > 0 ∧ state ≠ .hasAccepted
    · have hends : Ends all acc (t.touchEmitTouchEnd false false none)
          { l with state := .hasEnd } rest := (hpend hpending).1
      have hfinish : (t.touchEmitTouchEnd false false none).pendingFinish = true :=
        (hpend hpending).2.1
      have hgrabs : (t.touchEmitTouchEnd false false none).numGrabs ≠ 0 :=
        hends.grabs_ne hends.listeners (ht.grab_isSome.mpr hends.grab)
      rw [if_neg]
      · split
        · rw [activateEarlyAccept_eq hends.listeners ht, if_pos hends.grab]
          exact hends.accept.handed
        · next hne => exact (Stage.ends _ _ hends (hearly hne) hfinish).handed (hfinish.trans hp.symm)
      · rintro ⟨-, -, hnum | hany⟩
        · exact hgrabs hnum
        · rw [hgrab] at hany
          cases hany
    · obtain ⟨hover, hlist, hnum, -⟩ := hover hpending
      obtain ⟨hrest, hno⟩ := not_or.mp hpending
      have hzero : t.numGrabs = 0 := by
        by_contra hpos
        have hacc : state = .hasAccepted := not_not.mp fun hne => hno ⟨Nat.pos_of_ne_zero hpos, hne⟩
        rcases h.toBase.heard h.listeners with hg | hz
        · exact hstate (ht.grab_isSome.mp hg) hacc
        · exact hpos hz
      rw [if_pos]
      · exact hover.handed
      · exact ⟨rfl, by rw [touchEmitTouchEnd, hlist]; rfl, .inl (hnum.trans hzero)⟩

theorem Next.punt (h : Next all acc t) (hl : t.listeners = l :: rest) :
    Handed all acc t (t.touchPuntToNextOwner L) := by
  obtain ⟨t', state, hpunt, howns, hpending, hstate⟩ := h.own hl L
  have hhanded := howns.handOver (L := L) (h.touches l (hl ▸ mem_cons_self)) hstate
    (h.waits l (hl ▸ mem_cons_self)).accepted
  rw [hpunt]
  exact ⟨hhanded.stage, fun ha => (hhanded.pending ha).trans hpending⟩

theorem Led.drop (h : Led all acc t l rest .ended) :
    Next all acc (t.touchRemoveListener l.listener) ∧
      (t.touchRemoveListener l.listener).listeners = rest ∧
      (t.touchRemoveListener l.listener).pendingFinish = t.pendingFinish := by
  have hn := h.nodup
  have hsub := h.sub
  have htouches := h.touches
  have horder := h.order
  have hgrabs := h.grabs
  rw [h.listeners] at hn hsub htouches horder hgrabs
  rw [remove_eq (a := []) h.listeners h.nodup]
  refine ⟨⟨⟨?_, ?_, ?_, ?_, ?_, h.active, h.trace, fun r hr => ?_⟩, h.waits, h.owners⟩, rfl, rfl⟩
  · exact (nodup_cons.mp hn).2
  · exact (sublist_cons_self _ _).trans hsub
  · dsimp only
    rw [hgrabs, countP_cons]
    split <;> simp
  · exact fun x hx => htouches x (mem_cons_of_mem l hx)
  · exact (pairwise_cons.mp horder).2
  · by_cases heq : r = l.listener
    · rw [heq]
      exact .inr h.owner
    · refine h.gone r ?_
      rw [h.listeners]
      exact fun hr' => (mem_cons.mp hr').elim heq hr

theorem Led.rejectEnded (h : Led all acc t l rest .ended) : Handed all acc t (
      if true ∧ (t.touchRemoveListener l.listener).listeners.length > 0 ∧ true then
        (t.touchRemoveListener l.listener).touchPuntToNextOwner L
      else if (t.touchRemoveListener l.listener).listeners.length = 0 then
        (t.touchRemoveListener l.listener).touchEndTouch
      else t.touchRemoveListener l.listener) := by
  obtain ⟨hnext, hlist, hpending⟩ := h.drop
  rw [hlist]
  cases rest with
  | nil =>
    rw [if_neg (by simp), if_pos length_nil]
    refine (over_end (fun r => hnext.gone r ?_) ?_).handed
    · rw [hlist]
      exact not_mem_nil
    · exact (sublist_append_left _ _).trans hnext.owners
  | cons x rest =>
    rw [if_pos (by simp)]
    have hpunt := hnext.punt (L := L) hlist
    exact ⟨hpunt.stage, fun ha => (hpunt.pending ha).trans hpending⟩

theorem Owns.reject (h : Owns all acc t l rest) :
    Handed all acc t (t.touchRejected L l.listener true) := by
  have hne : l.state ≠ .hasEnd ∧ l.state ≠ .awaitingBegin := by
    rcases h.state with hs | ⟨hs, -⟩ <;> rw [hs] <;> decide
  have hemit : t.touchEmitTouchEnd false true (some l.listener) = _ :=
    emitOne_eq (a := []) h.listeners h.nodup (h.touches l (h.listeners ▸ mem_cons_self))
      (fun _ => (h.heard h.listeners).imp_right .inl) (.inl rfl) hne.1
  rw [if_neg hne.2] at hemit
  let ended : Point := { t with
    listeners := { l with state := .hasEnd } :: rest
    sent := t.sent ++ tell .touchEnd [l.listener] }
  have hled : Led all acc ended { l with state := .hasEnd } rest .ended := by
    refine h.frame .hasEnd rfl rfl rfl rfl (fun r => phase_moved h.owner rfl r) ?_ id
    show owned (t.sent ++ tell .touchEnd [l.listener]) = _
    rw [owned_append, owned_tell _ (by decide), append_nil]
  have hhanded := hled.rejectEnded (L := L)
  rw [touchRejected, find_eq (a := []) h.listeners h.nodup, isOwner_head h.listeners]
  simp only [any_some, decide_eq_true hne.1, if_true, hemit]
  simp only [true_and, and_true] at hhanded ⊢
  exact ⟨hhanded.stage, hhanded.pending⟩

theorem Ends.reject (h : Ends all acc t l rest) :
    Handed all acc t (t.touchRejected L l.listener true) := by
  have hhanded := h.toLed.rejectEnded (L := L)
  rw [touchRejected, find_eq (a := []) h.listeners h.nodup, isOwner_head h.listeners]
  simp only [any_some, h.state, ne_eq, not_true, decide_false, Bool.false_eq_true, if_false]
  simp only [true_and, and_true] at hhanded ⊢
  exact hhanded

theorem Led.rejectOther {x : Listener} (h : Led all acc t l (a ++ x :: b) p) :
    Led all acc (t.touchRejected L x.listener false) l (a ++ b) p ∧
      (t.touchRejected L x.listener false).pendingFinish = t.pendingFinish := by
  have hx : x ∈ a ++ x :: b := mem_append_right a mem_cons_self
  have hw := h.waits x hx
  have hlist : t.listeners = (l :: a) ++ x :: b := h.listeners
  have hn := h.nodup
  rw [hlist] at hn
  obtain ⟨hbefore, hafter⟩ := ids_nodup hn
  have hemit : t.touchEmitTouchEnd false true (some x.listener) = _ :=
    emitOne_eq hlist h.nodup (h.touches x (h.listeners ▸ mem_cons_of_mem l hx))
      (fun hne => .inr (.inr ((Bool.not_eq_false _).mp (hne ∘ hw.awaiting.mpr)))) (.inl rfl)
      hw.notEnd
  let sent := t.sent ++ tell .touchEnd (if x.state = .awaitingBegin then [] else [x.listener])
  let emitted : Point := { t with
    listeners := (l :: a) ++ { x with state := .hasEnd } :: b
    sent := sent }
  have hremove := remove_eq (t := emitted) (l := { x with state := .hasEnd }) rfl (by
    rw [show ids emitted.listeners = ids ((l :: a) ++ x :: b) by simp [emitted, ids]]
    exact hn)
  have hphase : ∀ r, x.listener ≠ r → phase sent r = phase t.sent r := by
    intro r hr
    by_cases hs : x.state = .awaitingBegin
    · simp only [sent, if_pos hs, tell, map_nil, append_nil]
    · simp only [sent, if_neg hs]
      refine (phase_snoc t.sent (x.listener, .touchEnd) r).trans (if_neg hr)
  have hsettled : Settled sent x.listener := by
    by_cases hs : x.state = .awaitingBegin
    · simp only [sent, if_pos hs, tell, map_nil, append_nil]
      exact .inl (hw.untold (hw.awaiting.mp hs)).2.1
    · simp only [sent, if_neg hs]
      have hbegun := (hw.told ((Bool.not_eq_false _).mp (hs ∘ hw.awaiting.mpr))).2
      exact .inr ((phase_moved hbegun rfl x.listener).trans (if_pos rfl))
  have howned : owned sent = owned t.sent := by
    simp only [sent]
    rw [owned_append, owned_tell _ (by decide), append_nil]
  have hresult : t.touchRejected L x.listener false = { t with
      listeners := (l :: a) ++ b
      numGrabs := if x.grab.isSome then t.numGrabs - 1 else t.numGrabs
      sent := sent } := by
    rw [touchRejected, find_eq hlist h.nodup]
    simp only [any_some, decide_eq_true hw.notEnd, if_true, hemit]
    rw [if_neg (by simp), show touchRemoveListener _ x.listener = _ from hremove, if_neg (by simp)]
  have hgrabs := h.grabs
  have hsub := h.sub
  have htouches := h.touches
  have horder := h.order
  have howners := h.owners
  rw [hlist] at hgrabs hsub htouches horder
  have hless : ((l :: a) ++ b).Sublist ((l :: a) ++ x :: b) := (sublist_cons_self x b).append_left _
  rw [hresult]
  refine ⟨⟨⟨(hless.map _).nodup hn, (hless.map _).trans hsub, ?_, ?_, horder.sublist hless,
    h.active, h.trace, fun r hr => ?_⟩, rfl, fun y hy => ?_, ?_, ?_⟩, rfl⟩
  · have hcount : (x :: b).countP (fun y => y.grab.isSome) = b.countP (fun y => y.grab.isSome) +
        if x.grab.isSome then 1 else 0 := countP_cons
    dsimp only
    rw [hgrabs, countP_append, countP_append, hcount]
    split <;> omega
  · exact fun y hy => htouches y (hless.subset hy)
  · by_cases heq : x.listener = r
    · exact heq ▸ hsettled
    · refine (h.gone r fun hr' => hr ?_).same (hphase r heq)
      rw [hlist] at hr'
      obtain ⟨y, hy, rfl⟩ := List.mem_map.mp hr'
      refine List.mem_map_of_mem ?_
      rcases mem_append.mp hy with hy | hy
      · exact mem_append_left b hy
      · exact mem_append_right _
          ((mem_cons.mp hy).resolve_left fun heq' => heq (heq' ▸ rfl))
  · have hne : x.listener ≠ y.listener := by
      rcases mem_append.mp hy with hy | hy
      · exact (hbefore y (mem_cons_of_mem l hy)).symm
      · exact (hafter y hy).symm
    refine (h.waits y ?_).same (hphase _ hne) id
    rcases mem_append.mp hy with hy | hy
    · exact mem_append_left _ hy
    · exact mem_append_right a (mem_cons_of_mem x hy)
  · dsimp only
    rw [howned]
    exact ((((sublist_cons_self x b).append_left a).map _).append_left _).trans howners
  · exact (hphase _ (hbefore l mem_cons_self).symm).trans h.owner

end Xfront.Touch.Delivery
