import Xfront.Lib.Run
import Xfront.Record.Ranges

/-!
# Exactly the selected protocol is recorded

What the hooks are for: a request, a reply, an error or an event of a client is recorded on a
context when a range that is registered there for the client selects it.
-/

namespace Xfront.Record
open Xfront.Run List Option Function

/-- A range selects an opcode: the major opcode of the core, or that of an extension together
with the minor opcode. -/
def Selects (core : RecordRange → Range8) (ext : RecordRange → ExtRange) (range : RecordRange)
    (majorop minorop : Nat) : Prop :=
  (majorop ≤ 127 ∧ (core range).Contains majorop) ∨
    (127 < majorop ∧ (ext range).Contains majorop minorop)

def SelectsRequest (range : RecordRange) (req : Request) : Prop :=
  Selects (·.coreRequests) (·.extRequests) range req.majorOp.toNat req.minorOp.toNat

def SelectsReply (range : RecordRange) (pri : ReplyInfo) : Prop :=
  Selects (·.coreReplies) (·.extReplies) range pri.majorOp.toNat pri.minorOp.toNat

def SelectsEvent (range : RecordRange) (ev : Event) : Prop :=
  if ev.type = 0 then range.errors.Contains ev.code.val
  else range.deliveredEvents.Contains ev.kind

instance (core : RecordRange → Range8) (ext : RecordRange → ExtRange) (range : RecordRange)
    (majorop minorop : Nat) : Decidable (Selects core ext range majorop minorop) :=
  inferInstanceAs (Decidable (_ ∨ _))

instance (range : RecordRange) (req : Request) : Decidable (SelectsRequest range req) :=
  inferInstanceAs (Decidable (Selects ..))

instance (range : RecordRange) (pri : ReplyInfo) : Decidable (SelectsReply range pri) :=
  inferInstanceAs (Decidable (Selects ..))

instance (range : RecordRange) (ev : Event) : Decidable (SelectsEvent range ev) :=
  inferInstanceAs (Decidable (ite ..))

structure Recorder where
  regs : List Registration
  incomplete : List UInt32

def Recorder.Wants (rec : Recorder) (clientspec : UInt32) (P : RecordRange → Prop) : Prop :=
  ∃ reg ∈ rec.regs, clientspec ∈ reg.clients ∧ ∃ range ∈ reg.ranges, P range

instance (rec : Recorder) (clientspec : UInt32) (P : RecordRange → Prop) [DecidablePred P] :
    Decidable (rec.Wants clientspec P) :=
  inferInstanceAs (Decidable (∃ reg ∈ rec.regs, _))

def Recorder.told (sv : Server) (rec : Recorder) : Told → Recorder × List ProtocolElement
  | .request who req =>
    (rec, if rec.Wants who.client.clientAsMask (SelectsRequest · req) then
      [element who .fromClient (req.stuff.take (req.reqLen * 4)) 0 0] else [])
  | .reply who pri =>
    let k := who.client.clientAsMask
    if pri.startOfReply then
      if rec.Wants k (SelectsReply · pri) then
        ({ rec with incomplete :=
            if pri.bytesRemaining = 0 then rec.incomplete else k :: rec.incomplete },
          [element who .fromServer pri.replyData 0 pri.bytesRemaining])
      else (rec, [])
    else if k ∈ rec.incomplete then
      ({ rec with incomplete :=
          if pri.bytesRemaining = 0 then rec.incomplete.erase k else rec.incomplete },
        [element who .fromServer (pri.replyData.take (pri.replyData.length - pri.padBytes))
          pri.padBytes (-1)])
    else (rec, [])
  | .events who events =>
    (rec, (events.filter fun ev =>
      rec.Wants who.client.clientAsMask (SelectsEvent · ev)).map (recordEvent sv who))

structure Expected where
  recorders : List Recorder
  remaining : UInt32 → Nat

def Expected.start (contexts : List (List Registration)) : Expected :=
  ⟨contexts.map fun regs => ⟨regs, []⟩, fun _ => 0⟩

def remainingAfter (remaining : UInt32 → Nat) : Told → UInt32 → Nat
  | .reply who pri => update remaining who.client.clientAsMask pri.bytesRemaining
  | _ => remaining

def expect (sv : Server) (e : Expected) (t : Told) :
    Option (Expected × List (List ProtocolElement)) :=
  some (⟨e.recorders.map fun rec => (rec.told sv t).1, remainingAfter e.remaining t⟩,
    e.recorders.map fun rec => (rec.told sv t).2)

/-- `dixWriteToClient` tells of a start when nothing is left of the client's reply. -/
def Announced (e : Expected) : Told → Prop
  | .reply who pri => pri.startOfReply = true ↔ e.remaining who.client.clientAsMask = 0
  | _ => True

/-- A core range that reaches an extension's opcode comes with entries for minor opcodes. -/
def Answerable (ranges : List RecordRange) (core : RecordRange → Range8)
    (ext : RecordRange → ExtRange) (majorop : Nat) : Prop :=
  127 < majorop → (∃ range ∈ ranges, (core range).Contains majorop) →
    ∃ range ∈ ranges, (ext range).major.Present

/-- An error, or an event that does not meet an error range, or one that is in both or none. -/
def Unmistaken (ranges : List RecordRange) (ev : Event) : Prop :=
  ev.type = 0 ∨ (∀ range ∈ ranges, ¬ range.errors.Present) ∨
    ((∃ range ∈ ranges, range.errors.Contains ev.code.val) ↔
      ∃ range ∈ ranges, range.deliveredEvents.Contains ev.kind)

/-- What is told does not reach a case that the hooks mistake, on a context with a registration
of the client. -/
def UntangledOn (rec : Recorder) (reg : Registration) : Told → Prop
  | .request _ req => Answerable reg.ranges (·.coreRequests) (·.extRequests) req.majorOp.toNat ∧
      ((∃ range ∈ reg.ranges, SelectsRequest range req) → req.reqLen ≠ 0)
  | .reply who pri => (pri.startOfReply = true →
      Answerable reg.ranges (·.coreReplies) (·.extReplies) pri.majorOp.toNat) ∧
      ∀ k ∈ rec.incomplete, k = who.client.clientAsMask
  | .events _ events => ∀ ev ∈ events, Unmistaken reg.ranges ev

def Told.who : Told → UInt32
  | .request who _ => who.client.clientAsMask
  | .reply who _ => who.client.clientAsMask
  | .events who _ => who.client.clientAsMask

def Untangled (e : Expected) (t : Told) : Prop :=
  ∀ rec ∈ e.recorders, ∀ reg ∈ rec.regs, t.who ∈ reg.clients → UntangledOn rec reg t

section

variable (ranges : List RecordRange) (core : RecordRange → Range8) (ext : RecordRange → ExtRange)

instance (least : UInt8) (r : Range8) : Decidable (r.From least) :=
  inferInstanceAs (Decidable (_ → _))

instance (majorop : Nat) : Decidable (Answerable ranges core ext majorop) :=
  inferInstanceAs (Decidable (_ → _ → _))

instance (ev : Event) : Decidable (Unmistaken ranges ev) :=
  inferInstanceAs (Decidable (_ ∨ _ ∨ _))

instance (e : Expected) (t : Told) : Decidable (Announced e t) := by
  cases t <;> unfold Announced <;> infer_instance

instance (rec : Recorder) (reg : Registration) (t : Told) : Decidable (UntangledOn rec reg t) :=
  -- over the incomplete clients, not over all of `UInt32`
  have := fun k => decidableBAll (fun k' => k' = k) rec.incomplete
  match t with
  | .request _ _ => inferInstanceAs (Decidable (_ ∧ _))
  | .reply who _ => @instDecidableAnd _ _ inferInstance (this who.client.clientAsMask)
  | .events _ events => inferInstanceAs (Decidable (∀ ev ∈ events, _))

instance (e : Expected) (t : Told) : Decidable (Untangled e t) :=
  inferInstanceAs (Decidable (∀ rec ∈ e.recorders, _))

end

section

variable {ranges : List RecordRange} {core : RecordRange → Range8} {ext : RecordRange → ExtRange}

def majorSet (ranges : List RecordRange) (core : RecordRange → Range8)
    (ext : RecordRange → ExtRange) : Option RecordSet :=
  setOf (convertRangesToIntervals (convertRangesToIntervals [] (ranges.map core))
    (ranges.map fun range => (ext range).major))

def minorInfo (ranges : List RecordRange) (ext : RecordRange → ExtRange) :
    Option (List RecordMinorOp) := minOpInfo (convertMinors (ranges.map ext))

structure Checked (ranges : List RecordRange) (core : RecordRange → Range8)
    (ext : RecordRange → ExtRange) : Prop where
  core : ∀ range ∈ ranges, (core range).first ≤ (core range).last
  major : ∀ range ∈ ranges, (ext range).major.From 128
  minor : ∀ range ∈ ranges, (ext range).minor.first ≤ (ext range).minor.last

theorem isMemberOfSet_majorSet (h : Checked ranges core ext) (m : Nat) :
    isMemberOfSet (majorSet ranges core ext) m = true ↔
      (∃ range ∈ ranges, (core range).Contains m) ∨
        ∃ range ∈ ranges, (ext range).major.Contains m := by
  have hnil : OrderedIntervals [] := fun iv hiv => absurd hiv not_mem_nil
  have hcore : OrderedIntervals (convertRangesToIntervals [] (ranges.map core)) := by
    refine convertRanges_ordered hnil fun r hr _ => ?_
    obtain ⟨range, hrange, rfl⟩ := List.mem_map.mp hr
    exact h.core range hrange
  have hboth : OrderedIntervals (convertRangesToIntervals (convertRangesToIntervals []
      (ranges.map core)) (ranges.map fun range => (ext range).major)) := by
    refine convertRanges_ordered hcore fun r hr hp => ?_
    obtain ⟨range, hrange, rfl⟩ := List.mem_map.mp hr
    exact (h.major range hrange).le hp
  rw [majorSet, isMemberOfSet_setOf hboth, mem_members_convertRanges, mem_members_convertRanges,
    mem_members]
  simp

theorem selected_iff (h : Checked ranges core ext) {majorop : Nat} (minorop : Nat)
    (hanswer : Answerable ranges core ext majorop) :
    (if isMemberOfSet (majorSet ranges core ext) majorop then
        selected (minorInfo ranges ext) majorop minorop else some false) =
      some (decide (∃ range ∈ ranges, Selects core ext range majorop minorop)) := by
  have hmember := isMemberOfSet_majorSet h majorop
  by_cases hcoreop : majorop ≤ 127
  · have hnone : ¬ ∃ range ∈ ranges, (ext range).major.Contains majorop := by
      rintro ⟨range, hrange, hm⟩
      have hleast := (h.major range hrange).least hm
      rw [show (128 : UInt8).toNat = 128 from rfl] at hleast
      omega
    have hselects : (∃ range ∈ ranges, Selects core ext range majorop minorop) ↔
        ∃ range ∈ ranges, (core range).Contains majorop := by
      refine exists_congr fun range => and_congr_right fun _ => ?_
      simp [Selects, hcoreop, not_lt.mpr hcoreop]
    rw [or_iff_left hnone] at hmember
    rw [selected, if_pos hcoreop]
    by_cases hm : isMemberOfSet (majorSet ranges core ext) majorop = true
    · rw [if_pos hm, decide_eq_true (hselects.mpr (hmember.mp hm))]
    · rw [if_neg hm, decide_eq_false fun hsel => hm (hmember.mpr (hselects.mp hsel))]
  · have hextop : 127 < majorop := not_le.mp hcoreop
    have hselects : (∃ range ∈ ranges, Selects core ext range majorop minorop) ↔
        ∃ e ∈ ranges.map ext, e.Contains majorop minorop := by
      simp [Selects, hcoreop, hextop]
    rw [selected, if_neg hcoreop]
    by_cases hm : isMemberOfSet (majorSet ranges core ext) majorop = true
    · have hpresent : ∃ range ∈ ranges, (ext range).major.Present := by
        rcases hmember.mp hm with hin | ⟨range, hrange, hin⟩
        · exact hanswer hextop hin
        · exact ⟨range, hrange, hin.1⟩
      have hne : convertMinors (ranges.map ext) ≠ [] := by
        rw [convertMinors_ne_nil]
        obtain ⟨range, hrange, hp⟩ := hpresent
        exact ⟨ext range, List.mem_map_of_mem hrange, hp⟩
      have hordered : ∀ s ∈ convertMinors (ranges.map ext), OrderedIntervals s.intervals := by
        refine convertMinors_ordered fun e he => ?_
        obtain ⟨range, hrange, rfl⟩ := List.mem_map.mp he
        exact h.minor range hrange
      rw [if_pos hm, minorInfo, minOpInfo, if_neg hne, map_some, some.injEq,
        Bool.eq_iff_iff, minorMatches_iff hordered, convertMinors_matches, decide_eq_true_iff,
        hselects]
    · rw [if_neg hm, decide_eq_false]
      intro hsel
      obtain ⟨e, he, hin⟩ := hselects.mp hsel
      obtain ⟨range, hrange, rfl⟩ := List.mem_map.mp he
      exact hm (hmember.mpr (.inr ⟨range, hrange, hin.1⟩))

end

theorem exists_range {β : Type} {ranges : List RecordRange} {f : RecordRange → β} {P : β → Prop} :
    (∃ r ∈ ranges.map f, P r) ↔ ∃ range ∈ ranges, P (f range) := by
  simp

variable {α : Type} {b : Bool} {decision : Option Bool} {p : Prop}

theorem ite_bind_of_eq [Decidable p] {record : Option α} {skip : α}
    (h : (if b then decision else some false) = some (decide p)) :
    (if b then decision.bind fun d => if d then record else some skip else some skip) =
      if p then record else some skip := by
  cases b with
  | true =>
    rw [if_pos rfl] at h
    rw [if_pos rfl, h, bind_some]
    by_cases hp : p <;> simp [hp]
  | false =>
    have hp : ¬ p := by
      intro hp
      rw [decide_eq_true hp] at h
      cases h
    rw [if_neg hp]
    rfl

theorem ite_map_of_eq {s : Bool} [Decidable p] (record skip : α) (hs : s = true)
    (h : (if b then decision else some false) = some (decide p)) :
    (if s = true ∧ b = true then decision.map fun d => if d then record else skip
      else some skip) = some (if p then record else skip) := by
  subst hs
  cases b with
  | true =>
    rw [if_pos rfl] at h
    rw [if_pos ⟨rfl, rfl⟩, h, map_some]
    by_cases hp : p <;> simp [hp]
  | false =>
    have hp : ¬ p := by
      intro hp
      rw [decide_eq_true hp] at h
      cases h
    rw [if_neg hp]
    rfl

/-- The registrations of a context: ranges that were checked, and a client on one of them. -/
structure Registrations (regs : List Registration) : Prop where
  sane : ∀ reg ∈ regs, ∀ range ∈ reg.ranges, range.Sane
  unique : regs.Pairwise fun reg reg' => ∀ k ∈ reg.clients, k ∉ reg'.clients

theorem find_unique {regs : List Registration} {k : UInt32} {reg : Registration}
    (h : regs.Pairwise fun reg reg' => ∀ k ∈ reg.clients, k ∉ reg'.clients)
    (hreg : reg ∈ regs) (hk : k ∈ reg.clients) :
    regs.find? (fun reg => reg.clients.contains k) = some reg := by
  induction regs with
  | nil => cases hreg
  | cons first rest ih =>
    rw [pairwise_cons] at h
    rcases mem_cons.mp hreg with rfl | hrest
    · have hcontains : reg.clients.contains k = true := contains_iff_mem.mpr hk
      rw [find?_cons, hcontains]
    · have hfirst : first.clients.contains k = false := by
        refine Bool.eq_false_of_not_eq_true fun hin => ?_
        exact h.1 reg hrest k (contains_iff_mem.mp hin) hk
      rw [find?_cons, hfirst]
      exact ih h.2 hrest

def enabledContext (regs : List Registration) : EnabledContext :=
  ⟨regs.map recordClientsAndProtocol, false⟩

structure Agrees (remaining : UInt32 → Nat) (c : EnabledContext) (rec : Recorder) : Prop where
  list : c.pListOfRCAP = rec.regs.map recordClientsAndProtocol
  regs : Registrations rec.regs
  flag : c.continuedReply = true ↔ rec.incomplete ≠ []
  short : rec.incomplete.length ≤ 1
  left : ∀ k ∈ rec.incomplete, remaining k ≠ 0 ∧ ∃ reg ∈ rec.regs, k ∈ reg.clients

section

variable {sv : Server} {remaining : UInt32 → Nat} {c : EnabledContext} {rec : Recorder}

theorem Agrees.find (h : Agrees remaining c rec) (k : UInt32) : findClientOnContext c k =
      (rec.regs.find? fun reg => reg.clients.contains k).map recordClientsAndProtocol := by
  rw [findClientOnContext, h.list, find?_map]
  rfl

theorem Agrees.cases (h : Agrees remaining c rec) (k : UInt32) :
    (findClientOnContext c k = none ∧ (∀ P, ¬ rec.Wants k P) ∧ k ∉ rec.incomplete) ∨
      ∃ reg ∈ rec.regs, k ∈ reg.clients ∧
        findClientOnContext c k = some (recordClientsAndProtocol reg) ∧
        ∀ P, rec.Wants k P ↔ ∃ range ∈ reg.ranges, P range := by
  by_cases hk : ∃ reg ∈ rec.regs, k ∈ reg.clients
  · obtain ⟨reg, hreg, hin⟩ := hk
    have hfind := find_unique h.regs.unique hreg hin
    refine .inr ⟨reg, hreg, hin, ?_, fun P => ⟨?_, fun hP => ⟨reg, hreg, hin, hP⟩⟩⟩
    · rw [h.find, hfind, map_some]
    · rintro ⟨reg', hreg', hin', hP⟩
      have hfind' := find_unique h.regs.unique hreg' hin'
      rw [hfind, some.injEq] at hfind'
      rw [hfind']
      exact hP
  · refine .inl ⟨?_, fun P ⟨reg, hreg, hin, _⟩ => hk ⟨reg, hreg, hin⟩,
      fun hin => hk (h.left k hin).2⟩
    have hnone : rec.regs.find? (fun reg => reg.clients.contains k) = none :=
      find?_eq_none.mpr fun reg hreg hin => hk ⟨reg, hreg, contains_iff_mem.mp hin⟩
    rw [h.find, hnone, map_none]

variable {regs : List Registration} {reg : Registration}

theorem Registrations.requests (h : Registrations regs) (hreg : reg ∈ regs) :
    Checked reg.ranges (·.coreRequests) (·.extRequests) :=
  ⟨fun range hr => (h.sane reg hreg range hr).coreRequests,
    fun range hr => (h.sane reg hreg range hr).extRequestsMajor,
    fun range hr => (h.sane reg hreg range hr).extRequestsMinor⟩

theorem Registrations.replies (h : Registrations regs) (hreg : reg ∈ regs) :
    Checked reg.ranges (·.coreReplies) (·.extReplies) :=
  ⟨fun range hr => (h.sane reg hreg range hr).coreReplies,
    fun range hr => (h.sane reg hreg range hr).extRepliesMajor,
    fun range hr => (h.sane reg hreg range hr).extRepliesMinor⟩

variable {who : Recordee}

theorem Agrees.request (h : Agrees remaining c rec) {req : Request}
    (hclean : ∀ reg ∈ rec.regs, who.client.clientAsMask ∈ reg.clients →
      UntangledOn rec reg (.request who req)) :
    recordOn sv c (.request who req) = some (c, (rec.told sv (.request who req)).2) := by
  rw [recordOn, recordARequest]
  rcases h.cases who.client.clientAsMask with ⟨hnone, hwants, -⟩ | ⟨reg, hreg, hin, hfind, hwants⟩
  · rw [hnone, Recorder.told, if_neg (hwants _)]
    rfl
  · obtain ⟨hanswer, hlength⟩ := hclean reg hreg hin
    have hselected := selected_iff (h.regs.requests hreg) req.minorOp.toNat hanswer
    have hdecided : (if isMemberOfSet (recordClientsAndProtocol reg).pRequestMajorOpSet
          req.majorOp.toNat then
        (selected (recordClientsAndProtocol reg).pRequestMinOpInfo req.majorOp.toNat
          req.minorOp.toNat).bind fun record => if record then recordRequest sv who req else some []
        else some []) =
        if ∃ range ∈ reg.ranges, SelectsRequest range req then recordRequest sv who req
        else some [] :=
      ite_bind_of_eq hselected
    rw [hfind]
    dsimp only
    rw [hdecided, Recorder.told]
    by_cases hwant : ∃ range ∈ reg.ranges, SelectsRequest range req
    · have hrecord : recordRequest sv who req =
          some [element who .fromClient (req.stuff.take (req.reqLen * 4)) 0 0] :=
        if_neg (hlength hwant)
      rw [if_pos hwant, hrecord, map_some, if_pos ((hwants _).mpr hwant)]
    · rw [if_neg hwant, map_some, if_neg fun hw => hwant ((hwants _).mp hw)]

theorem recordit_iff (h : Registrations regs)
    (hreg : reg ∈ regs) {ev : Event} (hclean : Unmistaken reg.ranges ev) :
    recordit (recordClientsAndProtocol reg) ev = true ↔
      ∃ range ∈ reg.ranges, SelectsEvent range ev := by
  have hsane := h.sane reg hreg
  have herrors : ∀ m, isMemberOfSet (recordClientsAndProtocol reg).pErrorSet m = true ↔
      ∃ range ∈ reg.ranges, range.errors.Contains m := by
    intro m
    refine (isMemberOfSet_ranges ?_ m).trans exists_range
    intro r hr _
    obtain ⟨range, hrange, rfl⟩ := List.mem_map.mp hr
    exact (hsane range hrange).errors
  have hdelivered : ∀ m, isMemberOfSet (recordClientsAndProtocol reg).pDeliveredEventSet m = true ↔
      ∃ range ∈ reg.ranges, range.deliveredEvents.Contains m := by
    intro m
    refine (isMemberOfSet_ranges ?_ m).trans exists_range
    intro r hr hp
    obtain ⟨range, hrange, rfl⟩ := List.mem_map.mp hr
    exact (hsane range hrange).deliveredEvents.le hp
  have hsome : (recordClientsAndProtocol reg).pErrorSet.isSome = true ↔
      ∃ range ∈ reg.ranges, range.errors.Present := setOf_isSome.trans exists_range
  unfold recordit
  by_cases hset : ∃ range ∈ reg.ranges, range.errors.Present
  · rw [if_pos (hsome.mpr hset), herrors]
    by_cases htype : ev.type = 0
    · simp only [SelectsEvent, if_pos htype]
    · simp only [SelectsEvent, if_neg htype]
      rcases hclean with hzero | hnone | hboth
      · exact absurd hzero htype
      · obtain ⟨range, hrange, hp⟩ := hset
        exact absurd hp (hnone range hrange)
      · exact hboth
  · rw [if_neg fun hs => hset (hsome.mp hs), hdelivered]
    by_cases htype : ev.type = 0
    · simp only [SelectsEvent, if_pos htype]
      refine iff_of_false ?_ fun ⟨range, hrange, hin⟩ => hset ⟨range, hrange, hin.1⟩
      rintro ⟨range, hrange, hin⟩
      have hleast := (hsane range hrange).deliveredEvents.least hin
      rw [Event.kind, htype] at hleast
      exact absurd hleast (by decide)
    · simp only [SelectsEvent, if_neg htype]

theorem Agrees.events (h : Agrees remaining c rec) {events : List Event}
    (hclean : ∀ reg ∈ rec.regs, who.client.clientAsMask ∈ reg.clients →
      UntangledOn rec reg (.events who events)) :
    recordOn sv c (.events who events) = some (c, (rec.told sv (.events who events)).2) := by
  rw [recordOn, recordADeliveredEventOrError, Recorder.told]
  rcases h.cases who.client.clientAsMask with ⟨hnone, hwants, -⟩ | ⟨reg, hreg, hin, hfind, hwants⟩
  · have hempty : events.filter (fun ev =>
        decide (rec.Wants who.client.clientAsMask (SelectsEvent · ev))) = [] :=
      filter_eq_nil_iff.mpr fun ev _ hw => hwants _ (of_decide_eq_true hw)
    rw [hnone, hempty, map_nil]
  · have hsame : events.filter (recordit (recordClientsAndProtocol reg)) = events.filter (fun ev =>
        decide (rec.Wants who.client.clientAsMask (SelectsEvent · ev))) := by
      refine filter_congr fun ev hev => ?_
      rw [Bool.eq_iff_iff, decide_eq_true_iff, hwants]
      exact recordit_iff h.regs hreg (hclean reg hreg hin ev hev)
    rw [hfind]
    dsimp only
    rw [hsame]

variable {k : UInt32}

theorem Agrees.piece (h : Agrees remaining c rec) (bytesRemaining : Nat)
    (hk : ∃ reg ∈ rec.regs, k ∈ reg.clients) :
    Agrees (update remaining k bytesRemaining)
      { c with continuedReply := decide (bytesRemaining ≠ 0) }
      { rec with incomplete := if bytesRemaining = 0 then [] else [k] } := by
  refine ⟨h.list, h.regs, ?_, ?_, ?_⟩
  · by_cases hzero : bytesRemaining = 0 <;> simp [hzero]
  · by_cases hzero : bytesRemaining = 0 <;> simp [hzero]
  · intro k' hk'
    by_cases hzero : bytesRemaining = 0
    · simp [hzero] at hk'
    · simp only [if_neg hzero, mem_singleton] at hk'
      subst hk'
      rw [update_self]
      exact ⟨hzero, hk⟩

theorem Agrees.passed (h : Agrees remaining c rec) (bytesRemaining : Nat)
    (hk : k ∉ rec.incomplete) : Agrees (update remaining k bytesRemaining) c rec := by
  refine ⟨h.list, h.regs, h.flag, h.short, fun k' hk' => ?_⟩
  have hne : k' ≠ k := fun heq => hk (heq ▸ hk')
  rw [update_of_ne hne]
  exact h.left k' hk'

theorem Agrees.reply (h : Agrees remaining c rec) {pri : ReplyInfo}
    (htold : pri.startOfReply = true ↔ remaining who.client.clientAsMask = 0)
    (hclean : ∀ reg ∈ rec.regs, who.client.clientAsMask ∈ reg.clients →
      UntangledOn rec reg (.reply who pri)) :
    ∃ c', recordOn sv c (.reply who pri) = some (c', (rec.told sv (.reply who pri)).2) ∧
      Agrees (update remaining who.client.clientAsMask pri.bytesRemaining) c'
        (rec.told sv (.reply who pri)).1 := by
  rw [recordOn, recordAReply, Recorder.told]
  rcases h.cases who.client.clientAsMask with ⟨hnone, hwants, hk⟩ | ⟨reg, hreg, hin, hfind, hwants⟩
  · refine ⟨c, ?_, ?_⟩
    · rw [hnone]
      simp [hwants, hk]
    · simp only [hwants, hk, if_false, ite_self]
      exact h.passed _ hk
  · obtain ⟨hanswer, honly⟩ := hclean reg hreg hin
    rw [hfind]
    dsimp only
    by_cases hflag : c.continuedReply = true
    · obtain ⟨k, hmem⟩ := exists_mem_of_ne_nil _ (h.flag.mp hflag)
      have hk := honly k hmem
      subst hk
      have hsingle : rec.incomplete = [who.client.clientAsMask] := by
        obtain ⟨k, hk⟩ := length_eq_one_iff.mp
          (le_antisymm h.short (length_pos_of_mem hmem))
        rw [hk, mem_singleton] at hmem
        rw [hk, hmem]
      have hstart : ¬ pri.startOfReply = true := fun hs => (h.left _ hmem).1 (htold.mp hs)
      rw [if_pos hflag, if_neg hstart, if_pos hmem]
      refine ⟨_, rfl, ?_⟩
      have hpiece := h.piece pri.bytesRemaining ⟨reg, hreg, hin⟩
      rw [hsingle, erase_cons_head]
      exact hpiece
    · have hnil : rec.incomplete = [] := by
        by_contra hne
        exact hflag (h.flag.mpr hne)
      have hnot : who.client.clientAsMask ∉ rec.incomplete := by
        rw [hnil]
        exact not_mem_nil
      rw [if_neg hflag, if_neg hnot]
      by_cases hstart : pri.startOfReply = true
      · have hselected := selected_iff (h.regs.replies hreg) pri.minorOp.toNat (hanswer hstart)
        have hdecided := ite_map_of_eq ({ c with
          continuedReply := decide (pri.bytesRemaining ≠ 0) },
          [element who .fromServer pri.replyData 0 pri.bytesRemaining]) (c, []) hstart hselected
        rw [if_pos hstart]
        by_cases hwant : ∃ range ∈ reg.ranges, SelectsReply range pri
        · rw [if_pos ((hwants _).mpr hwant)]
          have hrecord := hdecided.trans (congrArg some (if_pos hwant))
          refine ⟨_, hrecord, ?_⟩
          have hpiece := h.piece pri.bytesRemaining ⟨reg, hreg, hin⟩
          rw [hnil]
          exact hpiece
        · rw [if_neg fun hw => hwant ((hwants _).mp hw)]
          have hskip := hdecided.trans (congrArg some (if_neg hwant))
          exact ⟨c, hskip, h.passed _ hnot⟩
      · rw [if_neg hstart]
        refine ⟨c, if_neg fun hs => hstart hs.1, ?_⟩
        exact h.passed _ hnot

theorem Agrees.step (sv : Server) (h : Agrees remaining c rec) {t : Told}
    (htold : ∀ who pri, t = .reply who pri →
      (pri.startOfReply = true ↔ remaining who.client.clientAsMask = 0))
    (hclean : ∀ reg ∈ rec.regs, t.who ∈ reg.clients → UntangledOn rec reg t) :
    ∃ c', recordOn sv c t = some (c', (rec.told sv t).2) ∧
      Agrees (remainingAfter remaining t) c' (rec.told sv t).1 := by
  cases t with
  | request who req => exact ⟨c, h.request hclean, h⟩
  | reply who pri => exact h.reply (htold who pri rfl) hclean
  | events who events => exact ⟨c, h.events hclean, h⟩

end

def Agree (contexts : List EnabledContext) (e : Expected) : Prop :=
  List.Forall₂ (Agrees e.remaining) contexts e.recorders

variable {contexts : List EnabledContext} {t : Told}

theorem agrees_all (sv : Server) {remaining : UInt32 → Nat} {recorders : List Recorder}
    (h : List.Forall₂ (Agrees remaining) contexts recorders)
    (htold : ∀ who pri, t = .reply who pri →
    (pri.startOfReply = true ↔ remaining who.client.clientAsMask = 0))
    (hclean : ∀ rec ∈ recorders, ∀ reg ∈ rec.regs, t.who ∈ reg.clients → UntangledOn rec reg t) :
    ∃ results, contexts.mapM (fun c => recordOn sv c t) = some results ∧
      results.map (·.2) = recorders.map (fun rec => (rec.told sv t).2) ∧
      List.Forall₂ (Agrees (remainingAfter remaining t)) (results.map (·.1))
        (recorders.map fun rec => (rec.told sv t).1) := by
  induction h with
  | nil => exact ⟨[], rfl, rfl, List.Forall₂.nil⟩
  | @cons c rec _ _ hfirst _ ih =>
    obtain ⟨results, hm, hout, hrest⟩ := ih fun rec hrec =>
      hclean rec (mem_cons_of_mem _ hrec)
    obtain ⟨c', hc, hagrees⟩ := hfirst.step sv htold (hclean _ mem_cons_self)
    refine ⟨(c', (rec.told sv t).2) :: results, ?_, ?_, List.Forall₂.cons hagrees hrest⟩
    · rw [mapM_cons, hc, hm]
      rfl
    · rw [map_cons, hout, map_cons]

theorem Agree.step (sv : Server) {e : Expected}
    (h : Agree contexts e) (htold : Announced e t) (hclean : Untangled e t) :
    ∃ contexts' out e', record sv contexts t = some (contexts', out) ∧
      expect sv e t = some (e', out) ∧ Agree contexts' e' := by
  have hreply : ∀ who pri, t = .reply who pri →
      (pri.startOfReply = true ↔ e.remaining who.client.clientAsMask = 0) := by
    intro who pri ht
    subst ht
    exact htold
  obtain ⟨results, hm, hout, hagree⟩ := agrees_all sv h hreply hclean
  refine ⟨results.map (·.1), results.map (·.2),
    ⟨e.recorders.map fun rec => (rec.told sv t).1, remainingAfter e.remaining t⟩, ?_, ?_, ?_⟩
  · rw [record, hm, map_some, unzip_eq_map]
  · rw [expect, hout]
  · exact hagree

section

def noRange : RecordRange :=
  ⟨⟨0, 0⟩, ⟨0, 0⟩, ⟨⟨0, 0⟩, ⟨0, 0⟩⟩, ⟨⟨0, 0⟩, ⟨0, 0⟩⟩, ⟨0, 0⟩, ⟨0, 0⟩, ⟨0, 0⟩, false, false⟩

def replyAndEvents : List Registration :=
  [⟨[0x200000], [{ noRange with coreReplies := ⟨3, 3⟩ },
    { noRange with deliveredEvents := ⟨4, 5⟩ }]⟩]

def errorsAndEvents : List Registration :=
  [⟨[0x200000], [{ noRange with errors := ⟨1, 17⟩, deliveredEvents := ⟨2, 2⟩ }]⟩]

def plainServer : Server := ⟨false, fun _ bytes => bytes⟩

def client : Recordee := ⟨⟨0x200000, false⟩, 1⟩

theorem replyAndEvents_registrations : Registrations replyAndEvents := by
  refine ⟨?_, pairwise_singleton ..⟩
  simp only [replyAndEvents, forall_eq, mem_cons, not_mem_nil, or_false, forall_eq_or_imp]
  exact ⟨⟨by decide, by decide, by decide, by decide, by decide, by decide, by decide, by decide,
    by decide⟩, ⟨by decide, by decide, by decide, by decide, by decide, by decide, by decide,
    by decide, by decide⟩⟩

theorem errorsAndEvents_registrations : Registrations errorsAndEvents := by
  refine ⟨?_, pairwise_singleton ..⟩
  simp only [errorsAndEvents, mem_singleton, forall_eq]
  exact ⟨by decide, by decide, by decide, by decide, by decide, by decide, by decide, by decide,
    by decide⟩

end

end Xfront.Record
