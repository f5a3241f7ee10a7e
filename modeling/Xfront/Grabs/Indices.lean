import Xfront.Grabs.Conflict

/-!
# The bits that are looked at

The indices with which `GETBIT` and `BITCLEAR` are used, in the order of the code and with its short
circuits.
-/

namespace Xfront.Grabs
open List Option
open Resource (XID Limits)
open Run (exec)

def masksPerDetailMask : Nat := 8

def isInGrabMaskBits (firstDetail secondDetail : DetailRec) (exception : Nat) : List Nat :=
  if firstDetail.exact = exception ∧ firstDetail.pMask.isSome ∧ secondDetail.exact ≠ exception then
    [secondDetail.exact]
  else []

def grabSupersedesBits (firstGrab secondGrab : GrabRec) : List Nat :=
  let any := anyModifier firstGrab.grabtype
  isInGrabMaskBits firstGrab.modifiersDetail secondGrab.modifiersDetail any ++
    if detailSupersedesSecond firstGrab.modifiersDetail secondGrab.modifiersDetail any then
      isInGrabMaskBits firstGrab.detail secondGrab.detail anyKey
    else []

def bothBits (first second first' second' : DetailRec) (exception exception' : Nat) : List Nat :=
  isInGrabMaskBits first second exception ++
    if detailSupersedesSecond first second exception then isInGrabMaskBits first' second' exception'
    else []

def grabMatchesBits (isMaster : Nat → Bool) (firstGrab secondGrab : GrabRec)
    (ignoreDevice : Bool) : List Nat :=
  let any := anyModifier firstGrab.grabtype
  if ¬ GrabRec.SameKind isMaster firstGrab secondGrab ignoreDevice then []
  else
    grabSupersedesBits firstGrab secondGrab ++
    if grabSupersedesSecond firstGrab secondGrab then []
    else
      grabSupersedesBits secondGrab firstGrab ++
      if grabSupersedesSecond secondGrab firstGrab then []
      else
        bothBits secondGrab.detail firstGrab.detail firstGrab.modifiersDetail
          secondGrab.modifiersDetail anyKey any ++
        if detailSupersedesSecond secondGrab.detail firstGrab.detail anyKey ∧
            detailSupersedesSecond firstGrab.modifiersDetail secondGrab.modifiersDetail any then []
        else
          bothBits firstGrab.detail secondGrab.detail secondGrab.modifiersDetail
            firstGrab.modifiersDetail anyKey any

def grabsAreIdenticalBits (firstGrab secondGrab : GrabRec) : List Nat :=
  let any := anyModifier firstGrab.grabtype
  if firstGrab.grabtype ≠ secondGrab.grabtype then []
  else if firstGrab.device ≠ secondGrab.device ∨
      firstGrab.modifierDevice ≠ secondGrab.modifierDevice ∨ firstGrab.type ≠ secondGrab.type then []
  else
    bothBits firstGrab.detail secondGrab.detail secondGrab.detail firstGrab.detail anyKey anyKey ++
    if ¬ (detailSupersedesSecond firstGrab.detail secondGrab.detail anyKey ∧
        detailSupersedesSecond secondGrab.detail firstGrab.detail anyKey) then []
    else
      bothBits firstGrab.modifiersDetail secondGrab.modifiersDetail secondGrab.modifiersDetail
        firstGrab.modifiersDetail any any

def deleteDetailFromMaskBits (detail : Nat) (allocated : Bool) : List Nat :=
  if allocated then [detail] else []

def splitGrabBits (minuend grab : GrabRec) (o : Outcome) : List Nat :=
  deleteDetailFromMaskBits minuend.detail.exact o.update ++ if o.grab ∧ grab.grabtype ≠ .xi2 then
      deleteDetailFromMaskBits minuend.modifiersDetail.exact o.modifiers
    else []

def visitGrabBits (L : Limits) (isMaster : Nat → Bool) (minuend grab : GrabRec) (o : Outcome) :
    List Nat :=
  let any := anyModifier minuend.grabtype
  if L.clientIdForXID grab.resource ≠ L.clientIdForXID minuend.resource then []
  else
    grabMatchesBits isMaster grab minuend (grab.grabtype = .core) ++
    if ¬ affects L isMaster minuend grab then []
    else
      grabSupersedesBits minuend grab ++
      if grabSupersedesSecond minuend grab then []
      else if grab.detail.exact = anyKey ∧ grab.modifiersDetail.exact ≠ any then
        deleteDetailFromMaskBits minuend.detail.exact o.update
      else if grab.modifiersDetail.exact = any ∧ grab.detail.exact ≠ anyKey then
        deleteDetailFromMaskBits minuend.modifiersDetail.exact o.update
      else if minuend.detail.exact ≠ anyKey ∧ minuend.modifiersDetail.exact ≠ any then
        splitGrabBits minuend grab o
      else if minuend.detail.exact = anyKey then
        deleteDetailFromMaskBits minuend.modifiersDetail.exact o.update
      else deleteDetailFromMaskBits minuend.detail.exact o.update

def visitGrabsBits (L : Limits) (isMaster : Nat → Bool) (minuend : GrabRec)
    (outcome : XID → Outcome) : List GrabRec → Pending → List Nat
  | [], _ => []
  | grab :: rest, p =>
    if p.ok then
      visitGrabBits L isMaster minuend grab (outcome grab.resource) ++
        match visitGrab L isMaster minuend grab (outcome grab.resource) p with
        | none => []
        | some p => visitGrabsBits L isMaster minuend outcome rest p
    else []

def deletePassiveGrabFromListBits (L : Limits) (isMaster : Nat → Bool) (minuend : GrabRec)
    (arrays : Bool) (outcome : XID → Outcome) (grabs : List GrabRec) : List Nat :=
  if arrays then visitGrabsBits L isMaster minuend outcome grabs {} else []

def conflictsBits (L : Limits) (isMaster : Nat → Bool) (newGrab : GrabRec) :
    List GrabRec → List Nat
  | [] => []
  | grab :: rest =>
    grabMatchesBits isMaster newGrab grab (newGrab.grabtype = .core) ++
      if conflicts L isMaster newGrab [grab] then [] else conflictsBits L isMaster newGrab rest

def findIdenticalBits (newGrab : GrabRec) : List GrabRec → List Nat
  | [] => []
  | grab :: rest =>
    grabsAreIdenticalBits newGrab grab ++
      if grabsAreIdentical newGrab grab then [] else findIdenticalBits newGrab rest

def addPassiveGrabToListBits (L : Limits) (isMaster : Nat → Bool) (newGrab : GrabRec)
    (access : Bool → Int) (arrays : Bool) (outcome : XID → Outcome) (grabs : List GrabRec) :
    List Nat :=
  conflictsBits L isMaster newGrab grabs ++ if conflicts L isMaster newGrab grabs then []
    else if access (newGrab.keyboardMode.toNat = grabModeSync ∨
        newGrab.pointerMode.toNat = grabModeSync) ≠ success then []
    else
      findIdenticalBits newGrab grabs ++ match grabs.find? (grabsAreIdentical newGrab) with
        | none => []
        | some grab => deletePassiveGrabFromListBits L isMaster grab arrays outcome grabs

/-- What the handlers let through: key codes and buttons that fit into a mask, and modifiers that
`CheckGrabValues` admits for a grab or that an XI2 ungrab does not check. -/
structure Admitted (ungrab : Bool) (g : GrabRec) : Prop where
  unmasked : g.detail.pMask = none ∧ g.modifiersDetail.pMask = none
  detail : g.detail.exact < 256
  modifiers : g.modifiersDetail.exact < 256 ∨ g.modifiersDetail.exact = anyModifier .core ∨
    (g.grabtype = .xi2 ∧ g.modifiersDetail.exact < 2 ^ 32 ∧
      (ungrab ∨ g.modifiersDetail.exact = anyModifier .xi2))

inductive Asked where
  | grab (newGrab : { g : GrabRec // Admitted false g }) (access : Bool → Int) (arrays : Bool)
      (outcome : XID → Outcome) (optional resource : Bool)
  | ungrab (minuend : { g : GrabRec // Admitted true g }) (arrays : Bool) (outcome : XID → Outcome)

def Asked.step (L : Limits) (isMaster : Nat → Bool) (gs : List GrabRec) :
    Asked → Option (List GrabRec × Int)
  | .grab newGrab access arrays outcome optional resource =>
    (addPassiveGrabToList L isMaster newGrab access arrays outcome optional resource gs).map
      Prod.swap
  | .ungrab minuend arrays outcome =>
    (deletePassiveGrabFromList L isMaster minuend arrays outcome gs).map fun (ok, gs) =>
      (gs, if ok then 1 else 0)

def Asked.bits (L : Limits) (isMaster : Nat → Bool) (gs : List GrabRec) : Asked → List Nat
  | .grab newGrab access arrays outcome _ _ =>
    addPassiveGrabToListBits L isMaster newGrab access arrays outcome gs
  | .ungrab minuend arrays outcome =>
    deletePassiveGrabFromListBits L isMaster minuend arrays outcome gs

def GrabRec.Fits (m : GrabRec) : Prop :=
  m.modifiersDetail.exact = anyModifier m.grabtype ∨ m.modifiersDetail.exact < 256

def GrabRec.AnyMods (g : GrabRec) : Prop := g.modifiersDetail.exact = anyModifier g.grabtype

/-- No grab of the same kind for any modifiers has a mask, and none of the client is met. -/
def SafeDelete (L : Limits) (isMaster : Nat → Bool) (m : GrabRec) (gs : List GrabRec) : Prop :=
  m.Fits ∨ ∀ g ∈ gs, L.clientIdForXID g.resource = L.clientIdForXID m.resource →
    GrabRec.SameKind isMaster g m (g.grabtype = .core) → g.AnyMods →
    g.modifiersDetail.pMask = none ∧ ¬ detailSupersedesSecond g.detail m.detail anyKey ∧
      ¬ detailSupersedesSecond m.detail g.detail anyKey

def Asked.Safe (L : Limits) (isMaster : Nat → Bool) (gs : List GrabRec) : Asked → Prop
  | .grab newGrab _ _ _ _ _ =>
    (newGrab.1.Fits ∨ ∀ g ∈ gs,
      GrabRec.SameKind isMaster newGrab g (newGrab.1.grabtype = .core) → g.AnyMods →
      g.modifiersDetail.pMask = none) ∧
    ∀ g ∈ gs, grabsAreIdentical newGrab g → SafeDelete L isMaster g gs
  | .ungrab minuend _ _ => SafeDelete L isMaster minuend gs

structure GrabRec.Bare (m : GrabRec) : Prop where
  detail : m.detail.exact = anyKey → m.detail.pMask = none
  modifiers : m.modifiersDetail.exact = anyModifier m.grabtype → m.modifiersDetail.pMask = none

structure Reads (g m : GrabRec) : Prop where
  detail : m.detail.exact < 256
  modifiers : g.modifiersDetail.exact = anyModifier g.grabtype → g.modifiersDetail.pMask.isSome →
    m.modifiersDetail.exact ≠ anyModifier g.grabtype → m.modifiersDetail.exact < 256

section
variable {L : Limits} {isMaster : Nat → Bool} {g m : GrabRec} {gs : List GrabRec}

theorem GrabRec.Bare.reads (h : m.Bare) (hd : g.detail.exact < 256) : Reads m g := by
  refine ⟨hd, fun hany hsome => ?_⟩
  rw [h.modifiers hany] at hsome
  cases hsome

theorem isInGrabMaskBits_lt {d p : DetailRec} {any : Nat}
    (h : d.exact = any → d.pMask.isSome → p.exact ≠ any → p.exact < 256) :
    ∀ i ∈ isInGrabMaskBits d p any, i < 256 := by
  unfold isInGrabMaskBits
  split
  · next hbit => simpa using h hbit.1 hbit.2.1 hbit.2.2
  · simp

theorem forall_append_ite {p q : List Nat} {c : Prop} [Decidable c] (hp : ∀ i ∈ p, i < 256)
    (hq : c → ∀ i ∈ q, i < 256) : ∀ i ∈ p ++ if c then q else [], i < 256 := by
  intro i hi
  rcases mem_append.mp hi with hi | hi
  · exact hp i hi
  · split at hi
    · next hc => exact hq hc i hi
    · cases hi

theorem forall_append_ite_not {p q : List Nat} {c : Prop} [Decidable c] (hp : ∀ i ∈ p, i < 256)
    (hq : ¬ c → ∀ i ∈ q, i < 256) : ∀ i ∈ p ++ if c then [] else q, i < 256 := by
  intro i hi
  rcases mem_append.mp hi with hi | hi
  · exact hp i hi
  · split at hi
    · cases hi
    · next hc => exact hq hc i hi

theorem Reads.detail_lt (h : Reads g m) : ∀ i ∈ isInGrabMaskBits g.detail m.detail anyKey, i < 256 :=
  isInGrabMaskBits_lt fun _ _ _ => h.detail

theorem Reads.modifiers_lt (h : Reads g m) :
    ∀ i ∈ isInGrabMaskBits g.modifiersDetail m.modifiersDetail (anyModifier g.grabtype), i < 256 :=
  isInGrabMaskBits_lt h.modifiers

theorem Reads.supersedes_lt (h : Reads g m) : ∀ i ∈ grabSupersedesBits g m, i < 256 :=
  forall_append_ite h.modifiers_lt fun _ => h.detail_lt

theorem GrabRec.SameKind.grabtype {ignoreDevice : Bool}
    (h : GrabRec.SameKind isMaster g m ignoreDevice = true) : g.grabtype = m.grabtype := by
  rw [GrabRec.SameKind] at h
  simp only [Bool.and_eq_true, decide_eq_true_eq] at h
  exact h.1.1

theorem matchesBits_lt (h : Reads g m) (h' : Reads m g) (ignoreDevice : Bool) :
    ∀ i ∈ grabMatchesBits isMaster g m ignoreDevice, i < 256 := by
  unfold grabMatchesBits
  split
  · simp
  next hkind =>
  have ht := GrabRec.SameKind.grabtype (not_not.mp hkind)
  have hmods := h'.modifiers_lt
  rw [← ht] at hmods
  refine forall_append_ite_not h.supersedes_lt fun _ => ?_
  refine forall_append_ite_not h'.supersedes_lt fun _ => ?_
  apply forall_append_ite_not
  · exact forall_append_ite h'.detail_lt fun _ => h.modifiers_lt
  · exact fun _ => forall_append_ite h.detail_lt fun _ => hmods

theorem identicalBits_lt (h : Reads g m) (h' : Reads m g) :
    ∀ i ∈ grabsAreIdenticalBits g m, i < 256 := by
  unfold grabsAreIdenticalBits
  split
  · simp
  next ht =>
  split
  · simp
  have hmods := h'.modifiers_lt
  rw [← not_not.mp ht] at hmods
  apply forall_append_ite_not
  · exact forall_append_ite h.detail_lt fun _ => h'.detail_lt
  · exact fun _ => forall_append_ite h.modifiers_lt fun _ => hmods

open DetailRec

theorem detail_superseded (ho : detailSupersedesSecond g.detail m.detail anyKey = true ∨
      detailSupersedesSecond m.detail g.detail anyKey = true) (hg : g.detail.exact ≠ anyKey) :
    detailSupersedesSecond m.detail g.detail anyKey = true := by
  rcases ho with ho | ho
  · have he := (supersedes_exact hg).mp ho
    exact (supersedes_exact (he ▸ hg)).mpr he.symm
  · exact ho

theorem GrabRec.Bare.anyMods (h : m.Bare) (ht : g.grabtype = m.grabtype)
    (ho : GrabRec.Overlaps g m) (hd : detailSupersedesSecond m.detail g.detail anyKey = true)
    (hs : ¬ grabSupersedesSecond m g = true) :
    g.AnyMods ∧ m.modifiersDetail.exact ≠ anyModifier m.grabtype := by
  have hnot : ¬ detailSupersedesSecond m.modifiersDetail g.modifiersDetail
      (anyModifier m.grabtype) = true := fun hm => hs (GrabRec.supersedes_iff.mpr ⟨hd, hm⟩)
  have hm : m.modifiersDetail.exact ≠ anyModifier m.grabtype := fun hm =>
    hnot (supersedes_any hm (h.modifiers hm))
  refine ⟨?_, hm⟩
  rw [GrabRec.AnyMods]
  by_contra hg
  rw [ht] at hg
  have hover := ho.2
  rw [ht] at hover
  rcases hover with hover | hover
  · have he := (supersedes_exact hg).mp hover
    exact hnot ((supersedes_exact hm).mpr he.symm)
  · exact hnot hover

theorem affects_iff : affects L isMaster m g = true ↔
    L.clientIdForXID g.resource = L.clientIdForXID m.resource ∧
      GrabRec.SameKind isMaster g m (g.grabtype = .core) = true ∧ GrabRec.Overlaps g m := by
  rw [affects, Bool.and_eq_true, GrabRec.matches_iff, decide_eq_true_eq]

theorem SafeDelete.modifiers_lt (h : SafeDelete L isMaster m gs) (hg : g ∈ gs)
    (ha : affects L isMaster m g = true) (hany : g.AnyMods)
    (hm : m.modifiersDetail.exact ≠ anyModifier m.grabtype) : m.modifiersDetail.exact < 256 := by
  rcases h with hfits | hsafe
  · exact hfits.resolve_left hm
  · obtain ⟨hclient, hkind, hover⟩ := affects_iff.mp ha
    obtain ⟨-, hno, hno'⟩ := hsafe g hg hclient hkind hany
    rcases hover.1 with hd | hd
    · exact absurd hd hno
    · exact absurd hd hno'

theorem SafeDelete.reads (h : SafeDelete L isMaster m gs) (hd : m.detail.exact < 256) (hg : g ∈ gs)
    (hclient : L.clientIdForXID g.resource = L.clientIdForXID m.resource)
    (hkind : GrabRec.SameKind isMaster g m (g.grabtype = .core) = true) : Reads g m := by
  refine ⟨hd, fun hany hsome hne => ?_⟩
  have ht := GrabRec.SameKind.grabtype hkind
  rcases h with hfits | hsafe
  · exact hfits.resolve_left (ht ▸ hne)
  · rw [(hsafe g hg hclient hkind hany).1] at hsome
    cases hsome

theorem deleteBits_lt {detail : Nat} {allocated : Bool} (h : detail < 256) :
    ∀ i ∈ deleteDetailFromMaskBits detail allocated, i < 256 := by
  unfold deleteDetailFromMaskBits
  split
  · simpa using h
  · simp

theorem visitGrabBits_lt (hb : m.Bare) (hd : m.detail.exact < 256)
    (h : SafeDelete L isMaster m gs) (hg : g ∈ gs) (hgd : g.detail.exact < 256) (o : Outcome) :
    ∀ i ∈ visitGrabBits L isMaster m g o, i < 256 := by
  unfold visitGrabBits
  dsimp only
  split
  · simp
  next hclient =>
  have hclient := not_not.mp hclient
  by_cases hkind : GrabRec.SameKind isMaster g m (g.grabtype = .core) = true
  · have hreads := h.reads hd hg hclient hkind
    refine forall_append_ite_not (matchesBits_lt hreads (hb.reads hgd) _) fun ha => ?_
    have ha := not_not.mp ha
    obtain ⟨ht, hover⟩ := affects_spec ha
    refine forall_append_ite_not (hb.reads hgd).supersedes_lt fun hs => ?_
    split
    · exact deleteBits_lt hd
    next hfirst =>
    split
    · next hmods =>
      have hsup := detail_superseded hover.1 hmods.2
      obtain ⟨hany, hne⟩ := hb.anyMods ht hover hsup hs
      exact deleteBits_lt (h.modifiers_lt hg ha hany hne)
    split
    · next hexact =>
      have hany : g.AnyMods := by
        by_cases hgk : g.detail.exact = anyKey
        · rw [GrabRec.AnyMods, ht]
          by_contra hne
          exact hfirst ⟨hgk, hne⟩
        · exact (hb.anyMods ht hover (detail_superseded hover.1 hgk) hs).1
      unfold splitGrabBits
      exact forall_append_ite (deleteBits_lt hd) fun _ =>
        deleteBits_lt (h.modifiers_lt hg ha hany hexact.2)
    split
    · next hkey =>
      have hsup := supersedes_any (d := g.detail) hkey (hb.detail hkey)
      obtain ⟨hany, hne⟩ := hb.anyMods ht hover hsup hs
      exact deleteBits_lt (h.modifiers_lt hg ha hany hne)
    · exact deleteBits_lt hd
  · have hnot : ¬ affects L isMaster m g = true := fun ha => hkind (affects_iff.mp ha).2.1
    rw [if_pos hnot, append_nil, grabMatchesBits, if_pos hkind]
    simp

variable {outcome : XID → Outcome}

theorem visitGrabsBits_lt (hb : m.Bare) (hd : m.detail.exact < 256)
    (h : SafeDelete L isMaster m gs) :
    ∀ (rest : List GrabRec) (p : Pending), (∀ g ∈ rest, g ∈ gs ∧ g.detail.exact < 256) →
      ∀ i ∈ visitGrabsBits L isMaster m outcome rest p, i < 256 := by
  intro rest
  induction rest with
  | nil => exact fun _ _ _ hi => absurd hi not_mem_nil
  | cons g rest ih =>
    intro p hrest i hi
    obtain ⟨hg, hgd⟩ := hrest g mem_cons_self
    rw [visitGrabsBits] at hi
    split at hi
    · rcases mem_append.mp hi with hi | hi
      · exact visitGrabBits_lt hb hd h hg hgd _ i hi
      · split at hi
        · cases hi
        · exact ih _ (fun g' hg' => hrest g' (mem_cons_of_mem g hg')) i hi
    · cases hi

theorem deleteListBits_lt (hb : m.Bare) (hd : m.detail.exact < 256)
    (h : SafeDelete L isMaster m gs) (hgs : ∀ g ∈ gs, g.detail.exact < 256) (arrays : Bool)
    (outcome : XID → Outcome) :
    ∀ i ∈ deletePassiveGrabFromListBits L isMaster m arrays outcome gs, i < 256 := by
  unfold deletePassiveGrabFromListBits
  split
  · exact visitGrabsBits_lt hb hd h gs {} fun g hg => ⟨hg, hgs g hg⟩
  · simp

theorem conflictsBits_lt (hb : m.Bare) (hd : m.detail.exact < 256)
    (h : m.Fits ∨ ∀ g ∈ gs, GrabRec.SameKind isMaster m g (m.grabtype = .core) → g.AnyMods →
      g.modifiersDetail.pMask = none) (hgs : ∀ g ∈ gs, g.detail.exact < 256) :
    ∀ i ∈ conflictsBits L isMaster m gs, i < 256 := by
  induction gs with
  | nil => exact fun _ hi => absurd hi not_mem_nil
  | cons g gs ih =>
    have hrest := h.imp_right fun hsafe g' hg' => hsafe g' (mem_cons_of_mem g hg')
    rw [conflictsBits]
    refine forall_append_ite_not ?_ fun _ =>
      ih hrest fun g' hg' => hgs g' (mem_cons_of_mem g hg')
    by_cases hkind : GrabRec.SameKind isMaster m g (m.grabtype = .core) = true
    · refine matchesBits_lt (hb.reads (hgs g mem_cons_self)) ⟨hd, fun hany hsome hne => ?_⟩ _
      have ht := GrabRec.SameKind.grabtype hkind
      rcases h with hfits | hsafe
      · exact hfits.resolve_left (ht ▸ hne)
      · rw [hsafe g mem_cons_self hkind hany] at hsome
        cases hsome
    · rw [grabMatchesBits, if_pos hkind]
      simp

theorem identical_kind (h : ¬ (g.grabtype ≠ m.grabtype)) (h' : ¬ (g.device ≠ m.device ∨
    g.modifierDevice ≠ m.modifierDevice ∨ g.type ≠ m.type)) (ignoreDevice : Bool) :
    GrabRec.SameKind isMaster g m ignoreDevice = true := by
  push Not at h h'
  rw [GrabRec.SameKind, devicesMatch]
  simp only [h, h'.1, h'.2.1, h'.2.2, Bool.and_eq_true, decide_eq_true_eq]
  refine ⟨⟨trivial, ?_⟩, trivial⟩
  split
  · split
    · rfl
    · split
      · next hmaster => simp [hmaster]
      · exact decide_eq_true trivial
  · simp

theorem identicalBits_safe_lt (hb : m.Bare) (hd : m.detail.exact < 256)
    (h : m.Fits ∨ ∀ g ∈ gs, GrabRec.SameKind isMaster m g (m.grabtype = .core) → g.AnyMods →
      g.modifiersDetail.pMask = none) (hgs : ∀ g ∈ gs, g.detail.exact < 256) :
    ∀ i ∈ findIdenticalBits m gs, i < 256 := by
  induction gs with
  | nil => exact fun _ hi => absurd hi not_mem_nil
  | cons g gs ih =>
    have hrest := h.imp_right fun hsafe g' hg' => hsafe g' (mem_cons_of_mem g hg')
    rw [findIdenticalBits]
    refine forall_append_ite_not ?_ fun _ =>
      ih hrest fun g' hg' => hgs g' (mem_cons_of_mem g hg')
    by_cases hkind : ¬ (m.grabtype ≠ g.grabtype) ∧ ¬ (m.device ≠ g.device ∨
        m.modifierDevice ≠ g.modifierDevice ∨ m.type ≠ g.type)
    · refine identicalBits_lt (hb.reads (hgs g mem_cons_self)) ⟨hd, fun hany hsome hne => ?_⟩
      have ht := not_not.mp hkind.1
      rcases h with hfits | hsafe
      · exact hfits.resolve_left (ht ▸ hne)
      · rw [hsafe g mem_cons_self (identical_kind hkind.1 hkind.2 _) hany] at hsome
        cases hsome
    · unfold grabsAreIdenticalBits
      split
      · simp
      · next ht =>
        rw [if_pos (not_not.mp fun hother => hkind ⟨ht, hother⟩)]
        simp

theorem GrabRec.Bare.of_identical (hb : m.Bare) (h : grabsAreIdentical m g = true) : g.Bare := by
  have hnone : ∀ {any : Nat} {p d : DetailRec}, (p.exact = any → p.pMask = none) →
      detailSupersedesSecond p d any = true → detailSupersedesSecond d p any = true →
      d.exact = any → d.pMask = none := by
    intro any p d hp hpd hdp hd
    have hpany : p.exact = any := by
      by_contra hne
      exact hne (((supersedes_exact hne).mp hpd).symm.trans hd)
    rw [detailSupersedesSecond, isInGrabMask, if_pos hd, identicalExactDetails] at hdp
    cases hm : d.pMask with
    | none => rfl
    | some mask =>
      rw [hm] at hdp
      simp [hpany] at hdp
  unfold grabsAreIdentical at h
  dsimp only at h
  split at h
  · cases h
  next ht =>
  split at h
  · cases h
  split at h
  · cases h
  next hd =>
  split at h
  · cases h
  next hm =>
  rw [not_not] at hd hm
  refine ⟨hnone hb.detail hd.1 hd.2, ?_⟩
  rw [← not_not.mp ht]
  exact hnone hb.modifiers hm.1 hm.2

theorem addListBits_lt (hb : m.Bare) (hd : m.detail.exact < 256)
    (h : m.Fits ∨ ∀ g ∈ gs, GrabRec.SameKind isMaster m g (m.grabtype = .core) → g.AnyMods →
      g.modifiersDetail.pMask = none)
    (hsafe : ∀ g ∈ gs, grabsAreIdentical m g → SafeDelete L isMaster g gs)
    (hgs : ∀ g ∈ gs, g.detail.exact < 256) (access : Bool → Int) (arrays : Bool)
    (outcome : XID → Outcome) :
    ∀ i ∈ addPassiveGrabToListBits L isMaster m access arrays outcome gs, i < 256 := by
  unfold addPassiveGrabToListBits
  refine forall_append_ite_not (conflictsBits_lt hb hd h hgs) fun _ => ?_
  split
  · simp
  intro i hi
  rcases mem_append.mp hi with hi | hi
  · exact @identicalBits_safe_lt isMaster m gs hb hd h hgs i hi
  · cases hfind : gs.find? (grabsAreIdentical m) with
    | none =>
      rw [hfind] at hi
      cases hi
    | some grab =>
      rw [hfind] at hi
      have hmem := mem_of_find?_eq_some hfind
      have hident := find?_some hfind
      exact deleteListBits_lt (hb.of_identical hident) (hgs grab hmem) (hsafe grab hmem hident) hgs
        arrays outcome i hi

def Exact (gs : List GrabRec) : Prop := ∀ g ∈ gs, g.detail.exact < 256

theorem createGrab_detail {id : XID} {device modDevice window : Nat} {grabtype : Touch.InputLevel}
    {mask : GrabMask} {param : GrabParameters} {eventType : Nat} {keybut : BitVec 8}
    {confineTo cursor : Nat} {allocated : Bool} {newGrab : GrabRec}
    (h : createGrab id device modDevice window grabtype mask param eventType keybut confineTo cursor
      allocated = some (some newGrab)) : newGrab.detail.exact < 256 := by
  unfold createGrab at h
  split at h
  · cases h
  dsimp only at h
  split at h
  · obtain ⟨source, -, hs⟩ := map_eq_some_iff.mp h
    cases hs
    exact keybut.isLt
  · cases h
    exact keybut.isLt

theorem Pending.update_adds (p : Pending) (resource : XID) (field : Field)
    (mask : Option DetailMask) : (p.update resource field mask).adds = p.adds := by
  unfold Pending.update
  cases mask <;> rfl

variable {p p' : Pending}

theorem splitGrab_exact {o : Outcome} (hp : Exact p.adds)
    (h : splitGrab m g o p = some p') : Exact p'.adds := by
  unfold splitGrab at h
  obtain ⟨newGrab, hnew, hmap⟩ := map_eq_some_iff.mp h
  have hup := p.update_adds g.resource .detail
    (deleteDetailFromMask g.detail.pMask m.detail.exact o.update)
  cases newGrab with
  | none =>
    cases hmap
    exact hup ▸ hp
  | some newGrab =>
    dsimp only at hmap
    split at hmap
    · cases hmap
      exact hup ▸ hp
    · split at hmap
      · cases hmap
        exact hup ▸ hp
      · split at hmap
        · cases hmap
          exact hup ▸ hp
        · cases hmap
          rw [hup]
          intro n hn
          rcases mem_append.mp hn with hn | hn
          · exact hp n hn
          · rw [mem_singleton.mp hn]
            exact (createGrab_detail hnew : newGrab.detail.exact < 256)

theorem visitGrab_exact {o : Outcome} (hp : Exact p.adds)
    (h : visitGrab L isMaster m g o p = some p') : Exact p'.adds := by
  unfold visitGrab at h
  dsimp only at h
  split at h
  · cases h
    exact hp
  split at h
  · cases h
    exact hp
  split at h
  · cases h
    rw [Pending.update_adds]
    exact hp
  split at h
  · cases h
    rw [Pending.update_adds]
    exact hp
  split at h
  · exact splitGrab_exact hp h
  split at h
  · cases h
    rw [Pending.update_adds]
    exact hp
  · cases h
    rw [Pending.update_adds]
    exact hp

theorem visitGrabs_exact (hp : Exact p.adds)
    (h : visitGrabs L isMaster m outcome gs p = some p') : Exact p'.adds := by
  induction gs generalizing p with
  | nil =>
    cases h
    exact hp
  | cons g gs ih =>
    rw [visitGrabs] at h
    split at h
    · obtain ⟨q, hq, hrest⟩ := bind_eq_some_iff.mp h
      exact ih (visitGrab_exact hp hq) hrest
    · cases h
      exact hp

theorem applyUpdate_exact (us : List (XID × Field × DetailMask)) (g : GrabRec) :
    (us.foldl applyUpdate g).detail.exact = g.detail.exact := by
  induction us generalizing g with
  | nil => rfl
  | cons u us ih =>
    rw [foldl_cons, ih, applyUpdate]
    split
    · rfl
    · split <;> rfl

variable {gs' : List GrabRec}

theorem deleteList_exact {arrays ok : Bool} (hgs : Exact gs)
    (h : deletePassiveGrabFromList L isMaster m arrays outcome gs = some (ok, gs')) : Exact gs' := by
  unfold deletePassiveGrabFromList at h
  split at h
  · cases h
    exact hgs
  split at h
  · cases h
    exact hgs
  obtain ⟨p, hp, hmap⟩ := map_eq_some_iff.mp h
  have hadds := visitGrabs_exact (p := {}) (fun _ hn => absurd hn not_mem_nil) hp
  split at hmap
  · cases hmap
    exact fun g hg => hgs g (mem_of_mem_filter hg)
  · cases hmap
    intro g hg
    rw [commit] at hg
    rcases mem_append.mp hg with hg | hg
    · exact hadds g (mem_reverse.mp hg)
    · obtain ⟨g', hg', rfl⟩ := List.mem_map.mp hg
      rw [applyUpdate_exact]
      exact hgs g' (mem_of_mem_filter hg')

theorem addList_exact {access : Bool → Int}
    {arrays optional resource : Bool} {rc : Int} (hm : m.detail.exact < 256) (hgs : Exact gs)
    (h : addPassiveGrabToList L isMaster m access arrays outcome optional resource gs =
      some (rc, gs')) : Exact gs' := by
  unfold addPassiveGrabToList at h
  split at h
  · cases h
    exact hgs
  dsimp only at h
  split at h
  · cases h
    exact hgs
  obtain ⟨gs₁, hremoved, hmap⟩ := map_eq_some_iff.mp h
  have hleft : Exact gs₁ := by
    split at hremoved
    · cases hremoved
      exact hgs
    · obtain ⟨⟨ok, gs₂⟩, hdel, he⟩ := map_eq_some_iff.mp hremoved
      cases he
      exact deleteList_exact hgs hdel
  have hcons : Exact (m :: gs₁) := forall_mem_cons.mpr ⟨hm, hleft⟩
  split at hmap
  · cases hmap
    exact hleft
  split at hmap
  · cases hmap
    exact fun g hg => hcons g (mem_of_mem_filter hg)
  · cases hmap
    exact hcons

theorem Asked.step_exact {c : Asked} {rc : Int} (hgs : Exact gs)
    (h : c.step L isMaster gs = some (gs', rc)) : Exact gs' := by
  cases c with
  | grab newGrab access arrays outcome optional resource =>
    obtain ⟨⟨rc', gs''⟩, hadd, he⟩ := map_eq_some_iff.mp h
    cases he
    exact addList_exact newGrab.2.detail hgs hadd
  | ungrab minuend arrays outcome =>
    obtain ⟨⟨ok, gs''⟩, hdel, he⟩ := map_eq_some_iff.mp h
    cases he
    exact deleteList_exact hgs hdel

theorem Admitted.bare {ungrab : Bool} (h : Admitted ungrab m) : m.Bare :=
  ⟨fun _ => h.unmasked.1, fun _ => h.unmasked.2⟩

/-- On every list that requests can make, a request whose modifiers are any or below 256, or that
meets no grab for any modifiers that has a mask or gets one, stays within the masks. -/
theorem indices_in_range {calls : List Asked} {rcs : List Int}
    (h : exec (Asked.step L isMaster) [] calls = some (gs, rcs)) {c : Asked}
    (hc : c.Safe L isMaster gs) : ∀ i ∈ c.bits L isMaster gs, i < 32 * masksPerDetailMask := by
  have hgs : Exact gs :=
    Run.exec_keeps (fun _ _ _ _ hs _ hstep => Asked.step_exact hs hstep)
      (fun _ hn => absurd hn not_mem_nil) (Run.guarded_true [] calls) h
  cases c with
  | grab newGrab access arrays outcome optional resource =>
    exact addListBits_lt newGrab.2.bare newGrab.2.detail hc.1 hc.2 hgs access arrays outcome
  | ungrab minuend arrays outcome =>
    exact deleteListBits_lt minuend.2.bare minuend.2.detail hc hgs arrays outcome

def anyModsGrab : Asked :=
  .grab ⟨keyGrab 1 .xi2 1 (anyModifier .xi2), ⟨⟨rfl, rfl⟩, by decide, .inr (.inr ⟨rfl, by decide,
    .inr rfl⟩)⟩⟩ (fun _ => success) true (plenty 1) true true

def modsUngrab (modifiers : Nat) (h : modifiers < 2 ^ 32) : Asked :=
  .ungrab ⟨keyGrab 1 .xi2 1 modifiers, ⟨⟨rfl, rfl⟩, (by decide : 1 < 256),
    .inr (.inr ⟨rfl, h, .inl rfl⟩)⟩⟩ true (plenty 1)

theorem indices_in_range_shift : ∃ gs rcs,
    exec (Asked.step limits fun _ => false) [] [anyModsGrab] = some (gs, rcs) ∧
      ∀ i ∈ (modsUngrab 1 (by decide)).bits limits (fun _ => false) gs,
        i < 32 * masksPerDetailMask := by
  have hexec : exec (Asked.step limits fun _ => false) [] [anyModsGrab] =
      some ([keyGrab 1 .xi2 1 (anyModifier .xi2)], [0]) := by decide +kernel
  exact ⟨_, _, hexec, indices_in_range hexec (.inl (.inr (by decide)))⟩

/-- A bit beyond the mask is cleared. -/
theorem indices_beyond : ∃ gs rcs,
    exec (Asked.step limits fun _ => false) [] [anyModsGrab] = some (gs, rcs) ∧
      1000 ∈ (modsUngrab 1000 (by decide)).bits limits (fun _ => false) gs ∧
      ¬ 1000 < 32 * masksPerDetailMask := by
  have hexec : exec (Asked.step limits fun _ => false) [] [anyModsGrab] =
      some ([keyGrab 1 .xi2 1 (anyModifier .xi2)], [0]) := by decide +kernel
  exact ⟨_, _, hexec, by decide +kernel, by decide⟩

end

end Xfront.Grabs
