import Xfront.Grabs.Ungrab
import Xfront.Lib.Run

/-!
# Grabs of different clients do not overlap

A grab is added where no grab of another client is found to overlap, and the comparison finds every
pair that both cover.
-/

namespace Xfront.Grabs
open List Option GrabRec
open Resource (XID Limits)
open Run (exec Guarded)

variable {L : Limits} {isMaster : Nat → Bool} {outcome : XID → Outcome} {gs gs' : List GrabRec}

/-- The same grab type, event type and device, which does not matter for core grabs. -/
def Alike (isMaster : Nat → Bool) (g g' : GrabRec) : Prop :=
  GrabRec.SameKind isMaster g g' (g.grabtype = .core) = true

variable {g g' : GrabRec}

theorem Alike.grabtype (h : Alike isMaster g g') : g.grabtype = g'.grabtype := by
  rw [Alike, GrabRec.SameKind] at h
  simp only [Bool.and_eq_true, decide_eq_true_eq] at h
  exact h.1.1

theorem devicesMatch_symm {ignoreDevice : Bool} (ht : g.grabtype = g'.grabtype)
    (h : devicesMatch isMaster g g' ignoreDevice = true) :
    devicesMatch isMaster g' g ignoreDevice = true := by
  rw [devicesMatch] at h ⊢
  rw [← ht]
  split
  · next hxi =>
    rw [if_pos hxi] at h
    grind
  · next hxi =>
    rw [if_neg hxi] at h
    grind

theorem Alike.symm (h : Alike isMaster g g') : Alike isMaster g' g := by
  have ht := h.grabtype
  rw [Alike, GrabRec.SameKind] at h ⊢
  simp only [Bool.and_eq_true, decide_eq_true_eq] at h ⊢
  exact ⟨⟨ht.symm, devicesMatch_symm ht (ht ▸ h.1.2)⟩, h.2.symm⟩

theorem Alike.of_splitFrom {n n' : GrabRec} (h : n.SplitFrom g) (h' : n'.SplitFrom g')
    (ha : Alike isMaster n n') : Alike isMaster g g' := by
  rw [Alike, GrabRec.SameKind, devicesMatch] at ha ⊢
  rw [h.grabtype, h.type, h.device, h.modifierDevice, h'.grabtype, h'.type, h'.device,
    h'.modifierDevice] at ha
  exact ha

structure Separated (L : Limits) (isMaster : Nat → Bool) (gs : List GrabRec) : Prop where
  nodup : (gs.map resource).Nodup
  disjoint : ∀ g ∈ gs, ∀ g' ∈ gs,
    L.clientIdForXID g.resource ≠ L.clientIdForXID g'.resource → Alike isMaster g g' →
    ∀ x, g.Covers x → ¬ g'.Covers x

variable {m : GrabRec}

theorem Separated.committed (h : Separated L isMaster gs)
    (hc : Committed L isMaster m outcome gs gs') : Separated L isMaster gs' := by
  refine ⟨hc.nodup, fun n hn n' hn' hne halike x hx hx' => ?_⟩
  obtain ⟨g, hg, hfrom, hclient⟩ := hc.splitFrom n hn
  obtain ⟨g', hg', hfrom', hclient'⟩ := hc.splitFrom n' hn'
  rw [hclient, hclient'] at hne
  exact h.disjoint g hg g' hg' hne (halike.of_splitFrom hfrom hfrom') x (hfrom.covers x hx)
    (hfrom'.covers x hx')

theorem deleted_cases {arrays ok : Bool} (hm : m.Plain)
    (hnodup : (gs.map resource).Nodup) (hfresh : Fresh L outcome gs)
    (h : deletePassiveGrabFromList L isMaster m arrays outcome gs = some (ok, gs')) :
    Committed L isMaster m outcome gs gs' ∨ gs' = gs := by
  rcases deletePassiveGrabFromList_cases isMaster hm hnodup hfresh arrays with
    ⟨_, hnone⟩ | ⟨_, ok', gs'', hsome, htrue, hfalse⟩
  · rw [hnone] at h
    cases h
  · rw [hsome] at h
    cases h
    cases ok with
    | true => exact .inl (htrue rfl)
    | false => exact .inr (hfalse rfl)

def Meets (L : Limits) (isMaster : Nat → Bool) (newGrab : GrabRec) (gs : List GrabRec) : Prop :=
  ∃ g ∈ gs, L.clientIdForXID newGrab.resource ≠ L.clientIdForXID g.resource ∧
    Alike isMaster newGrab g ∧ ∃ x, newGrab.Covers x ∧ g.Covers x

variable {newGrab : GrabRec}

theorem conflicts_of_meets (hp : newGrab.Plain)
    (h : Meets L isMaster newGrab gs) : conflicts L isMaster newGrab gs = true := by
  obtain ⟨g, hg, hne, halike, x, hx, hgx⟩ := h
  have hover := hp.overlaps halike.grabtype.symm hx hgx
  rw [conflicts, List.any_eq_true]
  refine ⟨g, hg, ?_⟩
  rw [Bool.and_eq_true, matches_iff, decide_eq_true_eq]
  refine ⟨⟨halike, hover.1.symm, ?_⟩, hne⟩
  rw [halike.grabtype]
  exact hover.2.symm

theorem identical_plain (hp : newGrab.Plain)
    (h : grabsAreIdentical newGrab g = true) : g.Plain := by
  rw [grabsAreIdentical] at h
  split at h
  · cases h
  next ht =>
  split at h
  · cases h
  split at h
  · cases h
  next hd =>
  split at h
  · cases h
  next hm =>
  rw [not_not] at hd hm
  have ht := not_not.mp ht
  exact ⟨hp.detail.of_mutual hd.1 hd.2, ht ▸ hp.modifiers.of_mutual hm.1 hm.2⟩

theorem Separated.cons (h : Separated L isMaster gs)
    (hnew : newGrab.resource ∉ gs.map resource) (hno : ¬ Meets L isMaster newGrab gs) :
    Separated L isMaster (newGrab :: gs) := by
  refine ⟨nodup_cons.mpr ⟨hnew, h.nodup⟩, fun g hg g' hg' hne halike x hx hx' => ?_⟩
  rcases mem_cons.mp hg with he | hg <;> rcases mem_cons.mp hg' with he' | hg'
  · exact hne (by rw [he, he'])
  · exact hno ⟨g', hg', he ▸ hne, he ▸ halike, x, he ▸ hx, hx'⟩
  · exact hno ⟨g, hg, he' ▸ hne.symm, he' ▸ halike.symm, x, he' ▸ hx', hx⟩
  · exact h.disjoint g hg g' hg' hne halike x hx hx'

theorem Committed.not_meets (hc : Committed L isMaster m outcome gs gs')
    (hno : ¬ Meets L isMaster newGrab gs) : ¬ Meets L isMaster newGrab gs' := by
  rintro ⟨n, hn, hne, halike, x, hx, hnx⟩
  obtain ⟨g, hg, hfrom, hclient⟩ := hc.splitFrom n hn
  exact hno ⟨g, hg, hclient ▸ hne, halike.of_splitFrom (.refl newGrab) hfrom, x, hx,
    hfrom.covers x hnx⟩

theorem Separated.freed {ids : List XID} (h : Separated L isMaster gs) :
    Separated L isMaster (freeGrabs ids gs) :=
  ⟨h.nodup.sublist (filter_sublist.map _), fun g hg g' hg' =>
    h.disjoint g (mem_of_mem_filter hg) g' (mem_of_mem_filter hg')⟩

structure FreshNew (L : Limits) (newGrab : GrabRec) (outcome : XID → Outcome)
    (gs : List GrabRec) : Prop extends Fresh L outcome gs where
  notUsed : newGrab.resource ∉ gs.map resource
  notSplit : ∀ g ∈ gs, newGrab.resource ≠ (outcome g.resource).id

theorem FreshNew.committed (h : FreshNew L newGrab outcome gs)
    (hc : Committed L isMaster m outcome gs gs') : newGrab.resource ∉ gs'.map resource := by
  intro hin
  obtain ⟨n, hn, he⟩ := List.mem_map.mp hin
  rcases hc.ids n hn with hold | ⟨g, hg, hid⟩
  · exact h.notUsed (he ▸ hold)
  · exact h.notSplit g hg (he ▸ hid)

theorem addPassiveGrabToList_separated {access : Bool → Int}
    {arrays optional resource : Bool} {rc : Int} (hp : newGrab.Plain)
    (hsep : Separated L isMaster gs) (hfresh : FreshNew L newGrab outcome gs)
    (h : addPassiveGrabToList L isMaster newGrab access arrays outcome optional resource gs =
      some (rc, gs')) : Separated L isMaster gs' := by
  rw [addPassiveGrabToList] at h
  split at h
  · cases h
    exact hsep
  next hno =>
  have hmeets : ¬ Meets L isMaster newGrab gs := fun hm => hno (conflicts_of_meets hp hm)
  dsimp only at h
  split at h
  · cases h
    exact hsep
  obtain ⟨gs₁, hremoved, h⟩ := map_eq_some_iff.mp h
  -- the grab that is replaced is deleted, or stays where that fails
  have hleft : Separated L isMaster gs₁ ∧ newGrab.resource ∉ gs₁.map GrabRec.resource ∧
      ¬ Meets L isMaster newGrab gs₁ := by
    cases hfind : gs.find? (grabsAreIdentical newGrab) with
    | none =>
      rw [hfind] at hremoved
      cases hremoved
      exact ⟨hsep, hfresh.notUsed, hmeets⟩
    | some grab =>
      rw [hfind] at hremoved
      obtain ⟨⟨ok, gs₂⟩, hdeleted, he⟩ := map_eq_some_iff.mp hremoved
      cases he
      rcases deleted_cases (identical_plain hp (find?_some hfind)) hsep.nodup
        hfresh.toFresh hdeleted with hc | he
      · exact ⟨hsep.committed hc, hfresh.committed hc, hc.not_meets hmeets⟩
      · rw [he]
        exact ⟨hsep, hfresh.notUsed, hmeets⟩
  have hcons := hleft.1.cons hleft.2.1 hleft.2.2
  split at h
  · cases h
    exact hleft.1
  split at h
  · cases h
    exact hcons.freed
  · cases h
    exact hcons

abbrev Request := { g : GrabRec // g.Plain }

inductive Call
  | add (newGrab : Request) (access : Bool → Int) (arrays : Bool) (outcome : XID → Outcome)
      (optional resource : Bool)
  | delete (minuend : Request) (arrays : Bool) (outcome : XID → Outcome)

def Call.step (L : Limits) (isMaster : Nat → Bool) (gs : List GrabRec) :
    Call → Option (List GrabRec × Int)
  | .add newGrab access arrays outcome optional resource =>
    (addPassiveGrabToList L isMaster newGrab access arrays outcome optional resource gs).map
      Prod.swap
  | .delete minuend arrays outcome =>
    (deletePassiveGrabFromList L isMaster minuend arrays outcome gs).map fun (ok, gs) =>
      (gs, if ok then 1 else 0)

/-- The ids that `FakeClientID` gives are unused ids of the client. -/
def Call.Unused (L : Limits) (gs : List GrabRec) : Call → Prop
  | .add newGrab _ _ outcome _ _ => FreshNew L newGrab outcome gs
  | .delete _ _ outcome => Fresh L outcome gs

theorem Call.step_separated {c : Call} {rc : Int} (hsep : Separated L isMaster gs)
    (hc : c.Unused L gs) (h : c.step L isMaster gs = some (gs', rc)) :
    Separated L isMaster gs' := by
  cases c with
  | add newGrab access arrays outcome optional resource =>
    obtain ⟨⟨rc', gs''⟩, hadd, he⟩ := map_eq_some_iff.mp h
    cases he
    exact addPassiveGrabToList_separated newGrab.2 hsep hc hadd
  | delete minuend arrays outcome =>
    obtain ⟨⟨ok, gs''⟩, hdel, he⟩ := map_eq_some_iff.mp h
    cases he
    rcases deleted_cases minuend.2 hsep.nodup hc hdel with hcom | rfl
    · exact hsep.committed hcom
    · exact hsep

/-- In every run no grabs of two clients overlap, and a grab that would is refused. -/
theorem passiveGrabs_separated {calls : List Call} {rcs : List Int}
    (hu : Guarded (Call.step L isMaster) (fun gs c => c.Unused L gs) [] calls)
    (h : exec (Call.step L isMaster) [] calls = some (gs, rcs)) :
    (∀ g ∈ gs, ∀ g' ∈ gs, L.clientIdForXID g.resource ≠ L.clientIdForXID g'.resource →
      Alike isMaster g g' → ∀ x, g.Covers x → ¬ g'.Covers x) ∧
    (∀ newGrab : Request, Meets L isMaster newGrab gs → ∀ access arrays outcome optional resource,
        addPassiveGrabToList L isMaster newGrab access arrays outcome optional resource gs =
          some (badAccess, gs)) := by
  have hnil : Separated L isMaster [] :=
    ⟨nodup_nil, fun g hg => absurd hg not_mem_nil⟩
  have hsep := Run.exec_keeps (fun s c s' rc hs hc hstep => Call.step_separated hs hc hstep)
    hnil hu h
  refine ⟨hsep.disjoint, fun newGrab hmeets access arrays outcome optional resource => ?_⟩
  rw [addPassiveGrabToList, if_pos (conflicts_of_meets newGrab.2 hmeets)]

def coreGrab (c detail modifiers : Nat) (hd : detail < 256)
    (hm : modifiers = anyModifier .core ∨ modifiers < 256) : Request :=
  ⟨keyGrab c .core detail modifiers, keyGrab_plain c .core detail modifiers hd hm⟩

def handOver : List Call :=
  [.add (coreGrab 1 anyKey (anyModifier .core) (by decide) (by decide)) (fun _ => success) true
      (plenty 1) true true,
    .delete (coreGrab 1 38 0 (by decide) (by decide)) true (plenty 1),
    .add (coreGrab 2 38 0 (by decide) (by decide)) (fun _ => success) true (plenty 2) true true]

theorem passiveGrabs_separated_three : ∃ gs rcs,
    exec (Call.step limits fun _ => false) [] handOver = some (gs, rcs) ∧ rcs = [0, 1, 0] ∧
      ∀ g ∈ gs, ∀ g' ∈ gs, limits.clientIdForXID g.resource ≠ limits.clientIdForXID g'.resource →
        Alike (fun _ => false) g g' → ∀ x, g.Covers x → ¬ g'.Covers x := by
  let one := keyGrab 1 .core anyKey (anyModifier .core)
  let split : List GrabRec :=
    [splitOff (keyGrab 1 .core 38 0) one (one.resource ||| 1) (bitClear (BitVec.allOnes 256) 0),
      one.withDetail (bitClear (BitVec.allOnes 256) 38)]
  have hexec : exec (Call.step limits fun _ => false) [] handOver =
      some (keyGrab 2 .core 38 0 :: split, [0, 1, 0]) := by decide +kernel
  refine ⟨_, _, hexec, rfl, (passiveGrabs_separated ?_ hexec).1⟩
  refine Run.guarded_cons ?_ (show _ = some ([one], 0) by decide +kernel)
    (Run.guarded_cons ?_ (show _ = some (split, 1) by decide +kernel)
      (Run.guarded_cons ?_ (show _ = some (keyGrab 2 .core 38 0 :: split, 0) by decide +kernel)
        trivial))
  · exact ⟨⟨by simp, by simp, by simp⟩, by simp, by simp⟩
  · exact ⟨by decide +kernel, by decide +kernel, by decide +kernel⟩
  · exact ⟨⟨by decide +kernel, by decide +kernel, by decide +kernel⟩, by decide +kernel,
      by decide +kernel⟩

end Xfront.Grabs
