import Xfront.Resource.Ranges

/-!
# Ids for a client that has none left (dix/resource.c, Xext/xcmisc/xcmisc.c)

`GetXIDList` collects unused ids one by one; an id of the range that `GetXIDRange` finds stays legal.
-/

namespace Xfront.Resource
open List BitVec

variable {V : Type} {L : Limits} {s s' : Server V} {c : Nat} {x : XID}

/-! ### `GetXIDList` (`resource.c:739-781`) -/

/-- Up to `count` of the `n` ids from `id` on. -/
def xidListLoop (unused : XID → Bool) (id : XID) : Nat → Nat → List XID
  | n + 1, count + 1 =>
    if unused id then id :: xidListLoop unused (id + 1) n count
    else xidListLoop unused (id + 1) n (count + 1)
  | _, _ => []

def getXIDList (L : Limits) (s : Server V) (c count : Nat) (access : ResourceRec V → Int) :
    List XID :=
  let id := L.clientAsMask c
  xidListLoop (fun id => (dixLookupResourceByClass L s id (~~~0) (some access)).1 = badValue) id
    ((id ||| L.resourceIDMask).toNat + 1 - id.toNat) count

/-- The ids of a client in ascending order. -/
def clientIDs (L : Limits) (c : Nat) : List XID :=
  (range (2 ^ L.clientOffset)).map fun i => L.clientAsMask c + BitVec.ofNat 32 i

theorem xidListLoop_eq (unused : XID → Bool) (id : XID) (n count : Nat) :
    xidListLoop unused id n count =
      (((range n).map fun i => id + BitVec.ofNat 32 i).filter unused).take count := by
  induction n generalizing id count with
  | zero => simp [xidListLoop]
  | succ n ih =>
    have hrest : ((range n).map fun i => id + BitVec.ofNat 32 (i + 1)) =
        (range n).map fun i => id + 1 + BitVec.ofNat 32 i := by
      refine map_congr_left fun i _ => ?_
      rw [BitVec.ofNat_add, BitVec.add_assoc, BitVec.add_comm 1]
      rfl
    cases count with
    | zero => simp [xidListLoop]
    | succ count =>
      rw [range_succ_eq_map, map_cons, map_map, xidListLoop, ih, ih, ← hrest]
      cases h : unused id with
      | true => simp [h, Function.comp_def]
      | false => simp [h, Function.comp_def]

theorem ownID_of_div (h : x.toNat / 2 ^ L.clientOffset = c) : L.ownID c x := by
  refine BitVec.eq_of_getLsbD_eq fun i hi => ?_
  rw [Limits.clientAsMask, getLsbD_shiftLeft, getLsbD_and, getLsbD_not, ← testBit_toNat x,
    ← testBit_toNat L.resourceIDMask, L.toNat_resourceIDMask, Nat.testBit_two_pow_sub_one,
    getLsbD_ofNat, ← h, Nat.testBit_div_two_pow]
  by_cases hlow : i < L.clientOffset
  · simp [hlow]
  · rw [Nat.sub_add_cancel (not_lt.mp hlow)]
    simp [hlow, hi]
    omega

/-- No entry of the client's table has the id. -/
def Server.Without (L : Limits) (s : Server V) (c : Nat) (x : XID) : Prop :=
  ∃ live, Keeps L (s.clientTable c) live ∧ ∀ res ∈ live, res.id ≠ x

def Op.adds : Op V → XID → Bool
  | .add id .., x => id = x
  | _, _ => false

variable [DecidableEq V]

theorem Server.Without.step (h : s.Without L c x) {op : Op V} (hop : op.run L s = some s')
    (hadds : op.adds x = false) : s'.Without L c x := by
  obtain ⟨live, hk, hx⟩ := h
  by_cases hid : L.clientIdForXID op.id = c
  · obtain ⟨s₁, hs₁, hk'⟩ := op.run_keeps hk hid
    cases hop.symm.trans hs₁
    refine ⟨_, hk', fun res hres heq => ?_⟩
    rcases Op.onLive_id hres with ⟨q, hq, hqe⟩ | ⟨_, _, _, _, rfl⟩
    · exact hx q hq (hqe.trans heq)
    · simp [Op.adds, heq] at hadds
  · exact ⟨live, ((Op.run_framed hop).others c hid).symm ▸ hk, hx⟩

theorem Server.Without.run (h : s.Without L c x) {ops : List (Op V)}
    (hops : runOps L s ops = some s') (hadds : ∀ op ∈ ops, op.adds x = false) :
    s'.Without L c x := by
  induction ops generalizing s with
  | nil =>
    cases hops
    exact h
  | cons op ops ih =>
    obtain ⟨s₁, hs₁, hrest⟩ := Option.bind_eq_some_iff.mp hops
    exact ih (h.step hs₁ (hadds op mem_cons_self)) hrest fun op hop =>
      hadds op (mem_cons_of_mem _ hop)

omit [DecidableEq V] in
theorem getXIDRange_apart (hc : c < L.limitClients) (h0 : c ≠ 0) (hx : x ≠ 0)
    (hlow : (getXIDRange L s c false).1 ≤ x) (hhigh : x ≤ (getXIDRange L s c false).2) :
    x.toNat / 2 ^ L.clientOffset = c ∧ (s.clientTable c).Unused x := by
  obtain ⟨hfirst, hlast⟩ := idSpace L hc (.inl h0 : c ≠ 0 ∨ false = true)
  have hend := foldl_narrow_between (L := L) (s.clientTable c) hfirst hlast
    (⟨le_rfl, le_rfl, nofun⟩ :
      Between _ _ ⟨L.clientAsMask c, L.clientAsMask c ||| L.resourceIDMask, 0⟩ [])
    (s.clientTable c).resources.flatten
  simp only [getXIDRange, Bool.false_eq_true, if_false] at hlow hhigh
  generalize (s.clientTable c).resources.flatten.foldl _ _ = r at hend hlow hhigh
  by_cases hempty : r.maxid < r.id
  · rw [if_pos hempty] at hhigh
    exact absurd (BitVec.eq_of_toNat_eq (Nat.le_zero.mp hhigh)) hx
  · simp only [if_neg hempty, BitVec.le_def] at hlow hhigh
    have hfrom : (L.clientAsMask c).toNat ≤ r.id.toNat := hend.low
    have hto : r.maxid.toNat ≤ (L.clientAsMask c ||| L.resourceIDMask).toNat := hend.high
    have hmask := L.toNat_clientAsMask hc
    rw [L.toNat_or_resourceIDMask hmask] at hto
    have hpos := Nat.two_pow_pos L.clientOffset
    refine ⟨Nat.div_eq_of_lt_le (by omega) (by rw [add_one_mul]; omega), fun res hres heq => ?_⟩
    exact hend.free res hres (heq ▸ ⟨hlow, hhigh⟩)

/-- After a run every id of the range is legal, and stays so until an entry is added under it. -/
theorem getXIDRange_legal (hc : c < L.limitClients) (h0 : c ≠ 0) {ids : List XID}
    (hrun : Runs L c true s ids) {ops : List (Op V)} (hops : runOps L s ops = some s')
    (hlow : (getXIDRange L s c false).1 ≤ x) (hhigh : x ≤ (getXIDRange L s c false).2) (hx : x ≠ 0)
    (hadds : ∀ op ∈ ops, op.adds x = false) (access : ResourceRec V → Int) :
    legalNewID L s' x c access = true := by
  obtain ⟨hdiv, hunused⟩ := getXIDRange_apart hc h0 hx hlow hhigh
  obtain ⟨live, hk⟩ := (hrun.allocating hc).keeps
  have hwithout : s.Without L c x := ⟨live, hk, fun res hres =>
    hunused res (hk.holds.flatten_perm.symm.subset hres)⟩
  obtain ⟨live', hk', hx'⟩ := hwithout.run hops hadds
  have hid : L.clientIdForXID x = c := by
    rw [L.clientIdForXID_eq, hdiv, L.two_pow_clientBits.1, Nat.mod_eq_of_lt hc]
  have hnone : live'.find? (fun res => res.id = x ∧ res.type &&& ~~~0 ≠ 0) = none :=
    find?_eq_none.mpr fun res hres h => hx' res hres (of_decide_eq_true h).1
  rw [legalNewID, lookupByClass_keeps hk' hid, hnone]
  exact if_pos (ownID_of_div hdiv)

/-- Another id of the range is taken. -/
theorem getXIDRange_legal_next : ∃ s' : Server Nat, runOps ⟨64, allowed_64⟩
    (initClientResources ⟨64, allowed_64⟩ unusedServer 1) [.add 0x00800000 1 0 true true] = some s' ∧
      legalNewID ⟨64, allowed_64⟩ s' 0x00800001 1 (fun _ => success) = true :=
  ⟨_, rfl, getXIDRange_legal (by decide) (by decide) (.init unusedServer)
    (rfl : runOps _ _ [.add 0x00800000 1 0 true true] = _) (by decide) (by decide) (by decide)
    (by decide) _⟩

end Xfront.Resource
