import Xfront.Resource.Model

/-!
# The fields of a resource id

A client's number of 6 to 11 bits stands in front of the resource field, below bit 29.
-/

open List

namespace Xfront.Resource
open Nat Option BitVec

namespace Limits
variable (L : Limits)

theorem two_pow_clientBits : 2 ^ L.clientBits = L.limitClients ∧ 6 ≤ L.clientBits ∧
    L.clientBits ≤ 11 := by
  have hall : ∀ n ∈ [64, 128, 256, 512, 1024, 2048], 2 ^ log2 n = n ∧ 6 ≤ log2 n ∧
      log2 n ≤ 11 := by decide
  exact hall _ L.allowed

theorem clientOffset_add : L.clientOffset + L.clientBits = 29 := by
  have := L.two_pow_clientBits
  rw [clientOffset]
  omega

theorem two_pow_mul : 2 ^ L.clientOffset * 2 ^ L.clientBits = 2 ^ 29 := by
  rw [← pow_add, L.clientOffset_add]

theorem toNat_lowMask {n : Nat} (h : n ≤ 29) : (twoPow 32 n - 1).toNat = 2 ^ n - 1 := by
  have hall : ∀ n ≤ 29, (twoPow 32 n - 1).toNat = 2 ^ n - 1 := by decide
  exact hall n h

theorem clientIdForXID_eq (xid : XID) :
    L.clientIdForXID xid = xid.toNat / 2 ^ L.clientOffset % 2 ^ L.clientBits := by
  have hoff := L.clientOffset_add
  obtain ⟨_, hlo, hhi⟩ := L.two_pow_clientBits
  have hmask : L.resourceClientMask >>> L.clientOffset = twoPow 32 L.clientBits - 1 := by
    have hall : ∀ b ≤ 29, (twoPow 32 b - 1) <<< (29 - b) >>> (29 - b) = twoPow 32 b - 1 := by decide
    exact hall L.clientBits (by omega)
  have hpow : 2 ^ L.clientBits ≤ 2 ^ 16 := Nat.pow_le_pow_right (by decide) (by omega)
  rw [clientIdForXID, ushiftRight_and_distrib, hmask, toNat_and,
    toNat_lowMask (by omega), and_two_pow_sub_one_eq_mod, toNat_ushiftRight,
    shiftRight_eq_div_pow]
  exact mod_eq_of_lt (lt_of_lt_of_le (mod_lt _ (Nat.two_pow_pos _)) hpow)

theorem clientIdForXID_lt (xid : XID) : L.clientIdForXID xid < L.limitClients := by
  rw [clientIdForXID_eq, ← L.two_pow_clientBits.1]
  exact mod_lt _ (Nat.two_pow_pos _)

theorem toNat_resourceIDMask : L.resourceIDMask.toNat = 2 ^ L.clientOffset - 1 :=
  toNat_lowMask (by have := L.clientOffset_add; omega)

variable {c : Nat}

theorem toNat_clientAsMask (hc : c < L.limitClients) :
    (L.clientAsMask c).toNat = c * 2 ^ L.clientOffset := by
  have hmul := L.two_pow_mul
  rw [← L.two_pow_clientBits.1] at hc
  have hlt : c * 2 ^ L.clientOffset < 2 ^ 29 := by
    rw [← hmul, mul_comm]
    exact Nat.mul_lt_mul_of_pos_left hc (Nat.two_pow_pos _)
  have hle : c ≤ c * 2 ^ L.clientOffset := Nat.le_mul_of_pos_right _ (Nat.two_pow_pos _)
  rw [clientAsMask, BitVec.toNat_shiftLeft, BitVec.toNat_ofNat,
    Nat.mod_eq_of_lt (a := c) (by omega), Nat.shiftLeft_eq, Nat.mod_eq_of_lt (by omega)]

theorem toNat_clientAsMask_lt (hc : c < L.limitClients) : (L.clientAsMask c).toNat < 2 ^ 29 := by
  rw [L.toNat_clientAsMask hc, ← L.two_pow_mul, mul_comm]
  rw [← L.two_pow_clientBits.1] at hc
  exact Nat.mul_lt_mul_of_pos_left hc (Nat.two_pow_pos _)

theorem toNat_or_resourceIDMask {x : XID} {k : Nat} (hx : x.toNat = k * 2 ^ L.clientOffset) :
    (x ||| L.resourceIDMask).toNat = x.toNat + (2 ^ L.clientOffset - 1) := by
  have hpos := Nat.two_pow_pos L.clientOffset
  rw [toNat_or, L.toNat_resourceIDMask, hx, mul_comm, two_pow_add_eq_or_of_lt (by omega)]

theorem two_pow_clientOffset : 2 ^ 18 ≤ 2 ^ L.clientOffset ∧ 2 ^ L.clientOffset ≤ 2 ^ 23 := by
  have := L.two_pow_clientBits
  have := L.clientOffset_add
  exact ⟨Nat.pow_le_pow_right (by decide) (by omega), Nat.pow_le_pow_right (by decide) (by omega)⟩

theorem toNat_clientAsMask_or (hc : c < L.limitClients) {bits : XID} {n : Nat}
    (hbits : bits.toNat = 2 ^ 30 * n) :
    ∃ k, (L.clientAsMask c ||| bits).toNat = k * 2 ^ L.clientOffset ∧
      (L.clientAsMask c ||| bits).toNat = 2 ^ 30 * n + (L.clientAsMask c).toNat := by
  have hmask := L.toNat_clientAsMask hc
  have hmul := L.two_pow_mul
  have hlt := L.toNat_clientAsMask_lt hc
  have hor : (L.clientAsMask c ||| bits).toNat = 2 ^ 30 * n + (L.clientAsMask c).toNat := by
    rw [BitVec.toNat_or, hbits, hmask, Nat.or_comm, Nat.two_pow_add_eq_or_of_lt (by omega)]
  refine ⟨2 * n * 2 ^ L.clientBits + c, ?_, hor⟩
  rw [hor, hmask, Nat.add_mul, mul_assoc, mul_comm (2 ^ L.clientBits), hmul]
  omega

end Limits

theorem serverIDs_range (L : Limits) (hc : c < L.limitClients) : 32 ≤ (firstServerID L c).toNat ∧
      (firstServerID L c).toNat < (firstServerID L c ||| L.resourceIDMask).toNat ∧
      (firstServerID L c ||| L.resourceIDMask).toNat < 2 ^ 31 ∧
      (c ≠ 0 → 2 ^ 30 ≤ (firstServerID L c).toNat) := by
  have hoff := L.two_pow_clientOffset
  have hmask := L.toNat_clientAsMask hc
  by_cases h0 : c = 0
  · subst h0
    have hfirst : firstServerID L 0 = serverMinID := by
      have hzero : L.clientAsMask 0 = 0 := eq_of_toNat_eq (by rw [hmask]; simp)
      rw [firstServerID, hzero]
      decide
    have hlast : (serverMinID ||| L.resourceIDMask).toNat = 2 ^ L.clientOffset - 1 := by
      have hall : ∀ n ≤ 29, 6 ≤ n → (serverMinID ||| (twoPow 32 n - 1)).toNat = 2 ^ n - 1 := by
        decide
      have := L.two_pow_clientBits
      have := L.clientOffset_add
      exact hall _ (by omega) (by omega)
    rw [hfirst, hlast]
    refine ⟨by decide, ?_, by omega, fun h => absurd rfl h⟩
    have : serverMinID.toNat = 32 := by decide
    omega
  · have hfirst : firstServerID L c = L.clientAsMask c ||| serverBit := by
      rw [firstServerID, if_neg h0]
    obtain ⟨k, hk, hbase⟩ := L.toNat_clientAsMask_or hc (n := 1) (by decide : serverBit.toNat = 2 ^ 30 * 1)
    have hlast := L.toNat_or_resourceIDMask hk
    have hlt := L.toNat_clientAsMask_lt hc
    rw [hfirst]
    omega

theorem overflowIDs_range (L : Limits) (hc : c < L.limitClients) :
    (overflowID L c).toNat < (overflowID L c ||| L.resourceIDMask).toNat ∧
      (overflowID L c ||| L.resourceIDMask).toNat < 2 ^ 32 - 1 := by
  have hoff := L.two_pow_clientOffset
  obtain ⟨k, hk, hbase⟩ := L.toNat_clientAsMask_or hc (n := 3) (by decide : (serverBit * 3).toNat = 2 ^ 30 * 3)
  have hlast := L.toNat_or_resourceIDMask hk
  have hlt := L.toNat_clientAsMask_lt hc
  rw [overflowID]
  omega

end Xfront.Resource

/-!
## The table of a client is a list of live entries

The newest entry comes first. The table holds this list at every size, and both
lookups find what a search of the list finds.
-/

namespace Xfront.Resource

variable {V : Type}

theorem lowBits_lt {n : Nat} (h : n ≤ maxHashSize) : (~~~(~~~(0 : XID) <<< n)).toNat < 2 ^ n := by
  have hall : ∀ n ≤ maxHashSize, (~~~(~~~(0 : XID) <<< n)).toNat < 2 ^ n := by decide
  exact hall n h

theorem hashResourceID_lt (L : Limits) (id : XID) {numBits : Nat} (h : numBits ≤ maxHashSize) :
    hashResourceID L id numBits < 2 ^ numBits := by
  have hand : ∀ x : XID, (x &&& ~~~(~~~(0 : XID) <<< numBits)).toNat < 2 ^ numBits := fun x => by
    rw [BitVec.toNat_and]
    exact lt_of_le_of_lt Nat.and_le_right (lowBits_lt h)
  rw [hashResourceID]
  split
  · exact hand _
  · exact hand _

structure Keeps (L : Limits) (rrec : ClientResourceRec V) (live : List (ResourceRec V)) : Prop where
  buckets : rrec.buckets = 2 ^ rrec.hashsize
  hashsize : initHashSize ≤ rrec.hashsize ∧ rrec.hashsize ≤ maxHashSize
  length : rrec.resources.length = rrec.buckets
  holds : Holds ResourceRec.id (fun id => hashResourceID L id rrec.hashsize) rrec.resources live
  elements : rrec.elements = live.length

namespace Keeps
variable {L : Limits} {rrec : ClientResourceRec V} {live : List (ResourceRec V)}

theorem inUse (h : Keeps L rrec live) : rrec.buckets ≠ 0 := by
  rw [h.buckets]
  exact ne_of_gt (Nat.two_pow_pos _)

variable {s : Server V}

theorem inUse_of_id (h : Keeps L (s.clientTable c) live) {id : XID}
    (hid : L.clientIdForXID id = c) : s.inUse L c = true := by
  have hc := hid ▸ L.clientIdForXID_lt id
  simp [Server.inUse, hc, h.inUse]

theorem init (L : Limits) (s : Server V) (c : Nat) :
    Keeps L ((initClientResources L s c).clientTable c) [] := by
  rw [initClientResources, Server.set_same]
  have hsize : initHashSize ≤ maxHashSize := by decide
  exact ⟨rfl, ⟨le_refl _, hsize⟩, rfl, .empty fun id => hashResourceID_lt L id hsize, rfl⟩

theorem grown (h : Keeps L rrec live) (rebuilt : Bool) : Keeps L (rrec.grown L rebuilt) live := by
  rw [ClientResourceRec.grown]
  split
  · rename_i hfull
    have hsize : rrec.hashsize + 1 ≤ maxHashSize := hfull.2.1
    have hbuckets : 2 * rrec.buckets = 2 ^ (rrec.hashsize + 1) := by
      rw [h.buckets, pow_succ, mul_comm]
    obtain ⟨hnew, hlen⟩ := h.holds.rehash fun id => hbuckets ▸ hashResourceID_lt L id hsize
    rw [foldl_flatten] at hnew hlen
    exact ⟨hbuckets, ⟨Nat.le_succ_of_le h.hashsize.1, hsize⟩, hlen, hnew, h.elements⟩
  · exact h

theorem setChain (h : Keeps L rrec live) {id : XID}
    {f g : List (ResourceRec V) → List (ResourceRec V)} (hf : ActsOn ResourceRec.id id f g)
    {n : Int} (hn : n + (rrec.chain L id).length = rrec.elements + (f (rrec.chain L id)).length) :
    Keeps L { rrec.setChain L id (f (rrec.chain L id)) with elements := n } (f live) := by
  classical
  refine ⟨h.buckets, h.hashsize, ?_, h.holds.update hf, ?_⟩
  · exact length_set.trans h.length
  · have hlen := h.holds.update_length hf
    have helem := h.elements
    simp only [ClientResourceRec.chain] at hn
    dsimp only
    omega

end Keeps

theorem unlinkAll_eq (id : XID) (chain : List (ResourceRec V)) (n : Int) :
    unlinkAll id chain n = (chain.filter fun res => ¬ res.id = id,
      n + (chain.filter fun res => ¬ res.id = id).length - chain.length) := by
  induction chain generalizing n with
  | nil => simp [unlinkAll]
  | cons res rest ih =>
    by_cases h : res.id = id
    · simp [unlinkAll, h, ih]
      omega
    · simp [unlinkAll, h, ih]
      omega

theorem unlinkFirst_eq (p : ResourceRec V → Bool) (chain : List (ResourceRec V)) (n : Int) :
    unlinkFirst p chain n = (chain.eraseP p, n + (chain.eraseP p).length - chain.length) := by
  induction chain generalizing n with
  | nil => simp [unlinkFirst]
  | cons res rest ih =>
    by_cases h : p res = true
    · simp [unlinkFirst, h]
      omega
    · simp [unlinkFirst, h, ih]
      omega

inductive Op (V : Type) where
  | add (id : XID) (type : RESTYPE) (value : V) (rebuilt allocated : Bool)
  | free (id : XID)
  | freeByType (id : XID) (type : RESTYPE)
  | freeByTypeValue (id : XID) (type : RESTYPE) (value : V)
  | change (id : XID) (rtype : RESTYPE) (value : V)

def Op.id : Op V → XID
  | .add id .. => id
  | .free id => id
  | .freeByType id _ => id
  | .freeByTypeValue id .. => id
  | .change id .. => id

variable [DecidableEq V]

/-- What the server does; nothing after `FatalError`. -/
def Op.run (L : Limits) (s : Server V) : Op V → Option (Server V)
  | .add id type value rebuilt allocated =>
    (addResource L s id type value rebuilt allocated).map Prod.snd
  | .free id => some (freeResource L s id)
  | .freeByType id type => some (freeResourceByType L s id type)
  | .freeByTypeValue id type value => some (freeResourceByTypeValue L s id type value)
  | .change id rtype value => some (changeResourceValue L s id rtype value).2

def Op.onLive (live : List (ResourceRec V)) : Op V → List (ResourceRec V)
  | .add id type value _ allocated => if allocated then ⟨id, type, value⟩ :: live else live
  | .free id => live.filter fun res => ¬ res.id = id
  | .freeByType id type => live.eraseP fun res => res.id = id ∧ res.type = type
  | .freeByTypeValue id type value =>
    live.eraseP fun res => res.id = id ∧ res.type = type ∧ res.value = value
  | .change id rtype value =>
    replaceFirst (fun res => res.id = id ∧ res.type = rtype)
      (fun res => { res with value := value }) live

def runOps (L : Limits) (s : Server V) : List (Op V) → Option (Server V)
  | [] => some s
  | op :: ops => (op.run L s).bind fun s => runOps L s ops

variable {live : List (ResourceRec V)} {L : Limits}

omit [DecidableEq V] in
theorem addResource_keeps
    (h : Keeps L (s.clientTable c) live) {id : XID} (hid : L.clientIdForXID id = c)
    (type : RESTYPE) (value : V) (rebuilt allocated : Bool) :
    ∃ s', addResource L s id type value rebuilt allocated = some (allocated, s') ∧
      Keeps L (s'.clientTable c) (if allocated then ⟨id, type, value⟩ :: live else live) := by
  have hgrown := h.grown rebuilt
  rw [addResource, hid]
  rw [if_neg h.inUse]
  generalize (s.clientTable c).grown L rebuilt = rrec at hgrown ⊢
  cases allocated with
  | true =>
    simp only [↓reduceIte]
    refine ⟨_, rfl, ?_⟩
    rw [Server.set_same]
    have hcons : ActsOn ResourceRec.id id ((⟨id, type, value⟩ : ResourceRec V) :: ·) _ := .cons rfl
    refine hgrown.setChain hcons ?_
    rw [length_cons, ClientResourceRec.setChain_elements]
    omega
  | false =>
    simp only [Bool.false_eq_true, ↓reduceIte]
    refine ⟨_, rfl, ?_⟩
    rw [Server.set_same]
    exact hgrown

omit [DecidableEq V] in
theorem changeResourceValue_keeps
    (h : Keeps L (s.clientTable c) live)
    (huse : s.inUse L c = true) {id : XID} (hid : L.clientIdForXID id = c) (rtype : RESTYPE)
    (value : V) :
    Keeps L ((changeResourceValue L s id rtype value).2.clientTable c)
      (replaceFirst (fun res => res.id = id ∧ res.type = rtype)
        (fun res => { res with value := value }) live) := by
  have hkey : ∀ res : ResourceRec V, decide (res.id = id ∧ res.type = rtype) = true →
      res.id = id := fun res hres => (of_decide_eq_true hres).1
  rw [changeResourceValue, hid]
  simp only [if_pos huse]
  split
  · rw [Server.set_same]
    have hf : ActsOn ResourceRec.id id _ _ :=
      .replaceFirst (r := fun res => { res with value := value }) hkey fun res => rfl
    exact h.setChain (n := (s.clientTable c).elements) hf (by rw [replaceFirst_length])
  · rename_i hany
    have hfind : live.find? (fun res => decide (res.id = id ∧ res.type = rtype)) = none := by
      rw [← h.holds.find hkey, find?_eq_none]
      intro res hres hp
      exact hany (any_eq_true.mpr ⟨res, hres, hp⟩)
    rw [replaceFirst_of_none hfind]
    exact h

theorem Op.run_keeps (h : Keeps L (s.clientTable c) live) (op : Op V)
    (hop : L.clientIdForXID op.id = c) :
    ∃ s', op.run L s = some s' ∧ Keeps L (s'.clientTable c) (op.onLive live) := by
  have huse := h.inUse_of_id hop
  -- the three ways to free
  have hunlink : ∀ (id : XID) (walk : List (ResourceRec V) → Int → List (ResourceRec V) × Int)
      (f g : List (ResourceRec V) → List (ResourceRec V)), L.clientIdForXID id = c →
      ActsOn ResourceRec.id id f g →
      (∀ chain n, walk chain n = (f chain, n + (f chain).length - chain.length)) →
      Keeps L ((s.unlink L id walk).clientTable c) (f live) := by
    intro id walk f g hid hf hwalk
    rw [Server.unlink, hid]
    rw [if_pos huse, Server.set_same, hwalk]
    exact h.setChain hf (by omega)
  cases op with
  | add id type value rebuilt allocated =>
    rw [Op.id] at hop
    obtain ⟨s', hs, hk⟩ := addResource_keeps h hop type value rebuilt allocated
    exact ⟨s', by rw [Op.run, hs, Option.map_some], hk⟩
  | free id => exact ⟨_, rfl, hunlink id _ _ _ hop .remove (unlinkAll_eq id)⟩
  | freeByType id type | freeByTypeValue id type value =>
    refine ⟨_, rfl, hunlink id _ _ _ hop (.eraseP fun res hres => ?_) (unlinkFirst_eq _)⟩
    exact (of_decide_eq_true hres).1
  | change id rtype value =>
    rw [Op.id] at hop
    exact ⟨_, rfl, changeResourceValue_keeps h huse hop rtype value⟩

theorem runOps_keeps (h : Keeps L (s.clientTable c) live) {ops : List (Op V)}
    (hops : ∀ op ∈ ops, L.clientIdForXID op.id = c) :
    ∃ s', runOps L s ops = some s' ∧ Keeps L (s'.clientTable c) (ops.foldl Op.onLive live) := by
  induction ops generalizing s live with
  | nil => exact ⟨s, rfl, h⟩
  | cons op ops ih =>
    obtain ⟨s₁, hs₁, hk₁⟩ := op.run_keeps h (hops op (mem_cons_self ..))
    obtain ⟨s', hs', hk'⟩ := ih hk₁ fun op hop => hops op (mem_cons_of_mem _ hop)
    exact ⟨s', by rw [runOps, hs₁, Option.bind_some, hs'], hk'⟩

def answer (absent : Int) (access : Option (ResourceRec V → Int)) :
    Option (ResourceRec V) → Int × Option V
  | none => (absent, none)
  | some res =>
    match access with
    | none => (success, some res.value)
    | some hook =>
      if hook res = success then (success, some res.value)
      else if hook res = badValue then (absent, none)
      else (hook res, none)

omit [DecidableEq V] in
theorem lookupByType_keeps (h : Keeps L (s.clientTable c) live) (types : ResourceTypes) {id : XID}
    (hid : L.clientIdForXID id = c) (rtype : RESTYPE) (access : Option (ResourceRec V → Int)) :
    dixLookupResourceByType L types s id rtype access =
      if types.lastResourceType < rtype &&& types.typeMask then (badImplementation, none)
      else answer (types.errorValue (rtype &&& types.typeMask)) access
        (live.find? fun res => res.id = id ∧ res.type = rtype) := by
  have hfind : ((s.clientTable c).chain L id).find? (fun res => res.id = id ∧ res.type = rtype) =
      live.find? fun res => res.id = id ∧ res.type = rtype :=
    h.holds.find fun res hres => (of_decide_eq_true hres).1
  rw [dixLookupResourceByType, hid]
  simp only [if_pos (h.inUse_of_id hid), hfind]
  split
  · rfl
  · cases live.find? fun res => decide (res.id = id ∧ res.type = rtype) with
    | none => rfl
    | some res =>
      cases access with
      | none => rfl
      | some hook =>
        simp only [answer]
        by_cases h₁ : hook res = success
        · have h₂ : ¬ hook res = badValue := by rw [h₁]; decide
          simp [h₁, success, badValue]
        · simp [h₁]

omit [DecidableEq V] in
theorem lookupByClass_keeps
    (h : Keeps L (s.clientTable c) live) {id : XID} (hid : L.clientIdForXID id = c)
    (rclass : RESTYPE) (access : Option (ResourceRec V → Int)) :
    dixLookupResourceByClass L s id rclass access =
      answer badValue access (live.find? fun res => res.id = id ∧ res.type &&& rclass ≠ 0) := by
  have hfind : ((s.clientTable c).chain L id).find?
        (fun res => res.id = id ∧ res.type &&& rclass ≠ 0) =
      live.find? fun res => res.id = id ∧ res.type &&& rclass ≠ 0 :=
    h.holds.find fun res hres => (of_decide_eq_true hres).1
  rw [dixLookupResourceByClass, hid]
  simp only [if_pos (h.inUse_of_id hid), hfind]
  cases live.find? fun res => decide (res.id = id ∧ res.type &&& rclass ≠ 0) with
  | none => rfl
  | some res =>
    cases access with
    | none => rfl
    | some hook =>
      simp only [answer]
      by_cases h₁ : hook res = success
      · simp [h₁]
      · by_cases h₂ : hook res = badValue
        · simp [h₂, success, badValue]
        · simp [h₁, h₂]

theorem resourceTable_refines (L : Limits) (s : Server V) (c : Nat) {ops : List (Op V)}
    (hops : ∀ op ∈ ops, L.clientIdForXID op.id = c) :
    ∃ s', runOps L (initClientResources L s c) ops = some s' ∧
      (s'.clientTable c).elements = (ops.foldl Op.onLive []).length ∧
      (s'.clientTable c).buckets = 2 ^ (s'.clientTable c).hashsize ∧
      (s'.clientTable c).resources.length = (s'.clientTable c).buckets ∧
      (s'.clientTable c).resources.flatten.Perm (ops.foldl Op.onLive []) ∧
      (∀ id, hashResourceID L id (s'.clientTable c).hashsize < (s'.clientTable c).buckets) ∧
      (∀ j, ∀ res ∈ chainAt (s'.clientTable c).resources j,
        hashResourceID L res.id (s'.clientTable c).hashsize = j) ∧ ∀ id, L.clientIdForXID id = c →
        (∀ types rtype access, dixLookupResourceByType L types s' id rtype access =
          if types.lastResourceType < rtype &&& types.typeMask then (badImplementation, none)
          else answer (types.errorValue (rtype &&& types.typeMask)) access
            ((ops.foldl Op.onLive []).find? fun res => res.id = id ∧ res.type = rtype)) ∧
        ∀ rclass access, dixLookupResourceByClass L s' id rclass access = answer badValue access
            ((ops.foldl Op.onLive []).find? fun res => res.id = id ∧ res.type &&& rclass ≠ 0) := by
  obtain ⟨s', hrun, hk⟩ := runOps_keeps (Keeps.init L s c) hops
  refine ⟨s', hrun, hk.elements, hk.buckets, hk.length, hk.holds.flatten_perm, fun id => ?_,
    hk.holds.placed, fun id hid => ⟨fun types rtype access => ?_, fun rclass access => ?_⟩⟩
  · rw [hk.buckets]
    exact hashResourceID_lt L id hk.hashsize.2
  · exact lookupByType_keeps hk types hid rtype access
  · exact lookupByClass_keeps hk hid rclass access

theorem resourceTable_refines_two :
    ∃ s', runOps ⟨256, by decide⟩ (initClientResources ⟨256, by decide⟩
        ⟨fun _ => ⟨[], 0, 0, 0, 0, 0⟩, fun _ => false⟩ 1)
          [.add 0x200000#32 1 'a' true true, .add 0x200000#32 1 'b' true true,
            .freeByType 0x200000#32 1] = some s' ∧
      dixLookupResourceByClass ⟨256, by decide⟩ s' 0x200000#32 1 none = (0, some 'a') :=
  have ⟨s', hrun, _, _, _, _, _, _, hlook⟩ := @resourceTable_refines Char _ ⟨256, by decide⟩
    ⟨fun _ => ⟨[], 0, 0, 0, 0, 0⟩, fun _ => false⟩ 1 [.add 0x200000#32 1 'a' true true,
      .add 0x200000#32 1 'b' true true, .freeByType 0x200000#32 1] (by decide)
  ⟨s', hrun, ((hlook 0x200000#32 (by decide)).2 1 none).trans (by decide)⟩

end Xfront.Resource
