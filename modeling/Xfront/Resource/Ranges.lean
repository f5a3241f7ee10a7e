import Xfront.Resource.FakeID

/-!
# Ranges of unused ids

`GetXIDRange` cuts the entries of a table out of the id space one by one and keeps a side that has
an unused id if there is one.
-/

namespace Xfront.Resource
open List

variable {V : Type}

def ClientResourceRec.Hashed (L : Limits) (rrec : ClientResourceRec V) : Prop :=
  ∀ res ∈ rrec.resources.flatten, res ∈ rrec.chain L res.id

def ClientResourceRec.Unused (rrec : ClientResourceRec V) (x : XID) : Prop :=
  ∀ res ∈ rrec.resources.flatten, res.id ≠ x

def firstID (L : Limits) (c : Nat) (server : Bool) : XID :=
  if server then firstServerID L c else L.clientAsMask c

def lastID (L : Limits) (c : Nat) (server : Bool) : XID := firstID L c server ||| L.resourceIDMask

theorem idSpace (L : Limits) {c : Nat} (hc : c < L.limitClients) {server : Bool}
    (hindex : c ≠ 0 ∨ server = true) :
    0 < (firstID L c server).toNat ∧ (lastID L c server).toNat < 2 ^ 31 := by
  cases server with
  | true =>
    obtain ⟨hlo, -, hhi, -⟩ := serverIDs_range L hc
    exact ⟨by simpa [firstID] using (by omega : 0 < (firstServerID L c).toNat), hhi⟩
  | false =>
    have hne : c ≠ 0 := by simpa using hindex
    have hmask := L.toNat_clientAsMask hc
    have hlast := L.toNat_or_resourceIDMask hmask
    have hoff := L.two_pow_clientOffset
    have hlt := L.toNat_clientAsMask_lt hc
    have hpos : 0 < c * 2 ^ L.clientOffset :=
      Nat.mul_pos (Nat.pos_of_ne_zero hne) (Nat.two_pow_pos _)
    rw [lastID, firstID]
    simp only [Bool.false_eq_true, if_false]
    omega

variable {L : Limits} {rrec : ClientResourceRec V}

theorem chain_subset {id : XID} {res : ResourceRec V} (h : res ∈ rrec.chain L id) :
    res ∈ rrec.resources.flatten := by
  rw [ClientResourceRec.chain, chainAt, getD_eq_getElem?_getD] at h
  cases hchain : rrec.resources[hashResourceID L id rrec.hashsize]? with
  | none =>
    rw [hchain] at h
    cases h
  | some chain =>
    rw [hchain] at h
    exact mem_flatten.mpr ⟨chain, mem_of_getElem? hchain, h⟩

theorem chain_all_iff (hhashed : rrec.Hashed L) (x : XID) :
    (rrec.chain L x).all (fun res => res.id ≠ x) = true ↔ rrec.Unused x := by
  rw [all_eq_true]
  refine ⟨fun h res hres heq => ?_, fun h res hres => ?_⟩
  · have hchain := hhashed res hres
    rw [heq] at hchain
    exact absurd heq (by simpa using h res hchain)
  · simpa using h res (chain_subset hres)

/-! ### `AvailableID` -/

theorem availableLoop_spec (hhashed : rrec.Hashed L) (n : Nat) {id : XID} (hid : 0 < id.toNat)
    (hn : id.toNat + n ≤ 2 ^ 31) :
    (availableLoop L rrec id n = 0 → ∀ x : XID, id.toNat ≤ x.toNat → x.toNat < id.toNat + n →
      ¬ rrec.Unused x) ∧
    (availableLoop L rrec id n ≠ 0 → id.toNat ≤ (availableLoop L rrec id n).toNat ∧
      (availableLoop L rrec id n).toNat < id.toNat + n ∧
      rrec.Unused (availableLoop L rrec id n)) := by
  induction n generalizing id with
  | zero => exact ⟨fun _ x h1 h2 => by omega, fun h => absurd rfl h⟩
  | succ n ih =>
    have hnext : (id + 1).toNat = id.toNat + 1 := toNat_succ (by omega)
    have hrest := @ih (id + 1) (by omega) (by omega)
    obtain ⟨hzero, hfound⟩ := hrest
    have hne : id ≠ 0 := fun h => by simp [h] at hid
    rw [availableLoop]
    by_cases hall : (rrec.chain L id).all (fun res => res.id ≠ id) = true
    · rw [if_pos hall]
      exact ⟨fun h => absurd h hne, fun _ => ⟨le_rfl, by omega, (chain_all_iff hhashed id).mp hall⟩⟩
    · rw [if_neg hall]
      refine ⟨fun h x hlow hhigh => ?_, fun h => ?_⟩
      · by_cases hx : x = id
        · rw [hx, ← chain_all_iff hhashed id]
          exact hall
        · have hx' : x.toNat ≠ id.toNat := fun heq => hx (BitVec.eq_of_toNat_eq heq)
          exact hzero h x (by omega) (by omega)
      · obtain ⟨h1, h2, h3⟩ := hfound h
        exact ⟨by omega, by omega, h3⟩

theorem availableID_spec (hhashed : rrec.Hashed L) (id maxid goodid : XID) (hid : 0 < id.toNat)
    (hmax : maxid.toNat < 2 ^ 31) (hgood : goodid = 0 ∨ rrec.Unused goodid) :
    (availableID L rrec id maxid goodid = 0 → ∀ x : XID, id.toNat ≤ x.toNat →
      x.toNat ≤ maxid.toNat → ¬ rrec.Unused x) ∧ (availableID L rrec id maxid goodid ≠ 0 →
      id.toNat ≤ (availableID L rrec id maxid goodid).toNat ∧
      (availableID L rrec id maxid goodid).toNat ≤ maxid.toNat ∧
      rrec.Unused (availableID L rrec id maxid goodid)) := by
  rw [availableID]
  by_cases hcached : id ≤ goodid ∧ goodid ≤ maxid
  · rw [if_pos hcached]
    rw [BitVec.le_def, BitVec.le_def] at hcached
    have hne : goodid ≠ 0 := fun h => by
      rw [h] at hcached
      simp at hcached
      omega
    exact ⟨fun h => absurd h hne, fun _ => ⟨hcached.1, hcached.2, hgood.resolve_left hne⟩⟩
  · rw [if_neg hcached]
    by_cases hle : id.toNat ≤ maxid.toNat
    · obtain ⟨hzero, hfound⟩ := availableLoop_spec hhashed (maxid.toNat + 1 - id.toNat) hid
        (by omega)
      refine ⟨fun h x h1 h2 => hzero h x h1 (by omega), fun h => ?_⟩
      obtain ⟨h1, h2, h3⟩ := hfound h
      exact ⟨h1, by omega, h3⟩
    · have hnone : maxid.toNat + 1 - id.toNat = 0 := by omega
      rw [hnone]
      exact ⟨fun _ x h1 h2 => by omega, fun h => absurd rfl h⟩

structure Narrowed (rrec : ClientResourceRec V) (r : Range) : Prop where
  good : r.goodid = 0 ∨ rrec.Unused r.goodid
  unused : ∃ x : XID, r.id.toNat ≤ x.toNat ∧ x.toNat ≤ r.maxid.toNat ∧ rrec.Unused x

theorem narrow_narrowed (hhashed : rrec.Hashed L) {r : Range} (hid : 0 < r.id.toNat)
    (hmax : r.maxid.toNat < 2 ^ 31) (h : Narrowed rrec r) {res : ResourceRec V}
    (hres : res ∈ rrec.resources.flatten) : Narrowed rrec (narrow L rrec r res) := by
  obtain ⟨x, hlow, hhigh, hx⟩ := h.unused
  have hother : x.toNat ≠ res.id.toNat := fun heq =>
    hx res hres (BitVec.eq_of_toNat_eq heq.symm)
  rw [narrow]
  by_cases hout : res.id < r.id ∨ r.maxid < res.id
  · rw [if_pos hout]
    exact h
  · rw [if_neg hout]
    simp only [BitVec.lt_def] at hout
    have hbelow : (res.id - 1).toNat = res.id.toNat - 1 := by
      have hone : (1 : XID).toNat = 1 := rfl
      rw [BitVec.toNat_sub_of_le (by rw [BitVec.le_def, hone]; omega), hone]
    have habove : (res.id + 1).toNat = res.id.toNat + 1 := toNat_succ (by omega)
    obtain ⟨hleftNone, hleft⟩ := availableID_spec hhashed r.id (res.id - 1) r.goodid hid
      (by omega) h.good
    obtain ⟨hrightNone, hright⟩ := availableID_spec hhashed (res.id + 1) r.maxid r.goodid
      (by omega) hmax h.good
    split
    · dsimp only
      split
      · rename_i hne
        obtain ⟨h1, h2, h3⟩ := hleft hne
        exact ⟨.inr h3, _, h1, h2, h3⟩
      · rename_i heq
        rw [not_not] at heq
        have hright : res.id.toNat < x.toNat := by
          by_contra hlt
          exact hleftNone heq x hlow (by omega) hx
        exact ⟨.inl heq, x, by rw [habove]; omega, hhigh, hx⟩
    · dsimp only
      split
      · rename_i heq
        have hleft : x.toNat < res.id.toNat := by
          by_contra hgt
          exact hrightNone heq x (by omega) hhigh hx
        exact ⟨.inl heq, x, hlow, by rw [hbelow]; omega, hx⟩
      · rename_i hne
        obtain ⟨h1, h2, h3⟩ := hright hne
        exact ⟨.inr h3, _, h1, h2, h3⟩

theorem foldl_narrow_narrowed (hhashed : rrec.Hashed L) {lo hi : Nat} (hlo : 0 < lo)
    (hhi : hi < 2 ^ 31) {r : Range} {entries : List (ResourceRec V)}
    (hbetween : Between lo hi r entries) (h : Narrowed rrec r) {more : List (ResourceRec V)}
    (hmore : ∀ res ∈ more, res ∈ rrec.resources.flatten) :
    Narrowed rrec (more.foldl (narrow L rrec) r) := by
  induction more generalizing r entries with
  | nil => exact h
  | cons res more ih =>
    have hlow := hbetween.low
    have hhigh := hbetween.high
    have hnext := narrow_narrowed hhashed (by omega) (by omega) h (hmore res mem_cons_self)
    exact ih (narrow_between (L := L) rrec hlo hhi hbetween res) hnext fun q hq =>
      hmore q (mem_cons_of_mem _ hq)

/-- The range that is found is in the id space and has no id that is in use; none is found
exactly when every id of the space is in use. -/
theorem getXIDRange_exact (L : Limits) (s : Server V) {c : Nat} (hc : c < L.limitClients)
    (server : Bool) (hindex : c ≠ 0 ∨ server = true) (hhashed : (s.clientTable c).Hashed L) :
    (getXIDRange L s c server ≠ (0, 0) → firstID L c server ≤ (getXIDRange L s c server).1 ∧
      (getXIDRange L s c server).1 ≤ (getXIDRange L s c server).2 ∧
      (getXIDRange L s c server).2 ≤ lastID L c server ∧
      ∀ res ∈ (s.clientTable c).resources.flatten,
        ¬ ((getXIDRange L s c server).1 ≤ res.id ∧ res.id ≤ (getXIDRange L s c server).2)) ∧
    (getXIDRange L s c server = (0, 0) ↔ ∀ x : XID, firstID L c server ≤ x →
      x ≤ lastID L c server → ∃ res ∈ (s.clientTable c).resources.flatten, res.id = x) := by
  obtain ⟨hfirst, hlast⟩ := idSpace L hc hindex
  have hstart : Between (V := V) (firstID L c server).toNat (lastID L c server).toNat
      ⟨firstID L c server, lastID L c server, 0⟩ [] := ⟨le_rfl, le_rfl, nofun⟩
  have hend := foldl_narrow_between (L := L) (s.clientTable c) hfirst hlast hstart
    (s.clientTable c).resources.flatten
  have hrange : getXIDRange L s c server =
      if ((s.clientTable c).resources.flatten.foldl (narrow L (s.clientTable c))
          ⟨firstID L c server, lastID L c server, 0⟩).maxid <
        ((s.clientTable c).resources.flatten.foldl (narrow L (s.clientTable c))
          ⟨firstID L c server, lastID L c server, 0⟩).id then (0, 0)
      else (((s.clientTable c).resources.flatten.foldl (narrow L (s.clientTable c))
          ⟨firstID L c server, lastID L c server, 0⟩).id,
        ((s.clientTable c).resources.flatten.foldl (narrow L (s.clientTable c))
          ⟨firstID L c server, lastID L c server, 0⟩).maxid) := rfl
  have hkept : Narrowed (s.clientTable c) ⟨firstID L c server, lastID L c server, 0⟩ →
      Narrowed (s.clientTable c) ((s.clientTable c).resources.flatten.foldl
        (narrow L (s.clientTable c)) ⟨firstID L c server, lastID L c server, 0⟩) := fun h =>
    foldl_narrow_narrowed hhashed hfirst hlast hstart h fun _ hres => hres
  generalize (s.clientTable c).resources.flatten.foldl (narrow L (s.clientTable c))
    ⟨firstID L c server, lastID L c server, 0⟩ = r at hend hrange hkept
  rw [nil_append] at hend
  have hlow := hend.low
  have hhigh := hend.high
  by_cases hempty : r.maxid < r.id
  · rw [hrange, if_pos hempty]
    refine ⟨fun h => absurd rfl h, fun _ x hx hx' => ?_, fun _ => rfl⟩
    by_contra hnone
    have hunused : (s.clientTable c).Unused x := fun res hres heq => hnone ⟨res, hres, heq⟩
    obtain ⟨y, hy, hy', -⟩ := (hkept ⟨.inl rfl, x, hx, hx', hunused⟩).unused
    rw [BitVec.lt_def] at hempty
    omega
  · rw [hrange, if_neg hempty]
    rw [BitVec.not_lt, BitVec.le_def] at hempty
    have hfree : ∀ res ∈ (s.clientTable c).resources.flatten, ¬ (r.id ≤ res.id ∧ res.id ≤ r.maxid) :=
      hend.free
    refine ⟨fun _ => ⟨hlow, hempty, hhigh, hfree⟩, fun h => ?_, fun hall => ?_⟩
    · have hzero : r.id = 0 := congrArg Prod.fst h
      have hzero' : r.id.toNat = 0 := by rw [hzero]; rfl
      omega
    · obtain ⟨res, hres, heq⟩ := hall r.id hlow (le_trans hempty hhigh)
      exact absurd ⟨heq ▸ BitVec.le_refl _, heq ▸ hempty⟩ (hfree res hres)

def endsTaken : Server Nat :=
  unusedServer.set 1 ⟨[[⟨0x00800000, 1, 0⟩, ⟨0x00ffffff, 1, 0⟩]], 2, 1, 0, 0, 0⟩

theorem getXIDRange_exact_ends : (getXIDRange ⟨64, by decide⟩ endsTaken 1 false ≠ (0, 0) →
      firstID ⟨64, by decide⟩ 1 false ≤ (getXIDRange ⟨64, by decide⟩ endsTaken 1 false).1 ∧
      (getXIDRange ⟨64, by decide⟩ endsTaken 1 false).1 ≤
        (getXIDRange ⟨64, by decide⟩ endsTaken 1 false).2 ∧
      (getXIDRange ⟨64, by decide⟩ endsTaken 1 false).2 ≤ lastID ⟨64, by decide⟩ 1 false ∧
      ∀ res ∈ (endsTaken.clientTable 1).resources.flatten,
        ¬ ((getXIDRange ⟨64, by decide⟩ endsTaken 1 false).1 ≤ res.id ∧
          res.id ≤ (getXIDRange ⟨64, by decide⟩ endsTaken 1 false).2)) ∧
    (getXIDRange ⟨64, by decide⟩ endsTaken 1 false = (0, 0) ↔
      ∀ x : XID, firstID ⟨64, by decide⟩ 1 false ≤ x → x ≤ lastID ⟨64, by decide⟩ 1 false →
        ∃ res ∈ (endsTaken.clientTable 1).resources.flatten, res.id = x) :=
  getXIDRange_exact ⟨64, by decide⟩ endsTaken (by decide) false (.inl (by decide)) (by
    intro res hres
    have hends : res = ⟨0x00800000, 1, 0⟩ ∨ res = ⟨0x00ffffff, 1, 0⟩ := by
      simpa [endsTaken] using hres
    rcases hends with rfl | rfl <;>
      simp [endsTaken, ClientResourceRec.chain, chainAt, hashResourceID])

end Xfront.Resource
