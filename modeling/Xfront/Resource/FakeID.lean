import Xfront.Resource.Table

/-!
# Ids the server allocates for a client

The window from `fakeID` to `endFakeID` holds no id that is in the table, nor one that was returned
since the window was computed.
-/

namespace Xfront.Resource
open Nat

open List Function

variable {V : Type}

/-! ### `GetXIDRange` -/

structure Between (lo hi : Nat) (r : Range) (entries : List (ResourceRec V)) : Prop where
  low : lo ≤ r.id.toNat
  high : r.maxid.toNat ≤ hi
  free : ∀ res ∈ entries, ¬ (r.id.toNat ≤ res.id.toNat ∧ res.id.toNat ≤ r.maxid.toNat)

variable {L : Limits}

theorem narrow_between (rrec : ClientResourceRec V) {lo hi : Nat} (hlo : 0 < lo)
    (hhi : hi < 2 ^ 31) {r : Range} {entries : List (ResourceRec V)} (h : Between lo hi r entries)
    (res : ResourceRec V) : Between lo hi (narrow L rrec r res) (entries ++ [res]) := by
  -- a smaller range stays free
  have hshrink : ∀ r' : Range, r.id.toNat ≤ r'.id.toNat → r'.maxid.toNat ≤ r.maxid.toNat →
      ¬ (r'.id.toNat ≤ res.id.toNat ∧ res.id.toNat ≤ r'.maxid.toNat) →
      Between lo hi r' (entries ++ [res]) := by
    intro r' h₁ h₂ h₃
    refine ⟨le_trans h.low h₁, le_trans h₂ h.high, fun q hq => ?_⟩
    rcases mem_append.mp hq with hq | hq
    · have := h.free q hq
      omega
    · rw [mem_singleton.mp hq]
      exact h₃
  rw [narrow]
  by_cases hout : res.id < r.id ∨ r.maxid < res.id
  · rw [if_pos hout]
    simp only [BitVec.lt_def] at hout
    exact hshrink r le_rfl le_rfl (by omega)
  · rw [if_neg hout]
    simp only [BitVec.lt_def] at hout
    have hlow := h.low
    have hhigh := h.high
    have hbelow : (res.id - 1).toNat = res.id.toNat - 1 := by
      have hone : (1 : XID).toNat = 1 := rfl
      rw [BitVec.toNat_sub_of_le (by rw [BitVec.le_def, hone]; omega), hone]
    have habove : (res.id + 1).toNat = res.id.toNat + 1 := by
      have hone : (1 : XID).toNat = 1 := rfl
      rw [BitVec.toNat_add, hone]
      omega
    have hleft : ∀ g, Between lo hi ⟨r.id, res.id - 1, g⟩ (entries ++ [res]) := fun g =>
      hshrink _ le_rfl (by rw [hbelow]; omega) (by rw [hbelow]; omega)
    have hright : ∀ g, Between lo hi ⟨res.id + 1, r.maxid, g⟩ (entries ++ [res]) := fun g =>
      hshrink _ (by rw [habove]; omega) le_rfl (by rw [habove]; omega)
    split
    all_goals
      dsimp only
      split
      · exact hleft _
      · exact hright _

theorem foldl_narrow_between (rrec : ClientResourceRec V) {lo hi : Nat}
    (hlo : 0 < lo) (hhi : hi < 2 ^ 31) {r : Range} {entries : List (ResourceRec V)}
    (h : Between lo hi r entries) (more : List (ResourceRec V)) :
    Between lo hi (more.foldl (narrow L rrec) r) (entries ++ more) := by
  induction more generalizing r entries with
  | nil => rwa [append_nil]
  | cons res more ih =>
    have hnext := ih (narrow_between (L := L) rrec hlo hhi h res)
    rwa [append_assoc] at hnext

variable {c : Nat} {s : Server V}

theorem getXIDRange_spec (hc : c < L.limitClients)
    {id maxid : XID} (h : getXIDRange L s c true = (id, maxid)) (hid : id ≠ 0) :
    (firstServerID L c).toNat ≤ id.toNat ∧ id.toNat ≤ maxid.toNat ∧
      maxid.toNat ≤ (firstServerID L c ||| L.resourceIDMask).toNat ∧
      ∀ res ∈ (s.clientTable c).resources.flatten,
        ¬ (id.toNat ≤ res.id.toNat ∧ res.id.toNat ≤ maxid.toNat) := by
  obtain ⟨hlo, _, hhi, _⟩ := serverIDs_range L hc
  have hstart : Between (V := V) (firstServerID L c).toNat
      (firstServerID L c ||| L.resourceIDMask).toNat
      ⟨firstServerID L c, firstServerID L c ||| L.resourceIDMask, 0⟩ [] := ⟨le_rfl, le_rfl, nofun⟩
  have hend := foldl_narrow_between (L := L) (s.clientTable c) (by omega) hhi hstart
    (s.clientTable c).resources.flatten
  rw [getXIDRange] at h
  simp only [if_true] at h
  split at h
  · cases h
    exact absurd rfl hid
  · rename_i hle
    rw [BitVec.lt_def] at hle
    cases h
    exact ⟨hend.low, by omega, hend.high, by simpa using hend.free⟩

/-! ### `FakeClientID` -/

variable {s s' : Server V}

theorem fakeClientID_cases {id : XID}
    (hne : (s.clientTable c).fakeID ≠ 0) (h : fakeClientID L s c = some (id, s')) :
    ((s.clientTable c).fakeID ≠ (s.clientTable c).endFakeID ∧ id = (s.clientTable c).fakeID ∧
      s' = s.setWindow c (id + 1) (s.clientTable c).endFakeID) ∨
    ((s.clientTable c).fakeID = (s.clientTable c).endFakeID ∧ ∃ maxid s₁,
      nextWindow L (s.setWindow c ((s.clientTable c).fakeID + 1) (s.clientTable c).endFakeID) c =
        some (id, maxid, s₁) ∧ s' = s₁.setWindow c (id + 1) (maxid + 1)) := by
  rw [fakeClientID] at h
  simp only [if_neg hne] at h
  by_cases heq : (s.clientTable c).fakeID = (s.clientTable c).endFakeID
  · refine .inr ⟨heq, ?_⟩
    rw [if_neg (not_not.mpr heq)] at h
    split at h
    · cases h
    · rename_i id' maxid s₁ hw
      rw [if_neg (nextWindow_ne_zero hw)] at h
      cases h
      exact ⟨maxid, s₁, hw, rfl⟩
  · rw [if_pos heq] at h
    cases h
    exact .inl ⟨heq, rfl, rfl⟩

structure Window (L : Limits) (s : Server V) (c : Nat) (ids : List XID) : Prop where
  low : (firstServerID L c).toNat ≤ (s.clientTable c).fakeID.toNat
  order : (s.clientTable c).fakeID.toNat ≤ (s.clientTable c).endFakeID.toNat
  high : (s.clientTable c).endFakeID.toNat ≤
    (firstServerID L c ||| L.resourceIDMask).toNat + 1
  free : ∀ res ∈ (s.clientTable c).resources.flatten,
    ¬ ((s.clientTable c).fakeID.toNat ≤ res.id.toNat ∧
      res.id.toNat < (s.clientTable c).endFakeID.toNat)
  returned : ∀ id ∈ ids, id.toNat < (s.clientTable c).fakeID.toNat

structure Overflow (L : Limits) (s : Server V) (c : Nat) : Prop where
  marked : s.exception c = true
  low : (overflowID L c).toNat < (s.clientTable c).fakeID.toNat
  order : (s.clientTable c).fakeID.toNat ≤ (s.clientTable c).endFakeID.toNat
  last : (s.clientTable c).endFakeID.toNat = (overflowID L c ||| L.resourceIDMask).toNat + 1

@[simp] theorem setWindow_clientTable (s : Server V) (c : Nat) (fakeID endFakeID : XID) :
    (s.setWindow c fakeID endFakeID).clientTable c =
      { s.clientTable c with fakeID := fakeID, endFakeID := endFakeID } := Server.set_same ..

@[simp] theorem setWindow_exception (s : Server V) (c : Nat) (fakeID endFakeID : XID) :
    (s.setWindow c fakeID endFakeID).exception = s.exception := rfl

@[simp] theorem markClientException_clientTable (s : Server V) (c : Nat) :
    (markClientException s c).clientTable = s.clientTable := rfl

theorem markClientException_marked (s : Server V) (c : Nat) :
    (markClientException s c).exception c = true := update_self ..

theorem toNat_succ {x : XID} (h : x.toNat < 2 ^ 32 - 1) : (x + 1).toNat = x.toNat + 1 := by
  have hone : (1 : XID).toNat = 1 := rfl
  rw [BitVec.toNat_add, hone]
  omega

theorem nextWindow_cases {s s₁ : Server V} (hc : c < L.limitClients)
    {id maxid : XID} (h : nextWindow L s c = some (id, maxid, s₁)) :
    ((firstServerID L c).toNat ≤ id.toNat ∧ id.toNat ≤ maxid.toNat ∧
      maxid.toNat ≤ (firstServerID L c ||| L.resourceIDMask).toNat ∧
      (∀ res ∈ (s.clientTable c).resources.flatten,
        ¬ (id.toNat ≤ res.id.toNat ∧ res.id.toNat ≤ maxid.toNat)) ∧ s₁ = s) ∨
    (id = overflowID L c ∧ maxid = (overflowID L c ||| L.resourceIDMask) ∧
      s₁ = markClientException s c) := by
  rw [nextWindow] at h
  dsimp only at h
  by_cases hid : (getXIDRange L s c true).1 = 0
  · rw [if_pos hid] at h
    split at h
    · cases h
    · cases h
      exact .inr ⟨rfl, rfl, rfl⟩
  · rw [if_neg hid] at h
    cases h
    obtain ⟨h₁, h₂, h₃, h₄⟩ := getXIDRange_spec hc rfl hid
    exact .inl ⟨h₁, h₂, h₃, h₄, rfl⟩

def Limits.ownID (L : Limits) (c : Nat) (id : XID) : Prop :=
  L.clientAsMask c = id &&& ~~~L.resourceIDMask

theorem ownID_lt (hc : c < L.limitClients) {id : XID} (h : L.ownID c id) : id.toNat < 2 ^ 30 := by
  have hsplit : id = (id &&& ~~~L.resourceIDMask) ||| (id &&& L.resourceIDMask) := by
    ext i
    simp only [BitVec.getElem_or, BitVec.getElem_and, BitVec.getElem_not]
    cases id[i] <;> cases L.resourceIDMask[i] <;> rfl
  have hoff := L.two_pow_clientOffset
  have hlow : (id &&& L.resourceIDMask).toNat < 2 ^ L.clientOffset := by
    rw [BitVec.toNat_and, L.toNat_resourceIDMask]
    exact lt_of_le_of_lt and_le_right (sub_lt (Nat.two_pow_pos _) Nat.one_pos)
  have hmask := L.toNat_clientAsMask_lt hc
  rw [hsplit, ← h, BitVec.toNat_or, L.toNat_clientAsMask hc, mul_comm,
    ← two_pow_add_eq_or_of_lt hlow, mul_comm, ← L.toNat_clientAsMask hc]
  omega

def Server.rewinds (s : Server V) (c : Nat) : Bool :=
  (s.clientTable c).fakeID = (s.clientTable c).endFakeID

/-- The ids that count as returned after a call that returned `id`. -/
def returnedSince (s : Server V) (c : Nat) (ids : List XID) (id : XID) : List XID :=
  if s.rewinds c then [id] else id :: ids

variable {ids : List XID}

theorem Window.advance (hc : c < L.limitClients) (h : Window L s c ids)
    (hne : (s.clientTable c).fakeID ≠ (s.clientTable c).endFakeID) :
    Window L (s.setWindow c ((s.clientTable c).fakeID + 1) (s.clientTable c).endFakeID) c
        ((s.clientTable c).fakeID :: ids) ∧
      ∀ res ∈ (s.clientTable c).resources.flatten, res.id ≠ (s.clientTable c).fakeID := by
  have hlow := h.low
  have hhigh := h.high
  have hlt : (s.clientTable c).fakeID.toNat < (s.clientTable c).endFakeID.toNat :=
    lt_of_le_of_ne h.order fun he => hne (BitVec.eq_of_toNat_eq he)
  have hsucc := toNat_succ (x := (s.clientTable c).fakeID) (by omega)
  refine ⟨⟨?_, ?_, ?_, fun res hr => ?_, fun x hx => ?_⟩, fun res hr he => ?_⟩
  · rw [setWindow_clientTable, hsucc]
    omega
  · rw [setWindow_clientTable, hsucc]
    exact hlt
  · rw [setWindow_clientTable]
    exact hhigh
  · rw [setWindow_clientTable] at hr ⊢
    have := h.free res hr
    dsimp only
    rw [hsucc]
    omega
  · rw [setWindow_clientTable, hsucc]
    rcases mem_cons.mp hx with rfl | hx
    · omega
    · have := h.returned x hx
      omega
  · exact h.free res hr (by rw [he]; exact ⟨le_rfl, hlt⟩)

theorem Overflow.advance (hc : c < L.limitClients)
    (h : Overflow L s c) (hne : (s.clientTable c).fakeID ≠ (s.clientTable c).endFakeID) :
    Overflow L (s.setWindow c ((s.clientTable c).fakeID + 1) (s.clientTable c).endFakeID) c ∧
      (overflowID L c).toNat ≤ (s.clientTable c).fakeID.toNat ∧
      (s.clientTable c).fakeID.toNat ≤ (overflowID L c ||| L.resourceIDMask).toNat := by
  have hhi := (overflowIDs_range L hc).2
  have hlow := h.low
  have hlast := h.last
  have hlt : (s.clientTable c).fakeID.toNat < (s.clientTable c).endFakeID.toNat :=
    lt_of_le_of_ne h.order fun he => hne (BitVec.eq_of_toNat_eq he)
  have hsucc := toNat_succ (x := (s.clientTable c).fakeID) (by omega)
  refine ⟨⟨h.marked, ?_, ?_, ?_⟩, by omega, by omega⟩
  · rw [setWindow_clientTable, hsucc]
    omega
  · rw [setWindow_clientTable, hsucc]
    exact hlt
  · rw [setWindow_clientTable]
    exact hlast

theorem Window.start {id maxid : XID}
    (hc : c < L.limitClients) (hlow : (firstServerID L c).toNat ≤ id.toNat)
    (hle : id.toNat ≤ maxid.toNat)
    (hhigh : maxid.toNat ≤ (firstServerID L c ||| L.resourceIDMask).toNat)
    (hfree : ∀ res ∈ (s.clientTable c).resources.flatten,
      ¬ (id.toNat ≤ res.id.toNat ∧ res.id.toNat ≤ maxid.toNat)) :
    Window L (s.setWindow c (id + 1) (maxid + 1)) c [id] := by
  have hhi := (serverIDs_range L hc).2.2.1
  have hid := toNat_succ (x := id) (by omega)
  have hmax := toNat_succ (x := maxid) (by omega)
  refine ⟨?_, ?_, ?_, fun res hr => ?_, fun x hx => ?_⟩
  · rw [setWindow_clientTable, hid]
    omega
  · rw [setWindow_clientTable, hid, hmax]
    omega
  · rw [setWindow_clientTable, hmax]
    omega
  · rw [setWindow_clientTable] at hr ⊢
    have := hfree res hr
    rw [hid, hmax]
    omega
  · rw [mem_singleton.mp hx, setWindow_clientTable, hid]
    omega

theorem Overflow.start (s : Server V) (hc : c < L.limitClients) :
    Overflow L ((markClientException s c).setWindow c (overflowID L c + 1)
      ((overflowID L c ||| L.resourceIDMask) + 1)) c := by
  obtain ⟨hlt, hhi⟩ := overflowIDs_range L hc
  have hid := toNat_succ (x := overflowID L c) (by omega)
  have hmax := toNat_succ (x := overflowID L c ||| L.resourceIDMask) (by omega)
  refine ⟨markClientException_marked s c, ?_, ?_, ?_⟩
  · rw [setWindow_clientTable, hid]
    omega
  · rw [setWindow_clientTable, hid, hmax]
    omega
  · rw [setWindow_clientTable, hmax]

theorem fakeClientID_window (hc : c < L.limitClients)
    {id : XID} (hw : Window L s c ids ∨ Overflow L s c)
    (h : fakeClientID L s c = some (id, s')) :
    (Window L s' c (returnedSince s c ids id) ∨ Overflow L s' c) ∧ id ≠ 0 ∧
      (∃ fakeID endFakeID, s'.clientTable c =
        { s.clientTable c with fakeID := fakeID, endFakeID := endFakeID }) ∧
      ((∃ res ∈ (s.clientTable c).resources.flatten, res.id = id) →
        s'.exception c = true ∧ (overflowID L c).toNat ≤ id.toNat ∧
          id.toNat ≤ (overflowID L c ||| L.resourceIDMask).toNat) := by
  have hne : (s.clientTable c).fakeID ≠ 0 := fun he => by
    have hfirst := (serverIDs_range L hc).1
    have hzero : (0 : XID).toNat = 0 := rfl
    rcases hw with hw | hw
    · have := hw.low
      rw [he] at this
      omega
    · have := hw.low
      rw [he] at this
      omega
  rcases fakeClientID_cases hne h with ⟨heq, rfl, rfl⟩ | ⟨heq, maxid, s₁, hnext, rfl⟩
  · have hreturned : returnedSince s c ids (s.clientTable c).fakeID =
        (s.clientTable c).fakeID :: ids := by
      simp [returnedSince, Server.rewinds, heq]
    rw [hreturned]
    rcases hw with hw | hw
    · obtain ⟨hadv, hfree⟩ := hw.advance hc heq
      exact ⟨.inl hadv, hne, ⟨_, _, setWindow_clientTable ..⟩,
        fun ⟨res, hr, hid⟩ => absurd hid (hfree res hr)⟩
    · obtain ⟨hadv, hrange⟩ := hw.advance hc heq
      exact ⟨.inr hadv, hne, ⟨_, _, setWindow_clientTable ..⟩, fun _ => ⟨hadv.marked, hrange⟩⟩
  · have hreturned : returnedSince s c ids id = [id] := by
      simp [returnedSince, Server.rewinds, heq]
    rw [hreturned]
    rcases nextWindow_cases hc hnext with ⟨h₁, h₂, h₃, h₄, rfl⟩ | ⟨rfl, rfl, rfl⟩
    · refine ⟨.inl (.start hc h₁ h₂ h₃ h₄), nextWindow_ne_zero hnext,
        ⟨_, _, by rw [setWindow_clientTable, setWindow_clientTable]⟩, ?_⟩
      rintro ⟨res, hr, rfl⟩
      rw [setWindow_clientTable] at h₄
      exact absurd ⟨le_rfl, h₂⟩ (h₄ res hr)
    · have hov := Overflow.start (L := L) (s.setWindow c ((s.clientTable c).fakeID + 1)
        (s.clientTable c).endFakeID) hc
      exact ⟨.inr hov, nextWindow_ne_zero hnext, ⟨_, _, by
          rw [setWindow_clientTable, markClientException_clientTable, setWindow_clientTable]⟩,
        fun _ => ⟨hov.marked, le_rfl, le_of_lt (overflowIDs_range L hc).1⟩⟩

/-- An entry is added under an id that was returned, or that is the client's own. -/
def Op.Legal (L : Limits) (c : Nat) (ids : List XID) : Op V → Prop
  | .add id .. => id ∈ ids ∨ (c ≠ 0 ∧ L.ownID c id)
  | _ => True

variable [DecidableEq V]

/-- The server after a run and the ids that may be added. With `fresh` an id may be
added only until the next window is computed. -/
inductive Runs (L : Limits) (c : Nat) (fresh : Bool) : Server V → List XID → Prop where
  | init (s : Server V) : Runs L c fresh (initClientResources L s c) []
  | fake {s s' : Server V} {ids : List XID} {id : XID} (run : Runs L c fresh s ids)
    (step : fakeClientID L s c = some (id, s')) :
    Runs L c fresh s' (if fresh then returnedSince s c ids id else id :: ids)
  | op {s s' : Server V} {ids : List XID} (op : Op V) (run : Runs L c fresh s ids)
    (legal : op.Legal L c ids) (step : op.run L s = some s') : Runs L c fresh s' ids

theorem Op.onLive_id {op : Op V} {live : List (ResourceRec V)} {res : ResourceRec V}
    (h : res ∈ op.onLive live) : (∃ q ∈ live, q.id = res.id) ∨
      ∃ type value rebuilt allocated, op = .add res.id type value rebuilt allocated := by
  cases op with
  | add id type value rebuilt allocated =>
    rw [Op.onLive] at h
    split at h
    · rcases mem_cons.mp h with rfl | h
      · exact .inr ⟨type, value, rebuilt, allocated, rfl⟩
      · exact .inl ⟨res, h, rfl⟩
    · exact .inl ⟨res, h, rfl⟩
  | free id => exact .inl ⟨res, (mem_filter.mp h).1, rfl⟩
  | freeByType id type | freeByTypeValue id type value => exact .inl ⟨res, mem_of_mem_eraseP h, rfl⟩
  | change id rtype value =>
    left
    rw [Op.onLive] at h
    induction live with
    | nil => cases h
    | cons q live ih =>
      rw [replaceFirst] at h
      split at h
      · rcases mem_cons.mp h with rfl | h
        · exact ⟨q, mem_cons_self .., rfl⟩
        · exact ⟨res, mem_cons_of_mem _ h, rfl⟩
      · rcases mem_cons.mp h with rfl | h
        · exact ⟨res, mem_cons_self .., rfl⟩
        · obtain ⟨q', hq', he⟩ := ih h
          exact ⟨q', mem_cons_of_mem _ hq', he⟩

structure Framed (s s' : Server V) (d : Nat) : Prop where
  exception : s'.exception = s.exception
  window : ∀ c, (s'.clientTable c).fakeID = (s.clientTable c).fakeID ∧
    (s'.clientTable c).endFakeID = (s.clientTable c).endFakeID
  others : ∀ c, d ≠ c → s'.clientTable c = s.clientTable c

namespace Framed
variable {s : Server V} {d : Nat}

omit [DecidableEq V] in
theorem refl (s : Server V) (d : Nat) : Framed s s d := ⟨rfl, fun _ => ⟨rfl, rfl⟩, fun _ _ => rfl⟩

omit [DecidableEq V] in
theorem set {rrec : ClientResourceRec V} (h₁ : rrec.fakeID = (s.clientTable d).fakeID)
    (h₂ : rrec.endFakeID = (s.clientTable d).endFakeID) : Framed s (s.set d rrec) d := by
  refine ⟨rfl, fun c => ?_, fun c hc => Server.set_other s hc.symm rrec⟩
  by_cases hd : c = d
  · subst hd
    rw [Server.set_same]
    exact ⟨h₁, h₂⟩
  · rw [Server.set_other s hd]
    exact ⟨rfl, rfl⟩

omit [DecidableEq V] in
theorem unlink (s : Server V) (L : Limits) (id : XID)
    (walk : List (ResourceRec V) → Int → List (ResourceRec V) × Int) :
    Framed s (s.unlink L id walk) (L.clientIdForXID id) := by
  rw [Server.unlink]
  split
  · exact set rfl rfl
  · exact refl s _

end Framed

omit [DecidableEq V] in
theorem grown_window (L : Limits) (rrec : ClientResourceRec V) (rebuilt : Bool) :
    (rrec.grown L rebuilt).fakeID = rrec.fakeID ∧
      (rrec.grown L rebuilt).endFakeID = rrec.endFakeID := by
  rw [ClientResourceRec.grown]
  split
  · exact ⟨rfl, rfl⟩
  · exact ⟨rfl, rfl⟩

theorem Op.run_framed {op : Op V} (h : op.run L s = some s') :
    Framed s s' (L.clientIdForXID op.id) := by
  cases op with
  | add id type value rebuilt allocated =>
    obtain ⟨h₁, h₂⟩ := grown_window L (s.clientTable (L.clientIdForXID id)) rebuilt
    rw [Op.run, addResource] at h
    split at h
    · cases h
    · split at h
      · cases h
        exact .set h₁ h₂
      · cases h
        exact .set h₁ h₂
  | free id | freeByType id type | freeByTypeValue id type value =>
    cases h
    exact .unlink s L id _
  | change id rtype value =>
    cases h
    rw [changeResourceValue]
    split
    · split
      · exact .set rfl rfl
      · exact .refl s _
    · exact .refl s _

omit [DecidableEq V] in
theorem setWindow_setWindow (s : Server V) (c : Nat) (f e f' e' : XID) :
    (s.setWindow c f e).setWindow c f' e' = s.setWindow c f' e' := by
  simp only [Server.setWindow, Server.set, update_self, update_idem]

omit [DecidableEq V] in
theorem setWindow_self (s : Server V) (c : Nat) :
    s.setWindow c (s.clientTable c).fakeID (s.clientTable c).endFakeID = s := by
  simp only [Server.setWindow, Server.set, update_eq_self]

omit [DecidableEq V] in
theorem fakeClientID_inside {f e : XID} (hne : f ≠ 0) (hend : f ≠ e) :
    fakeClientID L (s.setWindow c f e) c = some (f, s.setWindow c (f + 1) e) := by
  rw [fakeClientID]
  simp only [setWindow_clientTable, setWindow_setWindow, if_neg hne, if_pos hend]

omit [DecidableEq V] in
theorem initClientResources_window (L : Limits) (s : Server V) (c : Nat) :
    (initClientResources L s c).setWindow c (firstServerID L c)
      ((firstServerID L c ||| L.resourceIDMask) + 1) = initClientResources L s c := by
  have h := setWindow_self (initClientResources L s c) c
  rw [initClientResources, Server.set_same] at h
  exact h

def unusedServer : Server V := ⟨fun _ => ⟨[], 0, 0, 0, 0, 0⟩, fun _ => false⟩

structure Allocating (L : Limits) (s : Server V) (c : Nat) (ids : List XID) : Prop where
  keeps : ∃ live, Keeps L (s.clientTable c) live
  window : Window L s c ids ∨ Overflow L s c

theorem Allocating.op {op : Op V}
    (hc : c < L.limitClients) (h : Allocating L s c ids) (hlegal : op.Legal L c ids)
    (hop : op.run L s = some s') : Allocating L s' c ids := by
  have hframe := Op.run_framed hop
  obtain ⟨hfake, hend⟩ := hframe.window c
  obtain ⟨live, hk⟩ := h.keeps
  by_cases hid : L.clientIdForXID op.id = c
  · obtain ⟨s₁, hs₁, hk'⟩ := Op.run_keeps hk _ hid
    rw [hop] at hs₁
    cases hs₁
    refine ⟨⟨_, hk'⟩, ?_⟩
    rcases h.window with hw | hw
    · left
      refine ⟨hfake ▸ hw.low, by rw [hfake, hend]; exact hw.order, hend ▸ hw.high, ?_,
        hfake ▸ hw.returned⟩
      intro res hres
      rw [hfake, hend]
      rcases Op.onLive_id (hk'.holds.flatten_perm.subset hres) with ⟨q, hq, hqe⟩ | hadd
      · rw [← hqe]
        exact hw.free q (hk.holds.flatten_perm.symm.subset hq)
      · -- the new entry
        obtain ⟨type, value, rebuilt, allocated, rfl⟩ := hadd
        rcases hlegal with hmem | ⟨h0, hown⟩
        · have := hw.returned _ hmem
          omega
        · have := ownID_lt hc hown
          have := (serverIDs_range L hc).2.2.2 h0
          have := hw.low
          omega
    · exact .inr ⟨hframe.exception ▸ hw.marked, hfake ▸ hw.low,
        by rw [hfake, hend]; exact hw.order, hend ▸ hw.last⟩
  · have hsame := hframe.others c hid
    refine ⟨⟨live, hsame ▸ hk⟩, ?_⟩
    rcases h.window with hw | hw
    · exact .inl ⟨hsame ▸ hw.low, hsame ▸ hw.order, hsame ▸ hw.high, hsame ▸ hw.free,
        hsame ▸ hw.returned⟩
    · exact .inr ⟨hframe.exception ▸ hw.marked, hsame ▸ hw.low, hsame ▸ hw.order, hsame ▸ hw.last⟩

omit [DecidableEq V] in
theorem Allocating.fake {id : XID} (hc : c < L.limitClients) (h : Allocating L s c ids)
    (hf : fakeClientID L s c = some (id, s')) : Allocating L s' c (returnedSince s c ids id) := by
  obtain ⟨hw, _, ⟨fakeID, endFakeID, htable⟩, _⟩ := fakeClientID_window hc h.window hf
  obtain ⟨live, hk⟩ := h.keeps
  refine ⟨⟨live, ?_⟩, hw⟩
  rw [htable]
  exact ⟨hk.buckets, hk.hashsize, hk.length, hk.holds, hk.elements⟩

omit [DecidableEq V] in
theorem Allocating.init (L : Limits) (s : Server V) (hc : c < L.limitClients) :
    Allocating L (initClientResources L s c) c [] := by
  obtain ⟨hlo, hlt, hhi, _⟩ := serverIDs_range L hc
  have hend := toNat_succ (x := firstServerID L c ||| L.resourceIDMask) (by omega)
  refine ⟨⟨[], .init L s c⟩, .inl ⟨?_, ?_, ?_, ?_, nofun⟩⟩
  · rw [initClientResources, Server.set_same]
  · rw [initClientResources, Server.set_same]
    dsimp only
    omega
  · rw [initClientResources, Server.set_same]
    dsimp only
    omega
  · rw [initClientResources, Server.set_same]
    intro res hr
    simp at hr

theorem Runs.allocating
    (hc : c < L.limitClients) (h : Runs L c true s ids) : Allocating L s c ids := by
  induction h with
  | init s => exact .init L s hc
  | fake _ step ih => exact ih.fake hc step
  | op op _ legal step ih => exact ih.op hc legal step

theorem Runs.takes {f e : XID} (h : Runs L c false (s.setWindow c f e) ids) (hne : f ≠ 0) (n : Nat)
    (hn : f.toNat + n ≤ e.toNat) :
    ∃ ids', Runs L c false (s.setWindow c (f + BitVec.ofNat 32 n) e) ids' ∧
      ∀ i < n, f + BitVec.ofNat 32 i ∈ ids' := by
  induction n with
  | zero => exact ⟨ids, by simpa using h, nofun⟩
  | succ n ih =>
    obtain ⟨ids', hrun, hids⟩ := ih (by omega)
    have hsum : (f + BitVec.ofNat 32 n).toNat = f.toNat + n := by
      rw [BitVec.toNat_add, BitVec.toNat_ofNat]
      omega
    have hpos : 0 < f.toNat := Nat.pos_of_ne_zero fun h0 => hne (BitVec.eq_of_toNat_eq h0)
    have hzero : f + BitVec.ofNat 32 n ≠ 0 := fun h0 => by
      have hz : (0 : XID).toNat = 0 := rfl
      rw [h0] at hsum
      omega
    have hinside : f + BitVec.ofNat 32 n ≠ e := fun h0 => by
      rw [h0] at hsum
      omega
    have hnext := Runs.fake hrun (fakeClientID_inside hzero hinside)
    have hadd : f + BitVec.ofNat 32 (n + 1) = f + BitVec.ofNat 32 n + 1 := by
      rw [BitVec.ofNat_add, ← BitVec.add_assoc]
      rfl
    refine ⟨_, hadd ▸ hnext, fun i hi => ?_⟩
    rcases Nat.lt_succ_iff_lt_or_eq.mp hi with hi | rfl
    · exact mem_cons_of_mem _ (hids i hi)
    · exact mem_cons_self ..

omit [DecidableEq V] in
theorem fakeClientID_empty (hc : c < L.limitClients)
    (hempty : (s.clientTable c).resources.flatten = []) {e : XID} (hne : e ≠ 0) :
    fakeClientID L (s.setWindow c e e) c = some (firstServerID L c,
      s.setWindow c (firstServerID L c + 1) ((firstServerID L c ||| L.resourceIDMask) + 1)) := by
  obtain ⟨hlo, hlt, _, _⟩ := serverIDs_range L hc
  have hfirst : firstServerID L c ≠ 0 := fun h0 => by
    have hz : (0 : XID).toNat = 0 := rfl
    rw [h0] at hlo
    omega
  have hrange : getXIDRange L (s.setWindow c (e + 1) e) c true =
      (firstServerID L c, firstServerID L c ||| L.resourceIDMask) := by
    rw [getXIDRange, setWindow_clientTable]
    rw [hempty, foldl_nil, if_pos rfl, if_neg (by rw [BitVec.lt_def]; dsimp only; omega)]
  have hnext : nextWindow L (s.setWindow c (e + 1) e) c =
      some (firstServerID L c, firstServerID L c ||| L.resourceIDMask,
        s.setWindow c (e + 1) e) := by
    rw [nextWindow, hrange]
    dsimp only
    rw [if_neg hfirst]
  have hset : (s.setWindow c e e).setWindow c (((s.setWindow c e e).clientTable c).fakeID + 1)
      ((s.setWindow c e e).clientTable c).endFakeID = s.setWindow c (e + 1) e := by
    rw [setWindow_clientTable, setWindow_setWindow]
  have htable := setWindow_clientTable s c e e
  rw [fakeClientID]
  simp only [htable, if_neg hne, ne_eq, not_true_eq_false, if_false]
  split
  · rename_i hnone
    rw [hset, hnext] at hnone
    cases hnone
  · rename_i id maxid s₁ hsome
    rw [hset, hnext] at hsome
    cases hsome
    rw [if_neg hfirst, setWindow_setWindow]

end Xfront.Resource
