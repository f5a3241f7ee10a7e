import Xfront.Lib.Chains
import Xfront.Resource.Table

/-!
# The generic hash table

`ht_add`, `ht_remove` and `ht_find` over any hash function and any comparison.
-/

namespace Xfront.HashTable
open Bool

open List

variable {K : Type}

def initHashSize : Nat := 6
def maxHashSize : Nat := 11

structure Functions (K : Type) where
  hash : K → Nat → Nat
  compare : K → K → Int
  fit : ∀ k n, n ≤ maxHashSize → hash k n < 2 ^ n
  equal : Equivalence fun a b => compare a b = 0
  respects : ∀ {a b}, compare a b = 0 → ∀ n, hash a n = hash b n

structure BucketRec (K : Type) where
  addr : Nat
  key : K
  keyAddr : Nat
  data : Option Nat
  deriving DecidableEq

structure HashTableRec (K : Type) where
  keySize : Nat
  dataSize : Nat
  elements : Nat
  bucketBits : Nat
  buckets : List (List (BucketRec K))
  deriving DecidableEq

/-- What `calloc` gives for the record, the key, the data and the new buckets. -/
structure Memory where
  elem : Option Nat
  key : Option Nat
  data : Option Nat
  newBuckets : Bool

/-- The data of an entry, or the end of its key where data of no bytes has no address. -/
def HashTableRec.slot (ht : HashTableRec K) (elem : BucketRec K) : Nat :=
  elem.data.getD (elem.keyAddr + ht.keySize)

def htCreate (keySize dataSize : Nat) (table buckets : Bool) : Option (HashTableRec K) :=
  if table && buckets then
    some ⟨keySize, dataSize, 0, initHashSize, replicate (2 ^ initHashSize) []⟩
  else none

variable (F : Functions K)

def doubleSize (ht : HashTableRec K) (newBuckets : Bool) : Option (HashTableRec K) :=
  if newBuckets then
    let newBucketBits := ht.bucketBits + 1
    some { ht with
      buckets := ht.buckets.foldl
        (fun new chain => chain.foldl (addHead fun it => F.hash it.key newBucketBits) new)
        (replicate (2 ^ newBucketBits) [])
      bucketBits := newBucketBits }
  else none

def listDel (buckets : List (List (BucketRec K))) (index addr : Nat) : List (List (BucketRec K)) :=
  buckets.set index ((chainAt buckets index).eraseP fun it => it.addr = addr)

def htAdd (ht : HashTableRec K) (key : K) (mem : Memory) : Option Nat × HashTableRec K :=
  let index := F.hash key ht.bucketBits
  match mem.elem, mem.key with
  | some addr, some keyAddr =>
    if ht.dataSize ≠ 0 ∧ mem.data = none then (none, ht)
    else
      let elem : BucketRec K := ⟨addr, key, keyAddr, mem.data⟩
      let added := { ht with
        buckets := ht.buckets.set index (elem :: chainAt ht.buckets index)
        elements := ht.elements + 1 }
      if added.elements > 4 * 2 ^ added.bucketBits ∧ added.bucketBits < maxHashSize then
        match doubleSize F added mem.newBuckets with
        | some grown => (some (grown.slot elem), grown)
        | none => (none, { added with
            buckets := listDel added.buckets index addr
            elements := added.elements - 1 })
      else (some (added.slot elem), added)
  | _, _ => (none, ht)

def Functions.same (key : K) (it : BucketRec K) : Bool := F.compare key it.key = 0

def htRemove (ht : HashTableRec K) (key : K) : HashTableRec K :=
  let index := F.hash key ht.bucketBits
  match (chainAt ht.buckets index).find? (F.same key) with
  | some _ => { ht with
      buckets := ht.buckets.set index ((chainAt ht.buckets index).eraseP (F.same key))
      elements := ht.elements - 1 }
  | none => ht

def htFind (ht : HashTableRec K) (key : K) : Option Nat :=
  ((chainAt ht.buckets (F.hash key ht.bucketBits)).find? (F.same key)).map ht.slot

inductive Op (K : Type) where
  | add (key : K) (mem : Memory)
  | remove (key : K)
  | find (key : K)

def Op.run (ht : HashTableRec K) : Op K → Option Nat × HashTableRec K
  | .add key mem => htAdd F ht key mem
  | .remove key => (none, htRemove F ht key)
  | .find key => (htFind F ht key, ht)

/-- The data slot of a key that was added and not removed since. The last operation is first. -/
def slotOf (F : Functions K) : List (Op K × Option Nat) → K → Option Nat
  | [], _ => none
  | (.add key _, some slot) :: past, k =>
    if F.compare k key = 0 then some slot else slotOf F past k
  | (.remove key, _) :: past, k => if F.compare k key = 0 then none else slotOf F past k
  | _ :: past, k => slotOf F past k

def Op.Absent (past : List (Op K × Option Nat)) : Op K → Prop
  | .add key _ => slotOf F past key = none
  | _ => True

inductive Reached : List (Op K × Option Nat) → HashTableRec K → Prop
  | create {keySize dataSize : Nat} {ht : HashTableRec K}
      (h : htCreate keySize dataSize true true = some ht) : Reached [] ht
  | step {past : List (Op K × Option Nat)} {ht : HashTableRec K} (h : Reached past ht)
      (op : Op K) (habsent : op.Absent F past) :
      Reached ((op, (op.run F ht).1) :: past) (op.run F ht).2

structure PresentKeys (past : List (Op K × Option Nat)) (keys : List K) : Prop where
  apart : keys.Pairwise fun a b => F.compare a b ≠ 0
  present : ∀ k, (slotOf F past k).isSome ↔ ∃ a ∈ keys, F.compare k a = 0

namespace Functions

def keys : Setoid K := ⟨fun a b => F.compare a b = 0, F.equal⟩

instance : DecidableEq (Quotient F.keys) :=
  @Quotient.decidableEq K F.keys fun a b => inferInstanceAs (Decidable (F.compare a b = 0))

def classOf (it : BucketRec K) : Quotient F.keys := Quotient.mk F.keys it.key

def classHash (n : Nat) : Quotient F.keys → Nat :=
  Quotient.lift (fun k => F.hash k n) fun _ _ h => F.respects h n

variable {F}

theorem classHash_lt {n : Nat} (hn : n ≤ maxHashSize) (c : Quotient F.keys) :
    F.classHash n c < 2 ^ n := by
  induction c using Quotient.ind
  exact F.fit _ n hn

variable {k : K} {it : BucketRec K}

theorem same_iff : F.same k it = true ↔ F.compare k it.key = 0 := decide_eq_true_iff

theorem class_of_same (h : F.same k it = true) : F.classOf it = Quotient.mk F.keys k :=
  Quotient.sound (F.equal.symm (same_iff.mp h))

end Functions

section
variable {F} {ht ht' : HashTableRec K} {live : List (BucketRec K)} {k : K}

def Apart (F : Functions K) (live : List (BucketRec K)) : Prop :=
  live.Pairwise fun a b => F.compare a.key b.key ≠ 0

variable {m : List (BucketRec K)}

theorem Apart.perm (h : Apart F live) (hp : live.Perm m) : Apart F m :=
  hp.pairwise h fun hab hba => hab (F.equal.symm hba)

theorem Apart.eq {a b : BucketRec K} (h : Apart F live) (ha : a ∈ live) (hb : b ∈ live)
    (hab : F.compare a.key b.key = 0) : a = b := by
  have hsymm : Std.Symm fun a b : BucketRec K => F.compare a.key b.key ≠ 0 :=
    ⟨fun _ _ hab hba => hab (F.equal.symm hba)⟩
  by_contra hne
  exact List.Pairwise.forall h ha hb hne hab

variable {it : BucketRec K}

theorem Apart.find_iff (h : Apart F live) :
    live.find? (F.same k) = some it ↔ it ∈ live ∧ F.compare k it.key = 0 := by
  constructor
  · intro hfind
    exact ⟨mem_of_find?_eq_some hfind, Functions.same_iff.mp (find?_some hfind)⟩
  · rintro ⟨hmem, hit⟩
    cases hfind : live.find? (F.same k) with
    | none => exact absurd (Functions.same_iff.mpr hit) (find?_eq_none.mp hfind it hmem)
    | some a =>
      have ha := Functions.same_iff.mp (find?_some hfind)
      have heq := h.eq (mem_of_find?_eq_some hfind) hmem (F.equal.trans (F.equal.symm ha) hit)
      rw [heq]

theorem Apart.find_perm (h : Apart F live) (hp : live.Perm m) :
    m.find? (F.same k) = live.find? (F.same k) := by
  ext it
  rw [(h.perm hp).find_iff, h.find_iff, hp.mem_iff]

structure Held (F : Functions K) (past : List (Op K × Option Nat)) (ht : HashTableRec K)
    (live : List (BucketRec K)) : Prop where
  bits : ht.bucketBits ≤ maxHashSize
  width : ht.buckets.length = 2 ^ ht.bucketBits
  holds : Holds F.classOf (F.classHash ht.bucketBits) ht.buckets live
  apart : Apart F live
  elements : ht.elements = live.length
  slots : ∀ k, slotOf F past k = (live.find? (F.same k)).map ht.slot

variable {past : List (Op K × Option Nat)}

theorem Held.index_lt (h : Held F past ht live) (k : K) :
    F.hash k ht.bucketBits < ht.buckets.length := by
  rw [h.width]
  exact F.fit k _ h.bits

theorem Held.chain_find (h : Held F past ht live) (k : K) :
    (chainAt ht.buckets (F.hash k ht.bucketBits)).find? (F.same k) = live.find? (F.same k) :=
  h.holds.find (k := Quotient.mk F.keys k) fun _ => Functions.class_of_same

theorem Held.find (h : Held F past ht live) (k : K) : htFind F ht k = slotOf F past k := by
  rw [htFind, h.chain_find, h.slots]

def inserted (F : Functions K) (ht : HashTableRec K) (elem : BucketRec K) : HashTableRec K :=
  { ht with
    buckets := ht.buckets.set (F.hash elem.key ht.bucketBits)
      (elem :: chainAt ht.buckets (F.hash elem.key ht.bucketBits))
    elements := ht.elements + 1 }

variable {elem : BucketRec K}

theorem listDel_inserted (hlt : F.hash elem.key ht.bucketBits < ht.buckets.length) :
    listDel (inserted F ht elem).buckets (F.hash elem.key ht.bucketBits) elem.addr =
      ht.buckets := by
  rw [inserted, listDel, chainAt_set hlt, if_pos rfl, eraseP_cons_of_pos (by simp), set_set]
  refine ext_getElem? fun i => ?_
  rw [getElem?_set]
  split
  · next hi =>
    rw [← hi, chainAt, getD_eq_getElem?_getD, getElem?_eq_getElem hlt]
    rfl
  · rfl

variable {mem : Memory}

theorem htAdd_cases (hlt : F.hash k ht.bucketBits < ht.buckets.length) :
    htAdd F ht k mem = (none, ht) ∨ ∃ elem : BucketRec K, elem.key = k ∧
      (htAdd F ht k mem = (some (ht.slot elem), inserted F ht elem) ∨
        ∃ grown, ht.bucketBits < maxHashSize ∧ doubleSize F (inserted F ht elem) true = some grown ∧
          htAdd F ht k mem = (some (grown.slot elem), grown)) := by
  unfold htAdd
  cases mem.elem with
  | none => exact .inl rfl
  | some addr =>
    cases mem.key with
    | none => exact .inl rfl
    | some keyAddr =>
      dsimp only
      split
      · exact .inl rfl
      · split
        · next hgrow =>
          cases hnew : mem.newBuckets with
          | false =>
            refine .inl ?_
            have hundo := @listDel_inserted _ F ht ⟨addr, k, keyAddr, mem.data⟩ hlt
            simp only [inserted] at hundo
            simp only [doubleSize, false_eq_true, if_false, hundo, Nat.add_sub_cancel]
          | true =>
            exact .inr ⟨⟨addr, k, keyAddr, mem.data⟩, rfl, .inr ⟨_, hgrow.2, rfl, rfl⟩⟩
        · exact .inr ⟨⟨addr, k, keyAddr, mem.data⟩, rfl, .inl rfl⟩

variable {grown : HashTableRec K}

theorem doubleSize_some (h : doubleSize F ht true = some grown) : grown = { ht with
      buckets := ht.buckets.flatten.foldl (addHead fun it => F.hash it.key (ht.bucketBits + 1))
        (replicate (2 ^ (ht.bucketBits + 1)) [])
      bucketBits := ht.bucketBits + 1 } := by
  rw [foldl_flatten]
  exact (Option.some.inj h).symm

theorem Held.insert (h : Held F past ht live) (habsent : slotOf F past elem.key = none) :
    Held F ((.add elem.key mem, some (ht.slot elem)) :: past) (inserted F ht elem)
      (elem :: live) where
  bits := h.bits
  width := by rw [inserted, length_set]; exact h.width
  holds := h.holds.update (k := Quotient.mk F.keys elem.key) (f := (elem :: ·)) (.cons rfl)
  apart := by
    refine pairwise_cons.mpr ⟨?_, h.apart⟩
    intro it hit heq
    rw [h.slots, (h.apart.find_iff.mpr ⟨hit, heq⟩ : live.find? _ = some it)] at habsent
    cases habsent
  elements := by rw [inserted, length_cons, h.elements]
  slots k := by
    rw [slotOf, find?_cons, h.slots]
    by_cases hk : F.compare k elem.key = 0
    · rw [if_pos hk, Functions.same_iff.mpr hk]
      rfl
    · rw [if_neg hk, eq_false_iff.mpr fun hsame => hk (Functions.same_iff.mp hsame)]
      rfl

theorem Held.grow (h : Held F past ht live) (hbits : ht.bucketBits < maxHashSize)
    (hgrown : doubleSize F ht true = some grown) : Held F past grown live.reverse := by
  have hrange := Functions.classHash_lt (F := F) (n := ht.bucketBits + 1) hbits
  obtain ⟨hholds, hlen⟩ := h.holds.rehashHead hrange
  rw [doubleSize_some hgrown]
  exact {
    bits := hbits
    width := hlen
    holds := hholds
    apart := h.apart.perm (reverse_perm live).symm
    elements := by rw [length_reverse]; exact h.elements
    slots := by
      intro k
      rw [h.apart.find_perm (reverse_perm live).symm]
      exact h.slots k }

theorem Apart.mem_eraseP (h : Apart F live) :
    it ∈ live.eraseP (F.same k) ↔ it ∈ live ∧ F.compare k it.key ≠ 0 := by
  by_cases hsome : ∃ a ∈ live, F.same k a = true
  · obtain ⟨a, hmem, ha⟩ := hsome
    obtain ⟨b, front, back, hfront, hb, hlive, herase⟩ := exists_of_eraseP hmem ha
    rw [herase]
    constructor
    · intro hit
      have hin : it ∈ live := by
        rw [hlive]
        rcases mem_append.mp hit with hit | hit
        · exact mem_append_left _ hit
        · exact mem_append_right _ (mem_cons_of_mem b hit)
      refine ⟨hin, fun hk => ?_⟩
      rcases mem_append.mp hit with hit | hit
      · exact hfront it hit (Functions.same_iff.mpr hk)
      · rw [hlive] at h
        have hback := (pairwise_append.mp h).2.1
        have hbit := F.equal.trans (F.equal.symm (Functions.same_iff.mp hb)) hk
        exact rel_of_pairwise_cons hback hit hbit
    · rintro ⟨hit, hk⟩
      rw [hlive] at hit
      rcases mem_append.mp hit with hit | hit
      · exact mem_append_left _ hit
      · rcases mem_cons.mp hit with rfl | hit
        · exact absurd (Functions.same_iff.mp hb) hk
        · exact mem_append_right _ hit
  · have hnone : ∀ a ∈ live, ¬ F.same k a = true := fun a ha hsame => hsome ⟨a, ha, hsame⟩
    rw [eraseP_of_forall_not hnone]
    constructor
    · intro hit
      exact ⟨hit, fun hk => hnone it hit (Functions.same_iff.mpr hk)⟩
    · exact And.left

theorem Held.remove (h : Held F past ht live) (key : K) :
    ∃ live', Held F ((.remove key, none) :: past) (htRemove F ht key) live' := by
  have hchain := h.chain_find key
  unfold htRemove
  cases hfind : live.find? (F.same key) with
  | none =>
    rw [hfind] at hchain
    simp only [hchain]
    refine ⟨live, h.bits, h.width, h.holds, h.apart, h.elements, ?_⟩
    intro k
    rw [slotOf]
    split
    · next hk =>
      have hsame : live.find? (F.same k) = none := by
        refine find?_eq_none.mpr fun it hit hkit => ?_
        refine find?_eq_none.mp hfind it hit (Functions.same_iff.mpr ?_)
        exact F.equal.trans (F.equal.symm hk) (Functions.same_iff.mp hkit)
      rw [hsame]
      rfl
    · exact h.slots k
  | some it =>
    rw [hfind] at hchain
    simp only [hchain]
    have hacts : ActsOn F.classOf (Quotient.mk F.keys key) (·.eraseP (F.same key))
        (·.eraseP (F.same key)) := .eraseP fun _ => Functions.class_of_same
    obtain ⟨hit, hkey⟩ := h.apart.find_iff.mp hfind
    have hsub := eraseP_sublist (p := F.same key) (l := live)
    have hapart : Apart F (live.eraseP (F.same key)) := List.Pairwise.sublist hsub h.apart
    have hlen := length_eraseP_of_mem hit (Functions.same_iff.mpr hkey)
    refine ⟨live.eraseP (F.same key), h.bits, ?_, h.holds.update hacts, hapart, ?_, ?_⟩
    · rw [length_set]
      exact h.width
    · rw [hlen, ← h.elements]
    intro k
    rw [slotOf]
    split
    · next hk =>
      have hsame : (live.eraseP (F.same key)).find? (F.same k) = none := by
        cases hother : (live.eraseP (F.same key)).find? (F.same k) with
        | none => rfl
        | some a =>
          obtain ⟨ha, hka⟩ := hapart.find_iff.mp hother
          exact absurd (F.equal.trans (F.equal.symm hk) hka) (h.apart.mem_eraseP.mp ha).2
      rw [hsame]
      rfl
    · next hk =>
      have hsame : (live.eraseP (F.same key)).find? (F.same k) = live.find? (F.same k) := by
        ext a
        rw [hapart.find_iff, h.apart.find_iff, h.apart.mem_eraseP]
        constructor
        · rintro ⟨⟨ha, -⟩, hka⟩
          exact ⟨ha, hka⟩
        · rintro ⟨ha, hka⟩
          exact ⟨⟨ha, fun hkey => hk (F.equal.trans hka (F.equal.symm hkey))⟩, hka⟩
      rw [hsame]
      exact h.slots k

theorem create_held {keySize dataSize : Nat} (h : htCreate keySize dataSize true true = some ht) :
    Held F [] ht [] := by
  cases Option.some.inj h
  exact {
    bits := (by decide : initHashSize ≤ maxHashSize)
    width := length_replicate
    holds := .empty (Functions.classHash_lt (by decide : initHashSize ≤ maxHashSize))
    apart := .nil
    elements := rfl
    slots := fun _ => rfl }

theorem Held.step (h : Held F past ht live) (op : Op K) (habsent : op.Absent F past) :
    ∃ live', Held F ((op, (op.run F ht).1) :: past) (op.run F ht).2 live' := by
  cases op with
  | add key mem =>
    rcases @htAdd_cases _ F ht key mem (h.index_lt key) with
      hfail | ⟨elem, rfl, hadd | ⟨grown, hbits, hgrown, hadd⟩⟩
    · refine ⟨live, ?_⟩
      rw [Op.run, hfail]
      exact ⟨h.bits, h.width, h.holds, h.apart, h.elements, h.slots⟩
    · refine ⟨elem :: live, ?_⟩
      rw [Op.run, hadd]
      exact h.insert habsent
    · refine ⟨(elem :: live).reverse, ?_⟩
      have hslot : grown.slot elem = ht.slot elem := by
        rw [doubleSize_some hgrown]
        rfl
      rw [Op.run, hadd, hslot]
      exact (h.insert habsent).grow hbits hgrown
  | remove key => exact h.remove key
  | find key => exact ⟨live, h.bits, h.width, h.holds, h.apart, h.elements, h.slots⟩

theorem Reached.held (h : Reached F past ht) : ∃ live, Held F past ht live := by
  induction h with
  | create h => exact ⟨[], create_held h⟩
  | step h op habsent ih =>
    obtain ⟨live, hlive⟩ := ih
    exact hlive.step op habsent

theorem Held.presentKeys (h : Held F past ht live) : PresentKeys F past (live.map (·.key)) where
  apart := pairwise_map.mpr h.apart
  present k := by
    rw [h.slots, Option.isSome_map, find?_isSome]
    constructor
    · rintro ⟨it, hit, hsame⟩
      exact ⟨it.key, mem_map_of_mem hit, Functions.same_iff.mp hsame⟩
    · rintro ⟨a, ha, hka⟩
      obtain ⟨it, hit, rfl⟩ := mem_map.mp ha
      exact ⟨it, hit, Functions.same_iff.mpr hka⟩

/-- After any history with its failures of memory the table is the map from the present keys to
their slots, in the buckets of its width; adding without memory changes nothing. -/
theorem finite_map (h : Reached F past ht) : (∀ k, htFind F ht k = slotOf F past k) ∧
    (∃ keys, PresentKeys F past keys ∧ ht.elements = keys.length) ∧
    (ht.buckets.length = 2 ^ ht.bucketBits ∧
      ∀ j, ∀ it ∈ chainAt ht.buckets j, F.hash it.key ht.bucketBits = j) ∧
    ∀ k mem, (htAdd F ht k mem).1 = none → (htAdd F ht k mem).2 = ht := by
  obtain ⟨live, hheld⟩ := h.held
  refine ⟨hheld.find, ⟨_, hheld.presentKeys, ?_⟩, ⟨hheld.width, hheld.holds.placed⟩, ?_⟩
  · rw [length_map]
    exact hheld.elements
  · intro k mem hnone
    rcases @htAdd_cases _ F ht k mem (hheld.index_lt k) with
      hfail | ⟨elem, _, hadd | ⟨grown, _, _, hadd⟩⟩
    · rw [hfail]
    · rw [hadd] at hnone
      cases hnone
    · rw [hadd] at hnone
      cases hnone

end

def oneAtATimeHash (data : List (BitVec 8)) : BitVec 32 :=
  let hash := data.foldl (fun (hash : BitVec 32) c =>
    let hash := hash + c.signExtend 32
    let hash := hash + (hash <<< 10)
    hash ^^^ (hash >>> 6)) 0
  let hash := hash + (hash <<< 3)
  let hash := hash ^^^ (hash >>> 11)
  hash + (hash <<< 15)

def htGenericHash (key : List (BitVec 8)) (numBits : Nat) : Nat :=
  (oneAtATimeHash key &&& ~~~(~~~(0 : BitVec 32) <<< numBits)).toNat

def memcmp : List (BitVec 8) → List (BitVec 8) → Int
  | a :: l, b :: r => if a = b then memcmp l r else (a.toNat : Int) - b.toNat
  | _, _ => 0

theorem memcmp_eq_zero {l r : List (BitVec 8)} (h : l.length = r.length) :
    memcmp l r = 0 ↔ l = r := by
  induction l generalizing r with
  | nil =>
    rw [length_eq_zero_iff.mp h.symm]
    exact ⟨fun _ => rfl, fun _ => rfl⟩
  | cons a l ih =>
    cases r with
    | nil => cases h
    | cons b r =>
      rw [memcmp, cons.injEq]
      split
      · next hab =>
        rw [ih (Nat.succ.inj h)]
        exact ⟨fun hl => ⟨hab, hl⟩, And.right⟩
      · next hab =>
        constructor
        · intro hsub
          exact absurd (BitVec.eq_of_toNat_eq (by omega)) hab
        · rintro ⟨rfl, -⟩
          exact absurd rfl hab

theorem htGenericHash_lt (key : List (BitVec 8)) {numBits : Nat} (h : numBits ≤ maxHashSize) :
    htGenericHash key numBits < 2 ^ numBits := by
  rw [htGenericHash, BitVec.toNat_and]
  exact lt_of_le_of_lt Nat.and_le_right (Resource.lowBits_lt (le_trans h (by decide)))

/-- `ht_generic_hash` and `ht_generic_compare` on keys of a size. -/
def genericFunctions (keySize : Nat) : Functions { key : List (BitVec 8) // key.length = keySize } where
  hash key numBits := htGenericHash key.1 numBits
  compare l r := memcmp l.1 r.1
  fit key _ h := htGenericHash_lt key.1 h
  equal := by
    have heq : ∀ a b : { key : List (BitVec 8) // key.length = keySize },
        memcmp a.1 b.1 = 0 ↔ a = b := fun a b =>
      (memcmp_eq_zero (a.2.trans b.2.symm)).trans Subtype.ext_iff.symm
    simp only [heq]
    exact eq_equivalence
  respects {a b} h n := by
    rw [(memcmp_eq_zero (a.2.trans b.2.symm)).mp h]

def htResourceidHash (L : Resource.Limits) (id : Resource.XID) (numBits : Nat) : Nat :=
  Resource.hashResourceID L (id &&& L.resourceIDMask) numBits

def htResourceidCompare (a b : Resource.XID) : Int :=
  if a.toNat < b.toNat then -1 else if a.toNat > b.toNat then 1 else 0

theorem htResourceidCompare_eq_zero {a b : Resource.XID} : htResourceidCompare a b = 0 ↔ a = b := by
  rw [htResourceidCompare, ← BitVec.toNat_inj]
  split
  · omega
  · split <;> omega

def resourceidFunctions (L : Resource.Limits) : Functions Resource.XID where
  hash := htResourceidHash L
  compare := htResourceidCompare
  fit id _ h := Resource.hashResourceID_lt L (id &&& L.resourceIDMask) (le_trans h (by decide))
  equal := by
    simp only [htResourceidCompare_eq_zero]
    exact eq_equivalence
  respects h n := by rw [htResourceidCompare_eq_zero.mp h]

def idFunctions : Functions Resource.XID := resourceidFunctions ⟨256, Resource.allowed_256⟩

/-- One id is added; there is no memory for the other. -/
theorem finite_map_ids :
    ∃ past ht, Reached idFunctions past ht ∧ htFind idFunctions ht 5 = some 300 ∧
      htFind idFunctions ht 6 = none := by
  have hadded := ((@Reached.create _ idFunctions 4 4 _ rfl).step
    (.add 5 ⟨some 100, some 200, some 300, true⟩) rfl).step
    (.add 6 ⟨some 110, none, none, true⟩) (by rw [Op.Absent]; decide +kernel)
  refine ⟨_, _, hadded, ?_, ?_⟩
  · rw [(finite_map hadded).1]
    decide +kernel
  · rw [(finite_map hadded).1]
    decide +kernel

end Xfront.HashTable
