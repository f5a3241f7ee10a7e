import Xfront.Lib.Bytes

/-!
# Modifier maps

`change_modmap` turns a map from modifiers to keys into one from keys to modifiers and applies it
unless a key that is or becomes a modifier is down; `generate_modkeymap` goes the other way.
-/

namespace Xfront.Modmap
open Option

open List Function

abbrev KeyCode := Fin 256

abbrev Modmap := KeyCode → BitVec 8

abbrev success : Int := 0
abbrev badValue : Int := 2
abbrev badMatch : Int := 8
abbrev badAlloc : Int := 11
abbrev mappingBusy : Int := 1

/-- What `dev->key` holds: the range and the maps of its keyboard description, the keysyms of a
key, and the keys that are down after and before the events were processed. -/
structure KeyClass where
  minKeyCode : KeyCode
  maxKeyCode : KeyCode
  modmap : Modmap
  syms : KeyCode → List Nat
  down : KeyCode → Bool
  postdown : KeyCode → Bool

inductive DeviceType where
  | masterPointer
  | masterKeyboard
  | slave
  deriving DecidableEq

structure Device where
  type : DeviceType
  master : Option Nat
  paired : Option Nat
  lastSlave : Option Nat
  key : Option KeyClass

/-- `inputInfo`, and the error value of the client. -/
structure InputInfo where
  device : Nat → Device
  devices : List Nat
  errorValue : Nat

def KeyClass.keyIsDown (key : KeyClass) (keyCode : KeyCode) (processed posted : Bool) : Bool :=
  (processed && key.down keyCode) || (posted && key.postdown keyCode)

def KeyClass.held (key : KeyClass) (keyCode : KeyCode) : Bool := key.keyIsDown keyCode true true

namespace InputInfo
variable (s : InputInfo)

def inputDevIsMaster (dev : Nat) : Bool :=
  (s.device dev).type = .masterPointer ∨ (s.device dev).type = .masterKeyboard

def getMaster (dev : Nat) : Option Nat :=
  (if s.inputDevIsMaster dev then some dev else (s.device dev).master).bind fun master =>
    if (s.device master).type = .masterKeyboard then some master else (s.device master).paired

def inputDevIsFloating (dev : Nat) : Bool := ¬ s.inputDevIsMaster dev ∧ s.getMaster dev = none

def checkNew (key : KeyClass) (modmap : Modmap) : Option (Int × KeyCode) :=
  (finRange 256).findSome? fun i =>
    if modmap i = 0 then none
    else if i < key.minKeyCode ∨ i > key.maxKeyCode then some (badValue, i)
    else if key.keyIsDown i true true then some (mappingBusy, i)
    else none

/-- The first key of the old map that is down. The loop ends before the last key code. -/
def checkOld (key : KeyClass) : Option (Int × KeyCode) :=
  ((finRange 256).filter fun i => key.minKeyCode ≤ i ∧ i < key.maxKeyCode).findSome? fun i =>
    if key.modmap i = 0 then none
    else if key.keyIsDown i true true then some (mappingBusy, i)
    else none

def checkModmapChange (access : Nat → Int) (dev : Nat) (modmap : Modmap) : Int × InputInfo :=
  if access dev ≠ success then (access dev, s)
  else
    match (s.device dev).key with
    | none => (badMatch, s)
    | some key =>
      match (checkNew key modmap).or (checkOld key) with
      | some (ret, i) => (ret, { s with errorValue := i })
      | none => (success, s)

def checkModmapChangeSlave (access : Nat → Int) (master slave : Nat) (modmap : Modmap) :
    Bool × InputInfo :=
  match (s.device slave).key, (s.device master).key with
  | some slaveKey, some masterKey =>
    if slaveKey.minKeyCode ≠ masterKey.minKeyCode ∨ slaveKey.maxKeyCode ≠ masterKey.maxKeyCode then
      (false, s)
    else if (finRange 256).any fun i => modmap i ≠ 0 ∧
        ((slaveKey.syms i).zip (masterKey.syms i)).any fun p => p.1 ≠ p.2 then (false, s)
    else
      let (ret, s) := s.checkModmapChange access slave modmap
      (ret = success, s)
  | _, _ => (false, s)

def doModmapChange (dev : Nat) (modmap : Modmap) : InputInfo :=
  let key := (s.device dev).key.map fun key => { key with modmap := modmap }
  { s with device := update s.device dev { s.device dev with key := key } }

end InputInfo

def buildLoop (maxKeysPerMod : Nat) (modkeymap : List KeyCode) :
    Modmap → List Nat → Option Modmap
  | modmap, [] => some modmap
  | modmap, i :: is =>
    let keyCode := modkeymap.getD i 0
    if keyCode = 0 then buildLoop maxKeysPerMod modkeymap modmap is
    else if modmap keyCode ≠ 0 then none
    else buildLoop maxKeysPerMod modkeymap
      (update modmap keyCode (1#8 <<< (i / maxKeysPerMod))) is

def buildModmapFromModkeymap (modkeymap : List KeyCode) (maxKeysPerMod : Nat) : Option Modmap :=
  buildLoop maxKeysPerMod modkeymap (fun _ => 0) (range (maxKeysPerMod * 8))

def InputInfo.changeModmap (s : InputInfo) (access : Nat → Int) (dev : Nat)
    (modkeymap : List KeyCode) (maxKeysPerMod : Nat) : Int × InputInfo :=
  match buildModmapFromModkeymap modkeymap maxKeysPerMod with
  | none => (badValue, s)
  | some modmap =>
    let (ret, s) := s.checkModmapChange access dev modmap
    if ret ≠ success then (ret, s)
    else
      let s := s.doModmapChange dev modmap
      if s.inputDevIsMaster dev then
        (success, s.devices.foldl (fun s tmp =>
          if ¬ s.inputDevIsMaster tmp ∧ s.getMaster tmp = some dev then
            let (fits, s) := s.checkModmapChangeSlave access dev tmp modmap
            if fits then s.doModmapChange tmp modmap else s
          else s) s)
      else if ¬ s.inputDevIsFloating dev ∧
          (s.getMaster dev).any fun master => (s.device master).lastSlave = some dev then
        match (s.device dev).master with
        | none => (success, s)
        | some master =>
          let (ret, s) := s.checkModmapChange access master modmap
          (success, if ret = success then s.doModmapChange master modmap else s)
      else (success, s)

def hasMod (modmap : Modmap) (i : KeyCode) (j : Nat) : Bool := modmap i &&& (1#8 <<< j) ≠ 0

/-- The key codes from 8 on, and the turns of the loops over them and the modifiers. -/
def mapKeys : List KeyCode := (finRange 256).drop 8

def cells : List (KeyCode × Nat) := mapKeys.flatMap fun i => (range 8).map fun j => (i, j)

def countStep (modmap : Modmap) (st : (Nat → Nat) × Nat) (cell : KeyCode × Nat) :
    (Nat → Nat) × Nat :=
  if hasMod modmap cell.1 cell.2 then
    (update st.1 cell.2 (st.1 cell.2 + 1), if st.1 cell.2 + 1 > st.2 then st.1 cell.2 + 1 else st.2)
  else st

def fillStep (modmap : Modmap) (maxKeysPerMod : Nat) (st : List KeyCode × (Nat → Nat))
    (cell : KeyCode × Nat) : List KeyCode × (Nat → Nat) :=
  if hasMod modmap cell.1 cell.2 then
    (st.1.set (cell.2 * maxKeysPerMod + st.2 cell.2) cell.1, update st.2 cell.2 (st.2 cell.2 + 1))
  else st

def generateModkeymap (access : Int) (key : Option KeyClass) (memory : Bool) :
    Except Int (List KeyCode × Nat) :=
  if access ≠ success then .error access
  else
    match key with
    | none => .error badMatch
    | some key =>
      let maxKeysPerMod := (cells.foldl (countStep key.modmap) (fun _ => 0, 0)).2
      if maxKeysPerMod = 0 then .ok ([], 0)
      else if ¬ memory then .error badAlloc
      else .ok ((cells.foldl (fillStep key.modmap maxKeysPerMod)
        (replicate (maxKeysPerMod * 8) 0, fun _ => 0)).1, maxKeysPerMod)

variable {modkeymap : List KeyCode} {maxKeysPerMod : Nat} {modmap : Modmap}

def Fresh (modkeymap : List KeyCode) (modmap : Modmap) (is : List Nat) : Prop :=
  is.Pairwise (fun i j => modkeymap.getD i 0 ≠ 0 → modkeymap.getD i 0 ≠ modkeymap.getD j 0) ∧
    ∀ i ∈ is, modkeymap.getD i 0 ≠ 0 → modmap (modkeymap.getD i 0) = 0

theorem fresh_cons_zero {i : Nat} {is : List Nat} (h : modkeymap.getD i 0 = 0) :
    Fresh modkeymap modmap (i :: is) ↔ Fresh modkeymap modmap is := by
  rw [Fresh, Fresh, pairwise_cons, forall_mem_cons, h]
  simp

theorem fresh_cons {i : Nat} {is : List Nat} {bit : BitVec 8} (hbit : bit ≠ 0)
    (h : modkeymap.getD i 0 ≠ 0) (hmap : modmap (modkeymap.getD i 0) = 0) :
    Fresh modkeymap modmap (i :: is) ↔
      Fresh modkeymap (update modmap (modkeymap.getD i 0) bit) is := by
  rw [Fresh, Fresh, pairwise_cons, forall_mem_cons]
  constructor
  · rintro ⟨⟨hi, his⟩, -, hmaps⟩
    refine ⟨his, fun j hj hne => ?_⟩
    rw [update_of_ne (hi j hj h).symm]
    exact hmaps j hj hne
  · rintro ⟨his, hmaps⟩
    have hother : ∀ j ∈ is, modkeymap.getD j 0 ≠ 0 → modkeymap.getD j 0 ≠ modkeymap.getD i 0 := by
      intro j hj hne heq
      have hset := hmaps j hj hne
      rw [heq, update_self] at hset
      exact hbit hset
    refine ⟨⟨fun j hj _ heq => ?_, his⟩, fun _ => hmap, fun j hj hne => ?_⟩
    · exact hother j hj (heq ▸ h) heq.symm
    · have hset := hmaps j hj hne
      rwa [update_of_ne (hother j hj hne)] at hset

theorem bit_ne_zero {j : Nat} (h : j < 8) : (1#8 <<< j) ≠ 0 := by
  have hall : ∀ j < 8, (1#8 <<< j) ≠ 0 := by decide
  exact hall j h

theorem buildLoop_spec (is : List Nat) (hrange : ∀ i ∈ is, i / maxKeysPerMod < 8) :
    (buildLoop maxKeysPerMod modkeymap modmap is = none ∧ ¬ Fresh modkeymap modmap is) ∨
    ∃ m, buildLoop maxKeysPerMod modkeymap modmap is = some m ∧ Fresh modkeymap modmap is ∧
      (∀ i ∈ is, modkeymap.getD i 0 ≠ 0 → m (modkeymap.getD i 0) = 1#8 <<< (i / maxKeysPerMod)) ∧
      ∀ k, (∀ i ∈ is, modkeymap.getD i 0 = k → k = 0) → m k = modmap k := by
  induction is generalizing modmap with
  | nil => exact .inr ⟨modmap, rfl, ⟨.nil, fun _ h => absurd h not_mem_nil⟩,
      fun _ h => absurd h not_mem_nil, fun _ _ => rfl⟩
  | cons i is ih =>
    have hrest := fun j hj => hrange j (mem_cons_of_mem i hj)
    have hbit := bit_ne_zero (hrange i mem_cons_self)
    unfold buildLoop
    by_cases hzero : modkeymap.getD i 0 = 0
    · rw [if_pos hzero, fresh_cons_zero hzero]
      rcases @ih modmap hrest with hnone | ⟨m, hm, hfresh, hset, hsame⟩
      · exact .inl hnone
      · refine .inr ⟨m, hm, hfresh, ?_, ?_⟩
        · exact forall_mem_cons.mpr ⟨fun hne => absurd hzero hne, hset⟩
        · exact fun k hk => hsame k fun j hj => hk j (mem_cons_of_mem i hj)
    rw [if_neg hzero]
    by_cases hmap : modmap (modkeymap.getD i 0) = 0
    · rw [if_neg (not_not_intro hmap), fresh_cons hbit hzero hmap]
      rcases @ih (update modmap (modkeymap.getD i 0)
          (1#8 <<< (i / maxKeysPerMod))) hrest with hnone | ⟨m, hm, hfresh, hset, hsame⟩
      · exact .inl hnone
      refine .inr ⟨m, hm, hfresh, forall_mem_cons.mpr ⟨fun _ => ?_, hset⟩, fun k hk => ?_⟩
      · have hnot : ∀ j ∈ is, modkeymap.getD j 0 = modkeymap.getD i 0 → modkeymap.getD i 0 = 0 := by
          intro j hj heq
          have hj0 := hfresh.2 j hj (heq ▸ hzero)
          rw [heq, update_self] at hj0
          exact absurd hj0 hbit
        rw [hsame _ hnot, update_self]
      · rw [hsame k fun j hj => hk j (mem_cons_of_mem i hj)]
        have hne : k ≠ modkeymap.getD i 0 := by
          rintro rfl
          exact hzero (hk i mem_cons_self rfl)
        rw [update_of_ne hne]
    · rw [if_pos hmap]
      refine .inl ⟨rfl, fun hfresh => ?_⟩
      exact hmap (hfresh.2 i mem_cons_self hzero)

def Requested (modkeymap : List KeyCode) (maxKeysPerMod : Nat) (k : KeyCode) : Prop :=
  k ≠ 0 ∧ ∃ i < maxKeysPerMod * 8, modkeymap.getD i 0 = k

def Once (modkeymap : List KeyCode) (maxKeysPerMod : Nat) : Prop :=
  ∀ i < maxKeysPerMod * 8, ∀ j < maxKeysPerMod * 8, modkeymap.getD i 0 ≠ 0 →
    modkeymap.getD i 0 = modkeymap.getD j 0 → i = j

theorem fresh_iff_once : Fresh modkeymap (fun _ => 0) (range (maxKeysPerMod * 8)) ↔
      Once modkeymap maxKeysPerMod := by
  rw [Fresh, Once]
  constructor
  · rintro ⟨hpair, -⟩ i hi j hj hne heq
    rw [pairwise_iff_getElem] at hpair
    simp only [length_range, getElem_range] at hpair
    rcases lt_trichotomy i j with hlt | rfl | hlt
    · exact absurd heq (hpair i j hi hj hlt hne)
    · rfl
    · exact absurd heq.symm (hpair j i hj hi hlt (heq ▸ hne))
  · intro honce
    refine ⟨?_, fun _ _ _ => rfl⟩
    rw [pairwise_iff_getElem]
    simp only [length_range, getElem_range]
    intro i j hi hj hlt hne heq
    exact absurd (honce i hi j hj hne heq) (Nat.ne_of_lt hlt)

theorem build_spec : (buildModmapFromModkeymap modkeymap maxKeysPerMod = none ∧
      ¬ Once modkeymap maxKeysPerMod) ∨
    ∃ m, buildModmapFromModkeymap modkeymap maxKeysPerMod = some m ∧ Once modkeymap maxKeysPerMod ∧
      (∀ i < maxKeysPerMod * 8, modkeymap.getD i 0 ≠ 0 →
        m (modkeymap.getD i 0) = 1#8 <<< (i / maxKeysPerMod)) ∧
      ∀ k, m k = 0 ↔ ¬ Requested modkeymap maxKeysPerMod k := by
  have hrange : ∀ i ∈ range (maxKeysPerMod * 8), i / maxKeysPerMod < 8 := by
    intro i hi
    have hlt := mem_range.mp hi
    exact Nat.div_lt_of_lt_mul hlt
  rcases @buildLoop_spec modkeymap maxKeysPerMod (fun _ => 0)
    (range (maxKeysPerMod * 8)) hrange with ⟨hnone, hfresh⟩ | ⟨m, hm, hfresh, hset, hsame⟩
  · exact .inl ⟨hnone, fun honce => hfresh (fresh_iff_once.mpr honce)⟩
  simp only [mem_range] at hset hsame hrange
  refine .inr ⟨m, hm, fresh_iff_once.mp hfresh, hset, fun k => ?_⟩
  constructor
  · rintro hk ⟨hne, i, hi, rfl⟩
    rw [hset i hi hne] at hk
    exact bit_ne_zero (hrange i hi) hk
  · intro hnot
    refine hsame k fun i hi heq => ?_
    by_contra hne
    exact hnot ⟨hne, i, hi, heq⟩

def KeyClass.InRange (key : KeyClass) (k : KeyCode) : Prop :=
  key.minKeyCode ≤ k ∧ k ≤ key.maxKeyCode

def KeyClass.Looked (key : KeyClass) (k : KeyCode) : Prop :=
  key.minKeyCode ≤ k ∧ k < key.maxKeyCode

/-- The entries are in range and not down, nor is an old modifier that is looked at. -/
def KeyClass.Fits (key : KeyClass) (modkeymap : List KeyCode) (maxKeysPerMod : Nat) : Prop :=
  Once modkeymap maxKeysPerMod ∧
    (∀ k, Requested modkeymap maxKeysPerMod k → key.InRange k ∧ key.held k = false) ∧
    ∀ k, key.modmap k ≠ 0 → key.Looked k → key.held k = false

namespace InputInfo
variable {s : InputInfo} {key : KeyClass}

theorem checkNew_eq_none :
    checkNew key modmap = none ↔ ∀ k, modmap k ≠ 0 → key.InRange k ∧ key.held k = false := by
  unfold checkNew
  rw [findSome?_eq_none_iff]
  simp only [mem_finRange, forall_const]
  refine forall_congr' fun k => ?_
  rw [KeyClass.InRange, ← not_lt, ← not_lt, ← not_or, KeyClass.held]
  by_cases hk : modmap k = 0
  · simp [hk]
  · by_cases hrange : k < key.minKeyCode ∨ k > key.maxKeyCode
    · simp [hrange]
    · rw [if_neg hk, if_neg hrange]
      cases key.keyIsDown k true true with
      | false => exact ⟨fun _ _ => ⟨hrange, rfl⟩, fun _ => rfl⟩
      | true => exact ⟨fun h => (by cases h), fun h => (by cases (h hk).2)⟩

theorem checkOld_eq_none :
    checkOld key = none ↔ ∀ k, key.modmap k ≠ 0 → key.Looked k → key.held k = false := by
  unfold checkOld
  rw [findSome?_eq_none_iff]
  simp only [mem_filter, mem_finRange, true_and, decide_eq_true_iff]
  refine forall_congr' fun k => ?_
  rw [KeyClass.Looked, KeyClass.held]
  by_cases hk : key.modmap k = 0
  · simp [hk]
  · rw [if_neg hk]
    cases key.keyIsDown k true true with
    | false => exact ⟨fun _ _ _ => rfl, fun _ _ => rfl⟩
    | true =>
      constructor
      · intro h _ hlooked
        cases h hlooked
      · intro h hlooked
        cases h hk hlooked

theorem check_some {r : Int} {i : KeyCode}
    (h : (checkNew key modmap).or (checkOld key) = some (r, i)) :
    r = badValue ∨ r = mappingBusy := by
  rcases or_eq_some_iff.mp h with hnew | ⟨-, hold⟩
  · obtain ⟨k, -, hk⟩ := exists_of_findSome?_eq_some hnew
    split at hk
    · cases hk
    · split at hk
      · cases hk
        exact .inl rfl
      · split at hk
        · cases hk
          exact .inr rfl
        · cases hk
  · obtain ⟨k, -, hk⟩ := exists_of_findSome?_eq_some hold
    split at hk
    · cases hk
    · split at hk
      · cases hk
        exact .inr rfl
      · cases hk

theorem check_iff (honce : Once modkeymap maxKeysPerMod)
    (hmap : ∀ k, modmap k = 0 ↔ ¬ Requested modkeymap maxKeysPerMod k) :
    (checkNew key modmap).or (checkOld key) = none ↔ key.Fits modkeymap maxKeysPerMod := by
  have hrequested : ∀ k, modmap k ≠ 0 ↔ Requested modkeymap maxKeysPerMod k := fun k =>
    (not_congr (hmap k)).trans not_not
  rw [or_eq_none_iff, checkNew_eq_none, checkOld_eq_none, KeyClass.Fits]
  simp only [hrequested]
  exact ⟨fun h => ⟨honce, h⟩, And.right⟩

theorem changeModmap_cases {access : Nat → Int} {dev : Nat} (hkey : (s.device dev).key = some key)
    {ret : Int} {t : InputInfo}
    (hrun : s.changeModmap access dev modkeymap maxKeysPerMod = (ret, t)) :
    (¬ Once modkeymap maxKeysPerMod ∧ ret = badValue ∧ t = s) ∨
    (Once modkeymap maxKeysPerMod ∧ access dev ≠ success ∧ ret = access dev ∧ t = s) ∨
    (access dev = success ∧ Once modkeymap maxKeysPerMod ∧ ¬ key.Fits modkeymap maxKeysPerMod ∧
      (ret = badValue ∨ ret = mappingBusy) ∧ t.device = s.device) ∨
    (access dev = success ∧ key.Fits modkeymap maxKeysPerMod ∧ ret = success) := by
  unfold changeModmap at hrun
  rcases @build_spec modkeymap maxKeysPerMod with ⟨hnone, honce⟩ | ⟨m, hm, honce, -, hzero⟩
  · rw [hnone] at hrun
    cases hrun
    exact .inl ⟨honce, rfl, rfl⟩
  rw [hm] at hrun
  dsimp only at hrun
  have hcheck : (checkNew key m).or (checkOld key) = none ↔ key.Fits modkeymap maxKeysPerMod :=
    check_iff honce hzero
  by_cases haccess : access dev = success
  · cases hor : (checkNew key m).or (checkOld key) with
    | some answer =>
      obtain ⟨r, i⟩ := answer
      have hret : s.checkModmapChange access dev m = (r, { s with errorValue := i }) := by
        rw [checkModmapChange, if_neg (not_not_intro haccess), hkey]
        dsimp only
        rw [hor]
      have hbad := check_some hor
      have hne : r ≠ success := by
        rcases hbad with rfl | rfl <;> decide
      rw [hret] at hrun
      rw [if_pos hne] at hrun
      cases hrun
      refine .inr (.inr (.inl ⟨haccess, honce, fun hfits => ?_, hbad, rfl⟩))
      rw [hcheck.mpr hfits] at hor
      cases hor
    | none =>
      have hret : s.checkModmapChange access dev m = (success, s) := by
        rw [checkModmapChange, if_neg (not_not_intro haccess), hkey]
        dsimp only
        rw [hor]
      refine .inr (.inr (.inr ⟨haccess, hcheck.mp hor, ?_⟩))
      rw [hret] at hrun
      rw [if_neg (not_not_intro rfl)] at hrun
      split at hrun
      · exact (Prod.mk.inj hrun).1.symm
      · split at hrun
        · split at hrun
          · exact (Prod.mk.inj hrun).1.symm
          · exact (Prod.mk.inj hrun).1.symm
        · exact (Prod.mk.inj hrun).1.symm
  · have hret : s.checkModmapChange access dev m = (access dev, s) := by
      rw [checkModmapChange, if_pos haccess]
    rw [hret] at hrun
    rw [if_pos haccess] at hrun
    cases hrun
    exact .inr (.inl ⟨honce, haccess, rfl, rfl⟩)

end InputInfo

def placed (modmap : Modmap) (turns : List (KeyCode × Nat)) (j : Nat) : List KeyCode :=
  (turns.filter fun c => hasMod modmap c.1 c.2 ∧ c.2 = j).map Prod.fst

theorem placed_snoc (turns : List (KeyCode × Nat)) (c : KeyCode × Nat) (j : Nat) :
    placed modmap (turns ++ [c]) j =
      placed modmap turns j ++ if hasMod modmap c.1 c.2 ∧ c.2 = j then [c.1] else [] := by
  rw [placed, filter_append, map_append, placed]
  congr 1
  by_cases h : hasMod modmap c.1 c.2 = true ∧ c.2 = j
  · rw [if_pos h, filter_cons_of_pos (by simpa using h)]
    rfl
  · rw [if_neg h, filter_cons_of_neg (by simpa using h)]
    rfl

theorem countStep_foldl (turns : List (KeyCode × Nat)) :
    ∀ j, (turns.foldl (countStep modmap) (fun _ => 0, 0)).1 j = (placed modmap turns j).length ∧
      (placed modmap turns j).length ≤ (turns.foldl (countStep modmap) (fun _ => 0, 0)).2 := by
  induction turns using reverseRecOn with
  | nil => exact fun _ => ⟨rfl, le_refl 0⟩
  | append_singleton turns c ih =>
    intro j
    rw [foldl_append, foldl_cons, foldl_nil, placed_snoc]
    generalize turns.foldl (countStep modmap) (fun _ => 0, 0) = st at ih ⊢
    rw [countStep]
    by_cases hc : hasMod modmap c.1 c.2 = true
    · rw [if_pos hc]
      dsimp only
      have hown := ih c.2
      have hj := ih j
      by_cases hcj : c.2 = j
      · subst hcj
        rw [if_pos (⟨hc, rfl⟩ : _ ∧ _), update_self, length_append, length_singleton, hown.1]
        refine ⟨rfl, ?_⟩
        split <;> omega
      · rw [if_neg fun h : _ ∧ _ => hcj h.2, update_of_ne (Ne.symm hcj), append_nil]
        refine ⟨hj.1, ?_⟩
        split <;> omega
    · rw [if_neg hc, if_neg fun h => hc h.1, append_nil]
      exact ih j

theorem place_inj {j j' c c' : Nat} (hc : c < maxKeysPerMod) (hc' : c' < maxKeysPerMod)
    (h : j * maxKeysPerMod + c = j' * maxKeysPerMod + c') : j = j' ∧ c = c' := by
  have hpos : 0 < maxKeysPerMod := by omega
  have hdiv : ∀ a b, b < maxKeysPerMod → (a * maxKeysPerMod + b) / maxKeysPerMod = a := by
    intro a b hb
    rw [mul_comm, Nat.mul_add_div hpos, Nat.div_eq_of_lt hb, add_zero]
  have hj : j = j' := by rw [← hdiv j c hc, h, hdiv j' c' hc']
  subst hj
  exact ⟨rfl, Nat.add_left_cancel h⟩

theorem place_lt {j c : Nat} (hj : j < 8) (hc : c < maxKeysPerMod) :
    j * maxKeysPerMod + c < maxKeysPerMod * 8 := by
  have hmul := Nat.mul_le_mul_right maxKeysPerMod (Nat.succ_le_of_lt hj)
  rw [Nat.succ_mul, mul_comm 8] at hmul
  omega

theorem fillStep_foldl (turns : List (KeyCode × Nat)) (hmods : ∀ c ∈ turns, c.2 < 8)
    (hmax : ∀ j, (placed modmap turns j).length ≤ maxKeysPerMod) :
    ∀ r, turns.foldl (fillStep modmap maxKeysPerMod)
        (replicate (maxKeysPerMod * 8) 0, fun _ => 0) = r →
      r.1.length = maxKeysPerMod * 8 ∧ (∀ j, r.2 j = (placed modmap turns j).length) ∧
      ∀ j < 8, ∀ c < maxKeysPerMod,
        r.1.getD (j * maxKeysPerMod + c) 0 = (placed modmap turns j).getD c 0 := by
  induction turns using reverseRecOn with
  | nil =>
    rintro r rfl
    refine ⟨length_replicate, fun _ => rfl, fun j hj c hc => ?_⟩
    rw [foldl_nil, getD_eq_getElem?_getD, getElem?_replicate, if_pos (place_lt hj hc)]
    rfl
  | append_singleton turns cell ih =>
    rintro r rfl
    have hcell := hmods cell (mem_append_right _ (mem_singleton_self cell))
    have hfew : ∀ j, (placed modmap turns j).length ≤ maxKeysPerMod := by
      intro j
      have hj := hmax j
      rw [placed_snoc, length_append] at hj
      omega
    obtain ⟨hlen, hcount, hrow⟩ := ih (fun c hc => hmods c (mem_append_left _ hc)) hfew _ rfl
    rw [foldl_append, foldl_cons, foldl_nil]
    generalize turns.foldl (fillStep modmap maxKeysPerMod)
      (replicate (maxKeysPerMod * 8) 0, fun _ => 0) = r at hlen hcount hrow ⊢
    rw [fillStep]
    by_cases hhas : hasMod modmap cell.1 cell.2 = true
    · rw [if_pos hhas]
      have hroom : (placed modmap turns cell.2).length < maxKeysPerMod := by
        have hown := hmax cell.2
        rw [placed_snoc, if_pos ⟨hhas, rfl⟩, length_append, length_singleton] at hown
        omega
      refine ⟨by rw [length_set, hlen], fun j => ?_, fun j hj c hc => ?_⟩
      · dsimp only
        rw [placed_snoc]
        by_cases hcj : cell.2 = j
        · subst hcj
          rw [if_pos ⟨hhas, rfl⟩, update_self, hcount, length_append, length_singleton]
        · rw [if_neg fun h => hcj h.2, update_of_ne (Ne.symm hcj), append_nil]
          exact hcount j
      · have hindex : cell.2 * maxKeysPerMod + r.2 cell.2 < r.1.length := by
          rw [hlen, hcount]
          exact place_lt hcell hroom
        have hold := hrow j hj c hc
        rw [getD_eq_getElem?_getD] at hold ⊢
        rw [placed_snoc, getElem?_set, hcount]
        rw [hcount] at hindex
        by_cases hsame : cell.2 * maxKeysPerMod + (placed modmap turns cell.2).length =
            j * maxKeysPerMod + c
        · obtain ⟨rfl, rfl⟩ := place_inj hroom hc hsame
          rw [if_pos rfl, if_pos hindex, if_pos ⟨hhas, rfl⟩, getD_eq_getElem?_getD,
            getElem?_concat_length]
        · rw [if_neg hsame, hold]
          by_cases hcj : cell.2 = j
          · subst hcj
            have hne : c ≠ (placed modmap turns cell.2).length := fun he => hsame (by rw [he])
            rw [if_pos ⟨hhas, rfl⟩, getD_eq_getElem?_getD, getD_eq_getElem?_getD]
            rcases Nat.lt_or_gt_of_ne hne with hlt | hgt
            · rw [getElem?_append_left hlt]
            · rw [getElem?_eq_none (le_of_lt hgt), getElem?_eq_none]
              rw [length_append, length_singleton]
              exact hgt
          · rw [if_neg fun h => hcj h.2, append_nil]
    · rw [if_neg hhas]
      refine ⟨hlen, fun j => ?_, fun j hj c hc => ?_⟩
      · rw [placed_snoc, if_neg fun h => hhas h.1, append_nil]
        exact hcount j
      · rw [placed_snoc, if_neg fun h => hhas h.1, append_nil]
        exact hrow j hj c hc

variable {k : KeyCode}

theorem mem_mapKeys : k ∈ mapKeys ↔ 8 ≤ k := by
  revert k
  decide +kernel

theorem mapKeys_nodup : mapKeys.Nodup := (nodup_finRange 256).drop

theorem cells_mods : ∀ c ∈ cells, c.2 < 8 := by
  intro c hc
  obtain ⟨k, -, hk⟩ := mem_flatMap.mp hc
  obtain ⟨j, hj, rfl⟩ := mem_map.mp hk
  exact mem_range.mp hj

theorem placed_row (k : KeyCode) {j : Nat} (hj : j < 8) :
    placed modmap ((List.range 8).map fun j' => (k, j')) j =
      if hasMod modmap k j then [k] else [] := by
  have hall : ∀ j < 8, (List.range 8).filter (fun j' => j' = j) = [j] := by decide
  have hsplit : ((List.range 8).map fun j' => (k, j')).filter
      (fun c => hasMod modmap c.1 c.2 ∧ c.2 = j) =
      (((List.range 8).filter fun j' => j' = j).map fun j' => (k, j')).filter
        fun c => hasMod modmap c.1 c.2 := by
    rw [List.filter_map, List.filter_map, List.filter_filter]
    congr 1
    refine filter_congr fun j' _ => ?_
    simp
  rw [placed, hsplit, hall j hj]
  by_cases hk : hasMod modmap k j = true
  · simp [hk]
  · simp [hk]

theorem placed_rows (ks : List KeyCode) {j : Nat} (hj : j < 8) :
    placed modmap (ks.flatMap fun i => (range 8).map fun j' => (i, j')) j =
      ks.filter fun k => hasMod modmap k j := by
  induction ks with
  | nil => rfl
  | cons k ks ih =>
    rw [flatMap_cons, placed, filter_append, map_append, filter_cons]
    rw [placed] at ih
    rw [ih]
    have hrow := @placed_row modmap k j hj
    rw [placed] at hrow
    rw [hrow]
    split <;> rfl

theorem row_entry {j c : Nat} (hj : j < 8) (h : (placed modmap cells j).getD c 0 = k) (hk : k ≠ 0) :
    c < (placed modmap cells j).length ∧ (placed modmap cells j)[c]? = some k ∧
      8 ≤ k ∧ hasMod modmap k j = true := by
  rw [getD_eq_getElem?_getD] at h
  cases hget : (placed modmap cells j)[c]? with
  | none =>
    rw [hget] at h
    exact absurd h.symm hk
  | some k' =>
    rw [hget] at h
    obtain rfl : k' = k := h
    have hmem := mem_of_getElem? hget
    rw [cells, placed_rows mapKeys hj] at hmem
    obtain ⟨hkey, hhas⟩ := mem_filter.mp hmem
    exact ⟨(List.getElem?_eq_some_iff.mp hget).1, rfl, mem_mapKeys.mp hkey, hhas⟩

theorem hasMod_one {j j' : Nat} (hj : j < 8) (hj' : j' < 8)
    (h : modmap k = 1#8 <<< j) : hasMod modmap k j' = true ↔ j' = j := by
  have hall : ∀ j < 8, ∀ j' < 8, ((1#8 <<< j) &&& (1#8 <<< j') ≠ 0) ↔ j' = j := by decide
  rw [hasMod, h, decide_eq_true_iff]
  exact hall j hj j' hj'

theorem hasMod_zero (h : modmap k = 0) (j : Nat) : hasMod modmap k j = false := by
  rw [hasMod, h]
  simp

def AtMostOne (modmap : Modmap) : Prop := ∀ k, modmap k = 0 ∨ ∃ j < 8, modmap k = 1#8 <<< j

theorem AtMostOne.eq (h : AtMostOne modmap) {j j' : Nat} (hj : j < 8) (hj' : j' < 8)
    (hk : hasMod modmap k j = true) (hk' : hasMod modmap k j' = true) : j = j' := by
  rcases h k with hzero | ⟨i, hi, hone⟩
  · rw [hasMod_zero hzero] at hk
    cases hk
  · rw [(hasMod_one hi hj hone).mp hk, (hasMod_one hi hj' hone).mp hk']

theorem build_generate (h : AtMostOne modmap) (hrow : ∀ j < 8, ∀ c < maxKeysPerMod,
      modkeymap.getD (j * maxKeysPerMod + c) 0 = (placed modmap cells j).getD c 0)
    (hfew : ∀ j, (placed modmap cells j).length ≤ maxKeysPerMod) :
    ∃ m, buildModmapFromModkeymap modkeymap maxKeysPerMod = some m ∧
      ∀ k : KeyCode, 8 ≤ k → m k = modmap k := by
  have hentry : ∀ i < maxKeysPerMod * 8, i / maxKeysPerMod < 8 ∧ i % maxKeysPerMod < maxKeysPerMod ∧
      modkeymap.getD i 0 = (placed modmap cells (i / maxKeysPerMod)).getD (i % maxKeysPerMod) 0 := by
    intro i hi
    have hpos : 0 < maxKeysPerMod := by omega
    have hj : i / maxKeysPerMod < 8 := Nat.div_lt_of_lt_mul hi
    have hc := Nat.mod_lt i hpos
    have hplace := hrow _ hj _ hc
    rw [mul_comm, Nat.div_add_mod] at hplace
    exact ⟨hj, hc, hplace⟩
  have honce : Once modkeymap maxKeysPerMod := by
    intro i hi j hj hne heq
    obtain ⟨hi8, hic, hientry⟩ := hentry i hi
    obtain ⟨hj8, hjc, hjentry⟩ := hentry j hj
    obtain ⟨hilen, higet, -, hihas⟩ := row_entry hi8 hientry.symm hne
    obtain ⟨hjlen, hjget, -, hjhas⟩ := row_entry hj8 (hjentry.symm.trans heq.symm) hne
    have hrow := h.eq hi8 hj8 hihas hjhas
    rw [hrow] at higet hilen
    have hnodup : (placed modmap cells (j / maxKeysPerMod)).Nodup := by
      rw [cells, placed_rows mapKeys hj8]
      exact mapKeys_nodup.filter _
    have hplace := (nodup_iff_getElem?_ne_getElem?.mp hnodup)
    have hmod : i % maxKeysPerMod = j % maxKeysPerMod := by
      rcases lt_trichotomy (i % maxKeysPerMod) (j % maxKeysPerMod) with hlt | heq | hlt
      · exact absurd (higet.trans hjget.symm) (hplace _ _ hlt hjlen)
      · exact heq
      · exact absurd (hjget.trans higet.symm) (hplace _ _ hlt hilen)
    rw [← Nat.div_add_mod i maxKeysPerMod, hrow, hmod, Nat.div_add_mod]
  rcases @build_spec modkeymap maxKeysPerMod with
    ⟨-, hnot⟩ | ⟨m, hm, -, hset, hzero⟩
  · exact absurd honce hnot
  refine ⟨m, hm, fun k hk => ?_⟩
  have hk0 : k ≠ 0 := by
    rintro rfl
    exact absurd hk (by decide)
  rcases h k with hnone | ⟨j, hj, hone⟩
  · rw [hnone, hzero]
    rintro ⟨-, i, hi, hik⟩
    obtain ⟨hi8, -, hientry⟩ := hentry i hi
    obtain ⟨-, -, -, hhas⟩ := row_entry hi8 (hientry.symm.trans hik) hk0
    rw [hasMod_zero hnone] at hhas
    cases hhas
  · have hmem : k ∈ placed modmap cells j := by
      rw [cells, placed_rows mapKeys hj]
      exact mem_filter.mpr ⟨mem_mapKeys.mpr hk, (hasMod_one hj hj hone).mpr rfl⟩
    obtain ⟨c, hc, hget⟩ := getElem_of_mem hmem
    have hclt := lt_of_lt_of_le hc (hfew j)
    have hplace := hrow j hj c hclt
    have hentry' : (placed modmap cells j).getD c 0 = k := by
      rw [getD_eq_getElem?_getD, getElem?_eq_getElem hc, hget]
      rfl
    rw [hentry'] at hplace
    have hbuilt := hset _ (place_lt hj hclt) (by rw [hplace]; exact hk0)
    rw [hplace, mul_comm, Nat.mul_add_div (by omega), Nat.div_eq_of_lt hclt, add_zero] at hbuilt
    rw [hbuilt, hone]

theorem generateModkeymap_spec {access : Int} {key : KeyClass} {memory : Bool}
    (h : generateModkeymap access (some key) memory = .ok (modkeymap, maxKeysPerMod))
    (hone : AtMostOne key.modmap) : ∃ m, buildModmapFromModkeymap modkeymap maxKeysPerMod = some m ∧
      ∀ k : KeyCode, 8 ≤ k → m k = key.modmap k := by
  have hcount := @countStep_foldl key.modmap cells
  unfold generateModkeymap at h
  split at h
  · cases h
  dsimp only at h
  split at h
  · next hzero =>
    cases h
    refine build_generate hone (fun j _ c hc => absurd hc (Nat.not_lt_zero c)) fun j => ?_
    rw [← hzero]
    exact (hcount j).2
  · split at h
    · cases h
    · obtain ⟨rfl, rfl⟩ := Prod.mk.inj (Except.ok.inj h)
      have hfew := fun j => (hcount j).2
      obtain ⟨-, -, hrow⟩ := fillStep_foldl cells cells_mods hfew _ rfl
      exact build_generate hone hrow hfew

/-- A call keeps its promise exactly when the hook lets it through or answers with one of the two
errors, and no modifier of the old map that is down is beyond the loop over that map; a map with
one modifier for each key survives the way there and back. -/
theorem changeModmap_safe_iff {s : InputInfo} {dev : Nat} {key : KeyClass}
    (hkey : (s.device dev).key = some key) (access : Nat → Int) (modkeymap : List KeyCode)
    (maxKeysPerMod : Nat) {ret : Int} {t : InputInfo}
    (hrun : s.changeModmap access dev modkeymap maxKeysPerMod = (ret, t)) : (((ret = success →
        (∀ k, key.modmap k ≠ 0 ∨ Requested modkeymap maxKeysPerMod k → key.held k = false) ∧
        (∀ k, Requested modkeymap maxKeysPerMod k → key.InRange k) ∧ Once modkeymap maxKeysPerMod) ∧
      (ret ≠ success → (ret = badValue ∨ ret = mappingBusy) ∧ (t.device dev).key = some key)) ↔
      ((Once modkeymap maxKeysPerMod →
        access dev = success ∨ access dev = badValue ∨ access dev = mappingBusy) ∧
      (access dev = success → key.Fits modkeymap maxKeysPerMod →
        ∀ k, key.modmap k ≠ 0 → ¬ key.Looked k → key.held k = false))) ∧
    ∀ access memory modkeymap maxKeysPerMod,
      generateModkeymap access (some key) memory = .ok (modkeymap, maxKeysPerMod) →
      AtMostOne key.modmap → ∃ m, buildModmapFromModkeymap modkeymap maxKeysPerMod = some m ∧
        ∀ k : KeyCode, 8 ≤ k → m k = key.modmap k := by
  refine ⟨?_, fun _ _ _ _ h hone => generateModkeymap_spec h hone⟩
  rcases InputInfo.changeModmap_cases hkey hrun with ⟨honce, rfl, rfl⟩ |
    ⟨honce, haccess, rfl, rfl⟩ | ⟨haccess, honce, hfits, hret, ht⟩ | ⟨haccess, hfits, rfl⟩
  · constructor
    · rintro -
      exact ⟨fun h => absurd h honce, fun _ hfits => absurd hfits.1 honce⟩
    · rintro -
      exact ⟨fun h => absurd h (by decide), fun _ => ⟨.inl rfl, hkey⟩⟩
  · constructor
    · rintro ⟨-, hfail⟩
      exact ⟨fun _ => .inr (hfail haccess).1, fun h => absurd h haccess⟩
    · rintro ⟨hcode, -⟩
      exact ⟨fun h => absurd h haccess, fun _ => ⟨(hcode honce).resolve_left haccess, hkey⟩⟩
  · have hne : ret ≠ success := by
      rcases hret with rfl | rfl <;> decide
    constructor
    · rintro -
      exact ⟨fun _ => .inl haccess, fun _ h => absurd h hfits⟩
    · rintro -
      exact ⟨fun h => absurd h hne, fun _ => ⟨hret, by rw [ht]; exact hkey⟩⟩
  · obtain ⟨honce, hrequested, hlooked⟩ := hfits
    constructor
    · rintro ⟨hsafe, -⟩
      exact ⟨fun _ => .inl haccess, fun _ _ k hk _ => (hsafe rfl).1 k (.inl hk)⟩
    · rintro ⟨-, hbeyond⟩
      refine ⟨fun _ => ⟨fun k hk => ?_, fun k hk => (hrequested k hk).1, honce⟩,
        fun h => absurd rfl h⟩
      rcases hk with hk | hk
      · by_cases hin : key.Looked k
        · exact hlooked k hk hin
        · exact hbeyond haccess ⟨honce, hrequested, hlooked⟩ k hk hin
      · exact (hrequested k hk).2

def lastKey : KeyClass where
  minKeyCode := 8
  maxKeyCode := 255
  modmap k := if k = 255 then 1 else 0
  syms _ := []
  down k := k = 255
  postdown k := k = 255

def lastKeyInput : InputInfo where
  device _ := ⟨.slave, none, none, none, some lastKey⟩
  devices := [0]
  errorValue := 0

theorem changeModmap_safe_iff_last :
    ¬ ∀ k, lastKey.modmap k ≠ 0 → ¬ lastKey.Looked k → lastKey.held k = false := by
  have hempty : lastKey.Fits [] 0 := by
    refine ⟨fun i hi => absurd hi (Nat.not_lt_zero i), ?_, ?_⟩
    · rintro k ⟨-, i, hi, -⟩
      exact absurd hi (Nat.not_lt_zero i)
    · intro k hk hlooked
      have hk255 : k = 255 := by
        by_contra hne
        exact hk (if_neg hne)
      subst hk255
      exact absurd hlooked.2 (by decide)
  rcases hrun : lastKeyInput.changeModmap (fun _ => success) 0 [] 0 with ⟨ret, t⟩
  have hret : ret = success := by
    have hfst : (lastKeyInput.changeModmap (fun _ => success) 0 [] 0).1 = success := by
      decide +kernel
    rw [← hfst, hrun]
  intro hbeyond
  have hsafe := (@changeModmap_safe_iff lastKeyInput 0 lastKey rfl
    (fun _ => success) [] 0 _ _ hrun).1.mpr ⟨fun _ => .inl rfl, fun _ _ => hbeyond⟩
  have hheld := (hsafe.1 hret).1 255 (.inl (by decide))
  exact absurd hheld (by decide)

/-- It may be taken out of the map while it is down. -/
theorem changeModmap_last_held : (lastKeyInput.changeModmap (fun _ => success) 0 [] 0).1 = success ∧
      lastKey.modmap 255 ≠ 0 ∧ lastKey.held 255 = true ∧
      ((lastKeyInput.changeModmap (fun _ => success) 0 [] 0).2.device 0).key.map
        (fun key => key.modmap 255) = some 0 := by
  decide +kernel

end Xfront.Modmap
