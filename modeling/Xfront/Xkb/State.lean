import Xfront.Xkb.Model

/-!
# The derived state of a keyboard (Xext/xkeyboard/xkbUtils.c)

`XkbAdjustGroup`, `XkbComputeDerivedState` and `XkbCheckSecondaryEffects`. A loop that does not end
and an index outside the compatibility map are `none`.
-/

namespace Xfront.Xkb
open BitVec

structure XkbStateRec where
  group : BitVec 8
  baseGroup : BitVec 16
  latchedGroup : BitVec 16
  lockedGroup : BitVec 8
  mods : BitVec 8
  baseMods : BitVec 8
  latchedMods : BitVec 8
  lockedMods : BitVec 8
  compatState : BitVec 8
  grabMods : BitVec 8
  compatGrabMods : BitVec 8
  lookupMods : BitVec 8
  compatLookupMods : BitVec 8
  ptrButtons : BitVec 16
deriving DecidableEq

structure StateControls extends XkbControlsRec where
  groupsWrap : BitVec 8
  enabledCtrls : BitVec 32
deriving DecidableEq

/-- `compat` holds the masks of the compatibility groups, where there is a map. -/
structure XkbSrvInfo where
  state : XkbStateRec
  ctrls : StateControls
  compat : Option (Fin 4 → BitVec 8)

structure XkbChanges where
  stateChanges : BitVec 16
  indicators : BitVec 32
deriving DecidableEq

def xkbClampIntoRange : BitVec 8 := 0x40#8
def xkbRedirectIntoRange : BitVec 8 := 0x80#8
def xkbGroup1Index : Nat := 0

def outOfRangeGroupAction (g : BitVec 8) : BitVec 8 := g &&& 0xc0#8

def outOfRangeGroupNumber (g : BitVec 8) : Nat := ((g &&& 0x30#8) >>> 4).toNat

def charToInt (v : BitVec 8) : Int := v.toInt

def StateControls.num (ctrls : StateControls) : Nat := ctrls.numGroups.toNat

def StateControls.redirected (ctrls : StateControls) : Nat :=
  let newGroup := outOfRangeGroupNumber ctrls.groupsWrap
  if newGroup ≥ ctrls.num then xkbGroup1Index else newGroup

/-- The loop of `XkbAdjustGroup` on a negative group. -/
def raiseGroup (ctrls : StateControls) : Nat → Int → Option Int
  | 0, _ => none
  | fuel + 1, group =>
    if group < 0 then
      let act := outOfRangeGroupAction ctrls.groupsWrap
      if act = xkbClampIntoRange then raiseGroup ctrls fuel xkbGroup1Index
      else if act = xkbRedirectIntoRange then raiseGroup ctrls fuel ctrls.redirected
      else raiseGroup ctrls fuel (group + ctrls.num)
    else some group

def xkbAdjustGroup (ctrls : StateControls) (group : Int) : Option Int :=
  let act := outOfRangeGroupAction ctrls.groupsWrap
  if group < 0 then raiseGroup ctrls (group.natAbs + 2) group
  else if group ≥ ctrls.num then
    if act = xkbClampIntoRange then some (ctrls.num - 1)
    else if act = xkbRedirectIntoRange then some ctrls.redirected
    else some (group % ctrls.num)
  else some group

def adjustByte (ctrls : StateControls) (grp : BitVec 8) : Option (BitVec 8) :=
  if grp ≥ ctrls.numGroups then (xkbAdjustGroup ctrls (charToInt grp)).map (BitVec.ofInt 8)
  else some grp

def xkbIgnoreGroupLockMask : BitVec 32 := 0x1000#32

def compatMask (map : Fin 4 → BitVec 8) (group : BitVec 8) : Option (BitVec 8) :=
  if h : group.toNat < 4 then some (map ⟨group.toNat, h⟩) else none

def xkbComputeCompatState (ctrls : StateControls) (compat : Option (Fin 4 → BitVec 8))
    (state : XkbStateRec) : Option XkbStateRec :=
  match compat with
  | none => some state
  | some map => do
    let grpMask ← compatMask map state.group
    let state := { state with
      compatState := state.mods ||| grpMask
      compatLookupMods := state.lookupMods ||| grpMask }
    let grabMask ←
      if ctrls.enabledCtrls &&& xkbIgnoreGroupLockMask ≠ 0 then do
        let grp ← adjustByte ctrls
          (BitVec.ofNat 8 (state.baseGroup.toNat + state.latchedGroup.toNat))
        compatMask map grp
      else some grpMask
    some { state with compatGrabMods := state.grabMods ||| grabMask }

def xkbComputeDerivedState (ctrls : StateControls) (compat : Option (Fin 4 → BitVec 8))
    (state : XkbStateRec) : Option XkbStateRec := do
  let mods := state.baseMods ||| state.latchedMods ||| state.lockedMods
  let lookupMods := mods &&& ~~~ctrls.internal.mask
  let grabMods := lookupMods &&& ~~~ctrls.ignoreLock.mask |||
    (state.baseMods ||| state.latchedMods) &&& ctrls.ignoreLock.mask
  let lockedGroup ← adjustByte ctrls state.lockedGroup
  let group ← adjustByte ctrls (BitVec.ofNat 8
    (lockedGroup.toNat + state.baseGroup.toNat + state.latchedGroup.toNat))
  xkbComputeCompatState ctrls compat
    { state with mods, lookupMods, grabMods, lockedGroup, group }

def flag (changed : Bool) (mask : BitVec 16) : BitVec 16 := if changed then mask else 0

def xkbStateChangedFlags (old new : XkbStateRec) : BitVec 16 :=
  flag (old.group != new.group) 0x10#16 |||
  flag (old.baseGroup != new.baseGroup) 0x20#16 |||
  flag (old.latchedGroup != new.latchedGroup) 0x40#16 |||
  flag (old.lockedGroup != new.lockedGroup) 0x80#16 |||
  flag (old.mods != new.mods) 0x1#16 |||
  flag (old.baseMods != new.baseMods) 0x2#16 |||
  flag (old.latchedMods != new.latchedMods) 0x4#16 |||
  flag (old.lockedMods != new.lockedMods) 0x8#16 |||
  flag (old.compatState != new.compatState) 0x100#16 |||
  flag (old.grabMods != new.grabMods) 0x200#16 |||
  flag (old.compatGrabMods != new.compatGrabMods) 0x400#16 |||
  flag (old.lookupMods != new.lookupMods) 0x800#16 |||
  flag (old.compatLookupMods != new.compatLookupMods) 0x1000#16 |||
  flag (old.ptrButtons != new.ptrButtons) 0x2000#16

def xkbStateNotifyMask : BitVec 32 := 0x4#32
def xkbIndicatorStateNotifyMask : BitVec 32 := 0x10#32

/-- `updateIndicators` says which indicators `XkbUpdateIndicators` finds changed. -/
def xkbCheckSecondaryEffects (updateIndicators : XkbStateRec → BitVec 32) (xkbi : XkbSrvInfo)
    (which : BitVec 32) (changes : XkbChanges) : Option (XkbSrvInfo × XkbChanges) := do
  let (xkbi, changes) ←
    if which &&& xkbStateNotifyMask ≠ 0 then do
      let old := xkbi.state
      let changes := { changes with
        stateChanges := changes.stateChanges ||| xkbStateChangedFlags old xkbi.state }
      let state ← xkbComputeDerivedState xkbi.ctrls xkbi.compat xkbi.state
      some ({ xkbi with state }, changes)
    else some (xkbi, changes)
  if which &&& xkbIndicatorStateNotifyMask ≠ 0 then
    some (xkbi, { changes with indicators := changes.indicators ||| updateIndicators xkbi.state })
  else some (xkbi, changes)

def StateControls.inRange (ctrls : StateControls) (group : Int) : Int :=
  if 0 ≤ group ∧ group < ctrls.num then group
  else
    let act := outOfRangeGroupAction ctrls.groupsWrap
    if act = xkbClampIntoRange then (if group < 0 then 0 else ctrls.num - 1)
    else if act = xkbRedirectIntoRange then ctrls.redirected
    else group % ctrls.num

section

variable {ctrls : StateControls}

theorem redirected_lt (hnum : 1 ≤ ctrls.num) : ctrls.redirected < ctrls.num := by
  rw [StateControls.redirected]
  split
  · exact hnum
  · omega

theorem inRange_bounds (hnum : 1 ≤ ctrls.num) (group : Int) :
    0 ≤ ctrls.inRange group ∧ ctrls.inRange group < ctrls.num := by
  have hredirected := redirected_lt hnum
  rw [StateControls.inRange]
  split
  · assumption
  · dsimp only
    split
    · split <;> omega
    · split
      · omega
      · exact ⟨Int.emod_nonneg _ (by omega), Int.emod_lt_of_pos _ (by omega)⟩

theorem inRange_of_mem {group : Int} (h : 0 ≤ group ∧ group < ctrls.num) :
    ctrls.inRange group = group := by
  rw [StateControls.inRange, if_pos h]

theorem raiseGroup_nonneg (fuel : Nat) {group : Int} (h : 0 ≤ group) :
    raiseGroup ctrls (fuel + 1) group = some group := by
  rw [raiseGroup, if_neg (Int.not_lt.mpr h)]

theorem raiseGroup_wrap (hnum : 1 ≤ ctrls.num)
    (hclamp : outOfRangeGroupAction ctrls.groupsWrap ≠ xkbClampIntoRange)
    (hredirect : outOfRangeGroupAction ctrls.groupsWrap ≠ xkbRedirectIntoRange) (fuel : Nat) :
    ∀ group : Int, group < ctrls.num → group.natAbs < fuel ∨ 0 ≤ group ∧ 0 < fuel →
    raiseGroup ctrls fuel group = some (group % ctrls.num) := by
  induction fuel with
  | zero =>
    intro group _ h
    omega
  | succ fuel ih =>
    intro group hlt hfuel
    rw [raiseGroup]
    by_cases hneg : group < 0
    · rw [if_pos hneg]
      rw [if_neg hclamp, if_neg hredirect, ih _ (by omega) (by omega), Int.add_emod_right]
    · rw [if_neg hneg, Int.emod_eq_of_lt (by omega) hlt]

theorem xkbAdjustGroup_eq (hnum : 1 ≤ ctrls.num) (group : Int) :
    xkbAdjustGroup ctrls group = some (ctrls.inRange group) := by
  rw [xkbAdjustGroup, StateControls.inRange]
  dsimp only
  by_cases hneg : group < 0
  · have hnot : ¬ (0 ≤ group ∧ group < ctrls.num) := by omega
    rw [if_pos hneg, if_neg hnot]
    by_cases hclamp : outOfRangeGroupAction ctrls.groupsWrap = xkbClampIntoRange
    · rw [if_pos hclamp, if_pos hneg, raiseGroup, if_pos hneg]
      rw [if_pos hclamp]
      exact raiseGroup_nonneg _ (Int.le_refl 0)
    · rw [if_neg hclamp]
      by_cases hredirect : outOfRangeGroupAction ctrls.groupsWrap = xkbRedirectIntoRange
      · rw [if_pos hredirect, raiseGroup, if_pos hneg]
        rw [if_neg hclamp, if_pos hredirect, raiseGroup_nonneg _ (Int.natCast_nonneg _)]
      · rw [if_neg hredirect]
        exact raiseGroup_wrap hnum hclamp hredirect _ group (by omega) (by omega)
  · rw [if_neg hneg]
    by_cases hhigh : group ≥ ctrls.num
    · have hnot : ¬ (0 ≤ group ∧ group < ctrls.num) := by omega
      rw [if_pos hhigh, if_neg hnot]
      split
      · rfl
      · split <;> rfl
    · have hin : 0 ≤ group ∧ group < ctrls.num := by omega
      rw [if_neg hhigh, if_pos hin]

theorem adjustByte_eq (hnum : 1 ≤ ctrls.num) (hmax : ctrls.num ≤ 4) (grp : BitVec 8) :
    ∃ g, adjustByte ctrls grp = some g ∧ (g.toNat : Int) = ctrls.inRange grp.toInt := by
  have hbounds := inRange_bounds hnum grp.toInt
  rw [adjustByte]
  split
  · rw [charToInt, xkbAdjustGroup_eq hnum, Option.map_some]
    refine ⟨_, rfl, ?_⟩
    rw [toNat_ofInt]
    omega
  · next hlt =>
    have hlt' : grp.toNat < ctrls.num := by
      rw [ge_iff_le, le_def] at hlt
      exact not_le.mp hlt
    have hint : grp.toInt = grp.toNat := by
      rw [toInt_eq_toNat_of_lt]
      omega
    refine ⟨grp, rfl, ?_⟩
    rw [hint, inRange_of_mem ⟨by omega, by omega⟩]

end

def StateControls.groupSum (ctrls : StateControls) (state : XkbStateRec) : Int :=
  state.baseGroup.toInt + state.latchedGroup.toInt + ctrls.inRange state.lockedGroup.toInt

def StateControls.byteGroup (ctrls : StateControls) (sum : Int) : BitVec 8 :=
  BitVec.ofInt 8 (ctrls.inRange (sum.bmod 256))

def groupMask (map : Fin 4 → BitVec 8) (group : BitVec 8) : BitVec 8 :=
  map (Fin.ofNat 4 group.toNat)

def XkbStateRec.withCompat (ctrls : StateControls) (compat : Option (Fin 4 → BitVec 8))
    (state : XkbStateRec) : XkbStateRec :=
  match compat with
  | none => state
  | some map =>
    let grabGroup := if ctrls.enabledCtrls &&& xkbIgnoreGroupLockMask ≠ 0 then
        ctrls.byteGroup (state.baseGroup.toInt + state.latchedGroup.toInt)
      else state.group
    { state with
      compatState := state.mods ||| groupMask map state.group
      compatLookupMods := state.lookupMods ||| groupMask map state.group
      compatGrabMods := state.grabMods ||| groupMask map grabGroup }

def XkbStateRec.derived (ctrls : StateControls) (compat : Option (Fin 4 → BitVec 8))
    (state : XkbStateRec) : XkbStateRec :=
  let mods := state.baseMods ||| state.latchedMods ||| state.lockedMods
  let lookupMods := mods &&& ~~~ctrls.internal.mask
  XkbStateRec.withCompat ctrls compat
    { state with
      mods := mods
      lookupMods := lookupMods
      grabMods := lookupMods &&& ~~~ctrls.ignoreLock.mask |||
        (state.baseMods ||| state.latchedMods) &&& ctrls.ignoreLock.mask
      lockedGroup := BitVec.ofInt 8 (ctrls.inRange state.lockedGroup.toInt)
      group := ctrls.byteGroup (ctrls.groupSum state) }

section

variable {ctrls : StateControls}

theorem toNat_ofInt_inRange (hnum : 1 ≤ ctrls.num) (hmax : ctrls.num ≤ 4) (group : Int) :
    ((BitVec.ofInt 8 (ctrls.inRange group)).toNat : Int) = ctrls.inRange group := by
  have hbounds := inRange_bounds hnum group
  rw [toNat_ofInt]
  omega

theorem adjustByte_ofInt (hnum : 1 ≤ ctrls.num) (hmax : ctrls.num ≤ 4) (grp : BitVec 8) :
    adjustByte ctrls grp = some (BitVec.ofInt 8 (ctrls.inRange grp.toInt)) := by
  obtain ⟨g, hg, hvalue⟩ := adjustByte_eq hnum hmax grp
  have hof := toNat_ofInt_inRange hnum hmax grp.toInt
  rw [hg]
  refine congrArg some (eq_of_toNat_eq ?_)
  omega

theorem toInt_ofNat_eq {n : Nat} {sum : Int} (h : (n : Int) % 256 = sum % 256) :
    (BitVec.ofNat 8 n).toInt = sum.bmod 256 := by
  rw [toInt_eq_toNat_cond, toNat_ofNat, Int.bmod]
  omega

theorem toInt_emod (v : BitVec 16) : (v.toNat : Int) % 256 = v.toInt % 256 := by
  rw [toInt_eq_toNat_cond]
  split <;> omega

theorem compatMask_eq (map : Fin 4 → BitVec 8) {group : BitVec 8} (h : group.toNat < 4) :
    compatMask map group = some (groupMask map group) := by
  rw [compatMask, dif_pos h, groupMask]
  congr 2
  exact Fin.ext (Nat.mod_eq_of_lt h).symm

theorem byteGroup_lt (hnum : 1 ≤ ctrls.num) (hmax : ctrls.num ≤ 4) (sum : Int) :
    (ctrls.byteGroup sum).toNat < ctrls.num := by
  have hof := toNat_ofInt_inRange hnum hmax (sum.bmod 256)
  have hbounds := inRange_bounds hnum (sum.bmod 256)
  rw [StateControls.byteGroup]
  omega

theorem xkbComputeCompatState_eq (hnum : 1 ≤ ctrls.num) (hmax : ctrls.num ≤ 4)
    (compat : Option (Fin 4 → BitVec 8)) {state : XkbStateRec} (h : state.group.toNat < ctrls.num) :
    xkbComputeCompatState ctrls compat state = some (state.withCompat ctrls compat) := by
  cases compat with
  | none => rfl
  | some map =>
    have hmask : compatMask map state.group = some (groupMask map state.group) :=
      compatMask_eq map (by omega)
    rw [xkbComputeCompatState, XkbStateRec.withCompat]
    rw [hmask]
    dsimp only [bind, Option.bind]
    by_cases hignore : ctrls.enabledCtrls &&& xkbIgnoreGroupLockMask ≠ 0
    · have hbase := toInt_emod state.baseGroup
      have hlatched := toInt_emod state.latchedGroup
      have hsum : ((state.baseGroup.toNat + state.latchedGroup.toNat : Nat) : Int) % 256 =
          (state.baseGroup.toInt + state.latchedGroup.toInt) % 256 := by
        omega
      have hlt := byteGroup_lt hnum hmax (state.baseGroup.toInt + state.latchedGroup.toInt)
      rw [if_pos hignore, if_pos hignore, adjustByte_ofInt hnum hmax, toInt_ofNat_eq hsum]
      dsimp only
      rw [StateControls.byteGroup] at hlt
      rw [compatMask_eq map (by omega), StateControls.byteGroup]
    · rw [if_neg hignore, if_neg hignore]

theorem xkbComputeDerivedState_eq (hnum : 1 ≤ ctrls.num) (hmax : ctrls.num ≤ 4)
    (compat : Option (Fin 4 → BitVec 8)) (state : XkbStateRec) :
    xkbComputeDerivedState ctrls compat state = some (state.derived ctrls compat) := by
  have hbase := toInt_emod state.baseGroup
  have hlatched := toInt_emod state.latchedGroup
  have hlocked := toNat_ofInt_inRange hnum hmax state.lockedGroup.toInt
  have hsum : (((BitVec.ofInt 8 (ctrls.inRange state.lockedGroup.toInt)).toNat +
      state.baseGroup.toNat + state.latchedGroup.toNat : Nat) : Int) % 256 =
      ctrls.groupSum state % 256 := by
    rw [StateControls.groupSum]
    omega
  have hlt := byteGroup_lt hnum hmax (ctrls.groupSum state)
  rw [xkbComputeDerivedState, adjustByte_ofInt hnum hmax]
  dsimp only [bind, Option.bind]
  rw [adjustByte_ofInt hnum hmax, toInt_ofNat_eq hsum]
  exact xkbComputeCompatState_eq hnum hmax compat hlt

end

/-- The groups are in range, the effective group follows the rule, and the modifiers are those of
the state and the masks. -/
structure Derives (ctrls : StateControls) (state new : XkbStateRec) : Prop where
  group_lt : new.group.toNat < ctrls.num
  lockedGroup_lt : new.lockedGroup.toNat < ctrls.num
  group : (new.group.toNat : Int) = ctrls.inRange (ctrls.groupSum state)
  mods : new.mods = state.baseMods ||| state.latchedMods ||| state.lockedMods
  lookupMods : new.lookupMods = new.mods &&& ~~~ctrls.internal.mask
  grabMods : new.grabMods = new.lookupMods &&& ~~~ctrls.ignoreLock.mask |||
    (state.baseMods ||| state.latchedMods) &&& ctrls.ignoreLock.mask

def ByteSum (ctrls : StateControls) (sum : Int) : Prop :=
  sum = sum.bmod 256 ∨
  if outOfRangeGroupAction ctrls.groupsWrap = xkbClampIntoRange then
    ctrls.num = 1 ∨ sum < 0 ∧ sum.bmod 256 ≤ 0 ∨ 0 ≤ sum ∧ ctrls.num - 1 ≤ sum.bmod 256
  else if outOfRangeGroupAction ctrls.groupsWrap = xkbRedirectIntoRange then
    sum.bmod 256 < 0 ∨ ctrls.num ≤ sum.bmod 256 ∨ sum.bmod 256 = ctrls.redirected
  else (ctrls.num : Int) ∣ sum - sum.bmod 256

def Noted (ctrls : StateControls) (compat : Option (Fin 4 → BitVec 8)) (state : XkbStateRec)
    (changes : XkbChanges) : Prop :=
  changes.stateChanges ||| xkbStateChangedFlags state (state.derived ctrls compat) =
    changes.stateChanges

section

variable {ctrls : StateControls}

theorem inRange_clamp (h : outOfRangeGroupAction ctrls.groupsWrap = xkbClampIntoRange)
    (group : Int) : ctrls.inRange group =
      if 0 ≤ group ∧ group < ctrls.num then group else if group < 0 then 0 else ctrls.num - 1 := by
  rw [StateControls.inRange]
  rw [if_pos h]

theorem inRange_redirect (h : outOfRangeGroupAction ctrls.groupsWrap = xkbRedirectIntoRange)
    (group : Int) : ctrls.inRange group =
      if 0 ≤ group ∧ group < ctrls.num then group else ctrls.redirected := by
  have hclamp : outOfRangeGroupAction ctrls.groupsWrap ≠ xkbClampIntoRange := by
    rw [h]
    decide
  rw [StateControls.inRange]
  rw [if_neg hclamp, if_pos h]

theorem inRange_wrap (hclamp : outOfRangeGroupAction ctrls.groupsWrap ≠ xkbClampIntoRange)
    (hredirect : outOfRangeGroupAction ctrls.groupsWrap ≠ xkbRedirectIntoRange) (group : Int) :
    ctrls.inRange group = group % ctrls.num := by
  rw [StateControls.inRange]
  rw [if_neg hclamp, if_neg hredirect]
  split
  · next hin => exact (Int.emod_eq_of_lt hin.1 hin.2).symm
  · rfl

theorem inRange_bmod_iff (hnum : 1 ≤ ctrls.num) (hmax : ctrls.num ≤ 4) (sum : Int) :
    ctrls.inRange (sum.bmod 256) = ctrls.inRange sum ↔ ByteSum ctrls sum := by
  have hlow : -128 ≤ sum.bmod 256 := by rw [Int.bmod]; omega
  have hhigh : sum.bmod 256 < 128 := by rw [Int.bmod]; omega
  have hmod : (sum - sum.bmod 256) % 256 = 0 := by rw [Int.bmod]; omega
  rw [ByteSum]
  by_cases heq : sum = sum.bmod 256
  · exact iff_of_true (congrArg _ heq.symm) (.inl heq)
  -- then the sum is out of range
  have hout : ¬ (0 ≤ sum ∧ sum < ctrls.num) := by omega
  rw [or_iff_right heq]
  by_cases hclamp : outOfRangeGroupAction ctrls.groupsWrap = xkbClampIntoRange
  · rw [if_pos hclamp, inRange_clamp hclamp, inRange_clamp hclamp, if_neg hout]
    split <;> split <;> omega
  · rw [if_neg hclamp]
    by_cases hredirect : outOfRangeGroupAction ctrls.groupsWrap = xkbRedirectIntoRange
    · have hlt := redirected_lt hnum
      rw [if_pos hredirect, inRange_redirect hredirect, inRange_redirect hredirect, if_neg hout]
      split <;> omega
    · rw [if_neg hredirect, inRange_wrap hclamp hredirect, inRange_wrap hclamp hredirect, eq_comm,
        Int.emod_eq_emod_iff_emod_sub_eq_zero, Int.dvd_iff_emod_eq_zero]

theorem derived_derives_iff (hnum : 1 ≤ ctrls.num) (hmax : ctrls.num ≤ 4)
    (compat : Option (Fin 4 → BitVec 8)) (state : XkbStateRec) :
    Derives ctrls state (state.derived ctrls compat) ↔ ByteSum ctrls (ctrls.groupSum state) := by
  have hgroup : (state.derived ctrls compat).group = ctrls.byteGroup (ctrls.groupSum state) := by
    cases compat <;> rfl
  have hlocked : (state.derived ctrls compat).lockedGroup =
      BitVec.ofInt 8 (ctrls.inRange state.lockedGroup.toInt) := by
    cases compat <;> rfl
  have hvalue := toNat_ofInt_inRange hnum hmax ((ctrls.groupSum state).bmod 256)
  rw [← inRange_bmod_iff hnum hmax, ← hvalue]
  constructor
  · intro h
    have hrule := h.group
    rw [hgroup] at hrule
    exact hrule
  · intro h
    refine ⟨?_, ?_, ?_, ?_, ?_, ?_⟩
    · rw [hgroup]
      exact byteGroup_lt hnum hmax _
    · have hvalue' := toNat_ofInt_inRange hnum hmax state.lockedGroup.toInt
      have hbounds := inRange_bounds hnum state.lockedGroup.toInt
      rw [hlocked]
      omega
    · rw [hgroup]
      exact h
    · cases compat <;> rfl
    · cases compat <;> rfl
    · cases compat <;> rfl

theorem flags_self (state : XkbStateRec) : xkbStateChangedFlags state state = 0#16 := by
  simp [xkbStateChangedFlags, flag]

theorem xkbCheckSecondaryEffects_eq (hnum : 1 ≤ ctrls.num) (hmax : ctrls.num ≤ 4)
    (compat : Option (Fin 4 → BitVec 8)) (state : XkbStateRec)
    (updateIndicators : XkbStateRec → BitVec 32) (which : BitVec 32) (changes : XkbChanges) :
    ∃ changes', xkbCheckSecondaryEffects updateIndicators ⟨state, ctrls, compat⟩ which changes =
        some (⟨if which &&& xkbStateNotifyMask ≠ 0 then state.derived ctrls compat else state,
          ctrls, compat⟩, changes') ∧ changes'.stateChanges = changes.stateChanges := by
  rw [xkbCheckSecondaryEffects]
  dsimp only
  by_cases hstate : which &&& xkbStateNotifyMask ≠ 0
  · rw [if_pos hstate, if_pos hstate, xkbComputeDerivedState_eq hnum hmax, flags_self, or_zero]
    dsimp only [bind, Option.bind]
    split <;> exact ⟨_, rfl, rfl⟩
  · rw [if_neg hstate, if_neg hstate]
    dsimp only [bind, Option.bind]
    split <;> exact ⟨_, rfl, rfl⟩

theorem derivedState_iff (hnum : 1 ≤ ctrls.num) (hmax : ctrls.num ≤ 4)
    (compat : Option (Fin 4 → BitVec 8)) (state : XkbStateRec)
    (updateIndicators : XkbStateRec → BitVec 32) (which : BitVec 32) (changes : XkbChanges) :
    (∃ new, xkbComputeDerivedState ctrls compat state = some new ∧ Derives ctrls state new) ∧
      (∃ xkbi changes', xkbCheckSecondaryEffects updateIndicators ⟨state, ctrls, compat⟩ which
          changes = some (xkbi, changes') ∧ changes'.stateChanges =
          changes.stateChanges ||| xkbStateChangedFlags state xkbi.state) ↔
      ByteSum ctrls (ctrls.groupSum state) ∧
        (which &&& xkbStateNotifyMask = 0 ∨ Noted ctrls compat state changes) := by
  refine and_congr ?_ ?_
  · rw [xkbComputeDerivedState_eq hnum hmax, ← derived_derives_iff hnum hmax compat]
    constructor
    · rintro ⟨new, heq, h⟩
      cases heq
      exact h
    · exact fun h => ⟨_, rfl, h⟩
  · obtain ⟨changes', heq, hsame⟩ :=
      xkbCheckSecondaryEffects_eq hnum hmax compat state updateIndicators which changes
    rw [heq]
    constructor
    · rintro ⟨xkbi, changes'', heq', h⟩
      cases heq'
      dsimp only at h
      by_cases hstate : which &&& xkbStateNotifyMask = 0
      · exact .inl hstate
      · rw [if_pos hstate, hsame] at h
        exact .inr h.symm
    · intro h
      refine ⟨_, _, rfl, ?_⟩
      dsimp only
      by_cases hstate : which &&& xkbStateNotifyMask = 0
      · rw [if_neg (not_not_intro hstate), flags_self, or_zero, hsame]
      · rw [if_pos hstate, hsame]
        exact (h.resolve_left hstate).symm

end

def threeGroups : StateControls :=
  { numGroups := 3, internal := ⟨0, 0, 0⟩, ignoreLock := ⟨0, 0, 0⟩, groupsWrap := 3
    enabledCtrls := 0 }

def atBase (group : BitVec 16) : XkbStateRec :=
  ⟨0, group, 0, 0, 0, 0, 0, 0, 0, 0, 0, 0, 0, 0⟩

theorem derivedState_iff_first :
    (∃ new, xkbComputeDerivedState threeGroups none (atBase 1) = some new ∧
        Derives threeGroups (atBase 1) new) ∧
      (∃ xkbi changes', xkbCheckSecondaryEffects (fun _ => 0) ⟨atBase 1, threeGroups, none⟩ 0
          ⟨0, 0⟩ = some (xkbi, changes') ∧
        changes'.stateChanges = (0 : BitVec 16) ||| xkbStateChangedFlags (atBase 1) xkbi.state) ↔
      ByteSum threeGroups (threeGroups.groupSum (atBase 1)) ∧
        ((0 : BitVec 32) &&& xkbStateNotifyMask = 0 ∨ Noted threeGroups none (atBase 1) ⟨0, 0⟩) :=
  derivedState_iff (by decide) (by decide) none (atBase 1) (fun _ => 0) 0 ⟨0, 0⟩

/-- Base group 200 leads to group 1 instead of 200 % 3 = 2, and a change of the group from 0 to 1
is not noted. -/
theorem derivedState_wrong :
    (xkbComputeDerivedState threeGroups none (atBase 200)).map (fun new => new.group) = some 1 ∧
      threeGroups.inRange (threeGroups.groupSum (atBase 200)) = 2 ∧
      (xkbCheckSecondaryEffects (fun _ => 0) ⟨atBase 1, threeGroups, none⟩ xkbStateNotifyMask
          ⟨0, 0⟩).map (fun r => (r.1.state.group, r.2.stateChanges)) = some (1, 0) ∧
      (atBase 1).group = 0 := by
  decide

end Xfront.Xkb
