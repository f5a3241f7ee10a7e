import Xfront.Lib.Boxes

/-!
# Regions (dix/region.c, dix/gc.c)

The functions that build a region from boxes: `RegionAppend`, `RegionValidate` with
`QuickSortRects`, `RegionCoalesce` and `RegionOp`, `RegionFromRects` with the order check
of `SetClipRects`, and `RegionIsValid`. An array of boxes is a list, a pointer into it
the rest of the list or an index. Allocation succeeds, so the capacity of an array is not
kept; `RegionOp` is as its one caller uses it, with the first region as the destination.
-/

namespace Xfront.Region
open Nat

open List

/-- `reg->data`: `NULL`, `&RegionEmptyData`, `&RegionBrokenData` or an array. -/
inductive Data where
  | null
  | empty
  | broken
  | array (rects : List Box)
  deriving DecidableEq

structure RegionRec where
  extents : Box
  data : Data
  deriving DecidableEq

def regionEmptyBox : Box := ⟨0, 0, 0, 0⟩

/-- `RegionRects`, with `RegionNumRects` as its length. -/
def RegionRec.rects (reg : RegionRec) : List Box :=
  match reg.data with
  | .null => [reg.extents]
  | .empty => []
  | .broken => []
  | .array rects => rects

def regionNull : RegionRec := ⟨regionEmptyBox, .empty⟩

def regionBreak : RegionRec := ⟨regionEmptyBox, .broken⟩

/-- `RegionRectAlloc` (`region.c:351-388`), as far as it concerns the boxes. -/
def regionRectAlloc (reg : RegionRec) : RegionRec := { reg with data := .array reg.rects }

/-! ### `RegionIsValid` (`region.c:300-339`) -/

/-- The loop over two boxes after each other; nothing for `FALSE`. -/
def validLoop (box p : Box) : List Box → Option Box
  | [] => some box
  | n :: rest =>
    if n.x1 ≥ n.x2 ∨ n.y1 ≥ n.y2 then none
    else
      let box := if n.x1 < box.x1 then { box with x1 := n.x1 } else box
      let box := if box.x2 < n.x2 then { box with x2 := n.x2 } else box
      if n.y1 < p.y1 ∨ (n.y1 = p.y1 ∧ (n.x1 < p.x2 ∨ n.y2 ≠ p.y2)) then none
      else validLoop box n rest

def regionIsValid (reg : RegionRec) : Bool :=
  if reg.extents.x1 > reg.extents.x2 ∨ reg.extents.y1 > reg.extents.y2 then false
  else match reg.rects with
    | [] => reg.extents.x1 = reg.extents.x2 ∧ reg.extents.y1 = reg.extents.y2 ∧
      reg.data ≠ .broken
    | [_] => reg.data = .null
    | p :: n :: rest =>
      validLoop { p with y2 := (rest.getLastD n).y2 } p (n :: rest) = some reg.extents

/-! ### `RegionCoalesce` (`region.c:412-478`) -/

def regionCoalesce (rects : List Box) (prevStart curStart : Nat) : List Box × Nat :=
  let numRects := curStart - prevStart
  let prev := (rects.drop prevStart).take numRects
  let cur := rects.drop curStart
  match prev, cur with
  | p :: _, c :: _ =>
    if p.y2 ≠ c.y1 then (rects, curStart)
    else if (prev.zip cur).all fun (p, c) => p.x1 = c.x1 ∧ p.x2 = c.x2 then
      (rects.take prevStart ++ prev.map fun b => { b with y2 := c.y2 }, prevStart)
    else (rects, curStart)
  | _, _ => (rects, curStart)

def coalesce (rects : List Box) (prevBand curBand : Nat) : List Box × Nat :=
  if curBand - prevBand = rects.length - curBand then regionCoalesce rects prevBand curBand
  else (rects, curBand)

/-! ### `RegionUnionO` (`region.c:868-950`) -/

/-- The boxes of the new region, the sides of the box in the making and `*pOverlap`. -/
structure Merge where
  rects : List Box
  x1 : Int
  x2 : Int
  overlap : Bool

def mergeRect (y1 y2 : Int) (m : Merge) (r : Box) : Merge :=
  if r.x1 ≤ m.x2 then
    { m with overlap := m.overlap || r.x1 < m.x2, x2 := if m.x2 < r.x2 then r.x2 else m.x2 }
  else { m with rects := m.rects ++ [⟨m.x1, y1, m.x2, y2⟩], x1 := r.x1, x2 := r.x2 }

def mergeLoop (y1 y2 : Int) : List Box → List Box → Merge → Merge
  | a :: r1, b :: r2, m =>
    if a.x1 < b.x1 then mergeLoop y1 y2 r1 (b :: r2) (mergeRect y1 y2 m a)
    else mergeLoop y1 y2 (a :: r1) r2 (mergeRect y1 y2 m b)
  | r1, [], m => r1.foldl (mergeRect y1 y2) m
  | [], r2, m => r2.foldl (mergeRect y1 y2) m
termination_by r1 r2 => r1.length + r2.length

/-- One function for the bands of two regions between `y1` and `y2`. -/
abbrev OverlapProc : Type :=
  List Box → List Box → List Box → Int → Int → Bool → List Box × Bool

def regionUnionO : OverlapProc := fun rects r1 r2 y1 y2 overlap =>
  let finish (m : Merge) := (m.rects ++ [⟨m.x1, y1, m.x2, y2⟩], m.overlap)
  match r1, r2 with
  | a :: r1, b :: r2 =>
    if a.x1 < b.x1 then finish (mergeLoop y1 y2 r1 (b :: r2) ⟨rects, a.x1, a.x2, overlap⟩)
    else finish (mergeLoop y1 y2 (a :: r1) r2 ⟨rects, b.x1, b.x2, overlap⟩)
  | _, _ => (rects, overlap)

/-! ### `RegionOp` (`region.c:497-794`) -/

/-- The band `r` starts with and what comes behind it. -/
def findBand : List Box → List Box × List Box
  | [] => ([], [])
  | a :: as => (a :: as.takeWhile (·.y1 = a.y1), as.dropWhile (·.y1 = a.y1))

def regionAppendNonO (rects r : List Box) (y1 y2 : Int) : List Box :=
  rects ++ r.map fun b => ⟨b.x1, y1, b.x2, y2⟩

/-- The new region, the index of its last band and `*pOverlap`. -/
structure OpState where
  rects : List Box
  prevBand : Nat
  overlap : Bool

/-- `Coalesce` behind the boxes that have just been appended. -/
def OpState.coalesced (s : OpState) (rects : List Box) (overlap : Bool) : OpState :=
  let (rects, prevBand) := coalesce rects s.prevBand s.rects.length
  ⟨rects, prevBand, overlap⟩

def OpState.nonOverlap (s : OpState) (append : Bool) (band : List Box) (top bot : Int) : OpState :=
  if append ∧ top ≠ bot then s.coalesced (regionAppendNonO s.rects band top bot) s.overlap else s

def OpState.overlapping (s : OpState) (overlapFunc : OverlapProc) (band1 band2 : List Box)
    (ytop ybot : Int) : OpState :=
  if ytop < ybot then
    let (rects, overlap) := overlapFunc s.rects band1 band2 ytop ybot s.overlap
    s.coalesced rects overlap
  else s

/-- One pass of the main loop between `ybot` and the nearer bottom of the two bands. -/
def opStep (overlapFunc : OverlapProc) (appendNon1 appendNon2 : Bool) (a : Box) (as : List Box)
    (b : Box) (bs : List Box) (ybot : Int) (s : OpState) : OpState :=
  let band1 := (findBand (a :: as)).1
  let band2 := (findBand (b :: bs)).1
  let s :=
    if a.y1 < b.y1 then s.nonOverlap appendNon1 band1 (max a.y1 ybot) (min a.y2 b.y1)
    else if b.y1 < a.y1 then s.nonOverlap appendNon2 band2 (max b.y1 ybot) (min b.y2 a.y1)
    else s
  let ytop := if a.y1 < b.y1 then b.y1 else a.y1
  s.overlapping overlapFunc band1 band2 ytop (min a.y2 b.y2)

def skipBand (a : Box) (as : List Box) (ybot : Int) : List Box :=
  if a.y2 = ybot then (findBand (a :: as)).2 else a :: as

theorem skipBand_length (a : Box) (as : List Box) (ybot : Int) :
    (skipBand a as ybot).length + (if a.y2 = ybot then 1 else 0) ≤ as.length + 1 := by
  unfold skipBand
  split
  · exact succ_le_succ (dropWhile_suffix _).length_le
  · exact le_rfl

def opLoop (overlapFunc : OverlapProc) (appendNon1 appendNon2 : Bool) (r1 r2 : List Box)
    (ybot : Int) (s : OpState) : List Box × List Box × Int × OpState :=
  match r1, r2 with
  | a :: as, b :: bs =>
    opLoop overlapFunc appendNon1 appendNon2 (skipBand a as (min a.y2 b.y2))
      (skipBand b bs (min a.y2 b.y2)) (min a.y2 b.y2)
      (opStep overlapFunc appendNon1 appendNon2 a as b bs ybot s)
  | _, _ => (r1, r2, ybot, s)
termination_by r1.length + r2.length
decreasing_by
  have h1 := skipBand_length a as (min a.y2 b.y2)
  have h2 := skipBand_length b bs (min a.y2 b.y2)
  simp only [length_cons]
  split at h1 <;> split at h2 <;> omega

def OpState.rest (s : OpState) (append : Bool) (r : List Box) (ybot : Int) : OpState :=
  match r with
  | a :: as =>
    if append then
      let (band, tail) := findBand (a :: as)
      let s := s.coalesced (regionAppendNonO s.rects band (max a.y1 ybot) a.y2) s.overlap
      { s with rects := s.rects ++ tail }
    else s
  | [] => s

def RegionRec.settled (reg : RegionRec) (rects : List Box) : RegionRec :=
  match rects with
  | [] => { reg with data := .empty }
  | [x] => ⟨x, .null⟩
  | x :: y :: rest => { reg with data := .array (x :: y :: rest) }

/-- `RegionOp` with `newReg == reg1`; the flag is `*pOverlap`. -/
def regionOp (reg1 reg2 : RegionRec) (overlapFunc : OverlapProc) (appendNon1 appendNon2 : Bool)
    (overlap : Bool) : Bool × RegionRec × Bool :=
  if reg1.data = .broken ∨ reg2.data = .broken then (false, regionBreak, overlap)
  else match reg1.rects, reg2.rects with
    | a :: as, b :: bs =>
      let (r1, r2, ybot, s) := opLoop overlapFunc appendNon1 appendNon2 (a :: as) (b :: bs)
        (min a.y1 b.y1) ⟨[], 0, overlap⟩
      let s := if r1 ≠ [] ∧ appendNon1 then s.rest appendNon1 r1 ybot
        else s.rest appendNon2 r2 ybot
      (true, reg1.settled s.rects, s.overlap)
    | _, _ => (true, reg1, overlap)

/-! ### `QuickSortRects` (`region.c:1051-1124`) -/

def precedes (a b : Box) : Bool := a.y1 < b.y1 ∨ (a.y1 = b.y1 ∧ a.x1 < b.x1)

def boxAt (rects : List Box) (i : Nat) : Box := rects.getD i regionEmptyBox

def exchangeRects (rects : List Box) (a b : Nat) : List Box :=
  (rects.set a (boxAt rects b)).set b (boxAt rects a)

/-- `do { i++; } while (i != numRects && rects[i] < pivot)`. -/
def scanUp (rects : List Box) (pivot : Box) (i : Nat) : Nat :=
  if i + 1 < rects.length ∧ precedes (boxAt rects (i + 1)) pivot then
    scanUp rects pivot (i + 1)
  else i + 1
termination_by rects.length - i

def scanDown (rects : List Box) (pivot : Box) : Nat → Nat
  | 0 => 0
  | j + 1 => if precedes pivot (boxAt rects j) then scanDown rects pivot j else j

theorem lt_scanUp (rects : List Box) (pivot : Box) (i : Nat) : i < scanUp rects pivot i := by
  fun_induction scanUp rects pivot i with
  | case1 i _ ih => exact lt_of_succ_lt ih
  | case2 i _ => exact lt_succ_self i

theorem scanDown_le (rects : List Box) (pivot : Box) (j : Nat) : scanDown rects pivot j ≤ j := by
  induction j with
  | zero => exact le_rfl
  | succ j ih =>
    unfold scanDown
    split
    · exact le_succ_of_le ih
    · exact le_succ j

def partitionRects (pivot : Box) (rects : List Box) (i j : Nat) : List Box × Nat :=
  let i' := scanUp rects pivot i
  let j' := scanDown rects pivot j
  if i' < j' then partitionRects pivot (exchangeRects rects i' j') i' j' else (rects, j')
termination_by j - i
decreasing_by
  have hi := lt_scanUp rects pivot i
  have hj := scanDown_le rects pivot j
  omega

@[simp] theorem exchangeRects_length (rects : List Box) (a b : Nat) :
    (exchangeRects rects a b).length = rects.length := by
  rw [exchangeRects, length_set, length_set]

theorem partitionRects_length (pivot : Box) (rects : List Box) (i j : Nat) :
    (partitionRects pivot rects i j).1.length = rects.length := by
  fun_induction partitionRects pivot rects i j with
  | case1 rects i j i' j' _ ih => exact ih.trans (exchangeRects_length ..)
  | case2 => rfl

theorem partitionRects_le (pivot : Box) (rects : List Box) (i j : Nat) :
    (partitionRects pivot rects i j).2 ≤ j - 1 := by
  fun_induction partitionRects pivot rects i j with
  | case1 rects i j i' j' _ ih =>
    have hj := scanDown_le rects pivot j
    omega
  | case2 rects i j i' j' =>
    cases j with
    | zero => exact le_rfl
    | succ j =>
      change scanDown rects pivot (j + 1) ≤ j
      unfold scanDown
      split
      · exact scanDown_le rects pivot j
      · exact le_rfl

def partitioned (rects : List Box) : List Box × Nat :=
  let rects' := exchangeRects rects 0 (rects.length / 2)
  let part := partitionRects (boxAt rects' 0) rects' 0 rects.length
  (exchangeRects part.1 0 part.2, part.2)

theorem partitioned_length (rects : List Box) : (partitioned rects).1.length = rects.length := by
  simp only [partitioned, exchangeRects_length, partitionRects_length]

theorem partitioned_lt (rects : List Box) (h : rects ≠ []) :
    (partitioned rects).2 < rects.length := by
  have hpos := length_pos_iff.mpr h
  have hle := partitionRects_le (boxAt (exchangeRects rects 0 (rects.length / 2)) 0)
    (exchangeRects rects 0 (rects.length / 2)) 0 rects.length
  simp only [partitioned]
  omega

def quickSortRects (rects : List Box) : List Box :=
  match rects with
  | [] => []
  | [a] => [a]
  | [a, b] => if precedes b a then [b, a] else [a, b]
  | a :: b :: c :: rest =>
    let part := partitioned (a :: b :: c :: rest)
    quickSortRects (part.1.take part.2) ++
      boxAt part.1 part.2 :: quickSortRects (part.1.drop (part.2 + 1))
termination_by rects.length
decreasing_by
  all_goals
    have hlt := partitioned_lt (a :: b :: c :: rest) (by simp)
    have hlen := partitioned_length (a :: b :: c :: rest)
    simp only [length_take, length_drop]
    omega

/-! ### `RegionValidate` (`region.c:1143-1319`) -/

/-- `RegionInfo`, a region under construction; its boxes are always in an array. -/
structure RegionInfo where
  extents : Box
  rects : List Box
  prevBand : Nat
  curBand : Nat

def RegionInfo.start (box : Box) : RegionInfo := ⟨box, [box], 0, 0⟩

/-- The last band is complete, `box` starts a new one. -/
def RegionInfo.newBand (rit : RegionInfo) (riBox box : Box) : RegionInfo :=
  let extents := if rit.extents.x2 < riBox.x2 then { rit.extents with x2 := riBox.x2 }
    else rit.extents
  let extents := if box.x1 < extents.x1 then { extents with x1 := box.x1 } else extents
  let (rects, prevBand) := coalesce rit.rects rit.prevBand rit.curBand
  ⟨extents, rects ++ [box], prevBand, rects.length⟩

def scatter (box : Box) (overlap : Bool) : List RegionInfo → List RegionInfo × Bool
  | [] => ([.start box], overlap)
  | rit :: rest =>
    let next := scatter box overlap rest
    match rit.rects.getLast? with
    | none => (rit :: next.1, next.2)
    | some riBox =>
      if box.y1 = riBox.y1 ∧ box.y2 = riBox.y2 then
        if box.x1 ≤ riBox.x2 then
          let x2 := if riBox.x2 < box.x2 then box.x2 else riBox.x2
          ({ rit with rects := rit.rects.dropLast ++ [{ riBox with x2 := x2 }] } :: rest,
            overlap || box.x1 < riBox.x2)
        else ({ rit with rects := rit.rects ++ [box] } :: rest, overlap)
      else if riBox.y2 ≤ box.y1 then (rit.newBand riBox box :: rest, overlap)
      else (rit :: next.1, next.2)

def scatterAll (ri : List RegionInfo) (overlap : Bool) : List Box → List RegionInfo × Bool
  | [] => (ri, overlap)
  | box :: boxes =>
    let next := scatter box overlap ri
    scatterAll next.1 next.2 boxes

def RegionInfo.finish (rit : RegionInfo) : RegionRec :=
  let riBox := rit.rects.getLastD regionEmptyBox
  let extents := { rit.extents with y2 := riBox.y2 }
  let extents := if extents.x2 < riBox.x2 then { extents with x2 := riBox.x2 } else extents
  let rects := (coalesce rit.rects rit.prevBand rit.curBand).1
  ⟨extents, if rects.length = 1 then .null else .array rects⟩

/-- `RegionOp` on two of the regions, and the extents. -/
def unionInto (reg hreg : RegionRec) (overlap : Bool) : Bool × RegionRec × Bool :=
  let (ok, reg, overlap) := regionOp reg hreg regionUnionO true true overlap
  let e := reg.extents
  let h := hreg.extents
  (ok, { reg with extents :=
    ⟨if h.x1 < e.x1 then h.x1 else e.x1, if h.y1 < e.y1 then h.y1 else e.y1,
      if e.x2 < h.x2 then h.x2 else e.x2, if e.y2 < h.y2 then h.y2 else e.y2⟩ }, overlap)

def unionPairs (ret overlap : Bool) : List RegionRec → List RegionRec → Bool × List RegionRec × Bool
  | reg :: regs, hreg :: hregs =>
    let (ok, reg, overlap) := unionInto reg hreg overlap
    let (ret, regs, overlap) := unionPairs (ret && ok) overlap regs hregs
    (ret, reg :: regs, overlap)
  | _, _ => (ret, [], overlap)

theorem unionPairs_length (ret overlap : Bool) (regs hregs : List RegionRec) :
    (unionPairs ret overlap regs hregs).2.1.length = min regs.length hregs.length := by
  induction regs generalizing hregs ret overlap with
  | nil => simp [unionPairs]
  | cons reg regs ih =>
    cases hregs with
    | nil => simp [unionPairs]
    | cons hreg hregs => simp [unionPairs, ih, Nat.add_min_add_right]

def unionAll (ret overlap : Bool) (ri : List RegionRec) : Bool × List RegionRec × Bool :=
  if 1 < ri.length then
    let half := ri.length / 2
    let odd := ri.length % 2
    let round := unionPairs ret overlap ((ri.drop odd).take half) (ri.drop (odd + half))
    unionAll round.1 round.2.2 (ri.take odd ++ round.2.1)
  else (ret, ri, overlap)
termination_by ri.length
decreasing_by
  simp only [length_append, length_take, length_drop, unionPairs_length]
  omega

def regionValidate (badreg : RegionRec) : Bool × RegionRec × Bool :=
  match badreg.data with
  | .null => (true, badreg, false)
  | .broken => (false, badreg, false)
  | .empty => (true, badreg, false)
  | .array [] => (true, badreg, false)
  | .array rects =>
    if badreg.extents.x1 < badreg.extents.x2 then
      (true, if rects.length = 1 then { badreg with data := .null } else badreg, false)
    else match quickSortRects rects with
      | [] => (true, badreg, false)
      | box :: boxes =>
        let (ri, overlap) := scatterAll [.start box] false boxes
        let (ret, ri, overlap) := unionAll true overlap (ri.map RegionInfo.finish)
        (ret, ri.headD badreg, overlap)

/-! ### `RegionAppend` (`region.c:973-1049`) -/

/-- The boxes of `first` come right behind those of `last`, in a later row or in the same band. -/
def inOrder (first last : Box) : Bool :=
  last.y2 < first.y1 ∨ (first.y1 = last.y1 ∧ first.y2 = last.y2 ∧ last.x2 < first.x1)

def regionAppend (dstrgn rgn : RegionRec) : Bool × RegionRec :=
  if rgn.data = .broken then (false, regionBreak)
  else if rgn.data = .null ∧ dstrgn.data = .empty then (true, ⟨rgn.extents, .null⟩)
  else match rgn.rects with
    | [] => (true, dstrgn)
    | old :: olds =>
      let d := dstrgn.extents
      let x1 := if rgn.extents.x1 < d.x1 then rgn.extents.x1 else d.x1
      let x2 := if d.x2 < rgn.extents.x2 then rgn.extents.x2 else d.x2
      match (regionRectAlloc dstrgn).rects with
      | [] => (true, ⟨rgn.extents, .array (old :: olds)⟩)
      | new :: news =>
        let appended := Data.array (new :: news ++ old :: olds)
        (true, if d.x1 < d.x2 then
            if inOrder old (news.getLastD new) then
              ⟨⟨x1, d.y1, x2, rgn.extents.y2⟩, appended⟩
            else if inOrder new (olds.getLastD old) then
              ⟨⟨x1, rgn.extents.y1, x2, d.y2⟩, .array (old :: olds ++ new :: news)⟩
            else ⟨{ d with x2 := d.x1 }, appended⟩
          else ⟨d, appended⟩)

/-! ### `RegionSetExtents` (`region.c:810-849`) -/

def regionSetExtents (reg : RegionRec) : RegionRec :=
  match reg.data with
  | .null => reg
  | .array (b :: bs) =>
    let last := bs.getLastD b
    let widen (e x : Box) : Box :=
      let e := if x.x1 < e.x1 then { e with x1 := x.x1 } else e
      if e.x2 < x.x2 then { e with x2 := x.x2 } else e
    { reg with extents := (b :: bs).foldl widen ⟨b.x1, b.y1, last.x2, last.y2⟩ }
  | _ => { reg with extents := { reg.extents with x2 := reg.extents.x1, y2 := reg.extents.y1 } }

/-! ### `VerifyRectOrder` (`gc.c:946-986`) -/

structure XRectangle where
  x : BitVec 16
  y : BitVec 16
  width : BitVec 16
  height : BitVec 16

def maxShort : Int := 2 ^ 15 - 1

/-- `Unsorted`, `YSorted`, `YXSorted` and `YXBanded`. -/
def unsorted : Int := 0
def ySorted : Int := 1
def yxSorted : Int := 2
def yxBanded : Int := 3

def ctUnsorted : Int := 6
def ctYSorted : Int := 10
def ctYXSorted : Int := 14
def ctYXBanded : Int := 18

/-- A loop over rectangles after each other; `bad` ones end it. -/
def inSequence (bad : XRectangle → XRectangle → Bool) : List XRectangle → Bool
  | p :: n :: rest => !bad p n && inSequence bad (n :: rest)
  | _ => true

def notYSorted (p n : XRectangle) : Bool := n.y.toInt < p.y.toInt

def notYXSorted (p n : XRectangle) : Bool :=
  n.y.toInt < p.y.toInt ∨ (n.y.toInt = p.y.toInt ∧ n.x.toInt < p.x.toInt)

def notYXBanded (p n : XRectangle) : Bool :=
  (n.y.toInt ≠ p.y.toInt ∧ n.y.toInt < p.y.toInt + p.height.toNat) ∨ (n.y.toInt = p.y.toInt ∧
      (n.height ≠ p.height ∨ n.x.toInt < p.x.toInt + p.width.toNat))

def verifyRectOrder (prects : List XRectangle) (ordering : Int) : Int :=
  if ordering = unsorted then ctUnsorted
  else if ordering = ySorted then if inSequence notYSorted prects then ctYSorted else -1
  else if ordering = yxSorted then if inSequence notYXSorted prects then ctYXSorted else -1
  else if ordering = yxBanded then if inSequence notYXBanded prects then ctYXBanded else -1
  else -1

/-! ### `RegionFromRects` (`region.c:1321-1391`) -/

def XRectangle.clipped (r : XRectangle) : Box :=
  ⟨r.x.toInt, r.y.toInt, min (r.x.toInt + r.width.toNat) maxShort,
    min (r.y.toInt + r.height.toNat) maxShort⟩

def isBox (b : Box) : Bool := b.x1 ≠ b.x2 ∧ b.y1 ≠ b.y2

def regionFromRects (prect : List XRectangle) (ctype : Int) : RegionRec :=
  match prect with
  | [] => regionNull
  | [r] => if isBox r.clipped then ⟨r.clipped, .null⟩ else regionNull
  | rs =>
    match (rs.map XRectangle.clipped).filter isBox with
    | [] => regionNull
    | boxes =>
      if ctype ≠ ctYXBanded then (regionValidate ⟨regionEmptyBox, .array boxes⟩).2.1
      else regionSetExtents ⟨regionEmptyBox, .array boxes⟩

end Xfront.Region
