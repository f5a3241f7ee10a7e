import Mathlib

/-!
# Planes of a colormap (dix/colormap.c)

`AllocCP` with its three searches. A pixel is a word of 32 bits. An access that leaves the channel
is a fault, and so are a shift by a negative count or by the width of a word and the use of a shared
color that is freed. A loop that would take more turns than are counted for it is one too.
-/

namespace Xfront.Colormap

structure Shco where
  red : Option Nat := none
  green : Option Nat := none
  blue : Option Nat := none
  deriving DecidableEq

structure Entry where
  refcnt : Int
  fShared : Bool := false
  co : Shco := {}
  deriving DecidableEq

/-- The visuals that the server makes: at least as many values in the planes as entries. -/
structure Visual where
  nplanes : Nat
  colormapEntries : Nat
  nplanes_le : nplanes ≤ 32
  entries_lt : colormapEntries < 2 ^ 15
  entries_le : colormapEntries ≤ 2 ^ nplanes

inductive Fault where
  | outside
  | shift
  | freed
  | unfinished
  deriving DecidableEq

def allocPrivate : Int := -1

def word (x : Nat) : Nat := x % 2 ^ 32

def complement (x : Nat) : Nat := 2 ^ 32 - 1 - x

def lowbit (x : Nat) : Nat := x &&& word (complement x + 1)

def settleBits (mask : Nat) : Nat → Nat → Nat
  | 0, bits => bits
  | fuel + 1, bits =>
    let out := bits &&& complement mask
    if out ≠ 0 then settleBits mask fuel (word (bits + out)) else bits

/-- `GetNextBitsOrBreak` where it does not break. -/
def getNextBits (bits mask base : Nat) : Nat := settleBits mask 32 (word (bits + base))

def cell (ent : List Entry) (pixel : Nat) : Except Fault Entry :=
  match ent[pixel]? with
  | some e => .ok e
  | none => .error .outside

def Entry.taken (e : Entry) : Entry := { e with refcnt := allocPrivate, fShared := false }

def takeCell (ent : List Entry) (pixel : Nat) : Except Fault (List Entry) :=
  match ent[pixel]? with
  | some e => .ok (ent.set pixel e.taken)
  | none => .error .outside

def nextFree (ent : List Entry) : Nat → Nat → Except Fault Nat
  | 0, _ => .error .unfinished
  | fuel + 1, pixel => do
    let e ← cell ent pixel
    if e.refcnt ≠ 0 then nextFree ent fuel (pixel + 1) else pure pixel

def allocCells : Nat → List Entry → Nat → Except Fault (List Entry × List Nat)
  | 0, ent, _ => pure (ent, [])
  | count + 1, ent, pixel => do
    let pixel ← nextFree ent (ent.length + 1) pixel
    let ent ← takeCell ent pixel
    let (ent, pixels) ← allocCells count ent pixel
    pure (ent, pixel :: pixels)

/-- Where the check of a pixel stops: at `maxp`, or at a cell that is not free. -/
def stopAt (ent : List Entry) (base maxp : Nat) : Nat → Nat → Except Fault Nat
  | 0, _ => .error .unfinished
  | fuel + 1, pixel =>
    if pixel = maxp then pure pixel
    else do
      let e ← cell ent pixel
      if e.refcnt = 0 then stopAt ent base maxp fuel (word (pixel + base)) else pure pixel

def searchContig (ent : List Entry) (count mask base entries : Nat) :
    Nat → Nat → List Nat → Except Fault (Option (List Nat))
  | 0, _, _ => .error .unfinished
  | fuel + 1, pixel, found =>
    if pixel < entries then do
      let maxp := word (pixel + mask + base)
      let stop ← stopAt ent base maxp (ent.length + 2) pixel
      let found := if stop = maxp then found ++ [pixel] else found
      if stop = maxp ∧ found.length = count then pure (some found)
      else
        let next := word (pixel + 1)
        let next := if next &&& mask ≠ 0 then word (next + mask) else next
        searchContig ent count mask base entries fuel next found
    else pure none

def allocContig (base maxp : Nat) : Nat → List Entry → Nat → Except Fault (List Entry × List Nat)
  | 0, _, _ => .error .unfinished
  | fuel + 1, ent, pixel => do
    let ent ← takeCell ent pixel
    if pixel = maxp then pure (ent, [])
    else
      let next := word (pixel + base)
      let (ent, pixels) ← allocContig base maxp fuel ent next
      pure (ent, next :: pixels)

def allocAllContig (mask base : Nat) : List Nat → List Entry →
    Except Fault (List Entry × List Nat)
  | [], ent => pure (ent, [])
  | pixel :: pixels, ent => do
    let (ent, others) ← allocContig base (word (pixel + mask)) (ent.length + 2) ent pixel
    let (ent, more) ← allocAllContig mask base pixels ent
    pure (ent, others ++ more)

/-- `TRUE`, with the cells, all pixels and the mask; or `FALSE`, before any cell is written. -/
abbrev Result := Option (List Entry × List Nat × Nat)

def tryContig (ent : List Entry) (colormapEntries count : Nat) :
    Nat → Nat → Nat → Except Fault Result
  | 0, _, _ => pure none
  | turns + 1, mask, base => do
    let entries := word (colormapEntries + 2 ^ 32 - mask)
    match ← searchContig ent count mask base entries (ent.length + 2) 0 [] with
    | some found => do
      let (ent, others) ← allocAllContig mask base found.reverse ent
      pure (some (ent, found ++ others, mask))
    | none => tryContig ent colormapEntries count turns (word (mask + mask)) (word (base + base))

def countBits (mask : Nat) : Nat :=
  let pixel := (mask >>> 1) &&& 0o33333333333
  let pixel := mask - pixel - ((pixel >>> 1) &&& 0o33333333333)
  (word (pixel + (pixel >>> 3)) &&& 0o30707070707) % 0o77

def stopBits (ent : List Entry) (pixel mask base : Nat) : Nat → Nat → Except Fault Nat
  | 0, _ => .error .unfinished
  | fuel + 1, maxp => do
    let e ← cell ent (word (pixel + maxp))
    if e.refcnt = 0 then
      if maxp = mask then pure maxp
      else stopBits ent pixel mask base fuel (getNextBits maxp mask base)
    else pure maxp

def allFree (ent : List Entry) (pixel mask base : Nat) : Except Fault Bool := do
  let maxp ← stopBits ent pixel mask base (mask + 1) 0
  if maxp < mask then pure false
  else do
    let e ← cell ent (word (pixel + mask))
    pure (e.refcnt = 0)

def searchApart (ent : List Entry) (count mask base entries : Nat) :
    Nat → Nat → List Nat → Except Fault (Option (List Nat))
  | 0, _, _ => .error .unfinished
  | fuel + 1, pixel, found =>
    if pixel < entries then
      if pixel &&& mask ≠ 0 then
        searchApart ent count mask base entries fuel (word (pixel + 1)) found
      else do
        let free ← allFree ent pixel mask base
        let found := if free then found ++ [pixel] else found
        if free ∧ ¬ found.length < count then pure (some found)
        else searchApart ent count mask base entries fuel (word (pixel + 1)) found
    else pure none

def allocApart (pixel mask base : Nat) : Nat → List Entry → Nat →
    Except Fault (List Entry × List Nat)
  | 0, _, _ => .error .unfinished
  | fuel + 1, ent, maxp => do
    let ent ← takeCell ent (word (pixel + maxp))
    if maxp = mask then pure (ent, [])
    else
      let next := getNextBits maxp mask base
      let (ent, pixels) ← allocApart pixel mask base fuel ent next
      pure (ent, word (pixel + next) :: pixels)

def allocAllApart (mask base : Nat) : List Nat → List Entry → Except Fault (List Entry × List Nat)
  | [], ent => pure (ent, [])
  | pixel :: pixels, ent => do
    let (ent, others) ← allocApart pixel mask base (mask + 1) ent 0
    let (ent, more) ← allocAllApart mask base pixels ent
    pure (ent, others ++ more)

/-- The masks are counted up; those with another number of planes are passed over. -/
def tryApart (ent : List Entry) (colormapEntries count planes : Nat) :
    Nat → Nat → Except Fault Result
  | 0, _ => pure none
  | turns + 1, mask =>
    if countBits mask ≠ planes then tryApart ent colormapEntries count planes turns (mask + 1)
    else do
      let entries := word (colormapEntries + 2 ^ 32 - mask)
      let base := lowbit mask
      match ← searchApart ent count mask base entries (ent.length + 1) 0 [] with
      | some found => do
        let (ent, others) ← allocAllApart mask base found.reverse ent
        pure (some (ent, found ++ others, mask))
      | none => tryApart ent colormapEntries count planes turns (mask + 1)

def allocCP (visual : Visual) (ent : List Entry) (count planes : Nat) (contig : Bool) :
    Except Fault Result :=
  let dplanes := visual.nplanes
  if planes = 0 then do
    let (ent, pixels) ← allocCells count ent 0
    pure (some (ent, pixels, 0))
  else if planes > dplanes then pure none
  else if 32 ≤ planes then .error .shift
  else do
    match ← tryContig ent visual.colormapEntries count (dplanes - (planes - 1))
      (2 ^ planes - 1) 1 with
    | some r => pure (some r)
    | none =>
      if contig ∨ planes = 1 ∨ dplanes < 3 then pure none
      -- the last shift is by `dplanes - planes - 1`
      else if dplanes < planes + 1 then .error .shift
      else
        let finalmask := word (word ((2 ^ (planes - 1) - 1) * 2 ^ (dplanes - planes + 1)) +
          2 ^ (dplanes - planes - 1))
        let mask := word (3 * 2 ^ (planes - 1)) - 1
        tryApart ent visual.colormapEntries count planes (finalmask + 1 - mask) mask

end Xfront.Colormap
