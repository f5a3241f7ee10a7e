import Xfront.Colormap.Model

/-!
# Color planes of a map with one channel (dix/colormap.c)

`AllocColorPlanes` for a PseudoColor or GrayScale map, the shared colors that `AllocShared` hangs
into the new cells, and `FreeCell`. A shared color is its counter, and `none` once it is freed; its
address is its place. The allocations succeed.
-/

namespace Xfront.Colormap

inductive Component where
  | red
  | green
  | blue
  deriving DecidableEq

structure Colormap where
  visual : Visual
  red : List Entry
  freeRed : Int
  clientPixelsRed : Nat → List Nat
  shared : List (Option Int)

/-- What `AllocColorPlanes` returns, and the client's new pixels. -/
structure Planes where
  pixels : List Nat
  ppixFirst : List Nat
  rmask : Nat
  gmask : Nat
  bmask : Nat
  deriving DecidableEq

def int (n : Nat) : Int := Int.bmod n (2 ^ 32)

def short (n : Nat) : Int := Int.bmod n (2 ^ 16)

def Shco.get (co : Shco) : Component → Option Nat
  | .red => co.red
  | .green => co.green
  | .blue => co.blue

def Entry.point (e : Entry) (pshared : Nat) : Component → Entry
  | .red => { e with fShared := true, co := { e.co with red := some pshared } }
  | .green => { e with co := { e.co with green := some pshared } }
  | .blue => { e with co := { e.co with blue := some pshared } }

def allocPseudo (client : Nat) (pmap : Colormap) (c r : Nat) (contig : Bool) :
    Except Fault (Option (Colormap × List Nat × Nat × List Nat)) :=
  let npix := int (c * 2 ^ r)
  if 32 ≤ r ∨ npix > pmap.freeRed ∨ npix < c then pure none
  else do
    match ← allocCP pmap.visual pmap.red c r contig with
    | none => pure none
    | some (red, ppixTemp, mask) =>
      let pmap := { pmap with
        red := red
        freeRed := pmap.freeRed - npix
        clientPixelsRed := fun k =>
          if k = client then pmap.clientPixelsRed k ++ ppixTemp else pmap.clientPixelsRed k }
      pure (some (pmap, ppixTemp.take c, mask, ppixTemp))

def nextBit (mask : Nat) : Nat → Nat → Except Fault Nat
  | 0, _ => .error .unfinished
  | fuel + 1, shift =>
    if mask &&& shift = 0 then nextBit mask fuel (word (shift + shift)) else pure shift

def takeBits (mask : Nat) : Nat → Nat → Nat → Except Fault (Nat × Nat)
  | 0, shift, bits => pure (bits, shift)
  | i + 1, shift, bits => do
    let shift ← nextBit mask 33 shift
    takeBits mask i (word (shift + shift)) (bits ||| shift)

structure Shares where
  ent : List Entry
  shared : List (Option Int)
  ppshared : List Nat

def setShared (comp : Component) (pshared basemask want : Nat) : List Nat → List Entry →
    Except Fault (List Entry)
  | [], ent => pure ent
  | cptr :: cells, ent =>
    if cptr &&& basemask = want then
      match ent[cptr]? with
      | some e => setShared comp pshared basemask want cells (ent.set cptr (e.point pshared comp))
      | none => .error .outside
    else setShared comp pshared basemask want cells ent

def nextShared (comp : Component) (cells : List Nat) (basemask want : Nat) (refcnt : Int)
    (s : Shares) : Except Fault Shares :=
  match s.ppshared with
  | [] => .error .outside
  | pshared :: ppshared => do
    let ent ← setShared comp pshared basemask want cells s.ent
    pure ⟨ent, s.shared.set pshared (some refcnt), ppshared⟩

def shareBits (comp : Component) (cells : List Nat) (mask base basemask common : Nat)
    (refcnt : Int) : Nat → Nat → Shares → Except Fault Shares
  | 0, _, _ => .error .unfinished
  | fuel + 1, bits, s => do
    let s ← nextShared comp cells basemask (common ||| bits) refcnt s
    if bits = mask then pure s
    else shareBits comp cells mask base basemask common refcnt fuel (getNextBits bits mask base) s

/-- One component below one pixel: the counter is `masked` if it has planes, else `unmasked`. -/
def shareComponent (comp : Component) (cells : List Nat) (mask others masked unmasked pixel : Nat)
    (s : Shares) : Except Fault Shares :=
  let basemask := complement others
  let common := pixel &&& basemask
  if mask ≠ 0 then
    shareBits comp cells mask (lowbit mask) basemask common (short masked) (mask + 1) 0 s
  else nextShared comp cells basemask common (short unmasked) s

def sharePixel (cells : List Nat) (r g b rmask gmask bmask pixel : Nat) (s : Shares) :
    Except Fault Shares := do
  let s ← shareComponent .red cells rmask (gmask ||| bmask) (2 ^ (g + b)) (2 ^ (g + b)) pixel s
  let s ← shareComponent .green cells gmask (rmask ||| bmask) (2 ^ (r + b)) (2 ^ (g + b)) pixel s
  shareComponent .blue cells bmask (rmask ||| gmask) (2 ^ (r + g)) (2 ^ (g + b)) pixel s

def shareAll (cells : List Nat) (r g b rmask gmask bmask : Nat) : List Nat → Shares →
    Except Fault Shares
  | [], s => pure s
  | pixel :: pixels, s => do
    let s ← sharePixel cells r g b rmask gmask bmask pixel s
    shareAll cells r g b rmask gmask bmask pixels s

def allocShared (pmap : Colormap) (ppix : List Nat) (c r g b rmask gmask bmask : Nat)
    (ppixFirst : List Nat) : Except Fault Colormap := do
  let npixClientNew := c * 2 ^ (r + g + b)
  let npixShared := c * 2 ^ r + c * 2 ^ g + c * 2 ^ b
  let start : Shares :=
    { ent := pmap.red
      shared := pmap.shared ++ List.replicate npixShared (some 0)
      ppshared := List.range' pmap.shared.length npixShared }
  let s ← shareAll (ppixFirst.take npixClientNew) r g b rmask gmask bmask (ppix.take c) start
  pure { pmap with red := s.ent, shared := s.shared }

/-- `none` is `BadAlloc`. -/
def allocColorPlanes (client : Nat) (pmap : Colormap) (colors r g b : Nat) (contig : Bool) :
    Except Fault (Option (Colormap × Planes)) := do
  match ← allocPseudo client pmap colors (r + g + b) contig with
  | none => pure none
  | some (pmap, pixels, mask, ppixFirst) => do
    let (rmask, shift) ← takeBits mask r 1 0
    let (gmask, shift) ← takeBits mask g shift 0
    let (bmask, _) ← takeBits mask b shift 0
    let pmap ← allocShared pmap pixels colors r g b rmask gmask bmask ppixFirst
    pure (some (pmap, ⟨pixels, ppixFirst, rmask, gmask, bmask⟩))

def release (shared : List (Option Int)) : Option Nat → Except Fault (List (Option Int))
  | none => .error .freed
  | some pshared =>
    match shared[pshared]? with
    | some (some n) => .ok (shared.set pshared (if n - 1 = 0 then none else some (n - 1)))
    | _ => .error .freed

def freeCell (pmap : Colormap) (i : Nat) : Except Fault Colormap := do
  let e ← cell pmap.red i
  if e.refcnt > 1 then
    pure { pmap with red := pmap.red.set i { e with refcnt := e.refcnt - 1 } }
  else if e.fShared then do
    let shared ← release pmap.shared e.co.red
    let shared ← release shared e.co.green
    let shared ← release shared e.co.blue
    pure { pmap with
      red := pmap.red.set i { e with refcnt := 0, fShared := false }
      freeRed := pmap.freeRed + 1
      shared := shared }
  else
    pure { pmap with
      red := pmap.red.set i { e with refcnt := 0 }
      freeRed := pmap.freeRed + 1 }

def freeCellsOf : List Nat → Colormap → Except Fault Colormap
  | [], pmap => pure pmap
  | i :: cells, pmap => do
    let pmap ← freeCell pmap i
    freeCellsOf cells pmap

end Xfront.Colormap
