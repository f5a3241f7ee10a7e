import Xfront.Glyphs.Model

/-!
# The requests on glyph sets

Glyph sets are kept by the allocation they came from and named by resource ids; the
last resource that goes away frees the set.
-/

namespace Xfront.Glyphs

open Probing (Slot entries)

structure State where
  store : Store
  sets : List (Option GlyphSet)
  resources : List (Nat × Nat)

def State.init : State := ⟨Store.init, [], []⟩

def State.lookup (s : State) (xid : Nat) : Option (Nat × GlyphSet) :=
  (s.resources.find? (·.1 = xid)).bind fun r => (s.sets[r.2]?.join).map fun set => (r.2, set)

inductive Result where
  | success
  | badIDChoice
  | badGlyphSet (xid : Nat)
  | badGlyph (id : Nat)
  | badAlloc
  | badLength
  | badAccess
  deriving DecidableEq

def freeSlots (st : Store) (fdepth : Nat) : List (Slot Nat) → Option Store
  | [] => some st
  | .used _ g :: table => (freeGlyph st g fdepth).bind fun st => freeSlots st fdepth table
  | _ :: table => freeSlots st fdepth table

/-- Gives up a reference to a set. `memory` is for the global table, which is made
smaller where it can be. -/
def freeGlyphSet (s : State) (p : Nat) (memory : Bool) : Option State :=
  (s.sets[p]?.join).bind fun set =>
    if set.refcnt - 1 ≠ 0 then
      some { s with sets := s.sets.set p (some { set with refcnt := set.refcnt - 1 }) }
    else
      (freeSlots s.store set.fdepth set.hash.table).bind fun st =>
        let hash := st.globalGlyphs set.fdepth
        let resized :=
          if hash.tableEntries = 0 then some { hash with
            table := []
            hashSet := .none }
          else (resizeGlyphHash st.glyphs hash 0 true memory).map Prod.fst
        resized.map fun hash =>
          { s with
            store := st.setGlobal set.fdepth hash
            sets := s.sets.set p .none }

/-- `FreeResource`: the resource goes and its delete function is called. -/
def freeResource (s : State) (xid p : Nat) (memory : Bool) : Option State :=
  freeGlyphSet { s with resources := s.resources.filter (·.1 ≠ xid) } p memory

/-- What `RenderCreateGlyphSet` is given: memory for the global table, the set and its
table, the security hook's consent, and room for the resource. -/
structure CreateSupply where
  global : Bool
  set : Bool
  table : Bool
  access : Bool
  resource : Bool
  resize : Bool

def allocateGlyphSet (st : Store) (fdepth depth : Nat) (supply : CreateSupply) :
    Store × Option GlyphSet :=
  let made : Option Store :=
    if (st.globalGlyphs fdepth).hashSet = .none then
      (allocateGlyphHash glyphHashSets.head? supply.global).map fun hash =>
        st.setGlobal fdepth hash
    else some st
  match made with
  | .none => (st, .none)
  | some st =>
    if supply.set then
      (st, (allocateGlyphHash glyphHashSets.head? supply.table).map fun hash =>
        ⟨1, fdepth, depth, hash⟩)
    else (st, .none)

def createGlyphSet (s : State) (xid fdepth depth : Nat) (supply : CreateSupply) :
    Option (State × Result) :=
  if (s.resources.any (·.1 = xid)) then some (s, .badIDChoice)
  else
    match allocateGlyphSet s.store fdepth depth supply with
    | (st, .none) => some ({ s with store := st }, .badAlloc)
    | (st, some set) =>
      let p := s.sets.length
      let made := { s with
        store := st
        sets := s.sets ++ [some set] }
      if !supply.access then (freeGlyphSet made p supply.resize).map fun s => (s, .badAccess)
      else if !supply.resource then (freeGlyphSet made p supply.resize).map fun s => (s, .badAlloc)
      else some ({ made with resources := (xid, p) :: s.resources }, .success)

def referenceGlyphSet (s : State) (xid existing : Nat) (resource memory : Bool) :
    Option (State × Result) :=
  if (s.resources.any (·.1 = xid)) then some (s, .badIDChoice)
  else
    match s.lookup existing with
    | .none => some (s, .badGlyphSet existing)
    | some (p, set) =>
      let counted := { s with
        sets := s.sets.set p (some { set with refcnt := set.refcnt + 1 }) }
      if resource then some ({ counted with resources := (xid, p) :: s.resources }, .success)
      else (freeGlyphSet counted p memory).map fun s => (s, .badAlloc)

def freeGlyphSetRequest (s : State) (xid : Nat) (memory : Bool) : Option (State × Result) :=
  match s.lookup xid with
  | .none => some (s, .badGlyphSet xid)
  | some (p, _) => (freeResource s xid p memory).map fun s => (s, .success)

def sizeofGlyphRec : Nat := 56

/-- The images of a request, as far as its data goes, and whether it goes exactly to
the end of the last. -/
def readImages (pixmapBytePad : Nat → Nat → Nat) (depth : Nat) :
    List (Nat × GlyphInfo) → List (BitVec 8) → List (Nat × Image) × Bool
  | [], bits => ([], bits.isEmpty)
  | (id, gi) :: gis, bits =>
    let paddedWidth := pixmapBytePad gi.width.toNat depth
    if gi.height ≠ 0 ∧ (2 ^ 32 - 1 - sizeofGlyphRec) / gi.height.toNat < paddedWidth then
      ([], false)
    else
      let size := gi.height.toNat * paddedWidth
      if bits.length < size then ([], false)
      else
        let read := readImages pixmapBytePad depth gis (bits.drop (size + (4 - size % 4) % 4))
        ((id, gi, bits.take size) :: read.1, read.2)

def sizeofGlyphNewRec : Nat := 40

/-- What `RenderAddGlyphs` is given: memory for its array, for each glyph a hash, memory
and a picture on each screen, and room in the tables. -/
structure AddSupply where
  array : Bool
  hash : Nat → Bool
  glyph : Nat → Bool
  picture : Nat → Bool
  resizeSet : Bool
  resizeGlobal : Bool

section

variable (hashGlyph : Image → Sha1)

/-- The first loop of the request, from its `i`-th image on: the glyphs it holds a
reference of, and whether it came to the end. -/
def collect (supply : AddSupply) (fdepth : Nat) :
    Nat → Store → List (Nat × Image) → Option (Store × List (Nat × Nat) × Bool)
  | _, st, [] => some (st, [], true)
  | i, st, (id, image) :: images =>
    let next st g := (collect supply fdepth (i + 1) st images).map fun (st, glyphs, ok) =>
      (st, (id, g) :: glyphs, ok)
    if supply.hash i then
      (findGlyphByHash st (hashGlyph image) fdepth).bind fun
      | some g =>
        (st.glyphs g).bind fun glyph =>
          next (st.setGlyph g (some { glyph with refcnt := glyph.refcnt + 1 })) g
      | .none =>
        if supply.glyph i then
          if supply.picture i then
            let made := allocateGlyph st fdepth (hashGlyph image)
            next made.1 made.2
          else
            -- the glyph is there without its hash when its picture cannot be made
            let made := allocateGlyph st fdepth 0
            some (made.1, [(0, made.2)], false)
        else some (st, [], false)
    else some (st, [], false)

end

def bail (st : Store) (fdepth : Nat) : List (Nat × Nat) → Option Store
  | [] => some st
  | (_, g) :: glyphs => (freeGlyph st g fdepth).bind fun st => bail st fdepth glyphs

def addAll (st : Store) (glyphSet : GlyphSet) : List (Nat × Nat) → Option (Store × GlyphSet)
  | [] => some (st, glyphSet)
  | (id, g) :: glyphs =>
    (addGlyph st glyphSet g id).bind fun (st, glyphSet) =>
      (freeGlyph st g glyphSet.fdepth).bind fun st => addAll st glyphSet glyphs

def resizeGlyphSet (st : Store) (glyphSet : GlyphSet) (change : Nat) (supply : AddSupply) :
    Option (Store × GlyphSet × Bool) :=
  (resizeGlyphHash st.glyphs glyphSet.hash change false supply.resizeSet).bind fun (hash, ok) =>
    let glyphSet := { glyphSet with hash }
    if ok then
      (resizeGlyphHash st.glyphs (st.globalGlyphs glyphSet.fdepth) change true
        supply.resizeGlobal).map fun (hash, ok) =>
        (st.setGlobal glyphSet.fdepth hash, glyphSet, ok)
    else some (st, glyphSet, false)

structure AddGlyphsReq where
  glyphset : Nat
  glyphs : List (Nat × GlyphInfo)
  bits : List (BitVec 8)
  supply : AddSupply

def State.setSet (s : State) (p : Nat) (st : Store) (set : GlyphSet) : State :=
  { s with
    store := st
    sets := s.sets.set p (some set) }

def addGlyphs (hashGlyph : Image → Sha1) (pixmapBytePad : Nat → Nat → Nat) (s : State)
    (stuff : AddGlyphsReq) : Option (State × Result) :=
  match s.lookup stuff.glyphset with
  | .none => some (s, .badGlyphSet stuff.glyphset)
  | some (p, set) =>
    let nglyphs := stuff.glyphs.length
    if (2 ^ 32 - 1) / sizeofGlyphNewRec < nglyphs ∨ 256 < nglyphs ∧ stuff.supply.array = false then
      some (s, .badAlloc)
    else
    let (images, complete) := readImages pixmapBytePad set.depth stuff.glyphs stuff.bits
    (collect hashGlyph stuff.supply set.fdepth 0 s.store images).bind fun (st, glyphs, ok) =>
      if ok && complete then
        (resizeGlyphSet st set nglyphs stuff.supply).bind fun (st, set, room) =>
          if room then
            (addAll st set glyphs).map fun (st, set) => (s.setSet p st set, .success)
          else
            (bail st set.fdepth glyphs).map fun st => (s.setSet p st set, .badAlloc)
      else
        (bail st set.fdepth glyphs).map fun st =>
          (s.setSet p st set, if ok then .badLength else .badAlloc)

def deleteAll (st : Store) (glyphSet : GlyphSet) :
    List Nat → Option (Store × GlyphSet × Result)
  | [] => some (st, glyphSet, .success)
  | id :: gids =>
    (deleteGlyph st glyphSet id).bind fun (st, glyphSet, found) =>
      if found then deleteAll st glyphSet gids else some (st, glyphSet, .badGlyph id)

def freeGlyphs (s : State) (glyphset : Nat) (gids : List Nat) : Option (State × Result) :=
  match s.lookup glyphset with
  | .none => some (s, .badGlyphSet glyphset)
  | some (p, set) =>
    (deleteAll s.store set gids).map fun (st, set, result) => (s.setSet p st set, result)

inductive Request where
  | create (xid fdepth depth : Nat) (supply : CreateSupply)
  | reference (xid existing : Nat) (resource memory : Bool)
  | add (stuff : AddGlyphsReq)
  | free (glyphset : Nat) (gids : List Nat)
  | freeSet (xid : Nat) (memory : Bool)

def step (hashGlyph : Image → Sha1) (pixmapBytePad : Nat → Nat → Nat) (s : State) :
    Request → Option (State × Result)
  | .create xid fdepth depth supply => createGlyphSet s xid fdepth depth supply
  | .reference xid existing resource memory => referenceGlyphSet s xid existing resource memory
  | .add stuff => addGlyphs hashGlyph pixmapBytePad s stuff
  | .free glyphset gids => freeGlyphs s glyphset gids
  | .freeSet xid memory => freeGlyphSetRequest s xid memory

end Xfront.Glyphs
