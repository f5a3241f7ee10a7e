import Xfront.Lib.Probing

/-!
# Shared glyphs

Glyphs, glyph sets and the global tables of `render/glyph.c`, and the requests of
`render/render.c` that change them. A pointer is the number of the allocation it came
from; `none` as the result of a call is a dereference of `NULL` or of freed memory, or
a search that does not end. What may fail (an allocation, a hash, a picture) is given
with each request.
-/

namespace Xfront.Glyphs
open Function

open Probing (Slot entries)

abbrev Sha1 := BitVec 160

def signature (sha1 : Sha1) : Nat := (sha1.setWidth 32).toNat

structure GlyphInfo where
  width : BitVec 16
  height : BitVec 16
  x : BitVec 16
  y : BitVec 16
  xOff : BitVec 16
  yOff : BitVec 16
  deriving DecidableEq

abbrev Image := GlyphInfo × List (BitVec 8)

structure Glyph where
  refcnt : Nat
  sha1 : Sha1
  fdepth : Nat

structure GlyphHashSet where
  entries : Nat
  size : Nat
  rehash : Nat
  deriving DecidableEq

def glyphHashSets : List GlyphHashSet :=
  [⟨32, 43, 41⟩, ⟨64, 73, 71⟩, ⟨128, 151, 149⟩, ⟨256, 283, 281⟩, ⟨512, 571, 569⟩,
    ⟨1024, 1153, 1151⟩, ⟨2048, 2269, 2267⟩, ⟨4096, 4519, 4517⟩, ⟨8192, 9013, 9011⟩,
    ⟨16384, 18043, 18041⟩, ⟨32768, 36109, 36107⟩, ⟨65536, 72091, 72089⟩,
    ⟨131072, 144409, 144407⟩, ⟨262144, 288361, 288359⟩, ⟨524288, 576883, 576881⟩,
    ⟨1048576, 1153459, 1153457⟩, ⟨2097152, 2307163, 2307161⟩, ⟨4194304, 4613893, 4613891⟩,
    ⟨8388608, 9227641, 9227639⟩, ⟨16777216, 18455029, 18455027⟩,
    ⟨33554432, 36911011, 36911009⟩, ⟨67108864, 73819861, 73819859⟩,
    ⟨134217728, 147639589, 147639587⟩, ⟨268435456, 295279081, 295279079⟩,
    ⟨536870912, 590559793, 590559791⟩]

def findGlyphHashSet (filled : Nat) : Option GlyphHashSet :=
  glyphHashSets.find? fun hashSet => decide (filled ≤ hashSet.entries)

structure GlyphHash where
  table : List (Slot Nat)
  hashSet : Option GlyphHashSet
  tableEntries : Nat

def GlyphHash.none : GlyphHash := ⟨[], .none, 0⟩

structure GlyphSet where
  refcnt : Nat
  fdepth : Nat
  depth : Nat
  hash : GlyphHash

structure Store where
  glyphs : Nat → Option Glyph
  allocated : Nat
  globalGlyphs : Nat → GlyphHash

def Store.init : Store := ⟨fun _ => .none, 0, fun _ => GlyphHash.none⟩

def sameGlyph (glyphs : Nat → Option Glyph) (sha1 : Option Sha1) (glyph : Nat) : Bool :=
  match sha1 with
  | .none => true
  | some sha1 => decide ((glyphs glyph).map Glyph.sha1 = some sha1)

def findGlyphRef (glyphs : Nat → Option Glyph) (hash : GlyphHash) (signature : Nat)
    (sha1 : Option Sha1) : Option Nat :=
  hash.hashSet.bind fun hashSet =>
    Probing.find hash.table hashSet.rehash signature (sameGlyph glyphs sha1)

def GlyphHash.glyphAt (hash : GlyphHash) (gr : Nat) : Option Nat :=
  match hash.table[gr]? with
  | some (.used _ glyph) => some glyph
  | _ => .none

def allocateGlyphHash (hashSet : Option GlyphHashSet) (memory : Bool) : Option GlyphHash :=
  hashSet.bind fun hashSet =>
    if memory then some ⟨Probing.new hashSet.size, some hashSet, 0⟩ else .none

def resizeGlyphHash (glyphs : Nat → Option Glyph) (hash : GlyphHash) (change : Nat) (global : Bool)
    (memory : Bool) : Option (GlyphHash × Bool) :=
  let hashSet := findGlyphHashSet ((hash.tableEntries + change) % 2 ^ 32)
  if hashSet = hash.hashSet then some (hash, true)
  else
    match allocateGlyphHash hashSet memory, hashSet with
    | some newHash, some hashSet =>
      let same glyph := sameGlyph glyphs (if global then (glyphs glyph).map Glyph.sha1 else .none)
      (Probing.moveInto hashSet.rehash same newHash.table hash.table).map fun table =>
        ({ newHash with
            table
            tableEntries := (entries hash.table).length }, true)
    | _, _ => some (hash, false)

def Store.setGlyph (st : Store) (g : Nat) (glyph : Option Glyph) : Store :=
  { st with glyphs := update st.glyphs g glyph }

def Store.setGlobal (st : Store) (fdepth : Nat) (hash : GlyphHash) : Store :=
  { st with globalGlyphs := update st.globalGlyphs fdepth hash }

def findGlyphByHash (st : Store) (sha1 : Sha1) (format : Nat) : Option (Option Nat) :=
  let hash := st.globalGlyphs format
  if hash.hashSet = .none then some .none
  else (findGlyphRef st.glyphs hash (signature sha1) (some sha1)).map hash.glyphAt

def GlyphHash.delete (hash : GlyphHash) (gr : Nat) : GlyphHash :=
  { hash with
    table := hash.table.set gr .deleted
    tableEntries := hash.tableEntries - 1 }

def GlyphHash.put (hash : GlyphHash) (gr signature glyph : Nat) : GlyphHash :=
  { hash with table := hash.table.set gr (.used signature glyph) }

def GlyphHash.store (hash : GlyphHash) (gr signature glyph : Nat) : GlyphHash :=
  { hash.put gr signature glyph with tableEntries := hash.tableEntries + 1 }

def freeGlyph (st : Store) (g : Nat) (format : Nat) : Option Store :=
  (st.glyphs g).bind fun glyph =>
    if glyph.refcnt = 0 then some st
    else if glyph.refcnt - 1 = 0 then
      let hash := st.globalGlyphs format
      -- the last reference is dropped: the glyph is unlinked by what it shows
      (findGlyphRef st.glyphs hash (signature glyph.sha1) (some glyph.sha1)).map fun gr =>
        (if (hash.glyphAt gr).isSome then st.setGlobal format (hash.delete gr) else st).setGlyph g
          .none
    else some (st.setGlyph g (some { glyph with refcnt := glyph.refcnt - 1 }))

def listGlyph (st : Store) (fdepth g : Nat) : Option (Store × Nat) :=
  (st.glyphs g).bind fun glyph =>
    let hash := st.globalGlyphs fdepth
    (findGlyphRef st.glyphs hash (signature glyph.sha1) (some glyph.sha1)).map fun gr =>
      match hash.glyphAt gr with
      | some other => (st, other)
      | .none => (st.setGlobal fdepth (hash.store gr (signature glyph.sha1) g), g)

def addGlyph (st : Store) (glyphSet : GlyphSet) (g id : Nat) : Option (Store × GlyphSet) :=
  (listGlyph st glyphSet.fdepth g).bind fun (st, g) =>
    (findGlyphRef st.glyphs glyphSet.hash id .none).bind fun gr =>
      (st.glyphs g).bind fun glyph =>
        let st := st.setGlyph g (some { glyph with refcnt := glyph.refcnt + 1 })
        match glyphSet.hash.glyphAt gr with
        | some old =>
          (freeGlyph st old glyphSet.fdepth).map fun st =>
            (st, { glyphSet with hash := glyphSet.hash.put gr id g })
        | .none => some (st, { glyphSet with hash := glyphSet.hash.store gr id g })

def deleteGlyph (st : Store) (glyphSet : GlyphSet) (id : Nat) :
    Option (Store × GlyphSet × Bool) :=
  (findGlyphRef st.glyphs glyphSet.hash id .none).bind fun gr =>
    match glyphSet.hash.glyphAt gr with
    | some g =>
      (freeGlyph st g glyphSet.fdepth).map fun st =>
        (st, { glyphSet with hash := glyphSet.hash.delete gr }, true)
    | .none => some (st, glyphSet, false)

/-- `AllocateGlyph`: one reference, no image yet. -/
def allocateGlyph (st : Store) (fdepth : Nat) (sha1 : Sha1) : Store × Nat :=
  ({ st.setGlyph st.allocated (some ⟨1, sha1, fdepth⟩) with allocated := st.allocated + 1 },
    st.allocated)

end Xfront.Glyphs
