import Xfront.Lib.SearchTree

/-!
# Atoms (dix/atom.c)

`MakeAtom` with its tree and `NameForAtom` with the node table. A name is a list of
bytes, as `ProcInternAtom` passes it; a node keeps it as a C string. The outcomes of the
allocations are arguments.
-/

namespace Xfront.Atom
open List

abbrev Name := List UInt8

structure NodeRec where
  a : Nat
  fingerPrint : BitVec 32
  string : Name

/-- `nodeTable` has `tableLength` entries, of which the written ones have a name. -/
structure Atoms where
  lastAtom : Nat
  atomRoot : Tree NodeRec
  nodeTable : List (Option Name)

def initialTableSize : Nat := 256

def lastPredefined : Nat := 68

/-- The C string in a buffer, as `strndup` copies it. -/
def cstr (s : Name) : Name := s.takeWhile (· ≠ 0)

/-- `strncmp`; behind the end of a C string is its zero byte. -/
def strncmp : Nat → Name → Name → Int
  | 0, _, _ => 0
  | n + 1, s, t =>
    if s.headD 0 ≠ t.headD 0 then (s.headD 0).toNat - (t.headD 0).toNat
    else if s.headD 0 = 0 then 0
    else strncmp n s.tail t.tail

/-! ### `MakeAtom` (`atom.c:75-137`) -/

/-- A `char`, which has a sign, as `unsigned int`. -/
def byteAt (string : Name) (i : Nat) : BitVec 32 := (string.getD i 0).toBitVec.signExtend 32

def fingerPrint (string : Name) : BitVec 32 :=
  (range ((string.length + 1) / 2)).foldl
    (fun fp i => (fp * 27 + byteAt string i) * 27 + byteAt string (string.length - 1 - i)) 0

def side (string : Name) (fp : BitVec 32) (node : NodeRec) : Ordering :=
  if fp < node.fingerPrint then .lt
  else if node.fingerPrint < fp then .gt
  else
    let comp := strncmp string.length string node.string
    if comp < 0 ∨ (comp = 0 ∧ string.length < node.string.length) then .lt
    else if 0 < comp then .gt
    else .eq

def makeAtom (s : Atoms) (string : Name) (makeit nodeAllocated stringAllocated
    tableAllocated : Bool) : Option Nat × Atoms :=
  let fp := fingerPrint string
  match s.atomRoot.find (side string fp) with
  | some node => (some node.a, s)
  | none =>
    if makeit then
      if ¬ nodeAllocated then (none, s)
      -- the built-in names are not copied
      else if ¬ s.lastAtom < lastPredefined ∧ ¬ stringAllocated then (none, s)
      else if s.lastAtom + 1 ≥ s.nodeTable.length ∧ ¬ tableAllocated then (none, s)
      else
        let table := if s.lastAtom + 1 ≥ s.nodeTable.length then
            s.nodeTable ++ replicate s.nodeTable.length none
          else s.nodeTable
        let a := s.lastAtom + 1
        (some a, {
          lastAtom := a
          atomRoot := s.atomRoot.link (side string fp) ⟨a, fp, cstr string⟩
          nodeTable := table.set a (some (cstr string)) })
    else (some 0, s)

/-! ### `NameForAtom` (`atom.c:145-155`) -/

def nameForAtom (s : Atoms) (atom : Nat) : Option Name :=
  if s.lastAtom < atom then none else (s.nodeTable[atom]?).join

/-! ### `InitAtoms` (`atom.c:186-198`) -/

def builtInAtoms : List String :=
  ["PRIMARY", "SECONDARY", "ARC", "ATOM", "BITMAP", "CARDINAL", "COLORMAP", "CURSOR",
    "CUT_BUFFER0", "CUT_BUFFER1", "CUT_BUFFER2", "CUT_BUFFER3", "CUT_BUFFER4", "CUT_BUFFER5",
    "CUT_BUFFER6", "CUT_BUFFER7", "DRAWABLE", "FONT", "INTEGER", "PIXMAP", "POINT", "RECTANGLE",
    "RESOURCE_MANAGER", "RGB_COLOR_MAP", "RGB_BEST_MAP", "RGB_BLUE_MAP", "RGB_DEFAULT_MAP",
    "RGB_GRAY_MAP", "RGB_GREEN_MAP", "RGB_RED_MAP", "STRING", "VISUALID", "WINDOW",
    "WM_COMMAND", "WM_HINTS", "WM_CLIENT_MACHINE", "WM_ICON_NAME", "WM_ICON_SIZE", "WM_NAME",
    "WM_NORMAL_HINTS", "WM_SIZE_HINTS", "WM_ZOOM_HINTS", "MIN_SPACE", "NORM_SPACE", "MAX_SPACE",
    "END_SPACE", "SUPERSCRIPT_X", "SUPERSCRIPT_Y", "SUBSCRIPT_X", "SUBSCRIPT_Y",
    "UNDERLINE_POSITION", "UNDERLINE_THICKNESS", "STRIKEOUT_ASCENT", "STRIKEOUT_DESCENT",
    "ITALIC_ANGLE", "X_HEIGHT", "QUAD_WIDTH", "WEIGHT", "POINT_SIZE", "RESOLUTION", "COPYRIGHT",
    "NOTICE", "FONT_NAME", "FAMILY_NAME", "FULL_NAME", "CAP_HEIGHT", "WM_CLASS",
    "WM_TRANSIENT_FOR"]

def bytesOf (s : String) : Name := s.toList.map fun c => UInt8.ofNat c.toNat

/-- `MakePredeclaredAtoms`; every allocation succeeds. -/
def makePredeclaredAtoms (s : Atoms) : Atoms :=
  builtInAtoms.foldl (fun s name => (makeAtom s (bytesOf name) true true true true).2) s

def initAtoms : Atoms :=
  makePredeclaredAtoms ⟨0, .nil, replicate initialTableSize none⟩

end Xfront.Atom
