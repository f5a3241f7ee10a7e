import Xfront.Lib.Bytes

/-!
# Keymap files (Xext/xkeyboard/xkmread.c)

`XkmReadFile` over the readers of the sections, which give -1 or a number of bytes. It keeps
what they give in an `unsigned` variable and takes everything above 0 for a success.
-/

namespace Xfront.Xkm
open Xfront.Bytes List

/-- An `xkmSectionInfo`. -/
structure SectionInfo where
  type : Nat
  format : Nat
  size : Nat
  offset : Nat
  deriving DecidableEq

/-- What a reader gives, where `none` is -1. -/
abbrev Result : Type := Option (Fin (2 ^ 31))

/-- The assignment to the `unsigned tmp`. -/
def asUnsigned : Result → BitVec 32
  | none => BitVec.ofInt 32 (-1)
  | some n => BitVec.ofNat 32 n.val

/-- An open file with the byte order of the host. The readers work at a place in it; `beyond` is
what lies behind the 16 entries of `toc`. -/
structure File (K : Type) where
  bigEndian : Bool
  bytes : List Byte
  beyond : Nat → SectionInfo
  reader : Nat → List Byte → Nat → K → Result × K

/-- The keyboard description: `defined` and all that the readers fill in. -/
structure XkbDesc (K : Type) where
  defined : BitVec 32
  rest : K

/-- `which`, the description and the stale `tmpTOC`; `calls` are the readers that were called
with what they gave, which the source does not keep. -/
structure State (K : Type) where
  which : BitVec 32
  xkb : XkbDesc K
  tmpTOC : List Byte
  calls : List (Nat × Result)

variable {K : Type}

def sectionInfo (be : Bool) (bs : List Byte) (off : Nat) : SectionInfo :=
  ⟨wordAt16 be bs off, wordAt16 be bs (off + 2), wordAt16 be bs (off + 4),
    wordAt16 be bs (off + 6)⟩

/-- `fread` into `tmpTOC`, which keeps what the file is too short for. -/
def State.loaded (s : State K) (rest : List Byte) : State K :=
  { s with tmpTOC := rest.take 8 ++ s.tmpTOC.drop (rest.take 8).length }

/-- What the loop makes of what a reader gives. -/
def State.called (s : State K) (type : Nat) (given : Result × K) : State K :=
  let s := { s with
    xkb := { s.xkb with rest := given.2 }
    calls := s.calls ++ [(type, given.1)] }
  let tmp := asUnsigned given.1
  if 0 < tmp then
    { s with
      which := s.which &&& ~~~BitVec.twoPow 32 type
      xkb := { s.xkb with defined := s.xkb.defined ||| BitVec.twoPow 32 type } }
  else s

namespace File
variable (f : File K)

def hdr : Nat := ((120 * 256 + 107) * 256 + 109) * 256 + 15

def numToc : Nat := (f.bytes.getD 7 0).val

def present : BitVec 32 := BitVec.ofNat 32 (wordAt16 f.bigEndian f.bytes 8)

def maxToc : Nat := 16

/-- `XkmReadTOC` succeeds. -/
def readTOC : Bool :=
  4 ≤ f.bytes.length ∧ wordAt32 f.bigEndian f.bytes 0 = hdr ∧
    12 + 8 * min f.numToc maxToc ≤ f.bytes.length

def toc (i : Nat) : SectionInfo :=
  if i < maxToc then sectionInfo f.bigEndian f.bytes (12 + 8 * i) else f.beyond i

/-- The sections with a reader: types, compat map, symbols, indicators, key names, geometry and
virtual modifiers. -/
def lastIndex : Nat := 6

/-- The rest of the loop, from entry `i`. -/
def readSections : Nat → Nat → State K → State K
  | 0, _, s => s
  | n + 1, i, s =>
    let info := f.toc i
    let s := s.loaded (f.bytes.drop info.offset)
    if sectionInfo f.bigEndian s.tmpTOC 0 ≠ info then s
    else if s.which.getLsbD info.type = false then readSections n (i + 1) s
    else if lastIndex < info.type then readSections n (i + 1) s
    else
      readSections n (i + 1)
        (s.called info.type (f.reader info.type f.bytes (info.offset + 8) s.xkb.rest))

/-- The state at the end, where the header is read. -/
def readFile (need want : BitVec 32) (xkb : XkbDesc K) : Option (State K) :=
  if f.readTOC ∧ f.present &&& need = need then
    some (f.readSections f.numToc 0 ⟨need ||| want, xkb, replicate 8 0, []⟩)
  else none

end File

/-- What is missing or failed is in the mask, and what was read is marked as defined. -/
structure Reported (f : File K) (wanted : BitVec 32) (xkb : XkbDesc K) (s : State K) : Prop where
  mask : ∀ t, wanted.getLsbD t = true →
    ((∀ i < f.numToc, (f.toc i).type ≠ t) ∨ (t, none) ∈ s.calls) → s.which.getLsbD t = true
  defined : ∀ t, s.xkb.defined.getLsbD t = true ↔
    xkb.defined.getLsbD t = true ∨ ∃ n, (t, some n) ∈ s.calls ∧ 0 < n
  read : ∀ t, wanted.getLsbD t = true → s.which.getLsbD t = false →
    ∃ n, (t, some n) ∈ s.calls ∧ 0 < n

/-- The loop takes a call for a success. -/
def Counts (calls : List (Nat × Result)) (t : Nat) : Prop :=
  ∃ result, (t, result) ∈ calls ∧ 0 < asUnsigned result

theorem asUnsigned_pos (result : Result) :
    0 < asUnsigned result ↔ result = none ∨ ∃ n, result = some n ∧ 0 < n := by
  cases result with
  | none => simp [asUnsigned]
  | some n =>
    have hlt := n.isLt
    simp only [asUnsigned, BitVec.lt_def, BitVec.toNat_ofNat, reduceCtorEq, false_or,
      Option.some.injEq, exists_eq_left', Fin.lt_def]
    rw [Nat.mod_eq_of_lt (by omega)]
    rfl

theorem counts_cons {calls : List (Nat × Result)} {k t : Nat} {result : Result} :
    Counts ((k, result) :: calls) t ↔ t = k ∧ 0 < asUnsigned result ∨ Counts calls t := by
  simp only [Counts, mem_cons, Prod.mk.injEq, or_and_right, exists_or, and_assoc]
  simp

theorem getLsbD_clear {w : BitVec 32} {k t : Nat} (hk : k < 32) :
    (w &&& ~~~BitVec.twoPow 32 k).getLsbD t = true ↔ w.getLsbD t = true ∧ t ≠ k := by
  have hlt : w.getLsbD t = true → t < 32 := BitVec.lt_of_getLsbD
  rw [BitVec.getLsbD_and, BitVec.getLsbD_not, BitVec.getLsbD_twoPow, ne_comm]
  simp only [hk, decide_true, Bool.true_and, Bool.and_eq_true, Bool.not_eq_true',
    decide_eq_false_iff_not, decide_eq_true_eq]
  tauto

theorem getLsbD_mark {w : BitVec 32} {k t : Nat} (hk : k < 32) :
    (w ||| BitVec.twoPow 32 k).getLsbD t = true ↔ w.getLsbD t = true ∨ t = k := by
  rw [BitVec.getLsbD_or, BitVec.getLsbD_twoPow, eq_comm (a := t)]
  simp only [hk, decide_true, Bool.true_and, Bool.or_eq_true, decide_eq_true_eq]

theorem called_spec {s : State K} {type : Nat} (given : Result × K)
    (hwhich : s.which.getLsbD type = true) (t : Nat) :
    ((s.called type given).which.getLsbD t = true ↔
      s.which.getLsbD t = true ∧ ¬(t = type ∧ 0 < asUnsigned given.1)) ∧
    ((s.called type given).xkb.defined.getLsbD t = true ↔
      s.xkb.defined.getLsbD t = true ∨ t = type ∧ 0 < asUnsigned given.1) ∧
    (s.called type given).calls = s.calls ++ [(type, given.1)] := by
  have hlt := BitVec.lt_of_getLsbD hwhich
  unfold State.called
  dsimp only
  split_ifs with hpos
  · simp only [getLsbD_clear hlt, getLsbD_mark hlt, hpos, and_true, ne_eq, and_self]
  · simp only [hpos, and_false, not_false_eq_true, and_true, or_false, and_self]

variable {f : File K}

theorem readSections_spec (n i : Nat) (s : State K) :
    ∃ new, (f.readSections n i s).calls = s.calls ++ new ∧
      (∀ t, (f.readSections n i s).which.getLsbD t = true ↔
        s.which.getLsbD t = true ∧ ¬Counts new t) ∧
      (∀ t, (f.readSections n i s).xkb.defined.getLsbD t = true ↔
        s.xkb.defined.getLsbD t = true ∨ Counts new t) ∧
      ∀ c ∈ new, s.which.getLsbD c.1 = true ∧ ∃ j < n, (f.toc (i + j)).type = c.1 := by
  induction n generalizing i s with
  | zero => exact ⟨[], by simp [File.readSections, Counts]⟩
  | succ n ih =>
    have hnext : ∀ t, (∃ j < n, (f.toc (i + 1 + j)).type = t) →
        ∃ j < n + 1, (f.toc (i + j)).type = t := by
      rintro t ⟨j, hj, htype⟩
      exact ⟨j + 1, by omega, by rwa [← add_assoc, add_right_comm]⟩
    unfold File.readSections
    dsimp only
    generalize hs₁ : s.loaded _ = s₁
    have hwhich₁ : s₁.which = s.which := hs₁ ▸ rfl
    have hxkb₁ : s₁.xkb = s.xkb := hs₁ ▸ rfl
    have hcalls₁ : s₁.calls = s.calls := hs₁ ▸ rfl
    rw [← hwhich₁, ← hxkb₁, ← hcalls₁]
    split_ifs with hsame hunwanted hdefault
    · exact ⟨[], by simp [Counts]⟩
    · obtain ⟨new, hcalls, hwhich, hdefined, hnew⟩ := ih (i + 1) s₁
      exact ⟨new, hcalls, hwhich, hdefined, fun c hc => (hnew c hc).imp_right (hnext _)⟩
    · obtain ⟨new, hcalls, hwhich, hdefined, hnew⟩ := ih (i + 1) s₁
      exact ⟨new, hcalls, hwhich, hdefined, fun c hc => (hnew c hc).imp_right (hnext _)⟩
    · generalize f.reader _ _ _ _ = given
      have hcalled := called_spec given (Bool.not_eq_false _ ▸ hunwanted)
      obtain ⟨new, hcalls, hwhich, hdefined, hnew⟩ := ih (i + 1) (s₁.called (f.toc i).type given)
      rw [(hcalled 0).2.2] at hcalls
      refine ⟨((f.toc i).type, given.1) :: new, hcalls.trans (append_assoc ..), fun t => ?_,
        fun t => ?_, ?_⟩
      · rw [hwhich, (hcalled t).1, counts_cons, not_or, and_assoc]
      · rw [hdefined, (hcalled t).2.1, counts_cons, or_assoc]
      · rw [forall_mem_cons]
        exact ⟨⟨by simpa using hunwanted, 0, by omega, rfl⟩, fun c hc =>
          ⟨((hcalled c.1).1.mp (hnew c hc).1).1, hnext _ (hnew c hc).2⟩⟩

/-- The beginning of `ReadXkmKeyTypes`: the name, then the number of types. -/
def readXkmKeyTypes (be : Bool) (types : List Byte → Nat → K → Result × K) (file : List Byte)
    (pos : Nat) (xkb : K) : Result × K :=
  let nRead := (wordAt16 be file pos + 2 + 3) / 4 * 4
  let numTypes := wordAt16 be file (pos + nRead)
  if numTypes < 1 then (some (Fin.ofNat _ (nRead + 4)), xkb)
  else if numTypes < 4 then (none, xkb)
  else types file (pos + nRead + 4) xkb

/-- One section of one key type. -/
def oneType : File Unit where
  bigEndian := false
  bytes := [15, 109, 107, 120, 0, 8, 255, 1, 1, 0, 0, 0, 0, 0, 0, 0, 16, 0, 20, 0, 0, 0, 0, 0, 16,
    0, 20, 0, 0, 0, 0, 0, 1, 0, 0, 0]
  beyond _ := ⟨0, 0, 0, 0⟩
  reader _ := readXkmKeyTypes false fun _ _ xkb => (some 0, xkb)

end Xfront.Xkm
