import Xfront.Region.Valid

/-!
# Bitmaps as regions (fb/fbpixmap.c)

`fbPixmapToRegion` makes a box of every run of set pixels in a line and merges a line with the
band above where both have the same sides.
-/

namespace Xfront.Region
open List

abbrev FbBits := BitVec 32

/-- A bitmap with `FbBits` lines that hold all its pixels. -/
structure Pixmap where
  width : Nat
  height : Nat
  line : Nat → List FbBits
  width_pos : 1 ≤ width
  height_pos : 1 ≤ height
  short : width ≤ 32767 ∧ height ≤ 32767
  wide : ∀ h < height, width ≤ 32 * (line h).length

/-- The boxes and the sides of the extents, with the state of the current line. -/
structure Scan where
  rects : List Box
  x1 : Int
  x2 : Int
  fInBox : Bool
  rx1 : Int

variable (lsbFirst : Bool)

def fbScrLeft (w : FbBits) (n : Nat) : FbBits := if lsbFirst then w >>> n else w <<< n

def fbScrRight (w : FbBits) (n : Nat) : FbBits := if lsbFirst then w <<< n else w >>> n

def mask0 : FbBits := BitVec.allOnes 32 &&& ~~~fbScrRight lsbFirst (BitVec.allOnes 32) 1

/-- `ADDRECT`. -/
def Scan.addRect (s : Scan) (rx1 ry1 rx2 ry2 : Int) : Scan :=
  if rx1 < rx2 ∧ ry1 < ry2 ∧ ¬ ∃ r ∈ s.rects.getLast?,
      r.y1 = ry1 ∧ r.y2 = ry2 ∧ r.x1 ≤ rx1 ∧ r.x2 ≥ rx2 then
    { s with
      rects := s.rects ++ [⟨rx1, ry1, rx2, ry2⟩]
      x1 := if rx1 < s.x1 then rx1 else s.x1
      x2 := if rx2 > s.x2 then rx2 else s.x2 }
  else s

def Scan.step (s : Scan) (h x : Int) (set : Bool) : Scan :=
  if set then if s.fInBox then s else { s with rx1 := x, fInBox := true }
  else if s.fInBox then { s.addRect s.rx1 h x (h + 1) with fInBox := false }
  else s

def scanBits (h : Int) : Nat → Nat → FbBits → Scan → Scan
  | 0, _, _, s => s
  | n + 1, x, w, s =>
    scanBits h n (x + 1) (fbScrLeft lsbFirst w 1) (s.step h x (w &&& mask0 lsbFirst != 0))

/-- The words that are fully in the pixmap; a word outside the line has no result. -/
def scanWords (h : Int) (words : List FbBits) : Nat → Nat → Scan → Option Scan
  | 0, _, s => some s
  | n + 1, k, s => do
    let w ← words[k]?
    if w = (if s.fInBox then BitVec.allOnes 32 else 0) then scanWords h words n (k + 1) s
    else scanWords h words n (k + 1) (scanBits lsbFirst h 32 (32 * k) w s)

/-- The final partial word of a line. -/
def scanRest (h : Int) (words : List FbBits) (width : Nat) (s : Scan) : Option Scan :=
  if width % 32 = 0 then some s
  else words[width / 32]?.map fun w => scanBits lsbFirst h (width % 32) (32 * (width / 32)) w s

def scanLine (p : Pixmap) (h : Nat) (s : Scan) : Option Scan := do
  let w ← (p.line h)[0]?
  let s := if w &&& mask0 lsbFirst != 0 then { s with fInBox := true, rx1 := 0 }
    else { s with fInBox := false }
  let s ← scanWords lsbFirst h (p.line h) (p.width / 32) 0 s
  let s ← scanRest lsbFirst h (p.line h) p.width s
  -- the next line sets `fInBox` anew
  some (s.step h ↑(32 * (p.width / 32) + p.width % 32) false)

def edges (rects : List Box) : List Span := rects.map fun b => ⟨b.x1, b.x2⟩

/-- The new boxes and `irectPrevStart`, which is -1 at first. Two bands have as many boxes and
the same x-coordinates when their sides are equal. -/
def mergeLine (rects : List Box) (lineStart : Nat) : Option Nat → List Box × Option Nat
  | none => (rects, some lineStart)
  | some prevStart =>
    let prev := (rects.take lineStart).drop prevStart
    if edges prev = edges (rects.drop lineStart) then
      (rects.take prevStart ++ prev.map fun b => { b with y2 := b.y2 + 1 }, some prevStart)
    else (rects, some lineStart)

def scanLines (p : Pixmap) : Nat → Nat → Scan → Option Nat → Option Scan
  | 0, _, s, _ => some s
  | n + 1, h, s, prevStart => do
    let lineStart := s.rects.length
    let s ← scanLine lsbFirst p h s
    let (rects, prevStart) := mergeLine s.rects lineStart prevStart
    scanLines p n (h + 1) { s with rects } prevStart

/-- The extents and the one-box form, which are set by hand at the end. -/
def Scan.region (s : Scan) : RegionRec :=
  match s.rects with
  | [] => regionNull
  | b :: bs =>
    ⟨⟨s.x1, b.y1, s.x2, (bs.getLastD b).y2⟩, if bs = [] then .null else .array (b :: bs)⟩

def fbPixmapToRegion (p : Pixmap) : Option RegionRec :=
  (scanLines lsbFirst p p.height 0 ⟨[], p.width - 1, 0, false, 0⟩ none).map Scan.region

/-- Pixel `i` of a word, from the left of the screen. -/
def pixel (w : FbBits) (i : Nat) : Bool := if lsbFirst then w.getLsbD i else w.getMsbD i

def Pixmap.bit (p : Pixmap) (h i : Nat) : Bool :=
  i < p.width && pixel lsbFirst ((p.line h).getD (i / 32) 0) (i % 32)

theorem pixel_mask0 (w : FbBits) : (w &&& mask0 lsbFirst != 0) = pixel lsbFirst w 0 := by
  cases lsbFirst
  · have hmask : mask0 false = BitVec.twoPow 32 31 := by decide
    have hbit : pixel false w 0 = w.getLsbD 31 := by simp [pixel, BitVec.getMsbD]
    rw [hmask, hbit, BitVec.and_twoPow]
    cases w.getLsbD 31 <;> decide
  · have hmask : mask0 true = BitVec.twoPow 32 0 := by decide
    rw [hmask, pixel, if_pos rfl, BitVec.and_twoPow]
    cases w.getLsbD 0 <;> decide

theorem pixel_fbScrLeft (w : FbBits) (i : Nat) :
    pixel lsbFirst (fbScrLeft lsbFirst w 1) i = pixel lsbFirst w (i + 1) := by
  cases lsbFirst <;> simp [pixel, fbScrLeft, add_comm]

theorem pixel_word {words : List FbBits} {k i : Nat} (hk : k < words.length) (hi : i < 32) :
    pixel lsbFirst (words.getD ((32 * k + i) / 32) 0) ((32 * k + i) % 32) =
      pixel lsbFirst words[k] i := by
  rw [Nat.mul_add_div (by omega), Nat.mul_add_mod, Nat.div_eq_of_lt hi, Nat.mod_eq_of_lt hi,
    add_zero, getD_eq_getElem _ _ hk]

theorem pixel_uniform {on : Bool} {i : Nat} (hi : i < 32) :
    pixel lsbFirst (if on then BitVec.allOnes 32 else 0) i = on := by
  cases on with
  | true =>
    rw [if_pos rfl, pixel, BitVec.getLsbD_allOnes, BitVec.getMsbD_allOnes, ite_self,
      decide_eq_true hi]
  | false => cases lsbFirst <;> simp [pixel]

/-- The extents reach from the leftmost to the rightmost side of the boxes. -/
structure Extent (width x1 x2 : Int) (rects : List Box) : Prop where
  left : ∀ t ∈ edges rects, x1 ≤ t.l
  right : ∀ t ∈ edges rects, t.r ≤ x2
  met : (∀ t, t ∉ edges rects) ∧ x1 = width - 1 ∧ x2 = 0 ∨
    (∃ t ∈ edges rects, t.l = x1) ∧ ∃ t ∈ edges rects, t.r = x2

theorem Extent.add {width x1 x2 : Int} {rects : List Box} (h : Extent width x1 x2 rects) (b : Box)
    (hl : 0 ≤ b.x1) (hlr : b.x1 < b.x2) (hr : b.x2 ≤ width) :
    Extent width (if b.x1 < x1 then b.x1 else x1) (if b.x2 > x2 then b.x2 else x2)
      (rects ++ [b]) := by
  have hb : edges (rects ++ [b]) = edges rects ++ [⟨b.x1, b.x2⟩] := map_append
  refine ⟨?_, ?_, .inr ⟨?_, ?_⟩⟩
  · rw [hb, forall_mem_append, forall_mem_singleton]
    refine ⟨fun t ht => ?_, by dsimp only; split_ifs <;> omega⟩
    have := h.left t ht
    split_ifs <;> omega
  · rw [hb, forall_mem_append, forall_mem_singleton]
    refine ⟨fun t ht => ?_, by dsimp only; split_ifs <;> omega⟩
    have := h.right t ht
    split_ifs <;> omega
  · simp only [hb, mem_append, mem_singleton, or_and_right, exists_or, exists_eq_left]
    split_ifs with hx
    · exact .inr rfl
    · exact h.met.elim (fun hm => .inr (by omega)) fun hm => .inl hm.1
  · simp only [hb, mem_append, mem_singleton, or_and_right, exists_or, exists_eq_left]
    split_ifs with hx
    · exact .inr rfl
    · exact h.met.elim (fun hm => .inr (by omega)) fun hm => .inl hm.2

theorem Extent.congr {width x1 x2 : Int} {rects rects' : List Box} (h : Extent width x1 x2 rects)
    (hsides : ∀ t, t ∈ edges rects' ↔ t ∈ edges rects) : Extent width x1 x2 rects' :=
  ⟨fun t ht => h.left t ((hsides t).mp ht), fun t ht => h.right t ((hsides t).mp ht),
    by simpa only [hsides] using h.met⟩

/-- Behind the boxes of the lines above are the spans `ss` of line `h`. -/
structure Lined (above : List Box) (h width : Int) (rects : List Box) (x1 x2 : Int)
    (ss : List Span) : Prop where
  boxes : rects = above ++ (Band.mk h (h + 1) ss).boxes
  upward : ∀ b ∈ above, b.y1 < h
  separated : Separated ss
  inside : ∀ t ∈ ss, 0 ≤ t.l
  extent : Extent width x1 x2 rects

variable {lsbFirst : Bool} {above : List Box} {h width : Int} {s : Scan} {ss : List Span}

theorem Lined.addRect (hs : Lined above h width s.rects s.x1 s.x2 ss) {l r : Int}
    (hlast : ∀ t ∈ ss, t.r < l) (hl : 0 ≤ l) (hlr : l < r) (hr : r ≤ width) :
    let s' := s.addRect l h r (h + 1)
    s'.fInBox = s.fInBox ∧ Lined above h width s'.rects s'.x1 s'.x2 (ss ++ [⟨l, r⟩]) := by
  have hnew : ¬ ∃ b ∈ s.rects.getLast?, b.y1 = h ∧ b.y2 = h + 1 ∧ b.x1 ≤ l ∧ b.x2 ≥ r := by
    rintro ⟨b, hb, hy, -, -, hx⟩
    have hmem := mem_of_mem_getLast? hb
    rw [hs.boxes] at hmem
    rcases mem_append.mp hmem with hb | hb
    · have := hs.upward b hb
      omega
    · obtain ⟨t, ht, rfl⟩ := mem_map.mp hb
      have := hlast t ht
      dsimp only at hx
      omega
  rw [Scan.addRect, if_pos ⟨hlr, by omega, hnew⟩]
  refine ⟨rfl, ?_, hs.upward, ⟨?_, ?_⟩, ?_, hs.extent.add ⟨l, h, r, h + 1⟩ hl hlr hr⟩
  · simp [hs.boxes, Band.boxes]
  · simp only [forall_mem_append, forall_mem_singleton]
    exact ⟨hs.separated.nonempty, hlr⟩
  · rw [pairwise_append]
    exact ⟨hs.separated.apart, pairwise_singleton .., by simpa using hlast⟩
  · simp only [forall_mem_append, forall_mem_singleton]
    exact ⟨hs.inside, hl⟩

/-- The state when the pixels before `x` have been looked at. -/
structure Scanning (above : List Box) (h width : Int) (bit : Nat → Bool) (x : Nat) (s : Scan)
    (ss : List Span) : Prop where
  lined : Lined above h width s.rects s.x1 s.x2 ss
  covered : ∀ i : Nat, i < x →
    (bit i = true ↔ (i : Int) ∈ columns ss ∨ s.fInBox = true ∧ s.rx1 ≤ i)
  before : ∀ t ∈ ss, t.r < if s.fInBox then s.rx1 else x
  opened : s.fInBox = true → 0 ≤ s.rx1 ∧ (s.rx1 < x ∨ s.rx1 = x ∧ bit x = true)

variable {bit : Nat → Bool} {x n : Nat}

/-- A pixel that does not change `fInBox` changes nothing. -/
theorem Scanning.same (hs : Scanning above h width bit x s ss) (hx : bit x = s.fInBox) :
    Scanning above h width bit (x + 1) s ss := by
  refine ⟨hs.lined, fun i hi => ?_, fun t ht => ?_, fun hin => ?_⟩
  · rcases Nat.lt_succ_iff_lt_or_eq.mp hi with hi | rfl
    · exact hs.covered i hi
    · rw [hx]
      cases hin : s.fInBox with
      | true =>
        have := hs.opened hin
        simp only [true_and, true_iff]
        omega
      | false =>
        simp only [Bool.false_eq_true, false_and, or_false, false_iff, mem_columns]
        rintro ⟨t, ht, -, hr⟩
        have := hs.before t ht
        rw [hin] at this
        simp at this
        omega
  · have := hs.before t ht
    split_ifs at this ⊢ <;> omega
  · have := hs.opened hin
    omega

theorem Scanning.step (hs : Scanning above h width bit x s ss) (hx : (x : Int) ≤ width) :
    ∃ ss', Scanning above h width bit (x + 1) (s.step h x (bit x)) ss' := by
  cases hset : bit x <;> cases hin : s.fInBox
  · simp only [Scan.step, hin]
    exact ⟨ss, hs.same (hset.trans hin.symm)⟩
  · -- a box ends in front of `x`
    have hopened := hs.opened hin
    have hbefore : ∀ t ∈ ss, t.r < s.rx1 := by simpa [hin] using hs.before
    simp only [hset, Bool.false_eq_true, and_false, or_false] at hopened
    obtain ⟨-, hlined⟩ := hs.lined.addRect hbefore hopened.1 hopened.2 hx
    simp only [Scan.step, hin, Bool.false_eq_true, if_false, if_true]
    refine ⟨_, hlined, fun i hi => ?_, ?_, by simp⟩
    · simp only [Bool.false_eq_true, false_and, or_false, mem_columns, mem_append, mem_singleton,
        or_and_right, exists_or, exists_eq_left]
      rw [← mem_columns]
      rcases Nat.lt_succ_iff_lt_or_eq.mp hi with hi | rfl
      · rw [hs.covered i hi, hin]
        simp [hi]
      · simp only [hset, Bool.false_eq_true, lt_self_iff_false, and_false, or_false, false_iff]
        rintro ⟨t, ht, -, hr⟩
        have := hbefore t ht
        omega
    · simp only [forall_mem_append, forall_mem_singleton, Bool.false_eq_true, if_false]
      refine ⟨fun t ht => ?_, by omega⟩
      have := hbefore t ht
      omega
  · -- a box starts at `x`
    simp only [Scan.step, hin, Bool.false_eq_true, if_false, if_true]
    refine ⟨ss, hs.lined, fun i hi => ?_, by simpa [hin] using hs.before, fun _ => ?_⟩
    · rcases Nat.lt_succ_iff_lt_or_eq.mp hi with hi | rfl
      · rw [hs.covered i hi, hin]
        simp
        omega
      · simp [hset]
    · dsimp only
      omega
  · simp only [Scan.step, hin]
    exact ⟨ss, hs.same (hset.trans hin.symm)⟩

theorem Scanning.bits {w : FbBits} (hs : Scanning above h width bit x s ss)
    (hw : ∀ i < n, bit (x + i) = pixel lsbFirst w i) (hx : (x + n : Nat) ≤ width) :
    ∃ ss', Scanning above h width bit (x + n) (scanBits lsbFirst h n x w s) ss' := by
  induction n generalizing x w s ss with
  | zero => exact ⟨ss, hs⟩
  | succ n ih =>
    obtain ⟨ss', hs'⟩ := hs.step (by omega)
    have hzero := hw 0 (by omega)
    rw [add_zero] at hzero
    rw [hzero, ← pixel_mask0] at hs'
    rw [scanBits, ← add_assoc, add_right_comm]
    refine ih hs' (fun i hi => ?_) (by omega)
    rw [pixel_fbScrLeft, ← hw (i + 1) (by omega)]
    congr 1
    omega

theorem Scanning.skip (hs : Scanning above h width bit x s ss)
    (hw : ∀ i < n, bit (x + i) = s.fInBox) : Scanning above h width bit (x + n) s ss := by
  induction n with
  | zero => exact hs
  | succ n ih => exact (ih fun i hi => hw i (by omega)).same (hw n (by omega))

theorem Scanning.words {words : List FbBits} {k : Nat}
    (hs : Scanning above h width bit (32 * k) s ss)
    (hbit : ∀ i : Nat, i < width → bit i = pixel lsbFirst (words.getD (i / 32) 0) (i % 32))
    (hx : (32 * (k + n) : Nat) ≤ width) (hlen : k + n ≤ words.length) :
    ∃ s' ss', scanWords lsbFirst h words n k s = some s' ∧
      Scanning above h width bit (32 * (k + n)) s' ss' := by
  induction n generalizing k s ss with
  | zero => exact ⟨s, ss, rfl, hs⟩
  | succ n ih =>
    have hk : k < words.length := by omega
    have hw : ∀ i < 32, bit (32 * k + i) = pixel lsbFirst words[k] i :=
      fun i hi => (hbit _ (by omega)).trans (pixel_word lsbFirst hk hi)
    rw [scanWords, getElem?_eq_getElem hk, Option.bind_eq_bind, Option.bind_some,
      show k + (n + 1) = k + 1 + n by omega]
    by_cases hsame : words[k] = if s.fInBox then BitVec.allOnes 32 else 0
    · rw [if_pos hsame]
      exact ih (hs.skip fun i hi => by rw [hw i hi, hsame, pixel_uniform lsbFirst hi])
        (by omega) (by omega)
    · rw [if_neg hsame]
      obtain ⟨ss', hs'⟩ := hs.bits hw (by omega)
      exact ih hs' (by omega) (by omega)

theorem scanLine_spec (lsbFirst : Bool) {p : Pixmap} {h : Nat} (hh : h < p.height)
    (habove : ∀ b ∈ s.rects, b.y1 < h) (hextent : Extent p.width s.x1 s.x2 s.rects) :
    ∃ s' ss, scanLine lsbFirst p h s = some s' ∧ Lined s.rects h p.width s'.rects s'.x1 s'.x2 ss ∧
      ∀ x : Int, x ∈ columns ss ↔ ∃ i : Nat, x = i ∧ p.bit lsbFirst h i = true := by
  have hwidth := p.width_pos
  have hwide := p.wide h hh
  have hbit : ∀ i : Nat, i < (p.width : Int) →
      p.bit lsbFirst h i = pixel lsbFirst ((p.line h).getD (i / 32) 0) (i % 32) :=
    fun i hi => by rw [Pixmap.bit, decide_eq_true (by omega), Bool.true_and]
  have hempty : Lined s.rects h p.width s.rects s.x1 s.x2 [] :=
    ⟨by simp [Band.boxes], habove, ⟨by simp, .nil⟩, by simp, hextent⟩
  have hword : (p.line h)[0]? = some (p.line h)[0] := getElem?_eq_getElem _
  have hfirst : p.bit lsbFirst h 0 = pixel lsbFirst (p.line h)[0] 0 := by
    rw [hbit 0 (by omega), Nat.zero_div, Nat.zero_mod, getD_eq_getElem]
  let s₀ : Scan := if p.bit lsbFirst h 0 then { s with fInBox := true, rx1 := 0 }
    else { s with fInBox := false }
  have h₀ : Scanning s.rects h p.width (p.bit lsbFirst h) (32 * 0) s₀ [] := by
    cases hset : p.bit lsbFirst h 0
    · simp only [s₀, hset]
      exact ⟨hempty, by simp, by simp, by simp⟩
    · simp only [s₀, hset]
      exact ⟨hempty, by simp, by simp, by simp [hset]⟩
  obtain ⟨s₁, ss₁, hrun₁, h₁⟩ := h₀.words (n := p.width / 32) hbit (by omega) (by omega)
  obtain ⟨s₂, ss₂, hrun₂, h₂⟩ : ∃ s₂ ss₂, scanRest lsbFirst h (p.line h) p.width s₁ = some s₂ ∧
        Scanning s.rects h p.width (p.bit lsbFirst h) p.width s₂ ss₂ := by
    rw [zero_add] at h₁
    unfold scanRest
    split_ifs with hrest
    · rw [show 32 * (p.width / 32) = p.width by omega] at h₁
      exact ⟨s₁, ss₁, rfl, h₁⟩
    · have hlast : p.width / 32 < (p.line h).length := by omega
      rw [getElem?_eq_getElem hlast, Option.map_some]
      obtain ⟨ss₂, h₂⟩ := h₁.bits (n := p.width % 32) (w := (p.line h)[p.width / 32])
        (fun i hi => (hbit _ (by omega)).trans (pixel_word lsbFirst hlast (by omega))) (by omega)
      rw [show 32 * (p.width / 32) + p.width % 32 = p.width by omega] at h₂
      exact ⟨_, ss₂, rfl, h₂⟩
  -- the line ends like in front of a pixel that is not set
  obtain ⟨ss, h₃⟩ := h₂.step le_rfl
  have hend : p.bit lsbFirst h p.width = false := by simp [Pixmap.bit]
  rw [hend] at h₃
  have hin : (s₂.step h p.width false).fInBox = false := by
    cases hin : s₂.fInBox <;> simp [Scan.step, hin]
  refine ⟨_, ss, ?_, h₃.lined, fun x => ⟨?_, ?_⟩⟩
  · simp only [scanLine, hword, pixel_mask0, ← hfirst, Option.bind_eq_bind, Option.bind_some]
    rw [hrun₁, Option.bind_some, hrun₂, Option.bind_some, Nat.div_add_mod]
  · rintro ⟨t, ht, hl, hr⟩
    have hinside := h₃.lined.inside t ht
    have hbefore := h₃.before t ht
    rw [hin] at hbefore
    simp at hbefore
    lift x to Nat using by omega
    exact ⟨x, rfl, (h₃.covered x (by omega)).mpr (.inl ⟨t, ht, hl, hr⟩)⟩
  · rintro ⟨i, rfl, hi⟩
    have hlt : i < p.width := by simpa using (Bool.and_eq_true_iff.mp hi).1
    simpa [hin] using (h₃.covered i (by omega)).mp hi

theorem edges_boxes (b : Band) : edges b.boxes = b.spans := by
  simp [edges, Band.boxes, Function.comp_def]

theorem mergeLine_some (front prev cur : List Box) :
    mergeLine (front ++ prev ++ cur) (front ++ prev).length (some front.length) =
      if edges prev = edges cur then
        (front ++ prev.map fun b => { b with y2 := b.y2 + 1 }, some front.length)
      else (front ++ prev ++ cur, some (front ++ prev).length) := by
  simp only [mergeLine, take_left, drop_left]
  rw [append_assoc front prev cur, take_left]

/-- Where the band in front of line `h` starts, which is empty below an empty line. -/
def Previous (bs : List Band) (h : Int) (prevStart : Option Nat) : Prop :=
  (∀ b ∈ bs, b.y2 < h) ∧ prevStart = some (flat bs).length ∨
    ∃ pre b, bs = pre ++ [b] ∧ b.y2 = h ∧ prevStart = some (flat pre).length

/-- The bands with the one of line `h`. -/
def withLine (bs : List Band) (h : Int) (ss : List Span) : List Band :=
  if ss = [] then bs else push bs ⟨h, h + 1, ss⟩

variable {prevStart : Option Nat} {bs : List Band}

theorem mergeLine_spec (ss : List Span)
    (hprev : bs = [] ∧ prevStart = none ∨ Previous bs h prevStart)
    (hwf : ∀ b ∈ bs, b.WF) (hends : ∀ b ∈ bs, b.y2 ≤ h) :
    ∃ prevStart', mergeLine (flat bs ++ (Band.mk h (h + 1) ss).boxes) (flat bs).length prevStart =
      (flat (withLine bs h ss), prevStart') ∧ Previous (withLine bs h ss) (h + 1) prevStart' := by
  unfold withLine
  obtain ⟨rfl, rfl⟩ | ⟨hlow, rfl⟩ | ⟨pre, b, rfl, hb, rfl⟩ := hprev
  · split_ifs with hss
    · exact ⟨some 0, by simp [mergeLine, hss, Band.boxes], .inl ⟨by simp, rfl⟩⟩
    · exact ⟨some 0, by simp [mergeLine], .inr ⟨[], _, rfl, rfl, rfl⟩⟩
  · have hmerge := mergeLine_some (flat bs) [] (Band.mk h (h + 1) ss).boxes
    rw [append_nil, edges_boxes] at hmerge
    split_ifs with hss
    · refine ⟨_, hmerge.trans (by simp [hss, edges]), .inl ⟨fun b hb => ?_, rfl⟩⟩
      have := hends b hb
      omega
    · have hpush : push bs ⟨h, h + 1, ss⟩ = bs ++ [⟨h, h + 1, ss⟩] := by
        rcases eq_nil_or_concat' bs with rfl | ⟨pre, b, rfl⟩
        · rfl
        · exact push_apart fun hj =>
            (hlow b (mem_append_right _ (mem_singleton_self _))).ne hj.1
      rw [hpush]
      exact ⟨_, hmerge.trans (by rw [if_neg fun hs => hss hs.symm]; simp),
        .inr ⟨bs, _, rfl, rfl, rfl⟩⟩
  · have hfull := (hwf b (mem_append_right _ (mem_singleton_self _))).full
    have hmerge := mergeLine_some (flat pre) b.boxes (Band.mk h (h + 1) ss).boxes
    rw [edges_boxes, edges_boxes] at hmerge
    rw [flat_append, flat_cons, flat_nil, append_nil]
    split_ifs with hss
    · refine ⟨some (flat pre ++ b.boxes).length, hmerge.trans ?_, .inl ⟨fun b hb => ?_, by simp⟩⟩
      · rw [if_neg fun hs => hfull (hs.trans hss)]
        simp [hss, Band.boxes]
      · have := hends b hb
        omega
    · by_cases hj : b.y2 = h ∧ b.spans = ss
      · rw [push_joined hj, if_pos hj.2] at *
        exact ⟨_, hmerge.trans (by simp [Band.boxes, hb]), .inr ⟨pre, _, rfl, rfl, rfl⟩⟩
      · rw [push_apart hj]
        rw [if_neg fun hs => hj ⟨hb, hs⟩] at hmerge
        exact ⟨some (flat pre ++ b.boxes).length, hmerge.trans (by simp),
          .inr ⟨pre ++ [b], _, rfl, rfl, by simp⟩⟩

theorem mem_edges_withLine (t : Span) : t ∈ edges (flat (withLine bs h ss)) ↔
    t ∈ edges (flat bs ++ (Band.mk h (h + 1) ss).boxes) := by
  have happend : ∀ as cs, edges (as ++ cs) = edges as ++ edges cs := fun _ _ => map_append
  unfold withLine
  split_ifs with hss
  · simp [hss, Band.boxes]
  · rcases eq_nil_or_concat' bs with rfl | ⟨pre, b, rfl⟩
    · simp
    · by_cases hj : b.y2 = h ∧ b.spans = ss
      · rw [push_joined hj]
        simp [happend, edges_boxes, hj.2]
      · rw [push_apart hj]
        simp [happend]

theorem withLine_spec (hbs : Canonical bs) (hends : ∀ b ∈ bs, b.y2 ≤ h) (hss : Separated ss) :
    Canonical (withLine bs h ss) ∧ (∀ b ∈ withLine bs h ss, b.y2 ≤ h + 1) ∧
      covers (flat (withLine bs h ss)) = covers (flat bs) ∪ (Band.mk h (h + 1) ss).points := by
  unfold withLine
  split_ifs with hnil
  · refine ⟨hbs, fun b hb => by linarith [hends b hb], ?_⟩
    simp [hnil, Band.points, columns]
  · have hwf : (Band.mk h (h + 1) ss).WF := ⟨by simp, hnil, hss⟩
    exact ⟨push_canonical hbs hwf hends,
      push_ends (fun b hb => by linarith [hends b hb]) le_rfl, push_covers hbs hwf hends⟩

/-- The boxes in front of line `h` are canonical bands of the pixels above it. -/
structure Scanned (lsbFirst : Bool) (p : Pixmap) (h : Nat) (s : Scan) (bs : List Band) : Prop where
  boxes : s.rects = flat bs
  canonical : Canonical bs
  ends : ∀ b ∈ bs, b.y2 ≤ h
  extent : Extent p.width s.x1 s.x2 s.rects
  covered : ∀ x y : Int, (x, y) ∈ covers (flat bs) ↔
    ∃ i j : Nat, x = i ∧ y = j ∧ j < h ∧ p.bit lsbFirst j i = true

theorem scanLines_spec {p : Pixmap} {h : Nat} (hs : Scanned lsbFirst p h s bs)
    (hprev : bs = [] ∧ prevStart = none ∨ Previous bs h prevStart) (hn : h + n = p.height) :
    ∃ s' bs', scanLines lsbFirst p n h s prevStart = some s' ∧
      Scanned lsbFirst p p.height s' bs' := by
  induction n generalizing h s bs prevStart with
  | zero => exact ⟨s, bs, rfl, hn ▸ hs⟩
  | succ n ih =>
    have habove : ∀ b ∈ s.rects, b.y1 < h := by
      intro b hb
      obtain ⟨band, hband, hbox⟩ := mem_flatMap.mp (hs.boxes ▸ hb)
      have hend := hs.ends band hband
      have htall := (hs.canonical.wf band hband).tall
      have htop := (Band.mem_boxes hbox).1
      omega
    obtain ⟨s₁, ss, hline, hlined, hcols⟩ :=
      scanLine_spec lsbFirst (by omega : h < p.height) habove hs.extent
    obtain ⟨prevStart', hmerge, hprev'⟩ := mergeLine_spec ss hprev hs.canonical.wf hs.ends
    obtain ⟨hcanonical, hends, hcovers⟩ := withLine_spec hs.canonical hs.ends hlined.separated
    have hboxes := hlined.boxes
    rw [hs.boxes] at hboxes
    rw [scanLines, hline, Option.bind_eq_bind, Option.bind_some, hboxes, hs.boxes, hmerge]
    refine ih ⟨rfl, hcanonical, by exact_mod_cast hends,
      hlined.extent.congr fun t => hboxes ▸ mem_edges_withLine t, fun x y => ?_⟩
      (.inr (by exact_mod_cast hprev')) (by omega)
    rw [hcovers, Set.mem_union, hs.covered]
    simp only [Band.points, Set.mem_ofPred_eq, hcols]
    constructor
    · rintro (⟨i, j, rfl, rfl, hj, hbit⟩ | ⟨hy, hy', i, rfl, hbit⟩)
      · exact ⟨i, j, rfl, rfl, by omega, hbit⟩
      · exact ⟨i, h, rfl, by omega, by omega, hbit⟩
    · rintro ⟨i, j, rfl, rfl, hj, hbit⟩
      rcases Nat.lt_succ_iff_lt_or_eq.mp hj with hj | rfl
      · exact .inl ⟨i, j, rfl, rfl, hj, hbit⟩
      · exact .inr ⟨le_rfl, by omega, i, rfl, hbit⟩

theorem region_spec (hb : Banded s.rects) (he : Extent width s.x1 s.x2 s.rects) :
    s.region.rects = s.rects ∧ regionIsValid s.region = true := by
  obtain ⟨hnone, -⟩ | ⟨⟨_, hl, hleft⟩, _, hr, hright⟩ := he.met
  · have hnil : s.rects = [] := map_eq_nil_iff.mp (eq_nil_iff_forall_not_mem.mpr hnone)
    simp only [Scan.region, hnil]
    exact ⟨rfl, rfl⟩
  · obtain ⟨l, hl', rfl⟩ := mem_map.mp hl
    obtain ⟨r, hr', rfl⟩ := mem_map.mp hr
    have hle : ∀ b ∈ s.rects, s.x1 ≤ b.x1 ∧ b.x2 ≤ s.x2 := fun b hb =>
      ⟨he.left ⟨b.x1, b.x2⟩ (mem_map_of_mem hb), he.right ⟨b.x1, b.x2⟩ (mem_map_of_mem hb)⟩
    simp only [Scan.region]
    cases hrects : s.rects with
    | nil =>
      rw [hrects] at hl'
      cases hl'
    | cons b bs =>
      rw [hrects] at hb hl' hr' hle
      cases bs with
      | nil =>
        rw [mem_singleton] at hl' hr'
        subst hl' hr'
        dsimp only at hleft hright ⊢
        rw [if_pos rfl, ← hleft, ← hright]
        exact ⟨rfl, valid_null rfl (hb.nonempty _ (mem_singleton_self _))⟩
      | cons n rest =>
        dsimp only
        rw [if_neg (cons_ne_nil n rest)]
        exact ⟨rfl, valid_array rfl hb (banded_bounds hb rfl rfl (fun x hx => (hle x hx).1)
          ⟨l, hl', hleft⟩ (fun x hx => (hle x hx).2) ⟨r, hr', hright⟩)⟩

/-- The bitmap becomes a valid region of exactly its set pixels, in as few boxes as can be. -/
theorem fbPixmapToRegion_exact (lsbFirst : Bool) (p : Pixmap) :
    ∃ reg, fbPixmapToRegion lsbFirst p = some reg ∧ regionIsValid reg = true ∧
      (∀ x y : Int, (x, y) ∈ covers reg.rects ↔
        ∃ i j : Nat, x = i ∧ y = j ∧ j < p.height ∧ p.bit lsbFirst j i = true) ∧
      Maximal reg.rects := by
  have hstart : Scanned lsbFirst p 0 ⟨[], p.width - 1, 0, false, 0⟩ [] :=
    ⟨rfl, .nil, by simp, ⟨by simp [edges], by simp [edges], .inl ⟨by simp [edges], rfl, rfl⟩⟩,
      by simp⟩
  obtain ⟨s, bs, hrun, hs⟩ := scanLines_spec hstart (.inl ⟨rfl, rfl⟩) (zero_add _)
  obtain ⟨hrects, hvalid⟩ := region_spec (hs.boxes ▸ hs.canonical.banded) hs.extent
  refine ⟨s.region, congrArg (Option.map Scan.region) hrun, hvalid, ?_⟩
  rw [hrects, hs.boxes]
  exact ⟨hs.covered, hs.canonical.flat_maximal⟩

end Xfront.Region
