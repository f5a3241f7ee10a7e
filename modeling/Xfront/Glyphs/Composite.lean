import Xfront.Glyphs.Lookups
import Xfront.Lib.Bytes

/-!
# Drawing glyphs

`SingleRenderCompositeGlyphs` of `render/render.c`: one pass over the elements of the
request counts lists and glyphs, another one fills arrays of these sizes. The request
after its header is a block of bytes; `none` is a read outside of it, a write outside
of an array, or a loop that does not end. What the lookups of resources give and
whether there is memory for the arrays is given with each request.
-/

namespace Xfront.Glyphs
open Nat Prod

open List Option
open Bytes (Block word16 word32)

/-- The size of an `xGlyphElt`: its length, padding and offsets. -/
def sizeofElt : Nat := 8

inductive CompositeError where
  | badValue (value : Nat)
  | badDrawable
  | badMatch
  | badAlloc
  | badLength
  -- what the lookup of a resource said
  | resource (code : Nat)
  deriving DecidableEq

structure CompositeReq where
  renderReqType : Nat
  op : Nat
  src : Nat
  dst : Nat
  maskFormat : Nat
  glyphset : Nat

/-- What a request is answered from. A picture is given by the screen of its drawable,
if it has one. -/
structure Resources where
  pictOpValid : Nat → Bool
  readable : Nat → Except Nat (Option Nat)
  writable : Nat → Except Nat (Option Nat)
  pictFormat : Nat → Except Nat Nat
  glyphSet : Nat → Except Nat GlyphSet
  format : GlyphSet → Nat
  memoryGlyphs : Bool
  memoryLists : Bool

structure GlyphList where
  xOff : Nat
  yOff : Nat
  format : Nat
  len : Nat
  deriving DecidableEq

structure Drawn where
  nlist : Nat
  lists : List GlyphList
  glyphs : List Nat
  deriving DecidableEq

def glyphSize (renderReqType : Nat) : Nat :=
  match renderReqType with
  | 24 => 2
  | 25 => 4
  | _ => 1

def padded (space : Nat) : Nat :=
  if space % 4 ≠ 0 then space + (4 - space % 4) else space

section

variable (be : Bool) (st : Store) (given : Resources) (body : Block) (size : Nat)

def countElts : Nat → Nat → Nat → Nat → Option (Nat × Nat)
  | 0, _, _, _ => none
  | fuel + 1, buffer, nlist, nglyph =>
    if buffer + sizeofElt < body.size then
      (body.load8 buffer).bind fun len =>
        let buffer := buffer + sizeofElt
        if len = 0xff then countElts fuel (buffer + 4) nlist nglyph
        else countElts fuel (buffer + padded (size * len)) (nlist + 1) (nglyph + len)
    else some (nlist, nglyph)

def loadGlyph (buffer : Nat) : Option Nat :=
  match size with
  | 1 => body.load8 buffer
  | 2 => body.load16 be buffer
  | _ => body.load32 be buffer

/-- The glyphs of one list, into an array of `room` pointers. -/
def storeGlyphs (glyphSet : GlyphSet) (room : Nat) :
    Nat → Nat → Nat → List Nat → Option (Nat × Nat × List Nat)
  | 0, buffer, len, glyphs => some (buffer, len, glyphs)
  | n + 1, buffer, len, glyphs =>
    if buffer + size ≤ body.size then
      (loadGlyph be body size buffer).bind fun id =>
        (findGlyph st glyphSet id).bind fun found =>
          -- the pointer is stored whether there is a glyph or not
          if glyphs.length < room then
            match found with
            | some g => storeGlyphs glyphSet room n (buffer + size) (len + 1) (glyphs ++ [g])
            | none => storeGlyphs glyphSet room n (buffer + size) len glyphs
          else none
    else storeGlyphs glyphSet room n (buffer + size) len glyphs

def fillElts (nlist nglyph : Nat) : Nat → Nat → GlyphSet → List GlyphList → List Nat →
    Option (Except CompositeError (Nat × List GlyphList × List Nat))
  | 0, _, _, _, _ => none
  | fuel + 1, buffer, glyphSet, lists, glyphs =>
    if buffer + sizeofElt < body.size then
      (body.load8 buffer).bind fun len =>
        (body.load16 be (buffer + 4)).bind fun deltax =>
          (body.load16 be (buffer + 6)).bind fun deltay =>
            let buffer := buffer + sizeofElt
            if len = 0xff then
              if buffer + 4 < body.size then
                (body.load32 be buffer).bind fun gs =>
                  match given.glyphSet gs with
                  | .error code => some (.error (.resource code))
                  | .ok glyphSet => fillElts nlist nglyph fuel (buffer + 4) glyphSet lists glyphs
              else fillElts nlist nglyph fuel (buffer + 4) glyphSet lists glyphs
            else if lists.length < nlist then
              (storeGlyphs be st body size glyphSet nglyph len buffer 0 glyphs).bind
                fun (buffer, stored, glyphs) =>
                  let space := size * len
                  let buffer := if space % 4 ≠ 0 then buffer + (4 - space % 4) else buffer
                  fillElts nlist nglyph fuel buffer glyphSet
                    (lists ++ [⟨deltax, deltay, given.format glyphSet, stored⟩]) glyphs
            else none
    else some (.ok (buffer, lists, glyphs))

end

def checkComposite (given : Resources) (stuff : CompositeReq) : Except CompositeError GlyphSet :=
  if !given.pictOpValid stuff.op then .error (.badValue stuff.op)
  else
    match given.readable stuff.src with
    | .error code => .error (.resource code)
    | .ok src =>
      match given.writable stuff.dst with
      | .error code => .error (.resource code)
      | .ok none => .error .badDrawable
      | .ok (some dst) =>
        if src.any (· ≠ dst) then .error .badMatch
        else
          match (if stuff.maskFormat ≠ 0 then given.pictFormat stuff.maskFormat else .ok 0) with
          | .error code => .error (.resource code)
          | .ok _ =>
            match given.glyphSet stuff.glyphset with
            | .error code => .error (.resource code)
            | .ok glyphSet => .ok glyphSet

def nLocalDelta : Nat := 64

def nLocalGlyph : Nat := 256

def singleRenderCompositeGlyphs (be : Bool) (st : Store) (given : Resources)
    (stuff : CompositeReq) (body : Block) : Option (Except CompositeError Drawn) :=
  let size := glyphSize stuff.renderReqType
  match checkComposite given stuff with
  | .error e => some (.error e)
  | .ok glyphSet =>
    (countElts body size (body.size + 1) 0 0 0).bind fun (nlist, nglyph) =>
      if nLocalGlyph < nglyph ∧ given.memoryGlyphs = false then some (.error .badAlloc)
      else if nLocalDelta < nlist ∧ given.memoryLists = false then some (.error .badAlloc)
      else
        (fillElts be st given body size nlist nglyph (body.size + 1) 0 glyphSet [] []).map fun r =>
          match r with
          | .error e => .error e
          | .ok (buffer, lists, glyphs) =>
            if body.size < buffer then .error .badLength else .ok ⟨nlist, lists, glyphs⟩

/-- A change of the set, with its id where it is looked at, or the ids of glyphs that
lie in the request. -/
inductive Element where
  | glyphSet (id : Option Nat)
  | glyphs (xOff yOff : Nat) (len : Nat) (ids : List Nat)

section

variable (be : Bool) (st : Store) (given : Resources) (body : Block) (size : Nat)

def after (buffer : Nat) : Nat :=
  let len := (body.byte buffer).val
  buffer + sizeofElt + if len = 0xff then 4 else padded (size * len)

/-- The places of the elements whose header has `room` bytes of the request from its
start on. -/
def starts (room : Nat) : Nat → Nat → List Nat
  | 0, _ => []
  | fuel + 1, buffer =>
    if buffer + room ≤ body.size then buffer :: starts room fuel (after body size buffer) else []

def wordAt (off : Nat) : Nat :=
  match size with
  | 1 => body.byte off
  | 2 => word16 be (body.byte off) (body.byte (off + 1))
  | _ => word32 be (body.byte off) (body.byte (off + 1)) (body.byte (off + 2)) (body.byte (off + 3))

/-- The ids that lie in the request, of `n` from `buffer` on. -/
def idsFrom (n buffer : Nat) : List Nat :=
  (((range n).map fun i => buffer + i * size).filter (· + size ≤ body.size)).map
    (wordAt be body size)

def elementAt (buffer : Nat) : Element :=
  let len := (body.byte buffer).val
  let data := buffer + sizeofElt
  if len = 0xff then
    .glyphSet (if data + 4 < body.size then some (wordAt be body 4 data) else none)
  else
    .glyphs (wordAt be body 2 (buffer + 4)) (wordAt be body 2 (buffer + 6)) len
      (idsFrom be body size len data)

def elementsFrom (fuel buffer : Nat) : List Element :=
  (starts body size (sizeofElt + 1) fuel buffer).map (elementAt be body size)

def elements : List Element := elementsFrom be body size (body.size + 1) 0

def Overruns (room : Nat) : Prop :=
  ∃ buffer ∈ starts body size room (body.size + 1) 0, body.size < after body size buffer

def Element.lists : Element → Nat
  | .glyphSet _ => 0
  | .glyphs .. => 1

def Element.len : Element → Nat
  | .glyphSet _ => 0
  | .glyphs _ _ len _ => len

def listsOf (es : List Element) : Nat := (es.map Element.lists).sum

def lensOf (es : List Element) : Nat := (es.map Element.len).sum

def foundOf (glyphSet : GlyphSet) (ids : List Nat) : List Nat :=
  ids.filterMap fun id => (findGlyph st glyphSet id).join

/-- What the elements draw: a list and its glyphs for every element that has some, in
the set that was named last. -/
def resolve : GlyphSet → List Element → Except Nat (List (GlyphList × List Nat))
  | _, [] => .ok []
  | glyphSet, .glyphSet none :: es => resolve glyphSet es
  | _, .glyphSet (some id) :: es => (given.glyphSet id).bind fun glyphSet => resolve glyphSet es
  | glyphSet, .glyphs xOff yOff _ ids :: es =>
    let found := foundOf st glyphSet ids
    (resolve glyphSet es).map fun lists =>
      (⟨xOff, yOff, given.format glyphSet, found.length⟩, found) :: lists

end

section

variable {be : Bool} {st : Store} {given : Resources} {body : Block} {size : Nat} {off : Nat}

theorem load8_lt (h : off < body.size) : body.load8 off = some (body.byte off).val := if_pos h

theorem load16_lt (h : off + 2 ≤ body.size) :
    body.load16 be off = some (wordAt be body 2 off) := if_pos h

theorem load32_lt (h : off + 4 ≤ body.size) :
    body.load32 be off = some (wordAt be body 4 off) := if_pos h

theorem loadGlyph_lt (hsize : size = 1 ∨ size = 2 ∨ size = 4)
    (h : off + size ≤ body.size) : loadGlyph be body size off = some (wordAt be body size off) := by
  rcases hsize with rfl | rfl | rfl
  · exact load8_lt (by omega)
  · exact load16_lt h
  · exact load32_lt h

theorem glyphSize_cases (renderReqType : Nat) : glyphSize renderReqType = 1 ∨
    glyphSize renderReqType = 2 ∨ glyphSize renderReqType = 4 := by
  unfold glyphSize
  split
  · exact .inr (.inl rfl)
  · exact .inr (.inr rfl)
  · exact .inl rfl

theorem after_ge (buffer : Nat) : buffer + sizeofElt ≤ after body size buffer := Nat.le_add_right ..

theorem elementsFrom_succ (fuel buffer : Nat) : elementsFrom be body size (fuel + 1) buffer =
    if buffer + sizeofElt < body.size then
      elementAt be body size buffer :: elementsFrom be body size fuel (after body size buffer)
    else [] := by
  rw [elementsFrom, starts]
  by_cases hlt : buffer + sizeofElt < body.size
  · rw [if_pos hlt, if_pos (by omega), map_cons, elementsFrom]
  · rw [if_neg hlt, if_neg (by omega), map_nil]

variable {fuel buffer : Nat}

theorem fuel_after (size : Nat) (hlt : buffer + sizeofElt < body.size)
    (hfuel : body.size < buffer + (fuel + 1)) :
    body.size < after body size buffer + fuel ∧ 0 < fuel := by
  have hge : buffer + sizeofElt ≤ after body size buffer := after_ge buffer
  rw [sizeofElt] at hlt hge
  omega

theorem listsOf_cons (e : Element) (es : List Element) : listsOf (e :: es) = e.lists + listsOf es := by
  rw [listsOf, map_cons, sum_cons, listsOf]

theorem lensOf_cons (e : Element) (es : List Element) : lensOf (e :: es) = e.len + lensOf es := by
  rw [lensOf, map_cons, sum_cons, lensOf]

theorem countElts_eq (be : Bool) (hfuel : body.size < buffer + fuel) (hpos : 0 < fuel)
    (nlist nglyph : Nat) : countElts body size fuel buffer nlist nglyph =
      some (nlist + listsOf (elementsFrom be body size fuel buffer),
        nglyph + lensOf (elementsFrom be body size fuel buffer)) := by
  induction fuel generalizing buffer nlist nglyph with
  | zero => exact absurd hpos (lt_irrefl 0)
  | succ fuel ih =>
    rw [countElts, elementsFrom_succ]
    by_cases hlt : buffer + sizeofElt < body.size
    · obtain ⟨hnext, hfuel'⟩ := fuel_after size hlt hfuel
      rw [if_pos hlt, if_pos hlt, load8_lt (by omega), bind_some, listsOf_cons, lensOf_cons]
      by_cases hswitch : (body.byte buffer).val = 0xff
      · have hafter : after body size buffer = buffer + sizeofElt + 4 := by
          rw [after, if_pos hswitch]
        rw [if_pos hswitch, ← hafter, ih hnext hfuel', elementAt, if_pos hswitch, Element.lists,
          Element.len, zero_add, zero_add]
      · have hafter : after body size buffer = buffer + sizeofElt +
            padded (size * (body.byte buffer).val) := by
          rw [after, if_neg hswitch]
        rw [if_neg hswitch, ← hafter, ih hnext hfuel', elementAt, if_neg hswitch, Element.lists,
          Element.len, add_assoc, add_assoc]
    · rw [if_neg hlt, if_neg hlt]
      rfl

theorem idsFrom_succ (n buffer : Nat) : idsFrom be body size (n + 1) buffer =
    if buffer + size ≤ body.size then
      wordAt be body size buffer :: idsFrom be body size n (buffer + size)
    else idsFrom be body size n (buffer + size) := by
  have hshift : ((range n).map succ).map (fun i => buffer + i * size) =
      (range n).map fun i => buffer + size + i * size := by
    rw [List.map_map]
    refine map_congr_left fun i _ => ?_
    show buffer + (i + 1) * size = _
    rw [Nat.add_one_mul]
    omega
  rw [idsFrom, range_succ_eq_map, map_cons, hshift, zero_mul, add_zero, filter_cons]
  by_cases hle : buffer + size ≤ body.size
  · rw [if_pos (decide_eq_true hle), if_pos hle, map_cons, idsFrom]
  · rw [if_neg (by simpa using hle), if_neg hle, idsFrom]

variable {glyphSet : GlyphSet}

theorem storeGlyphs_eq (hok : HashOk glyphSet.hash)
    (hmade : glyphSet.hash.hashSet.isSome = true) (hsize : size = 1 ∨ size = 2 ∨ size = 4)
    {room n len : Nat} {glyphs : List Nat} (hroom : glyphs.length + n ≤ room) :
    storeGlyphs be st body size glyphSet room n buffer len glyphs = some (buffer + size * n,
        len + (foundOf st glyphSet (idsFrom be body size n buffer)).length,
        glyphs ++ foundOf st glyphSet (idsFrom be body size n buffer)) := by
  induction n generalizing buffer len glyphs with
  | zero =>
    rw [storeGlyphs, idsFrom, range_zero]
    simp [foundOf]
  | succ n ih =>
    rw [storeGlyphs, idsFrom_succ]
    have hmul : buffer + size + size * n = buffer + size * (n + 1) := by
      rw [Nat.mul_add_one]
      omega
    by_cases hle : buffer + size ≤ body.size
    · rw [if_pos hle, if_pos hle, loadGlyph_lt hsize hle, bind_some]
      obtain ⟨gr, -, -, hfind, -⟩ := hok.id_lookup st.glyphs hmade (wordAt be body size buffer)
      have hfound : findGlyph st glyphSet (wordAt be body size buffer) =
          some (glyphSet.hash.glyphAt gr) := by
        rw [findGlyph, hfind, map_some]
      rw [hfound, bind_some, if_pos (by omega)]
      cases hat : glyphSet.hash.glyphAt gr with
      | none =>
        rw [ih (by omega), hmul]
        have hskip : foundOf st glyphSet (wordAt be body size buffer ::
            idsFrom be body size n (buffer + size)) =
            foundOf st glyphSet (idsFrom be body size n (buffer + size)) := by
          rw [foundOf, filterMap_cons_none (by rw [hfound, hat]; rfl), foundOf]
        rw [hskip]
      | some g =>
        dsimp only
        rw [ih (by rw [length_append, length_singleton]; omega), hmul]
        have htake : foundOf st glyphSet (wordAt be body size buffer ::
            idsFrom be body size n (buffer + size)) =
            g :: foundOf st glyphSet (idsFrom be body size n (buffer + size)) := by
          rw [foundOf, filterMap_cons_some (by rw [hfound, hat]; rfl), foundOf]
        rw [htake, length_cons, append_assoc, singleton_append, add_assoc, add_comm 1]
    · rw [if_neg hle, if_neg hle, ih (by omega), hmul]

theorem foundOf_length (be : Bool) (st : Store) (body : Block) (size : Nat) (glyphSet : GlyphSet)
    (n buffer : Nat) : (foundOf st glyphSet (idsFrom be body size n buffer)).length ≤ n := by
  have hle : (idsFrom be body size n buffer).length ≤ n := by
    rw [idsFrom, length_map]
    refine (length_filter_le _ _).trans ?_
    rw [length_map, length_range]
  exact (length_filterMap_le _ _).trans hle

def finish (body : Block) (size : Nat) : Nat → Nat → Nat
  | 0, buffer => buffer
  | fuel + 1, buffer =>
    if buffer + sizeofElt < body.size then finish body size fuel (after body size buffer) else buffer

theorem after_glyphs (hswitch : ¬ (body.byte buffer).val = 0xff) :
    (if size * (body.byte buffer).val % 4 ≠ 0 then
        buffer + sizeofElt + size * (body.byte buffer).val + (4 - size * (body.byte buffer).val % 4)
      else buffer + sizeofElt + size * (body.byte buffer).val) = after body size buffer := by
  rw [after, if_neg hswitch, padded]
  split
  · rw [add_assoc]
  · rfl

def SetsMade (given : Resources) : Prop :=
  ∀ id set, given.glyphSet id = .ok set → HashOk set.hash ∧ set.hash.hashSet.isSome = true

theorem fillElts_eq (hsets : SetsMade given) (hsize : size = 1 ∨ size = 2 ∨ size = 4)
    {nlist nglyph : Nat} {lists : List GlyphList}
    {glyphs : List Nat} (hok : HashOk glyphSet.hash) (hmade : glyphSet.hash.hashSet.isSome = true)
    (hfuel : body.size < buffer + fuel) (hpos : 0 < fuel)
    (hlists : lists.length + listsOf (elementsFrom be body size fuel buffer) ≤ nlist)
    (hglyphs : glyphs.length + lensOf (elementsFrom be body size fuel buffer) ≤ nglyph) :
    fillElts be st given body size nlist nglyph fuel buffer glyphSet lists glyphs =
      some (match resolve st given glyphSet (elementsFrom be body size fuel buffer) with
        | .error code => .error (.resource code)
        | .ok found => .ok (finish body size fuel buffer, lists ++ found.map fst,
            glyphs ++ (found.map snd).flatten)) := by
  induction fuel generalizing buffer glyphSet lists glyphs with
  | zero => exact absurd hpos (lt_irrefl 0)
  | succ fuel ih =>
    rw [elementsFrom_succ] at hlists hglyphs
    rw [fillElts, elementsFrom_succ, finish]
    by_cases hlt : buffer + sizeofElt < body.size
    · obtain ⟨hnext, hfuel'⟩ := fuel_after size hlt hfuel
      have hhead : buffer + 8 < body.size := hlt
      rw [if_pos hlt, listsOf_cons] at hlists
      rw [if_pos hlt, lensOf_cons] at hglyphs
      rw [if_pos hlt, if_pos hlt, if_pos hlt, load8_lt (by omega), bind_some,
        load16_lt (by omega), bind_some, load16_lt (by omega), bind_some]
      by_cases hswitch : (body.byte buffer).val = 0xff
      · have hafter : after body size buffer = buffer + sizeofElt + 4 := by
          rw [after, if_pos hswitch]
        rw [elementAt, if_pos hswitch, Element.lists, zero_add] at hlists
        rw [elementAt, if_pos hswitch, Element.len, zero_add] at hglyphs
        rw [if_pos hswitch, elementAt, if_pos hswitch]
        by_cases hid : buffer + sizeofElt + 4 < body.size
        · rw [if_pos hid, if_pos hid, load32_lt hid.le, bind_some]
          dsimp only [resolve]
          cases hset : given.glyphSet (wordAt be body 4 (buffer + sizeofElt)) with
          | error code => rfl
          | ok set =>
            obtain ⟨hok', hmade'⟩ := hsets _ _ hset
            dsimp only
            rw [← hafter, ih hok' hmade' hnext hfuel' hlists hglyphs]
            rfl
        · rw [if_neg hid, if_neg hid, ← hafter, ih hok hmade hnext hfuel' hlists hglyphs]
          rfl
      · rw [elementAt, if_neg hswitch, Element.lists] at hlists
        rw [elementAt, if_neg hswitch, Element.len] at hglyphs
        rw [if_neg hswitch, elementAt, if_neg hswitch, if_pos (by omega),
          storeGlyphs_eq hok hmade hsize (by omega), bind_some]
        dsimp only
        rw [after_glyphs hswitch]
        have hlen := foundOf_length be st body size glyphSet (body.byte buffer).val
          (buffer + sizeofElt)
        rw [ih hok hmade hnext hfuel'
          (by rw [length_append, length_singleton]; omega)
          (by rw [length_append]; omega), resolve]
        cases hrest : resolve st given glyphSet
            (elementsFrom be body size fuel (after body size buffer)) with
        | error code => rfl
        | ok found =>
          dsimp only [Except.map]
          rw [map_cons, map_cons, flatten_cons, append_assoc,
            append_assoc, singleton_append, zero_add]
    · rw [if_neg hlt, if_neg hlt, if_neg hlt, resolve]
      dsimp only
      rw [map_nil, map_nil, flatten_nil, append_nil, append_nil]

theorem finish_gt (fuel buffer : Nat) : body.size < finish body size fuel buffer ↔
    body.size < buffer ∨ ∃ b ∈ starts body size (sizeofElt + 1) fuel buffer,
      body.size < after body size b := by
  induction fuel generalizing buffer with
  | zero => simp [finish, starts]
  | succ fuel ih =>
    rw [finish, starts]
    by_cases hlt : buffer + sizeofElt < body.size
    · rw [if_pos hlt, if_pos (by omega), ih]
      simp only [mem_cons, exists_eq_or_imp]
      rw [or_iff_right (by omega : ¬ body.size < buffer)]
    · rw [if_neg hlt, if_neg (by omega)]
      simp

theorem overruns_iff :
    Overruns body size (sizeofElt + 1) ↔ body.size < finish body size (body.size + 1) 0 := by
  rw [finish_gt, or_iff_right (Nat.not_lt_zero _), Overruns]

theorem lens_elementsFrom (fuel buffer : Nat) : ∀ e ∈ elementsFrom be body size fuel buffer,
    ∀ xOff yOff len ids, e = .glyphs xOff yOff len ids → ids.length ≤ len := by
  rintro e he xOff yOff len ids rfl
  obtain ⟨b, -, hb⟩ := List.mem_map.mp he
  rw [elementAt] at hb
  by_cases hswitch : (body.byte b).val = 0xff
  · rw [if_pos hswitch] at hb
    cases hb
  · rw [if_neg hswitch] at hb
    cases hb
    rw [idsFrom, length_map]
    refine (length_filter_le _ _).trans ?_
    rw [length_map, length_range]

variable {found : List (GlyphList × List Nat)}

theorem resolve_spec {es : List Element} (hids : ∀ e ∈ es, ∀ xOff yOff len ids,
      e = .glyphs xOff yOff len ids → ids.length ≤ len)
    (h : resolve st given glyphSet es = .ok found) :
    found.length = listsOf es ∧ (found.map snd).flatten.length ≤ lensOf es ∧
      ∀ x ∈ found, x.1.len = x.2.length := by
  induction es generalizing glyphSet found with
  | nil =>
    cases h
    exact ⟨rfl, le_rfl, fun _ hx => nomatch hx⟩
  | cons e es ih =>
    have hids' := fun e he => hids e (mem_cons_of_mem _ he)
    rw [listsOf_cons, lensOf_cons]
    cases e with
    | glyphSet id =>
      rw [Element.lists, Element.len, zero_add, zero_add]
      cases id with
      | none => exact ih hids' h
      | some id =>
        rw [resolve] at h
        cases hset : given.glyphSet id with
        | error code =>
          rw [hset] at h
          cases h
        | ok set =>
          rw [hset] at h
          exact ih hids' h
    | glyphs xOff yOff len ids =>
      rw [resolve] at h
      cases hrest : resolve st given glyphSet es with
      | error code =>
        rw [hrest] at h
        cases h
      | ok rest =>
        rw [hrest] at h
        cases h
        obtain ⟨hlists, hlens, hall⟩ := ih hids' hrest
        have hlen := hids _ mem_cons_self xOff yOff len ids rfl
        have hfound : (foundOf st glyphSet ids).length ≤ ids.length := length_filterMap_le _ _
        refine ⟨?_, ?_, forall_mem_cons.mpr ⟨rfl, hall⟩⟩
        · rw [length_cons, hlists, Element.lists, add_comm]
        · rw [map_cons, flatten_cons, length_append, Element.len]
          exact Nat.add_le_add (hfound.trans hlen) hlens

theorem checkComposite_ok {stuff : CompositeReq} (h : checkComposite given stuff = .ok glyphSet) :
    given.glyphSet stuff.glyphset = .ok glyphSet := by
  unfold checkComposite at h
  repeat' split at h
  all_goals cases h
  assumption

theorem checkComposite_ne (given : Resources) (stuff : CompositeReq) :
    checkComposite given stuff ≠ .error .badLength := by
  intro h
  unfold checkComposite at h
  repeat' split at h
  all_goals cases h

theorem singleRenderCompositeGlyphs_eq (hsets : SetsMade given) (stuff : CompositeReq) :
    singleRenderCompositeGlyphs be st given stuff body = some (match checkComposite given stuff with
        | .error e => .error e
        | .ok glyphSet =>
          let size := glyphSize stuff.renderReqType
          let es := elements be body size
          if nLocalGlyph < lensOf es ∧ given.memoryGlyphs = false then .error .badAlloc
          else if nLocalDelta < listsOf es ∧ given.memoryLists = false then .error .badAlloc
          else
            match resolve st given glyphSet es with
            | .error code => .error (.resource code)
            | .ok found =>
              if body.size < finish body size (body.size + 1) 0 then .error .badLength
              else .ok ⟨listsOf es, found.map fst, (found.map snd).flatten⟩) := by
  unfold singleRenderCompositeGlyphs
  cases hcheck : checkComposite given stuff with
  | error e => rfl
  | ok glyphSet =>
    obtain ⟨hok, hmade⟩ := hsets _ _ (checkComposite_ok hcheck)
    have hsize := glyphSize_cases stuff.renderReqType
    dsimp only
    rw [countElts_eq be (by omega) (succ_pos _), bind_some]
    rw [zero_add, zero_add, ← elements]
    by_cases hglyphs : nLocalGlyph < lensOf (elements be body (glyphSize stuff.renderReqType)) ∧
        given.memoryGlyphs = false
    · rw [if_pos hglyphs, if_pos hglyphs]
    by_cases hlists : nLocalDelta < listsOf (elements be body (glyphSize stuff.renderReqType)) ∧
        given.memoryLists = false
    · rw [if_neg hglyphs, if_neg hglyphs, if_pos hlists, if_pos hlists]
    rw [if_neg hglyphs, if_neg hglyphs, if_neg hlists, if_neg hlists,
      fillElts_eq hsets hsize hok hmade (by omega) (succ_pos _)
        (by rw [length_nil, zero_add, ← elements])
        (by rw [length_nil, zero_add, ← elements]), ← elements, map_some]
    cases resolve st given glyphSet (elements be body (glyphSize stuff.renderReqType)) with
    | error code => rfl
    | ok found => rfl

/-- What is drawn: a list for each element that has glyphs, of those glyphs that the set
has which was named last before it. -/
structure Draws (st : Store) (given : Resources) (glyphSet : GlyphSet) (es : List Element)
    (drawn : Drawn) : Prop where
  resolved : ∃ found, resolve st given glyphSet es = .ok found ∧
    drawn.lists = found.map fst ∧ drawn.glyphs = (found.map snd).flatten ∧
    ∀ x ∈ found, x.1.len = x.2.length
  lists : drawn.lists.length = drawn.nlist
  lens : (drawn.lists.map GlyphList.len).sum = drawn.glyphs.length
  counted : drawn.nlist = listsOf es ∧ drawn.glyphs.length ≤ lensOf es

/-- The request comes to its end: the checks let it through, there is memory and every
set that is looked up is there. -/
def Completes (st : Store) (given : Resources) (stuff : CompositeReq) (es : List Element) : Prop :=
  ∃ glyphSet found, checkComposite given stuff = .ok glyphSet ∧
    ¬ (nLocalGlyph < lensOf es ∧ given.memoryGlyphs = false) ∧
    ¬ (nLocalDelta < listsOf es ∧ given.memoryLists = false) ∧
    resolve st given glyphSet es = .ok found

theorem draws_of_resolve
    (h : resolve st given glyphSet (elementsFrom be body size fuel buffer) = .ok found) :
    Draws st given glyphSet (elementsFrom be body size fuel buffer)
      ⟨listsOf (elementsFrom be body size fuel buffer), found.map fst,
        (found.map snd).flatten⟩ := by
  obtain ⟨hlists, hlens, hall⟩ := resolve_spec (lens_elementsFrom fuel buffer) h
  refine ⟨⟨found, h, rfl, rfl, hall⟩, ?_, ?_, rfl, hlens⟩
  · rw [length_map, hlists]
  · rw [List.map_map, length_flatten, List.map_map]
    exact congrArg sum (map_congr_left hall)

end

/-- Every read and every write of a request is in bounds, what is drawn is what the
elements say, in arrays of the sizes that were counted, and the request is refused for
its length when an element that is looked at claims bytes past its end. -/
def Agrees (be : Bool) (st : Store) (given : Resources) (stuff : CompositeReq) (body : Block) :
    Prop :=
  let size := glyphSize stuff.renderReqType
  let es := elements be body size
  ∃ r, singleRenderCompositeGlyphs be st given stuff body = some r ∧ (r = .error .badLength ↔
      Completes st given stuff es ∧ Overruns body size (sizeofElt + 1)) ∧
    ∀ drawn, r = .ok drawn → ∃ glyphSet, checkComposite given stuff = .ok glyphSet ∧
      (∃ n, countElts body size (body.size + 1) 0 0 0 = some (drawn.nlist, n) ∧
        drawn.glyphs.length ≤ n) ∧
      Draws st given glyphSet es drawn

theorem compositeGlyphs_agrees (be : Bool) (st : Store) {given : Resources}
    (hsets : SetsMade given) (stuff : CompositeReq) (body : Block) :
    Agrees be st given stuff body := by
  refine ⟨_, singleRenderCompositeGlyphs_eq hsets stuff, ?_⟩
  rw [overruns_iff]
  cases hcheck : checkComposite given stuff with
  | error e =>
    refine ⟨⟨fun h => ?_, ?_⟩, fun _ h => nomatch h⟩
    · have he : (Except.error e : Except CompositeError Drawn) = .error .badLength := h
      cases he
      exact absurd hcheck (checkComposite_ne given stuff)
    · rintro ⟨⟨_, _, h, -⟩, -⟩
      cases hcheck.symm.trans h
  | ok glyphSet =>
    have hcount : countElts body (glyphSize stuff.renderReqType) (body.size + 1) 0 0 0 =
        some (0 + listsOf (elements be body (glyphSize stuff.renderReqType)),
          0 + lensOf (elements be body (glyphSize stuff.renderReqType))) :=
      countElts_eq be (by omega) (succ_pos _) 0 0
    dsimp only
    by_cases hglyphs : nLocalGlyph < lensOf (elements be body (glyphSize stuff.renderReqType)) ∧
        given.memoryGlyphs = false
    · rw [if_pos hglyphs]
      exact ⟨⟨fun h => (nomatch h), fun ⟨⟨_, _, _, hn, _⟩, _⟩ => absurd hglyphs hn⟩,
        fun _ h => nomatch h⟩
    rw [if_neg hglyphs]
    by_cases hlists : nLocalDelta < listsOf (elements be body (glyphSize stuff.renderReqType)) ∧
        given.memoryLists = false
    · rw [if_pos hlists]
      exact ⟨⟨fun h => (nomatch h), fun ⟨⟨_, _, _, _, hn, _⟩, _⟩ => absurd hlists hn⟩,
        fun _ h => nomatch h⟩
    rw [if_neg hlists]
    cases hresolve : resolve st given glyphSet
        (elements be body (glyphSize stuff.renderReqType)) with
    | error code =>
      refine ⟨⟨fun h => (nomatch h), ?_⟩, fun _ h => nomatch h⟩
      rintro ⟨⟨set, found, hset, -, -, hfound⟩, -⟩
      cases hcheck.symm.trans hset
      cases hresolve.symm.trans hfound
    | ok found =>
      dsimp only
      by_cases hover : body.size < finish body (glyphSize stuff.renderReqType) (body.size + 1) 0
      · rw [if_pos hover]
        exact ⟨⟨fun _ => ⟨⟨glyphSet, found, hcheck, hglyphs, hlists, hresolve⟩, hover⟩,
          fun _ => rfl⟩, fun _ h => nomatch h⟩
      · rw [if_neg hover]
        refine ⟨⟨fun h => (nomatch h), fun h => absurd h.2 hover⟩, ?_⟩
        rintro _ ⟨⟩
        have hdraws := draws_of_resolve hresolve
        rw [zero_add, zero_add] at hcount
        exact ⟨glyphSet, rfl, ⟨_, hcount, hdraws.counted.2⟩, hdraws⟩

def oneGlyph : GlyphSet := ⟨1, 2, 8, GlyphHash.store ⟨Probing.new 43, some ⟨32, 43, 41⟩, 0⟩ 1 1 7⟩

def noGlyph : GlyphSet := ⟨1, 2, 8, ⟨Probing.new 43, some ⟨32, 43, 41⟩, 0⟩⟩

def twoSets : Resources where
  pictOpValid := fun _ => true
  readable := fun _ => .ok none
  writable := fun _ => .ok (some 0)
  pictFormat := fun _ => .ok 0
  glyphSet := fun id => if id = 5 then .ok noGlyph else if id = 6 then .ok oneGlyph else .error 1
  format := fun _ => 3
  memoryGlyphs := true
  memoryLists := true

theorem twoSets_made : SetsMade twoSets := by
  have hmade : allocateGlyphHash glyphHashSets.head? true = some noGlyph.hash := rfl
  have hnone : HashOk noGlyph.hash := (allocateGlyphHash_ok hmade).1
  have hfree : Probing.Free noGlyph.hash.table 41 1 1 :=
    ⟨.inl rfl, 0, rfl, fun _ hj => absurd hj (Nat.not_lt_zero _)⟩
  have hone : HashOk oneGlyph.hash := (hnone.store rfl hfree (by decide) 7).1
  intro id set h
  unfold twoSets at h
  dsimp only at h
  by_cases h5 : id = 5
  · rw [if_pos h5] at h
    cases h
    exact ⟨hnone, rfl⟩
  rw [if_neg h5] at h
  by_cases h6 : id = 6
  · rw [if_pos h6] at h
    cases h
    exact ⟨hone, rfl⟩
  · rw [if_neg h6] at h
    cases h

/-- A list in set 5 with an id that only set 6 has, a change to set 6, and the list again. -/
def switched : Block :=
  ⟨36, fun i => ([2, 0, 0, 0, 4, 0, 0, 0, 1, 9, 0, 0, 255, 0, 0, 0, 0, 0, 0, 0, 6, 0, 0, 0,
    2, 0, 0, 0, 4, 0, 0, 0, 1, 9, 0, 0] : List Bytes.Byte).getD i 0⟩

theorem compositeGlyphs_agrees_switched :
    SetsMade twoSets ∧ Agrees false Store.init twoSets ⟨23, 3, 1, 2, 0, 5⟩ switched :=
  ⟨twoSets_made, compositeGlyphs_agrees false Store.init twoSets_made ⟨23, 3, 1, 2, 0, 5⟩ switched⟩

example : singleRenderCompositeGlyphs false Store.init twoSets ⟨23, 3, 1, 2, 0, 5⟩ switched =
    some (.ok ⟨2, [⟨4, 0, 3, 0⟩, ⟨4, 0, 3, 1⟩], [7]⟩) := by
  decide +kernel

def lastHeader : Block := ⟨8, fun i => if i = 0 then 1 else 0⟩

/-- A header that ends the request claims a byte past its end and is not refused. -/
theorem lastHeader_drawn :
    ¬ (singleRenderCompositeGlyphs false Store.init twoSets ⟨23, 3, 1, 2, 0, 5⟩ lastHeader =
        some (.error .badLength) ↔ Overruns lastHeader 1 sizeofElt) := by
  have hover : Overruns lastHeader 1 sizeofElt := ⟨0, by decide, by decide⟩
  have hdrawn : singleRenderCompositeGlyphs false Store.init twoSets ⟨23, 3, 1, 2, 0, 5⟩
      lastHeader = some (.ok ⟨0, [], []⟩) := by
    decide +kernel
  rw [iff_true_right hover, hdrawn]
  exact fun h => nomatch h

end Xfront.Glyphs
