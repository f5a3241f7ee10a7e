import Xfront.Input.Model

/-!
# Framing of a request stream

What the input functions are for, stated on the stream alone: the header at the front of a byte
string gives the length of the request there, and the request with the rest of the stream follows
from it.
-/

namespace Xfront.Input
open Xfront.Bytes List

/-- How a client's words are to be read: byte order and whether it may send big
requests. -/
structure Dialect where
  bigEndian : Bool
  bigRequests : Bool

def Server.dialect (srv : Server) (cli : Client) : Dialect := ⟨srv.order cli, cli.bigRequests⟩

inductive Header where
  | incomplete
  | ordinary (units : Nat)
  | big (units : Nat)

def header (d : Dialect) (bs : List Byte) : Header :=
  if bs.length < 4 then .incomplete
  else if wordAt16 d.bigEndian bs 2 = 0 ∧ d.bigRequests then
    if bs.length < 8 then .incomplete else .big (wordAt32 d.bigEndian bs 4)
  else .ordinary (wordAt16 d.bigEndian bs 2)

/-- A request as the dispatcher sees it: the count returned, `req_len`, and the
bytes at `requestBuffer`; of an oversized one only the count. -/
inductive Report where
  | whole (count reqLen : Nat) (bytes : List Byte)
  | oversized (count : Nat)
  deriving DecidableEq

def Report.count : Report → Nat
  | .whole count _ _ => count
  | .oversized count => count

def Report.Fits (cap : Nat) : Report → Prop
  | .whole count _ _ => count ≤ cap
  | .oversized count => cap < count

/-- What the front of a stream holds. `short` is a big request whose declared
length, one unit, does not cover its own header. -/
inductive Frame where
  | incomplete
  | malformed
  | rejected
  | short (header rest : List Byte)
  | request (r : Report) (rest : List Byte)

def shown (count : Nat) (bs : List Byte) : List Byte := bs.take 4 ++ (bs.take count).drop 8

def frame (cap : Nat) (d : Dialect) (bs : List Byte) : Frame :=
  match header d bs with
  | .incomplete => .incomplete
  | .ordinary n =>
    let count := if n = 0 then 4 else n * 4
    if cap < count then .request (.oversized count) (bs.drop count)
    else if bs.length < count then .incomplete
    else .request (.whole count n (bs.take count)) (bs.drop count)
  | .big n =>
    if maxUnits < n then .malformed
    else if n = 0 then .rejected
    else if n = 1 then .short (bs.take 4) (bs.drop 8)
    else if cap < n * 4 then .request (.oversized (n * 4)) (bs.drop (n * 4))
    else if bs.length < n * 4 then .incomplete
    else .request (.whole (n * 4) (n - 1) (shown (n * 4) bs)) (bs.drop (n * 4))

variable {d : Dialect} {bs : List Byte}

theorem frame_cap {cap : Nat} {rest : List Byte} {r : Report}
    (h : frame cap d bs = .request r rest) : r.Fits cap := by
  unfold frame at h
  split at h
  · cases h
  · dsimp only at h
    split_ifs at h <;> cases h <;> simp only [Report.Fits] <;> omega
  · split_ifs at h <;> cases h <;> simp only [Report.Fits] <;> omega

theorem header_of_length_lt (h : bs.length < 4) : header d bs = .incomplete := if_pos h

theorem wordAt16_extend {be : Bool} {a b : List Byte} {off : Nat} (h : off + 2 ≤ a.length) :
    wordAt16 be (a ++ b) off = wordAt16 be a off := by
  simp only [wordAt16]
  rw [getD_append _ _ _ _ (by omega), getD_append _ _ _ _ (by omega)]

theorem wordAt32_extend {be : Bool} {a b : List Byte} {off : Nat} (h : off + 4 ≤ a.length) :
    wordAt32 be (a ++ b) off = wordAt32 be a off := by
  simp only [wordAt32]
  rw [getD_append _ _ _ _ (by omega), getD_append _ _ _ _ (by omega),
    getD_append _ _ _ _ (by omega), getD_append _ _ _ _ (by omega)]

theorem header_append {as : List Byte} (bs : List Byte)
    (h : header d as ≠ .incomplete) : header d (as ++ bs) = header d as := by
  have h4 : ¬ as.length < 4 := fun hl => h (header_of_length_lt hl)
  have hlen : (as ++ bs).length = as.length + bs.length := length_append
  unfold header at h ⊢
  rw [if_neg h4] at h ⊢
  rw [if_neg (by omega), wordAt16_extend (by omega)]
  by_cases hz : wordAt16 d.bigEndian as 2 = 0 ∧ d.bigRequests = true
  · rw [if_pos hz] at h ⊢
    have h8 : ¬ as.length < 8 := fun hl => h (if_pos hl)
    rw [if_pos hz, if_neg h8, if_neg (by omega), wordAt32_extend (by omega)]
  · rw [if_neg hz, if_neg hz]

variable {n : Nat}

theorem header_ordinary_iff (h : header d bs = .ordinary n) :
    4 ≤ bs.length ∧ n = wordAt16 d.bigEndian bs 2 ∧ (n ≠ 0 ∨ d.bigRequests = false) := by
  unfold header at h
  split_ifs at h with h4 hz h8
  refine ⟨by omega, by simpa using h.symm, ?_⟩
  have hn : wordAt16 d.bigEndian bs 2 = n := by simpa using h
  rw [hn] at hz
  by_cases hn0 : n = 0
  · exact .inr (by simpa [hn0] using hz)
  · exact .inl hn0

theorem header_big_iff (h : header d bs = .big n) :
    8 ≤ bs.length ∧ wordAt16 d.bigEndian bs 2 = 0 ∧ d.bigRequests = true ∧
      n = wordAt32 d.bigEndian bs 4 := by
  unfold header at h
  split_ifs at h with h4 hz h8
  exact ⟨by omega, hz.1, hz.2, by simpa using h.symm⟩

theorem header_incomplete_iff (h : header d bs = .incomplete) (h4 : 4 ≤ bs.length) :
    bs.length < 8 ∧ wordAt16 d.bigEndian bs 2 = 0 ∧ d.bigRequests = true := by
  unfold header at h
  rw [if_neg (by omega)] at h
  split_ifs at h with hz h8
  exact ⟨h8, hz.1, hz.2⟩

theorem header_ordinary_lt (h : header d bs = .ordinary n) : n < 2 ^ 16 := by
  obtain ⟨_, hn, _⟩ := header_ordinary_iff h
  rw [hn]
  exact word16_lt _ _ _

end Xfront.Input
