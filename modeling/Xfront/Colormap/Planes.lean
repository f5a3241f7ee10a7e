import Xfront.Colormap.Words

/-!
# What AllocCP allocates

A mask that does not exceed the number of entries is searched inside the channel.
-/

namespace Xfront.Colormap
open Submasks List Nat

def Free (ent : List Entry) (mask pixel : Nat) : Prop :=
  ∀ s, Sub s mask → ∃ e, ent[pixel + s]? = some e ∧ e.refcnt = 0

def Candidate (ent : List Entry) (mask pixel : Nat) : Prop :=
  pixel &&& mask = 0 ∧ Free ent mask pixel

/-- There are `count` pixels that can be allocated with a mask. -/
def Roomy (ent : List Entry) (mask count : Nat) : Prop :=
  ∃ found : List Nat, found.Nodup ∧ found.length = count ∧ ∀ p ∈ found, Candidate ent mask p

def contigMask (planes k : Nat) : Nat := (2 ^ planes - 1) * 2 ^ k

def takeAll (ent : List Entry) (xs : List Nat) : List Entry :=
  ent.mapIdx fun i e => if i ∈ xs then e.taken else e

section

variable {ent : List Entry}

theorem length_takeAll (ent : List Entry) (xs : List Nat) : (takeAll ent xs).length = ent.length :=
  length_mapIdx

theorem takeAll_getElem? (ent : List Entry) (xs : List Nat) (i : Nat) :
    (takeAll ent xs)[i]? = (ent[i]?).map fun e => if i ∈ xs then e.taken else e :=
  getElem?_mapIdx

theorem taken_taken (e : Entry) : e.taken.taken = e.taken := rfl

theorem takeAll_append (ent : List Entry) (xs ys : List Nat) :
    takeAll (takeAll ent xs) ys = takeAll ent (xs ++ ys) := by
  refine ext_getElem? fun i => ?_
  rw [takeAll_getElem?, takeAll_getElem?, takeAll_getElem?, Option.map_map]
  congr 1
  funext e
  simp only [Function.comp, mem_append]
  by_cases hx : i ∈ xs <;> by_cases hy : i ∈ ys <;> simp [hx, hy, taken_taken]

theorem takeAll_nil (ent : List Entry) : takeAll ent [] = ent := by
  refine ext_getElem? fun i => ?_
  rw [takeAll_getElem?]
  simp

theorem takeAll_congr (ent : List Entry) {xs ys : List Nat} (h : ∀ i, i ∈ xs ↔ i ∈ ys) :
    takeAll ent xs = takeAll ent ys := by
  refine ext_getElem? fun i => ?_
  rw [takeAll_getElem?, takeAll_getElem?]
  simp only [h]

variable {x : Nat}

theorem takeCell_eq (h : x < ent.length) : takeCell ent x = .ok (takeAll ent [x]) := by
  rw [takeCell, getElem?_eq_getElem h]
  dsimp only
  congr 1
  refine ext_getElem? fun i => ?_
  rw [takeAll_getElem?, getElem?_set]
  by_cases hi : x = i
  · subst hi
    rw [if_pos rfl, if_pos h, getElem?_eq_getElem h]
    simp
  · rw [if_neg hi]
    have hnot : i ∉ [x] := fun hmem => hi (mem_singleton.mp hmem).symm
    simp [hnot]

theorem cell_ok {e : Entry} (h : ent[x]? = some e) : cell ent x = .ok e := by
  rw [cell, h]

theorem cell_outside (h : ent.length ≤ x) : cell ent x = .error .outside := by
  rw [cell, getElem?_eq_none h]

theorem contigMask_add (p k : Nat) : contigMask p k + 2 ^ k = 2 ^ p * 2 ^ k := by
  have hpos := Nat.two_pow_pos p
  rw [contigMask, Nat.sub_mul, one_mul]
  exact Nat.sub_add_cancel (Nat.le_mul_of_pos_left _ hpos)

theorem contigMask_succ (p k : Nat) : contigMask p (k + 1) = contigMask p k + contigMask p k := by
  rw [contigMask, contigMask, pow_succ]
  ring

variable {k : Nat}

theorem contigMask_mono (p : Nat) {j : Nat} (h : j ≤ k) : contigMask p j ≤ contigMask p k :=
  Nat.mul_le_mul_left _ (Nat.pow_le_pow_right zero_lt_two h)

theorem and_contigMask (p k : Nat) : ∀ q, q &&& contigMask p k = q / 2 ^ k % 2 ^ p * 2 ^ k := by
  induction k with
  | zero =>
    intro q
    rw [contigMask, pow_zero, mul_one, Nat.div_one, mul_one, and_two_pow_sub_one_eq_mod]
  | succ k ih =>
    intro q
    have hhalf : contigMask p (k + 1) / 2 = contigMask p k := by
      rw [contigMask_succ]
      omega
    have heven : contigMask p (k + 1) % 2 = 0 := by
      rw [contigMask_succ]
      omega
    rw [and_split, hhalf, heven, and_zero, ih, Nat.div_div_eq_div_mul, ← Nat.pow_succ',
      pow_succ 2 k]
    ring

variable {p q : Nat}

theorem and_contigMask_eq_zero : q &&& contigMask p k = 0 ↔ q / 2 ^ k % 2 ^ p = 0 := by
  have hpos := Nat.two_pow_pos k
  rw [and_contigMask, Nat.mul_eq_zero]
  exact ⟨fun h => h.resolve_right (ne_of_gt hpos), .inl⟩

theorem next_contig (hp : 0 < p) (hq : q &&& contigMask p k = 0) {next : Nat}
    (hnext : next = if (q + 1) &&& contigMask p k ≠ 0 then q + 1 + contigMask p k else q + 1) :
    q < next ∧ next &&& contigMask p k = 0 ∧ ∀ x, q < x → x < next → x &&& contigMask p k ≠ 0 := by
  by_cases hmeets : (q + 1) &&& contigMask p k ≠ 0
  · rw [if_pos hmeets] at hnext
    have hb := Nat.two_pow_pos k
    have hadd := contigMask_add p k
    rw [Ne, and_contigMask_eq_zero] at hmeets
    rw [and_contigMask_eq_zero] at hq
    have hdiv : (q + 1) / 2 ^ k = q / 2 ^ k + 1 := by
      have hle : (q + 1) / 2 ^ k ≤ q / 2 ^ k + 1 := by
        rw [← add_div_right q hb]
        exact Nat.div_le_div_right (by omega)
      have hge : q / 2 ^ k ≤ (q + 1) / 2 ^ k := Nat.div_le_div_right (le_succ q)
      have hne : (q + 1) / 2 ^ k ≠ q / 2 ^ k := fun heq => hmeets (by rw [heq]; exact hq)
      omega
    have hmul : q + 1 = (q / 2 ^ k + 1) * 2 ^ k := by
      have hlow : (q / 2 ^ k + 1) * 2 ^ k ≤ q + 1 := by
        rw [← hdiv]
        exact div_mul_le_self (q + 1) (2 ^ k)
      have hhigh : q < (q / 2 ^ k + 1) * 2 ^ k := by
        rw [add_mul, one_mul]
        exact lt_div_mul_add hb
      omega
    have hend : next + 2 ^ k = (q / 2 ^ k + 2 ^ p + 1) * 2 ^ k := by
      rw [hnext, add_assoc, hadd, hmul]
      ring
    have hend' : next = (q / 2 ^ k + 2 ^ p) * 2 ^ k := by
      rw [add_mul _ 1, one_mul] at hend
      omega
    refine ⟨by omega, ?_, fun x hlt hgt => ?_⟩
    · rw [and_contigMask_eq_zero, hend', Nat.mul_div_cancel _ hb, add_mod_right]
      exact hq
    · rw [Ne, and_contigMask_eq_zero]
      have hlow : q / 2 ^ k + 1 ≤ x / 2 ^ k := by
        rw [Nat.le_div_iff_mul_le hb, ← hmul]
        exact hlt
      have hhigh : x / 2 ^ k < q / 2 ^ k + 2 ^ p := by
        rw [Nat.div_lt_iff_lt_mul hb, ← hend']
        exact hgt
      obtain ⟨d, hd⟩ := Nat.exists_eq_add_of_le hlow
      have hmod : x / 2 ^ k % 2 ^ p = (1 + d) % 2 ^ p := by
        rw [hd, add_assoc, add_mod, hq, zero_add, mod_mod]
      rw [hmod, mod_eq_of_lt (by omega)]
      omega
  · rw [if_neg hmeets] at hnext
    rw [not_not] at hmeets
    rw [hnext]
    exact ⟨lt_succ_self q, hmeets, fun x hlt hgt => by omega⟩

theorem free_contig : Free ent (contigMask p k) q ↔
    ∀ i < 2 ^ p, ∃ e, ent[q + i * 2 ^ k]? = some e ∧ e.refcnt = 0 := by
  constructor
  · exact fun h i hi => h _ ((sub_consecutive p k _).mpr ⟨i, hi, rfl⟩)
  · intro h s hs
    obtain ⟨i, hi, rfl⟩ := (sub_consecutive p k s).mp hs
    exact h i hi

variable {base : Nat}

theorem stopAt_spec {J : Nat} (hbase : 0 < base) (hlt : q + J * base < 2 ^ 32)
    (hin : ∀ i < J, q + i * base < ent.length) (fuel : Nat) : ∀ j, j ≤ J → J - j < fuel →
    ∃ stop, stopAt ent base (q + J * base) fuel (q + j * base) = .ok stop ∧ (stop = q + J * base ↔
        ∀ i, j ≤ i → i < J → ∃ e, ent[q + i * base]? = some e ∧ e.refcnt = 0) := by
  induction fuel with
  | zero =>
    intro j _ h
    omega
  | succ fuel ih =>
    intro j hj hfuel
    rw [stopAt]
    rcases eq_or_lt_of_le hj with heq | hlt'
    · subst heq
      rw [if_pos rfl]
      exact ⟨_, rfl, iff_of_true rfl fun i hle hlt => absurd hlt (not_lt.mpr hle)⟩
    · have hmul : j * base < J * base := Nat.mul_lt_mul_of_pos_right hlt' hbase
      have hsucc : (j + 1) * base ≤ J * base := Nat.mul_le_mul_right base hlt'
      have hadd : q + j * base + base = q + (j + 1) * base := by ring
      have hget := getElem?_eq_getElem (hin j hlt')
      rw [if_neg (by omega), cell_ok hget]
      dsimp only [bind, Except.bind]
      split
      · next hzero =>
        rw [hadd, word_of_lt (by omega)]
        obtain ⟨stop, hstop, hiff⟩ := ih (j + 1) hlt' (by omega)
        refine ⟨stop, hstop, hiff.trans ⟨fun h i hle hi => ?_, fun h i hle hi =>
          h i (by omega) hi⟩⟩
        rcases eq_or_lt_of_le hle with heq | hgt
        · rw [← heq]
          exact ⟨_, hget, hzero⟩
        · exact h i hgt hi
      · next hne =>
        refine ⟨_, rfl, iff_of_false (by omega) fun h => ?_⟩
        obtain ⟨e, he, hzero⟩ := h j (le_refl j) hlt'
        rw [hget] at he
        cases he
        exact hne hzero

theorem stopAt_outside {J : Nat} (hbase : 0 < base) (hlt : q + J * base < 2 ^ 32)
    (hout : ent.length ≤ q + (J - 1) * base) (fuel : Nat) : ∀ j, j < J → 0 < fuel →
    ent.length < q + j * base + fuel →
    stopAt ent base (q + J * base) fuel (q + j * base) = .error .outside ∨
      q + j * base < ent.length ∧
        ∃ stop, stopAt ent base (q + J * base) fuel (q + j * base) = .ok stop ∧
          stop ≠ q + J * base := by
  induction fuel with
  | zero =>
    intro j _ h
    omega
  | succ fuel ih =>
    intro j hj _ hfuel
    have hmul : j * base < J * base := Nat.mul_lt_mul_of_pos_right hj hbase
    have hadd : q + j * base + base = q + (j + 1) * base := by ring
    rw [stopAt, if_neg (by omega)]
    rcases lt_or_ge (q + j * base) ent.length with hin | hout'
    · rw [cell_ok (getElem?_eq_getElem hin)]
      dsimp only [bind, Except.bind]
      split
      · have hnot : j + 1 ≠ J := by
          rintro rfl
          rw [Nat.add_sub_cancel] at hout
          omega
        have hsucc : (j + 1) * base ≤ J * base := Nat.mul_le_mul_right base hj
        rw [hadd, word_of_lt (by omega)]
        rcases ih (j + 1) (by omega) (by omega) (by omega) with herr | ⟨-, stop, hstop, hne⟩
        · exact .inl herr
        · exact .inr ⟨hin, stop, hstop, hne⟩
      · exact .inr ⟨hin, _, rfl, by omega⟩
    · rw [cell_outside hout']
      exact .inl rfl

structure Found (ent : List Entry) (mask : Nat) (found : List Nat) : Prop where
  sorted : found.Pairwise (· < ·)
  candidate : ∀ q ∈ found, Candidate ent mask q

structure Searched (ent : List Entry) (mask pixel : Nat) (found : List Nat) : Prop
    extends Found ent mask found where
  below : ∀ q ∈ found, q < pixel
  all : ∀ q < pixel, Candidate ent mask q → q ∈ found

variable {mask : Nat}

theorem Free.lt (h : Free ent mask q) : q + mask < ent.length := by
  obtain ⟨e, he, -⟩ := h mask (sub_self mask)
  exact (List.getElem?_eq_some_iff.mp he).1

theorem Searched.start (ent : List Entry) (mask : Nat) : Searched ent mask 0 [] :=
  ⟨⟨List.Pairwise.nil, fun _ h => absurd h not_mem_nil⟩,
    fun _ h => absurd h not_mem_nil, fun q h => absurd h (Nat.not_lt_zero q)⟩

variable {found : List Nat}

theorem Searched.add (h : Searched ent mask q found)
    (hq : Candidate ent mask q) : Searched ent mask (q + 1) (found ++ [q]) := by
  refine ⟨⟨?_, fun x hx => ?_⟩, fun x hx => ?_, fun x hx hc => ?_⟩
  · rw [pairwise_append]
    refine ⟨h.sorted, pairwise_singleton _ _, fun x hx y hy => ?_⟩
    rw [mem_singleton.mp hy]
    exact h.below x hx
  · rcases mem_append.mp hx with hx | hx
    · exact h.candidate x hx
    · rw [mem_singleton.mp hx]
      exact hq
  · rcases mem_append.mp hx with hx | hx
    · exact lt_succ_of_lt (h.below x hx)
    · rw [mem_singleton.mp hx]
      exact lt_succ_self q
  · rcases Nat.lt_succ_iff_lt_or_eq.mp hx with hlt | rfl
    · exact mem_append_left _ (h.all x hlt hc)
    · exact mem_append_right _ (mem_singleton_self x)

theorem Searched.skip {q' : Nat} (h : Searched ent mask q found)
    (hle : q ≤ q') (hnone : ∀ x, q ≤ x → x < q' → ¬ Candidate ent mask x) :
    Searched ent mask q' found := by
  refine ⟨h.toFound, fun x hx => lt_of_lt_of_le (h.below x hx) hle, fun x hx hc => ?_⟩
  rcases lt_or_ge x q with hlt | hge
  · exact h.all x hlt hc
  · exact absurd hc (hnone x hge hx)

variable {count : Nat}

theorem Searched.not_roomy (h : Searched ent mask q found)
    (hend : ent.length ≤ q + mask) (hcount : found.length < count) : ¬ Roomy ent mask count := by
  rintro ⟨all, hnodup, hlength, hall⟩
  have hsub : all ⊆ found := by
    intro x hx
    have hc := hall x hx
    have hlt := hc.2.lt
    exact h.all x (by omega) hc
  have hle := (subperm_of_subset hnodup hsub).length_le
  omega

theorem Found.roomy (h : Found ent mask found)
    (hcount : found.length = count) : Roomy ent mask count :=
  ⟨found, h.sorted.imp fun hlt => ne_of_lt hlt, hcount, h.candidate⟩

theorem searchContig_spec (hp : 0 < p) (hmask : contigMask p k ≤ ent.length)
    (hlen : ent.length < 2 ^ 15) (fuel : Nat) : ∀ q found, q &&& contigMask p k = 0 →
    Searched ent (contigMask p k) q found → found.length < count → 0 < fuel →
    ent.length < q + fuel →
    (∃ found', searchContig ent count (contigMask p k) (2 ^ k) (ent.length - contigMask p k) fuel q
        found = .ok (some found') ∧ Found ent (contigMask p k) found' ∧ found'.length = count) ∨
    searchContig ent count (contigMask p k) (2 ^ k) (ent.length - contigMask p k) fuel q found =
        .ok none ∧ ¬ Roomy ent (contigMask p k) count := by
  induction fuel with
  | zero =>
    intro q found _ _ _ h
    omega
  | succ fuel ih =>
    intro q found hq hsearched hcount _ hfuel
    rw [searchContig]
    by_cases hend : q < ent.length - contigMask p k
    · have hadd := contigMask_add p k
      have hb := Nat.two_pow_pos k
      have hB : 1 < 2 ^ p := Nat.one_lt_two_pow (ne_of_gt hp)
      have hble : 2 ^ k ≤ contigMask p k := by
        rw [contigMask]
        exact Nat.le_mul_of_pos_left _ (by omega)
      have hmaxp : word (q + contigMask p k + 2 ^ k) = q + 2 ^ p * 2 ^ k := by
        rw [add_assoc, hadd, word_of_lt (by omega)]
      have hin : ∀ i < 2 ^ p, q + i * 2 ^ k < ent.length := by
        intro i hi
        have hle : (i + 1) * 2 ^ k ≤ 2 ^ p * 2 ^ k := Nat.mul_le_mul_right _ hi
        rw [add_mul, one_mul] at hle
        omega
      have hJ : 2 ^ p - 0 < ent.length + 2 := by
        have hle : 2 ^ p - 1 ≤ contigMask p k := Nat.le_mul_of_pos_right _ hb
        omega
      obtain ⟨stop, hstop, hiff⟩ := stopAt_spec hb (by omega) hin (ent.length + 2) 0
        (zero_le _) hJ
      simp only [zero_mul, add_zero] at hstop
      have hfree : stop = q + 2 ^ p * 2 ^ k ↔ Free ent (contigMask p k) q := by
        rw [hiff, free_contig]
        exact ⟨fun h i hi => h i (zero_le i) hi, fun h i _ hi => h i hi⟩
      obtain ⟨hgt, hnext, hskip⟩ := next_contig hp hq rfl
      have hword : word (q + 1) = q + 1 := word_of_lt (by omega)
      have hword' : word (q + 1 + contigMask p k) = q + 1 + contigMask p k := word_of_lt (by omega)
      rw [if_pos hend]
      dsimp only [bind, Except.bind]
      rw [hmaxp, hstop]
      rw [hword, hword']
      by_cases hfound : stop = q + 2 ^ p * 2 ^ k
      · have hadded := hsearched.add ⟨hq, hfree.mp hfound⟩
        simp only [if_pos hfound]
        by_cases hfull : (found ++ [q]).length = count
        · rw [if_pos ⟨hfound, hfull⟩]
          exact .inl ⟨_, rfl, hadded.toFound, hfull⟩
        · rw [if_neg fun h => hfull h.2]
          rw [length_append, length_singleton] at hfull
          refine ih _ _ hnext (hadded.skip hgt fun x hle hlt hc => hskip x hle hlt hc.1) ?_
            (by omega) (by omega)
          rw [length_append, length_singleton]
          omega
      · simp only [if_neg hfound]
        rw [if_neg fun h => hfound h.1]
        refine ih _ _ hnext (hsearched.skip (le_of_lt hgt) fun x hle hlt hc => ?_) hcount
          (by omega) (by omega)
        rcases eq_or_lt_of_le hle with heq | hlt'
        · rw [← heq] at hc
          exact hfound (hfree.mpr hc.2)
        · exact hskip x hlt' hlt hc.1
    · rw [if_neg hend]
      exact .inr ⟨rfl, hsearched.not_roomy (by omega) hcount⟩

theorem searchContig_outside (hp : 0 < p) (hpk : p + k ≤ 31)
    (hmask : ent.length < contigMask p k) (hlen : ent.length < 2 ^ 15) (fuel : Nat) :
    ∀ q found, q < 2 ^ 32 + ent.length - contigMask p k →
    (q < ent.length → q &&& contigMask p k = 0) → 0 < fuel → ent.length < q + fuel →
    searchContig ent count (contigMask p k) (2 ^ k) (2 ^ 32 + ent.length - contigMask p k) fuel q
      found = .error .outside := by
  have hadd := contigMask_add p k
  have hb := Nat.two_pow_pos k
  have hpow : 2 ^ p * 2 ^ k ≤ 2 ^ 31 := by
    rw [← pow_add]
    exact Nat.pow_le_pow_right zero_lt_two hpk
  have hone : 0 < 2 ^ p * 2 ^ k := Nat.mul_pos (Nat.two_pow_pos p) hb
  induction fuel with
  | zero =>
    intro q found _ _ h
    omega
  | succ fuel ih =>
    intro q found hq hbits _ hfuel
    rw [searchContig, if_pos hq]
    dsimp only [bind, Except.bind]
    rcases lt_or_ge q ent.length with hin | hout
    · have hmaxp : word (q + contigMask p k + 2 ^ k) = q + 2 ^ p * 2 ^ k := by
        rw [add_assoc, hadd, word_of_lt (by omega)]
      have hlast : ent.length ≤ q + (2 ^ p - 1) * 2 ^ k := by
        rw [contigMask] at hmask
        omega
      have hstop := stopAt_outside hb (by omega) hlast (ent.length + 2) 0 (Nat.two_pow_pos p)
        (by omega) (by omega)
      simp only [zero_mul, add_zero] at hstop
      rcases hstop with herr | ⟨-, stop, hstop, hne⟩
      · rw [hmaxp, herr]
      · obtain ⟨hgt, hnext, -⟩ := next_contig hp (hbits hin) rfl
        have hword : word (q + 1) = q + 1 := word_of_lt (by omega)
        have hword' : word (q + 1 + contigMask p k) = q + 1 + contigMask p k :=
          word_of_lt (by omega)
        rw [hmaxp, hstop]
        dsimp only
        rw [if_neg fun h => hne h.1, hword, hword', if_neg hne]
        refine ih _ _ ?_ (fun _ => hnext) (by omega) (by omega)
        split <;> omega
    · -- the first cell is outside, whatever the check would run to
      have hne : q ≠ word (q + contigMask p k + 2 ^ k) := by
        rw [add_assoc, hadd, word]
        omega
      rw [stopAt, if_neg hne, cell_outside hout]
      dsimp only [bind, Except.bind]

/-- The pixels, their cells and the mask are right, and no other cell has changed. -/
structure Allocated (ent ent' : List Entry) (count planes : Nat) (contig : Bool)
    (pixels : List Nat) (mask : Nat) : Prop where
  ones : ones 32 mask = planes
  consecutive : contig = true → ∃ k, mask = contigMask planes k
  length : pixels.length = count * 2 ^ planes
  nodup : pixels.Nodup
  bases : ∀ q ∈ pixels.take count, q &&& mask = 0
  cells : ∀ x, x ∈ pixels ↔ ∃ q ∈ pixels.take count, ∃ s, Sub s mask ∧ x = q ||| s
  free : ∀ x ∈ pixels, ∃ e, ent[x]? = some e ∧ e.refcnt = 0 ∧ ent'[x]? = some e.taken
  others : ∀ x, x ∉ pixels → ent'[x]? = ent[x]?

structure SubsetsOf (mask : Nat) (subs : List Nat) : Prop where
  sorted : subs.Pairwise (· < ·)
  mem : ∀ s, s ∈ subs ↔ Sub s mask

theorem SubsetsOf.eq_cons {subs : List Nat} (h : SubsetsOf mask subs) : subs = 0 :: subs.tail := by
  cases hsubs : subs with
  | nil =>
    have hzero := (h.mem 0).mpr (sub_zero mask)
    rw [hsubs] at hzero
    cases hzero
  | cons s subs =>
    have hsorted := h.sorted
    have hzero := (h.mem 0).mpr (sub_zero mask)
    rw [hsubs] at hsorted hzero
    rcases mem_cons.mp hzero with heq | hmem
    · rw [← heq]
      rfl
    · have hlt := (pairwise_cons.mp hsorted).1 0 hmem
      omega

section

variable {mask : Nat} {subs found : List Nat}

theorem perm_cells (hsubs : SubsetsOf mask subs) (found : List Nat) :
    (found ++ found.reverse.flatMap fun q => subs.tail.map (q + ·)).Perm
      (found.flatMap fun q => subs.map (q + ·)) := by
  have hcons : (fun q => subs.map (q + ·)) = fun q => q :: subs.tail.map (q + ·) := by
    funext q
    conv_lhs => rw [hsubs.eq_cons, map_cons, add_zero]
  rw [hcons]
  have hperm := map_append_flatMap_perm found id fun q => subs.tail.map (q + ·)
  rw [map_id] at hperm
  exact (((reverse_perm found).flatMap_right _).append_left found).trans hperm

theorem mem_cells (hsubs : SubsetsOf mask subs) (hbits : ∀ q ∈ found, q &&& mask = 0) (x : Nat) :
    x ∈ found.flatMap (fun q => subs.map (q + ·)) ↔ ∃ q ∈ found, ∃ s, Sub s mask ∧ x = q ||| s := by
  rw [mem_flatMap]
  refine exists_congr fun q => and_congr_right fun hq => ?_
  rw [mem_map]
  refine exists_congr fun s => ?_
  rw [hsubs.mem]
  refine and_congr_right fun hs => ?_
  rw [or_eq_add (and_of_disjoint (hbits q hq) hs)]
  exact eq_comm

theorem nodup_cells (hsubs : SubsetsOf mask subs) (hbits : ∀ q ∈ found, q &&& mask = 0)
    (hnodup : found.Nodup) : (found.flatMap fun q => subs.map (q + ·)).Nodup := by
  rw [nodup_flatMap]
  constructor
  · intro q _
    refine List.Nodup.map (fun a b h => Nat.add_left_cancel h) ?_
    exact hsubs.sorted.imp fun h => ne_of_lt h
  · refine List.Pairwise.imp_of_mem (fun {a b} ha hb hne x hxa hxb => ?_) hnodup
    obtain ⟨s, hs, rfl⟩ := mem_map.mp hxa
    obtain ⟨t, ht, heq⟩ := mem_map.mp hxb
    have hs' := (hsubs.mem s).mp hs
    have ht' := (hsubs.mem t).mp ht
    have ha' := hbits a ha
    have hb' := hbits b hb
    rw [← or_eq_add (and_of_disjoint hb' ht'), ← or_eq_add (and_of_disjoint ha' hs')] at heq
    exact hne (or_inj hb' ha' ht' hs' heq).1.symm

theorem length_cells (q : Nat → Nat → Nat) (found : List Nat) :
    (found.flatMap fun a => subs.map (q a)).length = found.length * subs.length := by
  induction found with
  | nil => simp
  | cons a found ih =>
    rw [flatMap_cons, length_append, length_map, ih, length_cons]
    ring

theorem allocated_of_found {count planes : Nat} {contig : Bool} (hfound : Found ent mask found)
    (hcount : found.length = count) (hsubs : SubsetsOf mask subs) (hmask : mask < 2 ^ 32)
    (hones : Submasks.ones 32 mask = planes)
    (hconsecutive : contig = true → ∃ k, mask = contigMask planes k) :
    Allocated ent (takeAll ent (found.reverse.flatMap fun q => subs.map (q + ·))) count planes
      contig (found ++ found.reverse.flatMap fun q => subs.tail.map (q + ·)) mask := by
  have hbits : ∀ q ∈ found, q &&& mask = 0 := fun q hq => (hfound.candidate q hq).1
  have hperm := perm_cells hsubs found
  have htake : (found ++ found.reverse.flatMap fun q => subs.tail.map (q + ·)).take count =
      found := by
    rw [← hcount, take_left]
  have hmem : ∀ x, x ∈ found ++ found.reverse.flatMap (fun q => subs.tail.map (q + ·)) ↔
      ∃ q ∈ found, ∃ s, Sub s mask ∧ x = q ||| s := fun x => by
    rw [hperm.mem_iff, mem_cells hsubs hbits]
  have hreverse : takeAll ent (found.reverse.flatMap fun q => subs.map (q + ·)) =
      takeAll ent (found ++ found.reverse.flatMap fun q => subs.tail.map (q + ·)) := by
    refine takeAll_congr ent fun i => ?_
    rw [hperm.mem_iff, ((reverse_perm found).flatMap_right _).mem_iff]
  refine ⟨hones, hconsecutive, ?_, ?_, ?_, ?_, ?_, ?_⟩
  · rw [hperm.length_eq, length_cells, hcount, length_of_sorted hmask hsubs.sorted hsubs.mem, hones]
  · exact hperm.nodup_iff.mpr
      (nodup_cells hsubs hbits (hfound.sorted.imp fun h => ne_of_lt h))
  · rw [htake]
    exact hbits
  · rw [htake]
    exact hmem
  · intro x hx
    obtain ⟨q, hq, s, hs, hxs⟩ := (hmem x).mp hx
    obtain ⟨e, he, hzero⟩ := (hfound.candidate q hq).2 s hs
    rw [← or_eq_add (and_of_disjoint (hbits q hq) hs), ← hxs] at he
    refine ⟨e, he, hzero, ?_⟩
    rw [hreverse, takeAll_getElem?, he, Option.map_some, if_pos hx]
  · intro x hx
    rw [hreverse, takeAll_getElem?]
    simp only [if_neg hx]
    exact congrFun Option.map_id _

end

theorem allocContig_spec {L : Nat} (hbase : 0 < base) (hlt : q + L * base < 2 ^ 32)
    (fuel : Nat) : ∀ j (ent : List Entry), q + L * base < ent.length → j ≤ L → L - j < fuel →
    allocContig base (q + L * base) fuel ent (q + j * base) =
      .ok (takeAll ent ((List.range' j (L + 1 - j)).map fun i => q + i * base),
        (List.range' (j + 1) (L - j)).map fun i => q + i * base) := by
  induction fuel with
  | zero =>
    intro j ent _ _ h
    omega
  | succ fuel ih =>
    intro j ent hin hj hfuel
    have hmul : j * base ≤ L * base := Nat.mul_le_mul_right base hj
    rw [allocContig, takeCell_eq (by omega)]
    dsimp only [bind, Except.bind]
    rcases Nat.eq_or_lt_of_le hj with rfl | hlt'
    · have hone : j + 1 - j = 1 := by omega
      rw [if_pos rfl, hone, Nat.sub_self]
      rfl
    · have hmul' : j * base < L * base := Nat.mul_lt_mul_of_pos_right hlt' hbase
      have hadd : q + j * base + base = q + (j + 1) * base := by ring
      have hle : (j + 1) * base ≤ L * base := Nat.mul_le_mul_right base hlt'
      have hcount : L + 1 - j = L + 1 - (j + 1) + 1 := by omega
      have hcount' : L - j = L - (j + 1) + 1 := by omega
      rw [if_neg (by omega), hadd, word_of_lt (by omega),
        ih (j + 1) _ (by rw [length_takeAll]; exact hin) hlt' (by omega), hcount, hcount',
        List.range'_succ, List.range'_succ, map_cons, map_cons, takeAll_append]
      rfl

def contigSubs (p k : Nat) : List Nat := (range (2 ^ p)).map (· * 2 ^ k)

theorem contigSubs_spec (p k : Nat) : SubsetsOf (contigMask p k) (contigSubs p k) := by
  constructor
  · rw [contigSubs, pairwise_map]
    exact pairwise_lt_range.imp fun h => Nat.mul_lt_mul_of_pos_right h (Nat.two_pow_pos k)
  · intro s
    rw [contigMask, sub_consecutive, contigSubs, mem_map]
    simp only [mem_range, eq_comm]

theorem allocAllContig_spec : ∀ (qs : List Nat) (ent : List Entry),
    ent.length < 2 ^ 15 → (∀ q ∈ qs, q + contigMask p k < ent.length) →
    allocAllContig (contigMask p k) (2 ^ k) qs ent =
      .ok (takeAll ent (qs.flatMap fun q => (contigSubs p k).map (q + ·)),
        qs.flatMap fun q => (contigSubs p k).tail.map (q + ·)) := by
  intro qs
  induction qs with
  | nil =>
    intro ent _ _
    rw [allocAllContig, flatMap_nil, takeAll_nil]
    rfl
  | cons q qs ih =>
    intro ent hlen hin
    have hq := hin q mem_cons_self
    have hpos := Nat.two_pow_pos p
    have hfuel : 2 ^ p - 1 - 0 < ent.length + 2 := by
      have hle : 2 ^ p - 1 ≤ contigMask p k := Nat.le_mul_of_pos_right _ (Nat.two_pow_pos k)
      omega
    have hone := allocContig_spec (Nat.two_pow_pos k) (by rw [contigMask] at hq; omega)
      (ent.length + 2) 0 ent hq (zero_le _) hfuel
    simp only [zero_mul, add_zero, Nat.sub_zero, Nat.sub_add_cancel hpos, zero_add] at hone
    have hcells : (contigSubs p k).map (q + ·) = (range' 0 (2 ^ p)).map fun i => q + i * 2 ^ k := by
      rw [contigSubs, map_map, range_eq_range']
      rfl
    have htail : (contigSubs p k).tail.map (q + ·) =
        (range' 1 (2 ^ p - 1)).map fun i => q + i * 2 ^ k := by
      rw [contigSubs, range_eq_range', ← map_tail, tail_range', map_map]
      rfl
    rw [allocAllContig, word_of_lt (by omega)]
    dsimp only [bind, Except.bind]
    have hlast : q + contigMask p k = q + (2 ^ p - 1) * 2 ^ k := rfl
    rw [hlast, hone]
    dsimp only
    have hrest := ih (takeAll ent ((range' 0 (2 ^ p)).map fun i => q + i * 2 ^ k))
      (by rw [length_takeAll]; exact hlen)
      (fun x hx => by rw [length_takeAll]; exact hin x (mem_cons_of_mem q hx))
    rw [hrest, takeAll_append, flatMap_cons, flatMap_cons, hcells, htail]
    rfl

theorem pow_le_contigMask (hp : 0 < p) (k : Nat) : 2 ^ (p + k) ≤ 2 * contigMask p k := by
  have hadd := contigMask_add p k
  have hB : 1 < 2 ^ p := Nat.one_lt_two_pow (ne_of_gt hp)
  have hle : 2 ^ k ≤ contigMask p k := Nat.le_mul_of_pos_left _ (by omega)
  rw [pow_add]
  omega

theorem planes_le_of_mask (hp : 0 < p) (hlen : ent.length < 2 ^ 15)
    (hmask : contigMask p k ≤ 2 * ent.length) : p + k ≤ 16 := by
  have hpow := pow_le_contigMask hp k
  have hlt : 2 ^ (p + k) < 2 ^ 17 := by omega
  exact le_of_lt_succ ((Nat.pow_lt_pow_iff_right Nat.one_lt_two).mp hlt)

/-- What the search with consecutive planes comes to, for the masks from the `k`-th one. -/
inductive ContigOutcome (ent : List Entry) (count p k t : Nat) : Except Fault Result → Prop
  | found (j : Nat) (r : List Entry × List Nat × Nat) (hle : k ≤ j) (hlt : j < k + t)
      (hmask : contigMask p j ≤ ent.length) (hroomy : Roomy ent (contigMask p j) count)
      (halloc : ∀ contig, Allocated ent r.1 count p contig r.2.1 r.2.2) :
      ContigOutcome ent count p k t (.ok (some r))
  | full (hmask : ∀ j, k ≤ j → j < k + t → contigMask p j ≤ ent.length)
      (hfull : ∀ j, k ≤ j → j < k + t → ¬ Roomy ent (contigMask p j) count) :
      ContigOutcome ent count p k t (.ok none)
  | outside (j : Nat) (hle : k ≤ j) (hlt : j < k + t) (hmask : ent.length < contigMask p j)
      (hfull : ∀ i, k ≤ i → i < j → ¬ Roomy ent (contigMask p i) count) :
      ContigOutcome ent count p k t (.error .outside)

theorem ContigOutcome.next {t : Nat} {r : Except Fault Result}
    (h : ContigOutcome ent count p (k + 1) t r) (hmask : contigMask p k ≤ ent.length)
    (hfull : ¬ Roomy ent (contigMask p k) count) : ContigOutcome ent count p k (t + 1) r := by
  cases h with
  | found j r hle hlt hmask' hroomy halloc =>
    exact .found j r (by omega) (by omega) hmask' hroomy halloc
  | full hmask' hfull' =>
    refine .full (fun j hle hlt => ?_) (fun j hle hlt => ?_)
    · rcases eq_or_lt_of_le hle with rfl | hgt
      · exact hmask
      · exact hmask' j hgt (by omega)
    · rcases eq_or_lt_of_le hle with rfl | hgt
      · exact hfull
      · exact hfull' j hgt (by omega)
  | outside j hle hlt hmask' hfull' =>
    refine .outside j (by omega) (by omega) hmask' fun i hi hij => ?_
    rcases eq_or_lt_of_le hi with rfl | hgt
    · exact hfull
    · exact hfull' i hgt hij

theorem tryContig_spec (hp : 0 < p) (hcount : 0 < count)
    (hlen : ent.length < 2 ^ 15) (t : Nat) : ∀ k, contigMask p k ≤ 2 * ent.length →
    ContigOutcome ent count p k t (tryContig ent ent.length count t (contigMask p k) (2 ^ k)) := by
  induction t with
  | zero =>
    intro k _
    exact .full (fun j hle hlt => by omega) (fun j hle hlt => by omega)
  | succ t ih =>
    intro k hk
    have hpk := planes_le_of_mask hp hlen hk
    have hpow : 2 ^ k < 2 ^ 31 := Nat.pow_lt_pow_right Nat.one_lt_two (by omega)
    have hdouble : word (contigMask p k + contigMask p k) = contigMask p (k + 1) := by
      rw [contigMask_succ, word_of_lt (by omega)]
    have hbase : word (2 ^ k + 2 ^ k) = 2 ^ (k + 1) := by
      rw [pow_succ, word_of_lt (by omega)]
      omega
    rw [tryContig, hdouble, hbase]
    rcases lt_or_ge ent.length (contigMask p k) with hout | hin
    · have hentries : word (ent.length + 2 ^ 32 - contigMask p k) =
          2 ^ 32 + ent.length - contigMask p k := by
        rw [add_comm, word_of_lt (by omega)]
      have hsearch : searchContig ent count (contigMask p k) (2 ^ k)
          (2 ^ 32 + ent.length - contigMask p k) (ent.length + 2) 0 [] = .error .outside :=
        searchContig_outside hp (by omega) hout hlen (ent.length + 2) 0 [] (by omega) (fun _ => zero_and _) (by omega) (by omega)
      rw [hentries, hsearch]
      exact .outside k (le_refl k) (by omega) hout fun i hle hlt => by omega
    · have hentries : word (ent.length + 2 ^ 32 - contigMask p k) =
          ent.length - contigMask p k := by
        rw [word]
        omega
      have hsearch := searchContig_spec hp hin hlen (ent.length + 2) 0 [] (zero_and _)
        (Searched.start ent _) hcount (by omega) (by omega)
      rw [hentries]
      rcases hsearch with ⟨found, hsearch, hfound, hlength⟩ | ⟨hsearch, hfull⟩
      · have halloc := allocAllContig_spec (p := p) (k := k) found.reverse ent hlen fun q hq =>
          (hfound.candidate q (mem_reverse.mp hq)).2.lt
        rw [hsearch]
        dsimp only [bind, Except.bind]
        rw [halloc]
        have hlt : contigMask p k < 2 ^ 32 := by omega
        refine .found k _ (le_refl k) (by omega) hin (hfound.roomy hlength) fun contig => ?_
        exact allocated_of_found hfound hlength (contigSubs_spec p k) hlt
          (ones_consecutive p k 32 (by omega)) fun _ => ⟨k, rfl⟩
      · rw [hsearch]
        have hnext := ih (k + 1) (by rw [contigMask_succ]; omega)
        exact hnext.next hin hfull

end

end Xfront.Colormap
