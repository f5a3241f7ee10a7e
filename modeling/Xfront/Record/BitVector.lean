import Xfront.Record.IntervalList

/-!
# Bit vectors

A scan over the words finds the next bit of a value: the rest of the first word, then whole
words, then the bits of one word. What it walks over has the other value.
-/

namespace Xfront.Record
open List
open Runs (Separate Scan)

namespace BitVectorSet

theorem twoPow_ne_zero {i : Nat} (hi : i < bitsPerLong) : BitVec.twoPow bitsPerLong i ≠ 0 := by
  intro h
  have hbit := congrArg (·.getLsbD i) h
  simp [hi] at hbit

theorem and_twoPow_eq_zero (bits : Long) {i : Nat} (hi : i < bitsPerLong) :
    bits &&& BitVec.twoPow bitsPerLong i = 0 ↔ bits.getLsbD i = false := by
  rw [BitVec.and_twoPow]
  cases bits.getLsbD i with
  | true => exact iff_of_false (twoPow_ne_zero hi) nofun
  | false => exact iff_of_true rfl rfl

theorem getLsbD_useful {d i : Nat} (hd : d < bitsPerLong) (hi : i < bitsPerLong) :
    (~~~(BitVec.twoPow bitsPerLong d - 1)).getLsbD i = decide (d ≤ i) := by
  have hone : (BitVec.twoPow bitsPerLong d - 1).toNat = 2 ^ d - 1 := by
    have hpos := Nat.two_pow_pos d
    rw [BitVec.toNat_sub_of_le, BitVec.toNat_twoPow_of_lt hd]
    · rfl
    · rw [BitVec.le_def, BitVec.toNat_twoPow_of_lt hd]
      exact hpos
  rw [BitVec.getLsbD_not, ← BitVec.testBit_toNat, hone, Nat.testBit_two_pow_sub_one,
    decide_eq_true hi, Bool.true_and]
  by_cases h : i < d
  · simp [h]
  · simp [h, not_lt.mp h]

theorem getLsbD_skipval (bitval : Bool) {i : Nat} (hi : i < bitsPerLong) :
    (skipval bitval).getLsbD i = !bitval := by
  cases bitval with
  | true => simp [skipval]
  | false => simp [skipval, hi]

theorem useful_eq_iff (bits : Long) (bitval : Bool) {d : Nat} (hd : d < bitsPerLong) :
    bits &&& ~~~(BitVec.twoPow bitsPerLong d - 1) =
        skipval bitval &&& ~~~(BitVec.twoPow bitsPerLong d - 1) ↔
      ∀ i, d ≤ i → i < bitsPerLong → bits.getLsbD i ≠ bitval := by
  have hne : ∀ b : Bool, b ≠ bitval ↔ b = !bitval := by
    intro b
    cases b <;> cases bitval <;> decide
  constructor
  · intro h i hdi hi
    have hbit := congrArg (·.getLsbD i) h
    simp only [BitVec.getLsbD_and, getLsbD_useful hd hi, decide_eq_true hdi, Bool.and_true,
      getLsbD_skipval bitval hi] at hbit
    exact (hne _).mpr hbit
  · intro h
    apply BitVec.eq_of_getLsbD_eq
    intro i hi
    rw [BitVec.getLsbD_and, BitVec.getLsbD_and, getLsbD_useful hd hi, getLsbD_skipval bitval hi]
    by_cases hdi : d ≤ i
    · rw [(hne _).mp (h i hdi hi)]
    · simp [hdi]

variable {s : BitVectorSet}

def bit (bitvec : List Long) (i : Nat) : Bool :=
  (bitvec.getD (i / bitsPerLong) 0).getLsbD (i % bitsPerLong)

structure Filled (s : BitVectorSet) : Prop where
  length : s.bitvec.length = (s.maxMember + bitsPerLong).toNat / bitsPerLong
  beyond : ∀ i : Nat, s.maxMember < i → bit s.bitvec i = false

theorem walkBits_spec (bits : Long) (bitval : Bool) (left walkbit : Nat)
    (hleft : left + walkbit = bitsPerLong)
    (h : ∃ j, walkbit ≤ j ∧ j < bitsPerLong ∧ bits.getLsbD j = bitval) :
    walkbit ≤ walkBits bits bitval left walkbit ∧ walkBits bits bitval left walkbit < bitsPerLong ∧
      bits.getLsbD (walkBits bits bitval left walkbit) = bitval ∧
      ∀ j, walkbit ≤ j → j < walkBits bits bitval left walkbit → bits.getLsbD j ≠ bitval := by
  induction left generalizing walkbit with
  | zero =>
    obtain ⟨j, hj, hlt, _⟩ := h
    omega
  | succ left ih =>
    have hw : walkbit < bitsPerLong := by omega
    have htest : decide (bits &&& BitVec.twoPow bitsPerLong walkbit = 0) = bitval ↔
        bits.getLsbD walkbit ≠ bitval := by
      have hzero := and_twoPow_eq_zero bits hw
      cases hb : bits.getLsbD walkbit with
      | true =>
        rw [decide_eq_false fun h => by rw [hzero.mp h] at hb; cases hb]
        cases bitval <;> decide
      | false =>
        rw [decide_eq_true (hzero.mpr hb)]
        cases bitval <;> decide
    rw [walkBits]
    split
    · next hother =>
      have hne := htest.mp hother
      obtain ⟨h₁, h₂, h₃, h₄⟩ := ih (walkbit + 1) (by omega) (by
        obtain ⟨j, hj, hlt, hbit⟩ := h
        refine ⟨j, ?_, hlt, hbit⟩
        rcases eq_or_lt_of_le hj with rfl | hj
        · exact absurd hbit hne
        · exact hj)
      refine ⟨by omega, h₂, h₃, fun j hj hlt => ?_⟩
      rcases eq_or_lt_of_le hj with rfl | hj
      · exact hne
      · exact h₄ j hj hlt
    · next hsame =>
      rw [htest, not_not] at hsame
      exact ⟨le_rfl, hw, hsame, fun j h₁ h₂ => absurd h₁ (not_le.mpr h₂)⟩

theorem bit_in_long (v : List Long) (k : Nat) {i : Nat} (hlo : k * bitsPerLong ≤ i)
    (hhi : i < k * bitsPerLong + bitsPerLong) :
    bit v i = (v.getD k 0).getLsbD (i - k * bitsPerLong) := by
  have hlo' : k * 64 ≤ i := hlo
  have hhi' : i < k * 64 + 64 := hhi
  have hdiv : i / bitsPerLong = k := (by omega : i / 64 = k)
  have hmod : i % bitsPerLong = i - k * bitsPerLong := (by omega : i % 64 = i - k * 64)
  rw [bit, hdiv, hmod]

theorem findInLong_spec (s : BitVectorSet) (bitval : Bool) (iterbit : Nat) {k : Nat}
    (hiter : iterbit < k * bitsPerLong + bitsPerLong)
    (h : ∃ i, iterbit ≤ i ∧ k * bitsPerLong ≤ i ∧ i < k * bitsPerLong + bitsPerLong ∧
      bit s.bitvec i = bitval) : iterbit ≤ s.findInLong iterbit bitval (k * bitsPerLong) ∧
      bit s.bitvec (s.findInLong iterbit bitval (k * bitsPerLong)) = bitval ∧
      ∀ i, iterbit ≤ i → k * bitsPerLong ≤ i →
        i < s.findInLong iterbit bitval (k * bitsPerLong) → bit s.bitvec i ≠ bitval := by
  have hdiv : k * bitsPerLong / bitsPerLong = k := Nat.mul_div_cancel k (by decide)
  rw [findInLong, hdiv]
  set walkbit := if k * bitsPerLong < iterbit then iterbit - k * bitsPerLong else 0 with hwalk
  have hw : walkbit = iterbit - k * bitsPerLong := by
    rw [hwalk]
    split <;> omega
  obtain ⟨i, hi, hlo, hhi, hbit⟩ := h
  rw [bit_in_long _ k hlo hhi] at hbit
  obtain ⟨h₁, h₂, h₃, h₄⟩ := walkBits_spec (s.long k) bitval (bitsPerLong - walkbit) walkbit
    (by omega) ⟨i - k * bitsPerLong, by omega, by omega, hbit⟩
  refine ⟨by omega, ?_, fun j hj hlo' hlt => ?_⟩
  · rw [bit_in_long _ k (by omega) (by omega), Nat.add_sub_cancel_left]
    exact h₃
  · rw [bit_in_long _ k hlo' (by omega)]
    exact h₄ _ (by omega) (by omega)

theorem skipLongs_spec (maxMember : Int) (skipval : Long) (longs : List Long) (startbit : Nat) :
    ∃ k, skipLongs maxMember skipval longs startbit = startbit + k * bitsPerLong ∧
      k ≤ longs.length ∧ (∀ j, j < k → longs[j]? = some skipval) ∧
      (maxMember < startbit + k * bitsPerLong ∨ longs[k]? ≠ some skipval) := by
  induction longs generalizing startbit with
  | nil => exact ⟨0, by rw [skipLongs, zero_mul, add_zero], le_rfl, nofun, .inr nofun⟩
  | cons long longs ih =>
    rw [skipLongs]
    split
    · next h =>
      obtain ⟨k, he, hk, hall, hend⟩ := ih (startbit + bitsPerLong)
      refine ⟨k + 1, ?_, by rw [length_cons]; omega, fun j hj => ?_, ?_⟩
      · rw [he, add_mul]
        omega
      · cases j with
        | zero => rw [List.getElem?_cons_zero, h.2]
        | succ j => exact hall j (by omega)
      · rw [List.getElem?_cons_succ]
        refine hend.imp_left fun hlt => ?_
        push_cast at hlt ⊢
        rw [Int.add_mul]
        omega
    · next h =>
      refine ⟨0, by omega, Nat.zero_le _, nofun, ?_⟩
      rw [not_and_or] at h
      rcases h with h | h
      · left
        omega
      · right
        rw [List.getElem?_cons_zero]
        exact fun he => h (Option.some.inj he)

/-- What a search for a bit from `iterbit` on must answer. -/
def Found (s : BitVectorSet) (iterbit : Nat) (bitval : Bool) : Option Nat → Prop
  | some b => iterbit ≤ b ∧ bit s.bitvec b = bitval ∧
      ∀ i, iterbit ≤ i → i < b → bit s.bitvec i ≠ bitval
  | none => ∀ i : Nat, iterbit ≤ i → i ≤ s.maxMember → bit s.bitvec i ≠ bitval

theorem findBit_found (h : Filled s) (iterbit : Nat) (bitval : Bool) :
    Found s iterbit bitval (s.findBit iterbit bitval) := by
  have hdm : iterbit / bitsPerLong * bitsPerLong ≤ iterbit ∧
      iterbit < iterbit / bitsPerLong * bitsPerLong + bitsPerLong := by
    rw [bitsPerLong]
    omega
  rw [findBit]
  set k := iterbit / bitsPerLong
  dsimp only
  split
  · next hgt =>
    intro i hi hle
    omega
  next hin =>
  have hd : iterbit - k * bitsPerLong < bitsPerLong := by omega
  split
  · next heq =>
    -- the rest of the first word has the other value
    have hfirst : ∀ i, iterbit ≤ i → i < k * bitsPerLong + bitsPerLong →
        bit s.bitvec i ≠ bitval := by
      intro i hi hlt
      rw [bit_in_long _ k (by omega) hlt]
      exact (useful_eq_iff (s.long k) bitval hd).mp heq _ (by omega) (by omega)
    obtain ⟨n, hn, hlen, hskip, hend⟩ := skipLongs_spec s.maxMember
      (skipval bitval) (s.bitvec.drop (k + 1)) (k * bitsPerLong + bitsPerLong)
    have hstart : k * bitsPerLong + bitsPerLong + n * bitsPerLong = (k + 1 + n) * bitsPerLong := by
      rw [bitsPerLong]
      omega
    -- and so have the words that are skipped
    have hwords : ∀ i, iterbit ≤ i → i < (k + 1 + n) * bitsPerLong → bit s.bitvec i ≠ bitval := by
      intro i hi hlt
      rcases lt_or_ge i (k * bitsPerLong + bitsPerLong) with hlo | hge
      · exact hfirst i hi hlo
      have hword : k + 1 ≤ i / bitsPerLong ∧ i / bitsPerLong < k + 1 + n := by
        rw [bitsPerLong] at *
        omega
      have hget := hskip (i / bitsPerLong - (k + 1)) (by omega)
      rw [List.getElem?_drop] at hget
      rw [bit, getD_eq_getElem?_getD]
      have hidx : k + 1 + (i / bitsPerLong - (k + 1)) = i / bitsPerLong := by omega
      rw [hidx] at hget
      rw [hget, Option.getD_some, getLsbD_skipval bitval (Nat.mod_lt _ (by decide))]
      cases bitval <;> decide
    rw [hn, hstart]
    split
    · next hout =>
      intro i hi hle
      exact hwords i hi (by omega)
    · next hlast =>
      have hlt : k + 1 + n < s.bitvec.length := by
        rw [h.length]
        rw [bitsPerLong] at *
        omega
      -- the word that ended the loop has a bit of the value
      have hbit : ∃ i, (k + 1 + n) * bitsPerLong ≤ i ∧
          i < (k + 1 + n) * bitsPerLong + bitsPerLong ∧ bit s.bitvec i = bitval := by
        by_contra hnone
        push Not at hnone
        have hword : s.bitvec.getD (k + 1 + n) 0 = skipval bitval := by
          apply BitVec.eq_of_getLsbD_eq
          intro i hi
          have hb := hnone ((k + 1 + n) * bitsPerLong + i) (by omega) (by omega)
          rw [bit_in_long _ (k + 1 + n) (by omega) (by omega), Nat.add_sub_cancel_left] at hb
          rw [getLsbD_skipval bitval hi]
          revert hb
          cases (s.bitvec.getD (k + 1 + n) 0).getLsbD i <;> cases bitval <;> decide
        rcases hend with hend | hend
        · apply hlast
          rw [← hstart]
          push_cast
          exact hend
        · refine hend ?_
          rw [List.getElem?_drop, ← hword, getD_eq_getElem?_getD,
            List.getElem?_eq_getElem hlt, Option.getD_some]
      obtain ⟨i, hlo, hhi, hb⟩ := hbit
      obtain ⟨h₁, h₂, h₃⟩ := findInLong_spec s bitval iterbit (by omega)
        ⟨i, by omega, hlo, hhi, hb⟩
      refine ⟨h₁, h₂, fun j hj hlt => ?_⟩
      rcases lt_or_ge j ((k + 1 + n) * bitsPerLong) with hjlo | hjge
      · exact hwords j hj hjlo
      · exact h₃ j hj hjge hlt
  · next hne =>
    have hbit : ∃ i, iterbit ≤ i ∧ k * bitsPerLong ≤ i ∧ i < k * bitsPerLong + bitsPerLong ∧
        bit s.bitvec i = bitval := by
      by_contra hnone
      push Not at hnone
      refine hne ((useful_eq_iff (s.long k) bitval hd).mpr fun i hi hlt => ?_)
      have hb := hnone (k * bitsPerLong + i) (by omega) (by omega) (by omega)
      rwa [bit_in_long _ k (by omega) (by omega), Nat.add_sub_cancel_left] at hb
    obtain ⟨h₁, h₂, h₃⟩ := findInLong_spec s bitval _ hdm.2 hbit
    exact ⟨h₁, h₂, fun i hi hlt => h₃ i hi (by omega) hlt⟩

theorem isMemberOfSet_iff (h : Filled s) (pm : Nat) :
    s.isMemberOfSet pm ≠ 0 ↔ bit s.bitvec pm = true := by
  rw [isMemberOfSet]
  split
  · next hgt =>
    rw [h.beyond pm hgt]
    exact iff_of_false (not_not.mpr rfl) Bool.false_ne_true
  · rw [ne_eq, and_twoPow_eq_zero _ (Nat.mod_lt _ (by decide)), Bool.not_eq_false]
    rfl

theorem setBit_length (v : List Long) (j : Nat) : (setBit v j).length = v.length := length_modify ..

theorem bit_setBit (v : List Long) {j : Nat} (hj : j / bitsPerLong < v.length) (i : Nat) :
    bit (setBit v j) i = (bit v i || decide (i = j)) := by
  have hmod : j % bitsPerLong < bitsPerLong := Nat.mod_lt _ (by decide)
  have hij : i = j ↔ j / bitsPerLong = i / bitsPerLong ∧ j % bitsPerLong = i % bitsPerLong := by
    constructor
    · rintro rfl
      exact ⟨rfl, rfl⟩
    · rintro ⟨hd, hm⟩
      rw [← Nat.div_add_mod i bitsPerLong, ← Nat.div_add_mod j bitsPerLong, hd, hm]
  rw [bit, bit, setBit, getD_eq_getElem?_getD, getD_eq_getElem?_getD, getElem?_modify]
  by_cases hd : j / bitsPerLong = i / bitsPerLong
  · have hi : i / bitsPerLong < v.length := hd ▸ hj
    simp [hij, hd, hi, BitVec.getLsbD_twoPow, hmod]
  · cases v[i / bitsPerLong]? <;> simp [hij, hd]

theorem foldl_setBit (js : List Nat) (v : List Long) (hjs : ∀ j ∈ js, j / bitsPerLong < v.length) :
    (js.foldl setBit v).length = v.length ∧
      ∀ i, bit (js.foldl setBit v) i = (bit v i || decide (i ∈ js)) := by
  induction js generalizing v with
  | nil => exact ⟨rfl, fun i => by simp⟩
  | cons j js ih =>
    obtain ⟨hj, hjs⟩ := forall_mem_cons.mp hjs
    obtain ⟨hlen, hbit⟩ := ih (setBit v j) fun x hx => by rw [setBit_length]; exact hjs x hx
    refine ⟨hlen.trans (setBit_length v j), fun i => ?_⟩
    rw [foldl_cons, hbit, bit_setBit v hj, Bool.or_assoc]
    simp

theorem foldl_setInterval (ivs : List RecordSetInterval) (v : List Long)
    (hivs : ∀ iv ∈ ivs, iv.last.toNat / bitsPerLong < v.length) :
    (ivs.foldl setInterval v).length = v.length ∧
      ∀ i, bit (ivs.foldl setInterval v) i = true ↔ bit v i = true ∨ i ∈ members ivs := by
  induction ivs generalizing v with
  | nil => exact ⟨rfl, fun i => by simp [mem_members]⟩
  | cons iv ivs ih =>
    obtain ⟨hiv, hivs⟩ := forall_mem_cons.mp hivs
    have hrange : ∀ j, j ∈ range' iv.first.toNat (iv.last.toNat + 1 - iv.first.toNat) ↔
        iv.first.toNat ≤ j ∧ j ≤ iv.last.toNat := by
      intro j
      rw [mem_range'_1]
      omega
    obtain ⟨hlen₁, hbit₁⟩ := foldl_setBit
      (range' iv.first.toNat (iv.last.toNat + 1 - iv.first.toNat)) v fun j hj =>
        lt_of_le_of_lt (Nat.div_le_div_right ((hrange j).mp hj).2) hiv
    obtain ⟨hlen, hbit⟩ := ih (setInterval v iv) fun x hx => by
      rw [setInterval, hlen₁]
      exact hivs x hx
    refine ⟨hlen.trans hlen₁, fun i => ?_⟩
    rw [foldl_cons, hbit, setInterval, hbit₁, Bool.or_eq_true, decide_eq_true_eq, hrange,
      or_assoc, members, members, map_cons, Runs.mem_covers_cons]
    rfl

end BitVectorSet

theorem foldl_maxMember (ivs : List RecordSetInterval) (m : Int) :
    m ≤ ivs.foldl (fun maxMember iv =>
        if maxMember < iv.last.toNat then iv.last.toNat else maxMember) m ∧
      (∀ iv ∈ ivs, (iv.last.toNat : Int) ≤ ivs.foldl (fun maxMember iv =>
        if maxMember < iv.last.toNat then iv.last.toNat else maxMember) m) ∧
      (ivs.foldl (fun maxMember iv =>
          if maxMember < iv.last.toNat then iv.last.toNat else maxMember) m = m ∨
        ∃ iv ∈ ivs, ivs.foldl (fun maxMember iv =>
          if maxMember < iv.last.toNat then iv.last.toNat else maxMember) m = iv.last.toNat) := by
  induction ivs generalizing m with
  | nil => exact ⟨le_rfl, nofun, .inl rfl⟩
  | cons iv ivs ih =>
    rw [foldl_cons]
    obtain ⟨h₁, h₂, h₃⟩ := ih (if m < iv.last.toNat then iv.last.toNat else m)
    refine ⟨?_, forall_mem_cons.mpr ⟨?_, h₂⟩, ?_⟩
    · refine le_trans ?_ h₁
      split <;> omega
    · refine le_trans ?_ h₁
      split <;> omega
    · rcases h₃ with h₃ | ⟨x, hx, h₃⟩
      · rw [h₃]
        split
        · exact .inr ⟨iv, mem_cons_self, rfl⟩
        · exact .inl rfl
      · exact .inr ⟨x, mem_cons_of_mem _ hx, h₃⟩

theorem maxMember_spec (ivs : List RecordSetInterval) :
    -1 ≤ maxMemberInInterval ivs ∧ maxMemberInInterval ivs < 2 ^ 16 ∧
      ∀ iv ∈ ivs, (iv.last.toNat : Int) ≤ maxMemberInInterval ivs := by
  obtain ⟨h₁, h₂, h₃⟩ := foldl_maxMember ivs (-1)
  rw [← maxMemberInInterval] at h₁ h₂ h₃
  refine ⟨h₁, ?_, h₂⟩
  rcases h₃ with h₃ | ⟨iv, _, h₃⟩
  · omega
  · have hlt := iv.last.toNat_lt
    omega

theorem bitVector_nlongs (ivs : List RecordSetInterval) :
    ((bitVectorSetMemoryRequirements (maxMemberInInterval ivs)).toNat - setSize) / sizeofLong =
      (maxMemberInInterval ivs + bitsPerLong).toNat / bitsPerLong := by
  obtain ⟨h₁, h₂, _⟩ := maxMember_spec ivs
  rw [bitVectorSetMemoryRequirements, toInt]
  set n := (maxMemberInInterval ivs + bitsPerLong).toNat / bitsPerLong with hn
  have hle : n ≤ 1024 := by
    rw [hn, bitsPerLong]
    omega
  have hsize : (BitVec.ofNat 32 (setSize + n * sizeofLong)).toNat = setSize + n * sizeofLong := by
    rw [BitVec.toNat_ofNat, Nat.mod_eq_of_lt]
    rw [setSize, sizeofLong]
    omega
  rw [BitVec.toInt_eq_toNat_of_lt, hsize, Int.toNat_natCast, Nat.add_sub_cancel_left,
    Nat.mul_div_cancel n (by decide)]
  rw [hsize, setSize, sizeofLong]
  omega

theorem bitVectorCreateSet_filled {ivs : List RecordSetInterval} {m : Bool} {s : BitVectorSet}
    (hs : bitVectorCreateSet ivs (bitVectorSetMemoryRequirements (maxMemberInInterval ivs)) m =
      some s) : s.Filled ∧ s.maxMember < 2 ^ 16 ∧
      ∀ i, BitVectorSet.bit s.bitvec i = true ↔ i ∈ members ivs := by
  obtain ⟨h₁, h₂, hlast⟩ := maxMember_spec ivs
  rw [bitVectorCreateSet] at hs
  split at hs
  · cases hs
  rw [bitVector_nlongs] at hs
  cases hs
  have hroom : ∀ iv ∈ ivs, iv.last.toNat / bitsPerLong <
      (replicate ((maxMemberInInterval ivs + bitsPerLong).toNat / bitsPerLong)
        (0 : Long)).length := by
    intro iv hiv
    have hle := hlast iv hiv
    rw [length_replicate, bitsPerLong]
    omega
  obtain ⟨hlen, hbit⟩ := BitVectorSet.foldl_setInterval ivs _ hroom
  have hzero : ∀ (n i : Nat), BitVectorSet.bit (replicate n 0) i = false := by
    intro n i
    rw [BitVectorSet.bit, getD_eq_getElem?_getD, getElem?_replicate]
    split <;> simp
  have hall : ∀ i, BitVectorSet.bit (ivs.foldl BitVectorSet.setInterval
      (replicate ((maxMemberInInterval ivs + bitsPerLong).toNat / bitsPerLong) 0)) i = true ↔
        i ∈ members ivs := by
    intro i
    rw [hbit, hzero, or_iff_right Bool.false_ne_true]
  refine ⟨⟨hlen.trans length_replicate, fun i hi => ?_⟩, h₂, hall⟩
  rw [← Bool.not_eq_true, hall, mem_members]
  rintro ⟨iv, hiv, _, hle⟩
  have hlast := hlast iv hiv
  have hi : maxMemberInInterval ivs < i := hi
  omega

end Xfront.Record
