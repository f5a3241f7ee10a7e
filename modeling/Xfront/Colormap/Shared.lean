import Xfront.Colormap.Allocation
import Xfront.Colormap.ColorPlanes

/-!
# The shared colors of AllocColorPlanes

Each shared color is given to the cells that meet one pattern outside the planes of the other two
components.
-/

namespace Xfront.Colormap
open Submasks List Nat Option Prod

structure Split (m r g b rm gm bm : Nat) : Prop where
  union : rm ||| (gm ||| bm) = m
  redGreen : rm &&& gm = 0
  redBlue : rm &&& bm = 0
  greenBlue : gm &&& bm = 0
  onesRed : ones 32 rm = r
  onesGreen : ones 32 gm = g
  onesBlue : ones 32 bm = b

section

variable {m : Nat}

theorem word_double (k : Nat) : word (2 ^ k + 2 ^ k) = word (2 ^ (k + 1)) := by
  rw [pow_succ, Nat.mul_two]

theorem lt_of_ones {k : Nat} (h : ones k m < ones 32 m) : k < 32 := by
  refine not_le.mp fun hle => ?_
  have hmono := ones_mono hle m
  omega

theorem nextBit_spec (fuel : Nat) : ∀ k, ones k m < ones 32 m → 32 < k + fuel →
    ∃ j, nextBit m fuel (2 ^ k) = .ok (2 ^ j) ∧ k ≤ j ∧ j < 32 ∧ m.testBit j = true ∧
      ∀ i, k ≤ i → i < j → m.testBit i = false := by
  induction fuel with
  | zero =>
    intro k hk hfuel
    have hlt := lt_of_ones hk
    omega
  | succ fuel ih =>
    intro k hk hfuel
    have hlt := lt_of_ones hk
    rw [nextBit, and_two_pow]
    cases hbit : m.testBit k with
    | true =>
      have hpos := Nat.two_pow_pos k
      rw [if_neg (by rw [Bool.toNat_true]; omega)]
      exact ⟨k, rfl, le_refl k, hlt, hbit, fun i hi hik => by omega⟩
    | false =>
      have hnext : ones (k + 1) m = ones k m := by
        rw [ones_top, hbit]
        rfl
      have hlt' : k + 1 < 32 := lt_of_ones (m := m) (by omega)
      have hpow : 2 ^ (k + 1) < 2 ^ 32 := Nat.pow_lt_pow_right Nat.one_lt_two hlt'
      rw [if_pos (by rw [Bool.toNat_false, zero_mul]), word_double, word_of_lt hpow]
      obtain ⟨j, hj, hkj, hj32, hbit', hgap⟩ := ih (k + 1) (by omega) (by omega)
      refine ⟨j, hj, by omega, hj32, hbit', fun i hi hij => ?_⟩
      rcases eq_or_lt_of_le hi with rfl | hgt
      · exact hbit
      · exact hgap i hgt hij

theorem takeBits_spec (i : Nat) : ∀ k bits, ones k m + i ≤ ones 32 m → k ≤ 32 →
    ∃ k' res, takeBits m i (word (2 ^ k)) bits = .ok (res, word (2 ^ k')) ∧ k ≤ k' ∧ k' ≤ 32 ∧
      ones k' m = ones k m + i ∧ ∀ j, res.testBit j = true ↔
        bits.testBit j = true ∨ m.testBit j = true ∧ k ≤ j ∧ j < k' := by
  induction i with
  | zero =>
    intro k bits _ hk
    exact ⟨k, bits, rfl, le_refl k, hk, rfl, fun j => ⟨.inl, fun h => h.elim id fun h => by
      omega⟩⟩
  | succ i ih =>
    intro k bits hones hk
    have hlt := lt_of_ones (m := m) (k := k) (by omega)
    have hpow : 2 ^ k < 2 ^ 32 := Nat.pow_lt_pow_right Nat.one_lt_two hlt
    obtain ⟨p, hp, hkp, hp32, hbit, hgap⟩ := nextBit_spec (m := m) 33 k (by omega) (by omega)
    have hbelow : ones (p + 1) m = ones k m + 1 := by
      rw [ones_top, ones_gap hkp hgap, hbit]
      rfl
    obtain ⟨k', res, hres, hpk, hk', hones', hbits⟩ := ih (p + 1) (bits ||| 2 ^ p) (by omega) hp32
    rw [takeBits, word_of_lt hpow, hp]
    dsimp only [bind, Except.bind]
    rw [word_double, hres]
    refine ⟨k', res, rfl, by omega, hk', by omega, fun j => ?_⟩
    rw [hbits j, testBit_or, Bool.or_eq_true, testBit_two_pow, decide_eq_true_eq]
    constructor
    · rintro ((h | rfl) | ⟨h, hlow, hhigh⟩)
      · exact .inl h
      · exact .inr ⟨hbit, hkp, by omega⟩
      · exact .inr ⟨h, by omega, hhigh⟩
    · rintro (h | ⟨h, hlow, hhigh⟩)
      · exact .inl (.inl h)
      · rcases lt_trichotomy j p with hjp | hjp | hjp
        · rw [hgap j hlow hjp] at h
          cases h
        · exact .inl (.inr hjp.symm)
        · exact .inr ⟨h, hjp, hhigh⟩

def Between (m k k' x : Nat) : Prop :=
  ∀ j, x.testBit j = true ↔ m.testBit j = true ∧ k ≤ j ∧ j < k'

theorem Between.and_eq_zero {a b c d x y : Nat} (hx : Between m a b x) (hy : Between m c d y)
    (h : b ≤ c) : x &&& y = 0 := by
  refine eq_of_testBit_eq fun j => ?_
  rw [zero_testBit, testBit_and, Bool.and_eq_false_iff]
  by_cases hxj : x.testBit j = true
  · right
    refine Bool.eq_false_iff.mpr fun hyj => ?_
    have hx' := (hx j).mp hxj
    have hy' := (hy j).mp hyj
    omega
  · exact .inl (Bool.eq_false_iff.mpr hxj)

theorem Between.or {a b c x y : Nat} (hx : Between m a b x) (hy : Between m b c y) (hab : a ≤ b)
    (hbc : b ≤ c) : Between m a c (x ||| y) := by
  intro j
  rw [testBit_or, Bool.or_eq_true, hx j, hy j]
  constructor
  · rintro (⟨h, hlow, hhigh⟩ | ⟨h, hlow, hhigh⟩)
    · exact ⟨h, hlow, by omega⟩
    · exact ⟨h, by omega, hhigh⟩
  · rintro ⟨h, hlow, hhigh⟩
    rcases lt_or_ge j b with hjb | hbj
    · exact .inl ⟨h, hlow, hjb⟩
    · exact .inr ⟨h, hbj, hhigh⟩

theorem Between.ones_eq {k x : Nat} (hx : Between m 0 k x) (hk : k ≤ 32) :
    ones 32 x = ones k m := by
  have hgap : ones 32 x = ones k x := by
    refine ones_gap hk fun i hi _ => Bool.eq_false_iff.mpr fun h => ?_
    have hlt := ((hx i).mp h).2.2
    omega
  rw [hgap]
  refine ones_congr fun i hi => Bool.eq_iff_iff.mpr ((hx i).trans ?_)
  exact and_iff_left ⟨zero_le i, hi⟩

theorem Between.eq_all {k x : Nat} (hx : Between m 0 k x) (hm : m < 2 ^ 32)
    (hall : ones k m = ones 32 m) : x = m := by
  refine eq_of_testBit_eq fun j => Bool.eq_iff_iff.mpr ((hx j).trans ?_)
  refine and_iff_left_of_imp fun h => ⟨zero_le j, not_le.mp fun hkj => ?_⟩
  rcases lt_or_ge j 32 with hj | hj
  · rw [testBit_of_ones hall hkj hj] at h
    cases h
  · rw [testBit_lt_two_pow
      (lt_of_lt_of_le hm (Nat.pow_le_pow_right zero_lt_two hj))] at h
    cases h

theorem takeBits_split {r g b : Nat} (hm : m < 2 ^ 32) (hones : ones 32 m = r + g + b) :
    ∃ rm gm bm shift shift' shift'', takeBits m r 1 0 = .ok (rm, shift) ∧
      takeBits m g shift 0 = .ok (gm, shift') ∧ takeBits m b shift' 0 = .ok (bm, shift'') ∧
      Split m r g b rm gm bm := by
  obtain ⟨k, rm, hrm, -, hk, honesr, hred⟩ := takeBits_spec (m := m) r 0 0 (by rw [ones]; omega)
    (zero_le 32)
  rw [ones, zero_add] at honesr
  obtain ⟨k', gm, hgm, hkk, hk', honesg, hgreen⟩ := takeBits_spec (m := m) g k 0 (by omega) hk
  obtain ⟨k'', bm, hbm, hkk', hk'', honesb, hblue⟩ := takeBits_spec (m := m) b k' 0 (by omega) hk'
  simp only [zero_testBit, Bool.false_eq_true, false_or] at hred hgreen hblue
  have hred : Between m 0 k rm := hred
  have hgreen : Between m k k' gm := hgreen
  have hblue : Between m k' k'' bm := hblue
  have hlow := hred.or hgreen (zero_le k) hkk
  have hall := hlow.or hblue (zero_le k') hkk'
  have hrg := hred.and_eq_zero hgreen (le_refl k)
  have hlowb := hlow.and_eq_zero hblue (le_refl k')
  have hsum := ones_or 32 hrg
  have hsum' := ones_or 32 hlowb
  rw [hlow.ones_eq hk', hred.ones_eq hk] at hsum
  rw [hall.ones_eq hk'', hlow.ones_eq hk'] at hsum'
  refine ⟨rm, gm, bm, _, _, _, hrm, hgm, hbm, ?_, hrg, ?_, hgreen.and_eq_zero hblue
    (le_refl k'), ?_, by omega, by omega⟩
  · rw [← Nat.or_assoc]
    exact hall.eq_all hm (by omega)
  · exact hred.and_eq_zero hblue hkk
  · rw [hred.ones_eq hk, honesr]

end

theorem testBit_complement {o : Nat} (ho : o < 2 ^ 32) (i : Nat) :
    (complement o).testBit i = (decide (i < 32) && !o.testBit i) := by
  have heq : complement o = 2 ^ 32 - (o + 1) := by
    rw [complement]
    omega
  rw [heq]
  exact testBit_two_pow_sub_succ ho i

theorem or_and_complement {m c o q s : Nat} (hm : m < 2 ^ 32) (hq32 : q < 2 ^ 32)
    (hunion : c ||| o = m) (hdisjoint : c &&& o = 0) (hq : q &&& m = 0) (hs : Sub s m) :
    (q ||| s) &&& complement o = q ||| (s &&& c) := by
  have ho : o < 2 ^ 32 := by
    rw [← hunion] at hm
    exact lt_of_le_of_lt right_le_or hm
  refine eq_of_testBit_eq fun i => ?_
  have hq' := congrArg (testBit · i) hq
  have hs' := congrArg (testBit · i) hs
  have hd' := congrArg (testBit · i) hdisjoint
  have hlt : q.testBit i = true ∨ c.testBit i = true → i < 32 := by
    have hc : c < 2 ^ 32 := by
      rw [← hunion] at hm
      exact lt_of_le_of_lt left_le_or hm
    intro h
    refine not_le.mp fun hle => ?_
    have hpow : 2 ^ 32 ≤ 2 ^ i := Nat.pow_le_pow_right zero_lt_two hle
    rw [testBit_lt_two_pow (lt_of_lt_of_le hq32 hpow),
      testBit_lt_two_pow (lt_of_lt_of_le hc hpow)] at h
    rcases h with h | h <;> cases h
  simp only [← hunion, testBit_and, testBit_or, zero_testBit] at hq' hs' hd'
  simp only [testBit_and, testBit_or, testBit_complement ho]
  cases hqi : q.testBit i <;> cases hsi : s.testBit i <;> cases hci : c.testBit i <;>
    cases hoi : o.testBit i <;> simp_all

theorem pattern_iff {m c o q t q' s : Nat} (hm : m < 2 ^ 32) (hq32 : q' < 2 ^ 32)
    (hunion : c ||| o = m) (hdisjoint : c &&& o = 0) (hq : q &&& m = 0) (hq' : q' &&& m = 0)
    (ht : Sub t c) (hs : Sub s m) :
    (q' ||| s) &&& complement o = q ||| t ↔ q' = q ∧ s &&& c = t := by
  have hsub : ∀ x, x &&& c &&& m = x &&& c := by
    intro x
    rw [Nat.and_assoc, ← hunion, and_or_distrib_left, Nat.and_self, hdisjoint, or_zero]
  have ht' : Sub t m := by
    rw [Submasks.Sub] at ht ⊢
    have h := hsub t
    rw [ht] at h
    exact h
  rw [or_and_complement hm hq32 hunion hdisjoint hq' hs]
  constructor
  · exact or_inj hq' hq (hsub s) ht'
  · rintro ⟨rfl, rfl⟩
    rfl

theorem count_pattern {ent ent' : List Entry} {count planes : Nat} {contig : Bool}
    {pixels : List Nat} {m c o q t : Nat}
    (h : Allocated ent ent' count planes contig pixels m) (hm : m < 2 ^ 32)
    (hlt : ∀ x ∈ pixels, x < 2 ^ 32) (hunion : c ||| o = m) (hdisjoint : c &&& o = 0)
    (hq : q ∈ pixels.take count) (ht : Sub t c) :
    (pixels.countP fun x => x &&& complement o = q ||| t) = 2 ^ ones 32 o := by
  have hlow : ∀ x ∈ pixels.take count, x < 2 ^ 32 := fun x hx => hlt x (mem_of_mem_take hx)
  have hqm := h.bases q hq
  have hcm : Sub c m := hunion ▸ sub_left c o
  have hom : Sub o m := by
    rw [← hunion, Nat.or_comm]
    exact sub_left o c
  have ho : o < 2 ^ 32 := lt_of_le_of_lt hom.le hm
  have hbase : (q ||| t) &&& o = 0 := by
    rw [Nat.and_or_distrib_right, and_of_disjoint hqm hom, and_eq_zero_of_sub ht hdisjoint,
      Nat.zero_or]
  have hperm : (pixels.filter fun x => decide (x &&& complement o = q ||| t)).Perm
      ((subsets 32 o).map ((q ||| t) ||| ·)) := by
    refine (perm_ext_iff_of_nodup (h.nodup.filter _) ?_).mpr fun x => ?_
    · have hnodup := (subsets_sorted 32 o).imp fun h => ne_of_lt h
      refine List.Nodup.map_on (fun u hu v hv heq => ?_) hnodup
      rw [mem_subsets 32 o ho] at hu hv
      exact (or_inj hbase hbase hu hv heq).2
    · rw [mem_filter, List.mem_map, decide_eq_true_eq, h.cells]
      constructor
      · rintro ⟨⟨q', hq', s, hs, rfl⟩, hpattern⟩
        obtain ⟨rfl, rfl⟩ := (pattern_iff hm (hlow q' hq') hunion hdisjoint hqm (h.bases q' hq')
          ht hs).mp hpattern
        refine ⟨s &&& o, (mem_subsets 32 o ho _).mpr (sub_and s o), ?_⟩
        rw [Nat.or_assoc, sub_or hunion hs]
      · rintro ⟨u, hu, rfl⟩
        rw [mem_subsets 32 o ho] at hu
        have hsub : Sub (t ||| u) m := by
          have ht' := ht.trans hcm
          have hu' := hu.trans hom
          rw [Submasks.Sub] at ht' hu' ⊢
          rw [Nat.and_or_distrib_right, ht', hu']
        rw [Nat.or_assoc]
        refine ⟨⟨q, hq, t ||| u, hsub, rfl⟩, ?_⟩
        refine (pattern_iff hm (hlow q hq) hunion hdisjoint hqm hqm ht hsub).mpr ⟨rfl, ?_⟩
        have hdisjoint' : o &&& c = 0 := by rw [Nat.and_comm]; exact hdisjoint
        rw [Submasks.Sub] at ht
        rw [Nat.and_or_distrib_right, ht, and_eq_zero_of_sub hu hdisjoint', Nat.or_zero]
  rw [countP_eq_length_filter, hperm.length_eq, length_map, length_subsets]

/-- A shared color for the cells that show `want` outside the planes of the others. -/
structure Task where
  comp : Component
  want : Nat
  refcnt : Int

def Planes.mask (p : Planes) : Component → Nat
  | .red => p.rmask
  | .green => p.gmask
  | .blue => p.bmask

def Planes.others (p : Planes) : Component → Nat
  | .red => p.gmask ||| p.bmask
  | .green => p.rmask ||| p.bmask
  | .blue => p.rmask ||| p.gmask

def Planes.Meets (p : Planes) (t : Task) (x : Nat) : Prop :=
  x &&& complement (p.others t.comp) = t.want

def runTasks (p : Planes) (cells : List Nat) : List Task → Shares → Except Fault Shares
  | [], s => pure s
  | t :: ts, s => do
    let s ← nextShared t.comp cells (complement (p.others t.comp)) t.want t.refcnt s
    runTasks p cells ts s

theorem runTasks_append (p : Planes) (cells : List Nat) (ts us : List Task) : ∀ s,
    runTasks p cells (ts ++ us) s = runTasks p cells ts s >>= runTasks p cells us := by
  induction ts with
  | nil => exact fun s => rfl
  | cons t ts ih =>
    intro s
    rw [cons_append, runTasks, runTasks]
    cases nextShared t.comp cells (complement (p.others t.comp)) t.want t.refcnt s with
    | error e => rfl
    | ok s => exact ih s

theorem point_point (e : Entry) (a : Nat) (comp : Component) :
    (e.point a comp).point a comp = e.point a comp := by
  cases comp <;> rfl

theorem point_refcnt (e : Entry) (a : Nat) (comp : Component) :
    (e.point a comp).refcnt = e.refcnt := by
  cases comp <;> rfl

theorem get_point (e : Entry) (a : Nat) (comp other : Component) :
    (e.point a comp).co.get other = if other = comp then some a else e.co.get other := by
  cases comp <;> cases other <;> rfl

theorem point_fShared (e : Entry) (a : Nat) (comp : Component) :
    (e.point a comp).fShared = (e.fShared || comp = .red) := by
  cases comp <;> simp [Entry.point]

theorem setShared_spec (comp : Component) (a basemask want : Nat) (cells : List Nat) :
    ∀ ent : List Entry, (∀ x ∈ cells, x < ent.length) →
    ∃ ent', setShared comp a basemask want cells ent = .ok ent' ∧ ent'.length = ent.length ∧
      ∀ x, ent'[x]? = (ent[x]?).map fun e =>
        if x ∈ cells ∧ x &&& basemask = want then e.point a comp else e := by
  induction cells with
  | nil =>
    intro ent _
    exact ⟨ent, rfl, rfl, fun x => by cases ent[x]? <;> simp⟩
  | cons c cells ih =>
    intro ent hin
    have hc := hin c mem_cons_self
    have hrest : ∀ x ∈ cells, x < ent.length := fun x hx => hin x (mem_cons_of_mem c hx)
    rw [setShared]
    by_cases hmeets : c &&& basemask = want
    · rw [if_pos hmeets, getElem?_eq_getElem hc]
      obtain ⟨ent', hent', hlength, hget⟩ := ih (ent.set c (ent[c].point a comp))
        (by rw [length_set]; exact hrest)
      rw [length_set] at hlength
      refine ⟨ent', hent', hlength, fun x => ?_⟩
      rw [hget x, getElem?_set]
      by_cases hx : c = x
      · subst hx
        rw [if_pos rfl, if_pos hc, getElem?_eq_getElem hc]
        simp [hmeets, point_point]
      · have hx' : x ≠ c := Ne.symm hx
        rw [if_neg hx]
        simp [hx']
    · rw [if_neg hmeets]
      obtain ⟨ent', hent', hlength, hget⟩ := ih ent hrest
      refine ⟨ent', hent', hlength, fun x => ?_⟩
      rw [hget x]
      by_cases hx : x = c
      · subst hx
        simp [hmeets]
      · simp [hx]

structure Given (p : Planes) (cells : List Nat) (ent : List Entry) (done : List (Task × Nat))
    (s : Shares) : Prop where
  length : s.ent.length = ent.length
  pointer : ∀ d ∈ done, ∀ x ∈ cells, p.Meets d.1 x →
    ∃ e, s.ent[x]? = some e ∧ e.co.get d.1.comp = some d.2 ∧ (d.1.comp = .red → e.fShared = true)
  counter : ∀ d ∈ done, s.shared[d.2]? = some (some d.1.refcnt)
  refcnt : ∀ x : Nat, (s.ent[x]?).map Entry.refcnt = (ent[x]?).map Entry.refcnt

def Apart (t u : Task) : Prop := t.comp = u.comp → t.want ≠ u.want

theorem Given.next {p : Planes} {cells : List Nat} {ent : List Entry} {done : List (Task × Nat)}
    {s : Shares} (h : Given p cells ent done s) (hin : ∀ x ∈ cells, x < ent.length) {t : Task}
    {a : Nat} {rest : List Nat} (hrest : s.ppshared = a :: rest)
    (hapart : ∀ d ∈ done, Apart d.1 t) (hfresh : ∀ d ∈ done, d.2 ≠ a) (ha : a < s.shared.length) :
    ∃ s', nextShared t.comp cells (complement (p.others t.comp)) t.want t.refcnt s = .ok s' ∧
      s'.ppshared = rest ∧ s'.shared.length = s.shared.length ∧
      Given p cells ent (done ++ [(t, a)]) s' := by
  obtain ⟨ent', hset, hlength, hget⟩ := setShared_spec t.comp a (complement (p.others t.comp)) t.want
    cells s.ent (by rw [h.length]; exact hin)
  rw [nextShared, hrest]
  dsimp only [bind, Except.bind]
  rw [hset]
  refine ⟨_, rfl, rfl, length_set, hlength.trans h.length, fun d hd x hx hmeets => ?_,
    fun d hd => ?_, fun x => ?_⟩
  · dsimp only
    rw [hget x]
    rcases mem_append.mp hd with hd | hd
    · obtain ⟨e, he, hpointer, hshared⟩ := h.pointer d hd x hx hmeets
      rw [he, map_some]
      refine ⟨_, rfl, ?_⟩
      split
      · next hboth =>
        have hne : d.1.comp ≠ t.comp := fun heq => by
          have hwant := hapart d hd heq
          rw [Planes.Meets, heq] at hmeets
          exact hwant (hmeets.symm.trans hboth.2)
        rw [get_point, if_neg hne, point_fShared]
        exact ⟨hpointer, fun hred => by rw [hshared hred]; rfl⟩
      · exact ⟨hpointer, hshared⟩
    · rw [mem_singleton] at hd
      subst hd
      have hlt : x < s.ent.length := by
        rw [h.length]
        exact hin x hx
      rw [getElem?_eq_getElem hlt, map_some, if_pos ⟨hx, hmeets⟩]
      refine ⟨_, rfl, ?_, fun hred => ?_⟩
      · rw [get_point, if_pos rfl]
      · rw [point_fShared, decide_eq_true hred, Bool.or_true]
  · dsimp only
    rw [getElem?_set]
    rcases mem_append.mp hd with hd | hd
    · rw [if_neg fun heq => hfresh d hd heq.symm]
      exact h.counter d hd
    · rw [mem_singleton] at hd
      subst hd
      rw [if_pos rfl, if_pos ha]
  · dsimp only
    rw [hget x, ← h.refcnt x, Option.map_map]
    congr 1
    funext e
    rw [Function.comp]
    split
    · exact point_refcnt e a t.comp
    · rfl

theorem runTasks_spec {p : Planes} {cells : List Nat} {ent : List Entry}
    (hin : ∀ x ∈ cells, x < ent.length) (ts : List Task) : ∀ (done : List (Task × Nat))
    (addrs rest : List Nat) (s : Shares), Given p cells ent done s → s.ppshared = addrs ++ rest →
    addrs.length = ts.length → (done.map fst ++ ts).Pairwise Apart →
    (done.map snd ++ addrs).Nodup → (∀ a ∈ addrs, a < s.shared.length) →
    ∃ s', runTasks p cells ts s = .ok s' ∧ s'.shared.length = s.shared.length ∧
      Given p cells ent (done ++ ts.zip addrs) s' := by
  induction ts with
  | nil =>
    intro done addrs rest s h _ _ _ _ _
    refine ⟨s, rfl, rfl, ?_⟩
    rw [zip_nil_left, append_nil]
    exact h
  | cons t ts ih =>
    intro done addrs rest s h hrest hlength hapart hnodup hall
    cases addrs with
    | nil => cases hlength
    | cons a addrs =>
      have hbefore := pairwise_append.mp hapart
      have hfresh := nodup_append.mp hnodup
      obtain ⟨s', hs', hpp, hshared, hgiven⟩ := h.next hin (t := t) hrest
        (fun d hd => hbefore.2.2 _ (mem_map_of_mem hd) t mem_cons_self)
        (fun d hd => hfresh.2.2 _ (mem_map_of_mem hd) a mem_cons_self)
        (hall a mem_cons_self)
      obtain ⟨s'', hs'', hshared', hgiven'⟩ := ih (done ++ [(t, a)]) addrs rest s' hgiven hpp
        (succ.inj hlength)
        (by rw [map_append, append_assoc]; exact hapart)
        (by rw [map_append, append_assoc]; exact hnodup)
        (fun b hb => by rw [hshared]; exact hall b (mem_cons_of_mem a hb))
      rw [runTasks, hs']
      refine ⟨s'', hs'', hshared'.trans hshared, ?_⟩
      rw [append_assoc] at hgiven'
      exact hgiven'

def Planes.counter (p : Planes) (r g b : Nat) : Component → Int
  | .red => short (2 ^ (g + b))
  | .green => short (if p.gmask ≠ 0 then 2 ^ (r + b) else 2 ^ (g + b))
  | .blue => short (if p.bmask ≠ 0 then 2 ^ (r + g) else 2 ^ (g + b))

def Planes.tasks (p : Planes) (r g b pixel : Nat) (comp : Component) : List Task :=
  (apartSubs (p.mask comp)).map fun bits =>
    ⟨comp, (pixel &&& complement (p.others comp)) ||| bits, p.counter r g b comp⟩

theorem shareBits_eq (p : Planes) (cells : List Nat) (comp : Component) {mask : Nat}
    (hmask : mask < 2 ^ 32) (common : Nat) (refcnt : Int) (fuel : Nat) : ∀ bits s,
    Submasks.Sub bits mask → mask - bits < fuel →
    shareBits comp cells mask (lowbit mask) (complement (p.others comp)) common refcnt fuel bits s =
      runTasks p cells ((walk (getNextBits · mask (lowbit mask)) mask fuel bits).map fun bits =>
        ⟨comp, common ||| bits, refcnt⟩) s := by
  induction fuel with
  | zero =>
    intro bits s _ h
    omega
  | succ fuel ih =>
    intro bits s hbits hfuel
    rw [shareBits, walk, map_cons, runTasks]
    cases nextShared comp cells (complement (p.others comp)) (common ||| bits) refcnt s with
    | error e => rfl
    | ok s =>
      dsimp only [bind, Except.bind]
      by_cases heq : bits = mask
      · rw [if_pos heq, if_pos heq]
        rfl
      · have hnext := next_bits hmask bits hbits heq
        have hlt := hnext.lt
        have hle := hnext.sub.le
        rw [if_neg heq, if_neg heq]
        exact ih _ s hnext.sub (by omega)

theorem shareComponent_eq (p : Planes) (cells : List Nat) (comp : Component) {mask : Nat}
    (hmask : mask < 2 ^ 32) (masked unmasked pixel : Nat) (s : Shares) :
    shareComponent comp cells mask (p.others comp) masked unmasked pixel s =
      runTasks p cells ((apartSubs mask).map fun bits =>
        ⟨comp, (pixel &&& complement (p.others comp)) ||| bits,
          short (if mask ≠ 0 then masked else unmasked)⟩) s := by
  rw [shareComponent]
  by_cases hzero : mask ≠ 0
  · rw [if_pos hzero, if_pos hzero]
    exact shareBits_eq p cells comp hmask _ _ (mask + 1) 0 s (Submasks.sub_zero mask) (by omega)
  · rw [if_neg hzero, if_neg hzero]
    rw [not_not] at hzero
    subst hzero
    rw [apartSubs, walk, if_pos rfl, map_cons, map_nil, runTasks, or_zero]
    cases nextShared comp cells (complement (p.others comp))
      (pixel &&& complement (p.others comp)) (short unmasked) s <;> rfl

def components : List Component := [.red, .green, .blue]

def Planes.pixelTasks (p : Planes) (r g b pixel : Nat) : List Task :=
  components.flatMap (p.tasks r g b pixel)

theorem shareAll_eq (p : Planes) (cells : List Nat) (r g b : Nat)
    (hmask : ∀ comp, p.mask comp < 2 ^ 32) (pixels : List Nat) : ∀ s,
    shareAll cells r g b p.rmask p.gmask p.bmask pixels s =
      runTasks p cells (pixels.flatMap (p.pixelTasks r g b)) s := by
  induction pixels with
  | nil => exact fun _ => rfl
  | cons pixel pixels ih =>
    intro s
    have hpixel : sharePixel cells r g b p.rmask p.gmask p.bmask pixel s =
        runTasks p cells (p.pixelTasks r g b pixel) s := by
      have hred := shareComponent_eq p cells .red (hmask .red) (2 ^ (g + b)) (2 ^ (g + b)) pixel
      have hgreen := shareComponent_eq p cells .green (hmask .green) (2 ^ (r + b)) (2 ^ (g + b))
        pixel
      have hblue := shareComponent_eq p cells .blue (hmask .blue) (2 ^ (r + g)) (2 ^ (g + b)) pixel
      rw [ite_self] at hred
      rw [sharePixel, Planes.pixelTasks, components, flatMap_cons, flatMap_cons,
        flatMap_cons, flatMap_nil, append_nil, runTasks_append]
      refine congrArg₂ _ (hred s) (funext fun s => ?_)
      rw [runTasks_append]
      exact congrArg₂ _ (hgreen s) (funext fun s => hblue s)
    rw [shareAll, hpixel, flatMap_cons, runTasks_append]
    exact congrArg _ (funext ih)

end Xfront.Colormap
