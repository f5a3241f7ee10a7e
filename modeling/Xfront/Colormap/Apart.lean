import Xfront.Colormap.Planes

/-!
# Planes apart

The search for planes that are not consecutive, and pixels without planes.
-/

namespace Xfront.Colormap
open Submasks List Nat Option

section

variable {ent : List Entry} {mask q : Nat}

theorem next_bits (hmask : mask < 2 ^ 32) : ∀ s, Sub s mask → s ≠ mask →
    IsNext mask s (getNextBits s mask (lowbit mask)) :=
  fun _ hs hne => getNextBits_isNext hmask hs hne

theorem stopBits_spec (hlen : ent.length < 2 ^ 15) (hin : q + mask < ent.length) (fuel : Nat) :
    ∀ s, Sub s mask → mask - s < fuel →
    ∃ stop, stopBits ent q mask (lowbit mask) fuel s = .ok stop ∧ Sub stop mask ∧
      (stop = mask → ∀ u, Sub u mask → s ≤ u → u < mask →
        ∃ e, ent[q + u]? = some e ∧ e.refcnt = 0) ∧
      (stop < mask → ∀ e, ent[q + stop]? = some e → e.refcnt ≠ 0) := by
  induction fuel with
  | zero =>
    intro s _ h
    omega
  | succ fuel ih =>
    intro s hs hfuel
    have hle := hs.le
    have hget := getElem?_eq_getElem (l := ent) (i := q + s) (by omega)
    rw [stopBits, word_of_lt (by omega), cell_ok hget]
    dsimp only [bind, Except.bind]
    by_cases hzero : ent[q + s].refcnt = 0
    · rw [if_pos hzero]
      by_cases hsm : s = mask
      · rw [if_pos hsm]
        exact ⟨s, rfl, hs, fun _ u _ hle hlt => by omega, fun hlt => by omega⟩
      · rw [if_neg hsm]
        have hnext := next_bits (by omega) s hs hsm
        have hnlt := hnext.lt
        have hnle := hnext.sub.le
        obtain ⟨stop, hstop, hsub, hall, hnot⟩ := ih _ hnext.sub (by omega)
        refine ⟨stop, hstop, hsub, fun heq u hu hsu hlt => ?_, hnot⟩
        rcases eq_or_lt_of_le hsu with rfl | hgt
        · exact ⟨_, hget, hzero⟩
        · exact hall heq u hu (hnext.least u hu hgt) hlt
    · rw [if_neg hzero]
      refine ⟨s, rfl, hs, fun heq u _ hsu hlt => by omega, fun _ e he => ?_⟩
      rw [hget] at he
      cases he
      exact hzero

theorem allFree_spec (hlen : ent.length < 2 ^ 15) (hin : q + mask < ent.length) :
    ∃ b, allFree ent q mask (lowbit mask) = .ok b ∧ (b = true ↔ Free ent mask q) := by
  obtain ⟨stop, hstop, hsub, hall, hnot⟩ :=
    stopBits_spec hlen hin (mask + 1) 0 (sub_zero mask) (by omega)
  have hget := getElem?_eq_getElem hin
  rw [allFree, hstop]
  dsimp only [bind, Except.bind]
  by_cases hlt : stop < mask
  · rw [if_pos hlt]
    refine ⟨false, rfl, iff_of_false Bool.false_ne_true fun hfree => ?_⟩
    obtain ⟨e, he, hzero⟩ := hfree stop hsub
    exact hnot hlt e he hzero
  · have heq : stop = mask := le_antisymm hsub.le (not_lt.mp hlt)
    rw [if_neg hlt, word_of_lt (by omega), cell_ok hget]
    refine ⟨_, rfl, decide_eq_true_iff.trans ⟨fun hzero s hs => ?_, fun hfree => ?_⟩⟩
    · rcases eq_or_lt_of_le hs.le with rfl | hslt
      · exact ⟨_, hget, hzero⟩
      · exact hall heq s hs (zero_le s) hslt
    · obtain ⟨e, he, hzero⟩ := hfree mask (sub_self mask)
      rw [hget] at he
      cases he
      exact hzero

theorem searchApart_spec {count : Nat} (hmask : mask ≤ ent.length) (hlen : ent.length < 2 ^ 15)
    (fuel : Nat) : ∀ q found, Searched ent mask q found → found.length < count → 0 < fuel →
    ent.length < q + fuel →
    (∃ found', searchApart ent count mask (lowbit mask) (ent.length - mask) fuel q found =
        .ok (some found') ∧ Found ent mask found' ∧ found'.length = count) ∨
    searchApart ent count mask (lowbit mask) (ent.length - mask) fuel q found = .ok none := by
  induction fuel with
  | zero =>
    intro q found _ _ h
    omega
  | succ fuel ih =>
    intro q found hsearched hcount _ hfuel
    rw [searchApart]
    by_cases hend : q < ent.length - mask
    · rw [if_pos hend, word_of_lt (by omega)]
      by_cases hmeets : q &&& mask ≠ 0
      · rw [if_pos hmeets]
        refine ih _ _ (hsearched.skip (le_succ q) fun x hle hlt hc => ?_) hcount (by omega)
          (by omega)
        have hx : x = q := by omega
        rw [hx] at hc
        exact hmeets hc.1
      · rw [if_neg hmeets]
        rw [not_not] at hmeets
        obtain ⟨free, hfree, hiff⟩ := allFree_spec hlen (show q + mask < ent.length by omega)
        rw [hfree]
        dsimp only [bind, Except.bind]
        cases free with
        | true =>
          have hadded := hsearched.add ⟨hmeets, hiff.mp rfl⟩
          rw [if_pos rfl]
          by_cases hfull : (found ++ [q]).length < count
          · rw [if_neg fun h => h.2 hfull]
            exact ih _ _ hadded hfull (by omega) (by omega)
          · rw [if_pos ⟨rfl, hfull⟩]
            refine .inl ⟨_, rfl, hadded.toFound, ?_⟩
            rw [length_append, length_singleton] at hfull ⊢
            omega
        | false =>
          rw [if_neg Bool.false_ne_true, if_neg fun h => Bool.false_ne_true h.1]
          refine ih _ _ (hsearched.skip (le_succ q) fun x hle hlt hc => ?_) hcount (by omega)
            (by omega)
          have hx : x = q := by omega
          rw [hx] at hc
          exact Bool.false_ne_true (hiff.mpr hc.2)
    · rw [if_neg hend]
      exact .inr rfl

theorem allocApart_spec (hmask : mask < 2 ^ 15) (fuel : Nat) : ∀ s (ent : List Entry),
    Sub s mask → mask - s < fuel → ent.length < 2 ^ 15 → q + mask < ent.length →
    allocApart q mask (lowbit mask) fuel ent s =
      .ok (takeAll ent ((walk (getNextBits · mask (lowbit mask)) mask fuel s).map (q + ·)),
        (walk (getNextBits · mask (lowbit mask)) mask fuel s).tail.map (q + ·)) := by
  induction fuel with
  | zero =>
    intro s ent _ h
    omega
  | succ fuel ih =>
    intro s ent hs hfuel hlen hin
    have hle := hs.le
    rw [allocApart, walk, word_of_lt (by omega), takeCell_eq (by omega)]
    dsimp only [bind, Except.bind]
    by_cases hsm : s = mask
    · rw [if_pos hsm, if_pos hsm]
      rfl
    · have hnext := next_bits (by omega) s hs hsm
      have hnlt := hnext.lt
      have hnle := hnext.sub.le
      obtain ⟨fuel', rfl⟩ : ∃ f, fuel = f + 1 := ⟨fuel - 1, by omega⟩
      rw [if_neg hsm, if_neg hsm, ih _ _ hnext.sub (by omega)
        (by rw [length_takeAll]; exact hlen) (by rw [length_takeAll]; exact hin), takeAll_append,
        word_of_lt (by omega)]
      rfl

/-- The subsets as `GetNextBitsOrBreak` goes through them. -/
def apartSubs (mask : Nat) : List Nat :=
  walk (getNextBits · mask (lowbit mask)) mask (mask + 1) 0

theorem apartSubs_spec (hmask : mask < 2 ^ 32) : SubsetsOf mask (apartSubs mask) := by
  obtain ⟨hmem, hsorted⟩ := walk_spec (next_bits hmask) (mask + 1) 0 (sub_zero mask) (by omega)
  exact ⟨hsorted, fun s => (hmem s).trans (and_iff_left (zero_le s))⟩

theorem allocAllApart_spec (hmask : mask < 2 ^ 15) : ∀ (qs : List Nat) (ent : List Entry),
    ent.length < 2 ^ 15 → (∀ q ∈ qs, q + mask < ent.length) →
    allocAllApart mask (lowbit mask) qs ent =
      .ok (takeAll ent (qs.flatMap fun q => (apartSubs mask).map (q + ·)),
        qs.flatMap fun q => (apartSubs mask).tail.map (q + ·)) := by
  intro qs
  induction qs with
  | nil =>
    intro ent _ _
    rw [allocAllApart, flatMap_nil, takeAll_nil]
    rfl
  | cons q qs ih =>
    intro ent hlen hin
    have hone := allocApart_spec hmask (mask + 1) 0 ent (sub_zero mask) (by omega) hlen
      (hin q mem_cons_self)
    have hrest := ih (takeAll ent ((apartSubs mask).map (q + ·)))
      (by rw [length_takeAll]; exact hlen)
      (fun x hx => by rw [length_takeAll]; exact hin x (mem_cons_of_mem q hx))
    rw [allocAllApart, hone]
    dsimp only [bind, Except.bind]
    rw [apartSubs] at hrest
    rw [hrest, takeAll_append]
    rfl

theorem tryApart_spec (ent : List Entry) {count : Nat} (planes : Nat) (hcount : 0 < count) (hlen : ent.length < 2 ^ 15)
    (turns : Nat) : ∀ mask, mask + turns ≤ ent.length + 1 →
    ∃ r, tryApart ent ent.length count planes turns mask = .ok r ∧
      ∀ ent' pixels mask', r = some (ent', pixels, mask') →
        Allocated ent ent' count planes false pixels mask' := by
  induction turns with
  | zero => exact fun mask _ => ⟨none, rfl, fun _ _ _ h => by cases h⟩
  | succ turns ih =>
    intro mask hend
    rw [tryApart]
    by_cases hones : countBits mask ≠ planes
    · rw [if_pos hones]
      exact ih (mask + 1) (by omega)
    · rw [if_neg hones]
      rw [not_not, countBits_eq (by omega)] at hones
      have hentries : word (ent.length + 2 ^ 32 - mask) = ent.length - mask := by
        rw [word]
        omega
      have hsearch := searchApart_spec (show mask ≤ ent.length by omega) hlen
        (ent.length + 1) 0 []
        (Searched.start ent mask) hcount (by omega) (by omega)
      dsimp only
      rw [hentries]
      rcases hsearch with ⟨found, hsearch, hfound, hlength⟩ | hsearch
      · have halloc := allocAllApart_spec (show mask < 2 ^ 15 by omega) found.reverse ent hlen
          fun q hq => (hfound.candidate q (mem_reverse.mp hq)).2.lt
        rw [hsearch]
        dsimp only [bind, Except.bind]
        rw [halloc]
        refine ⟨_, rfl, fun ent' pixels mask' h => ?_⟩
        cases h
        exact allocated_of_found hfound hlength (apartSubs_spec (by omega)) (by omega) hones
          fun h => absurd h Bool.false_ne_true
      · rw [hsearch]
        exact ih (mask + 1) (by omega)

theorem tryApart_allocated {count planes turns : Nat} {ent' : List Entry} {pixels : List Nat}
    {mask' : Nat} (hcount : 0 < count) (hlen : ent.length < 2 ^ 15)
    (hend : mask + turns ≤ ent.length + 1)
    (h : tryApart ent ent.length count planes turns mask = .ok (some (ent', pixels, mask'))) :
    Allocated ent ent' count planes false pixels mask' := by
  obtain ⟨r, hr, halloc⟩ := tryApart_spec ent planes hcount hlen turns mask hend
  rw [h] at hr
  cases hr
  exact halloc _ _ _ rfl

end

def freeCells (ent : List Entry) : Nat := ent.countP fun e => e.refcnt = 0

section

variable {ent : List Entry}

theorem freeCells_le (ent : List Entry) : freeCells ent ≤ ent.length := countP_le_length

theorem freeCells_drop {p : Nat} {e : Entry} (h : ent[p]? = some e) :
    freeCells (ent.drop p) = freeCells (ent.drop (p + 1)) + if e.refcnt = 0 then 1 else 0 := by
  obtain ⟨hlt, rfl⟩ := List.getElem?_eq_some_iff.mp h
  rw [freeCells, drop_eq_getElem_cons hlt, countP_cons]
  simp only [decide_eq_true_eq]
  rfl

theorem nextFree_spec (ent : List Entry) (fuel : Nat) : ∀ pixel, 0 < freeCells (ent.drop pixel) →
    ent.length < pixel + fuel →
    ∃ p e, nextFree ent fuel pixel = .ok p ∧ pixel ≤ p ∧ ent[p]? = some e ∧ e.refcnt = 0 ∧
      freeCells (ent.drop pixel) = freeCells (ent.drop (p + 1)) + 1 := by
  induction fuel with
  | zero =>
    intro pixel hfree hend
    rw [drop_eq_nil_of_le (by omega)] at hfree
    cases hfree
  | succ fuel ih =>
    intro pixel hfree hend
    have hlt : pixel < ent.length := by
      refine Nat.lt_of_not_le fun hle => ?_
      rw [drop_eq_nil_of_le hle] at hfree
      cases hfree
    have hget := getElem?_eq_getElem hlt
    have hcount := freeCells_drop hget
    rw [nextFree, cell_ok hget]
    dsimp only [bind, Except.bind]
    by_cases hzero : ent[pixel].refcnt = 0
    · rw [if_pos hzero] at hcount
      rw [if_neg (not_not_intro hzero)]
      exact ⟨pixel, _, rfl, le_refl pixel, hget, hzero, hcount⟩
    · rw [if_neg hzero, add_zero] at hcount
      rw [if_pos hzero]
      rw [hcount] at hfree ⊢
      obtain ⟨p, e, hp, hle, hrest⟩ := ih (pixel + 1) hfree (by omega)
      exact ⟨p, e, hp, by omega, hrest⟩

theorem drop_takeAll {p : Nat} : (takeAll ent [p]).drop (p + 1) = ent.drop (p + 1) := by
  refine ext_getElem? fun i => ?_
  have hnot : p + 1 + i ∉ [p] := fun hmem => by
    have heq := mem_singleton.mp hmem
    omega
  rw [getElem?_drop, getElem?_drop, takeAll_getElem?]
  simp only [if_neg hnot]
  exact congrFun Option.map_id _

theorem freeCells_takeAll {p : Nat} (h : p < ent.length) :
    freeCells ((takeAll ent [p]).drop p) = freeCells (ent.drop (p + 1)) := by
  have hget : (takeAll ent [p])[p]? = some ent[p].taken := by
    rw [takeAll_getElem?, getElem?_eq_getElem h, map_some, if_pos (mem_singleton_self p)]
  rw [freeCells_drop hget, drop_takeAll]
  rfl

theorem allocCells_spec (count : Nat) : ∀ (ent : List Entry) pixel,
    count ≤ freeCells (ent.drop pixel) →
    ∃ xs, allocCells count ent pixel = .ok (takeAll ent xs, xs) ∧ xs.length = count ∧
      xs.Pairwise (· < ·) ∧ ∀ x ∈ xs, pixel ≤ x ∧ ∃ e, ent[x]? = some e ∧ e.refcnt = 0 := by
  induction count with
  | zero =>
    intro ent pixel _
    exact ⟨[], by rw [takeAll_nil]; rfl, rfl, List.Pairwise.nil, fun x hx => absurd hx not_mem_nil⟩
  | succ count ih =>
    intro ent pixel hfree
    obtain ⟨p, e, hnext, hle, hget, hzero, hcount⟩ :=
      nextFree_spec ent (ent.length + 1) pixel (by omega) (by omega)
    have hlt := (List.getElem?_eq_some_iff.mp hget).1
    obtain ⟨xs, hxs, hlength, hsorted, hall⟩ :=
      ih (takeAll ent [p]) p (by rw [freeCells_takeAll hlt]; omega)
    have habove : ∀ x ∈ xs, p < x ∧ ∃ e, ent[x]? = some e ∧ e.refcnt = 0 := by
      intro x hx
      obtain ⟨hpx, e', he', hzero'⟩ := hall x hx
      rw [takeAll_getElem?] at he'
      obtain ⟨e'', he'', heq⟩ := map_eq_some_iff.mp he'
      by_cases hmem : x ∈ [p]
      · rw [if_pos hmem] at heq
        rw [← heq] at hzero'
        cases hzero'
      · rw [if_neg hmem] at heq
        rw [← heq] at hzero'
        have hne : x ≠ p := fun h => hmem (mem_singleton.mpr h)
        exact ⟨by omega, e'', he'', hzero'⟩
    rw [allocCells, hnext]
    dsimp only [bind, Except.bind]
    rw [takeCell_eq hlt]
    dsimp only
    rw [hxs, takeAll_append]
    refine ⟨p :: xs, rfl, by rw [length_cons, hlength], ?_, fun x hx => ?_⟩
    · exact pairwise_cons.mpr ⟨fun x hx => (habove x hx).1, hsorted⟩
    · rcases mem_cons.mp hx with rfl | hx
      · exact ⟨hle, e, hget, hzero⟩
      · obtain ⟨hgt, hfree'⟩ := habove x hx
        exact ⟨by omega, hfree'⟩

theorem nextFree_free (fuel : Nat) : ∀ {pixel p}, nextFree ent fuel pixel = .ok p →
    0 < freeCells (ent.drop pixel) := by
  induction fuel with
  | zero =>
    intro pixel p h
    cases h
  | succ fuel ih =>
    intro pixel p h
    rcases lt_or_ge pixel ent.length with hlt | hge
    · have hget := getElem?_eq_getElem hlt
      rw [nextFree, cell_ok hget] at h
      dsimp only [bind, Except.bind] at h
      rw [freeCells_drop hget]
      split at h
      · have hrest := ih h
        omega
      · next hzero =>
        rw [if_pos (not_not.mp hzero)]
        omega
    · rw [nextFree, cell_outside hge] at h
      cases h

theorem allocCells_room (count : Nat) : ∀ {ent : List Entry} {pixel r},
    allocCells count ent pixel = .ok r → count ≤ freeCells (ent.drop pixel) := by
  induction count with
  | zero => exact fun _ => zero_le _
  | succ count ih =>
    intro ent pixel r h
    rw [allocCells] at h
    cases hnext : nextFree ent (ent.length + 1) pixel with
    | error e =>
      rw [hnext] at h
      cases h
    | ok p =>
      obtain ⟨p', e, hp', -, hget, -, hcount⟩ := nextFree_spec ent (ent.length + 1) pixel
        (nextFree_free _ hnext) (by omega)
      rw [hnext] at hp'
      cases hp'
      have hlt := (List.getElem?_eq_some_iff.mp hget).1
      rw [hnext] at h
      dsimp only [bind, Except.bind] at h
      rw [takeCell_eq hlt] at h
      dsimp only at h
      cases hrest : allocCells count (takeAll ent [p]) p with
      | error e =>
        rw [hrest] at h
        cases h
      | ok r' =>
        have hle := ih hrest
        rw [freeCells_takeAll hlt] at hle
        omega

end

end Xfront.Colormap
