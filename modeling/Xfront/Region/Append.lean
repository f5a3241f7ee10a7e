import Xfront.Region.Validate

/-!
# `RegionAppend` and then `RegionValidate`

While the extents are not degenerate the boxes gathered so far are banded and the
extents are their bounding box, so the early return of `RegionValidate` is right; once
they are degenerate the whole array is sorted and merged.
-/

namespace Xfront.Region
open RegionRec
open List hiding Disjoint

theorem before_trans {a b c : Box} (hb : b.Nonempty) (h : a.Before b) (h' : b.Before c) :
    a.Before c := by
  obtain ⟨hx, hy⟩ := hb
  rcases h with ⟨h₁, h₂, h₃⟩ | h <;> rcases h' with ⟨g₁, g₂, g₃⟩ | g
  · exact .inl ⟨by omega, by omega, by omega⟩
  · exact .inr (by omega)
  · exact .inr (by omega)
  · exact .inr (by omega)

theorem banded_append {a b : Box} {as bs : List Box} (h : Banded (as ++ [a]))
    (h' : Banded (b :: bs)) (hab : a.Before b) : Banded (as ++ [a] ++ b :: bs) := by
  refine ⟨fun x hx => (mem_append.mp hx).elim (h.nonempty x) (h'.nonempty x),
    pairwise_append.mpr ⟨h.ordered, h'.ordered, fun x hx y hy => ?_⟩⟩
  have ha := h.nonempty a (mem_append_right _ (mem_singleton_self a))
  have hb := h'.nonempty b (mem_cons_self ..)
  have hxb : x.Before b := by
    rcases mem_append.mp hx with hx | hx
    · exact before_trans ha ((pairwise_append.mp h.ordered).2.2 x hx a
        (mem_singleton_self a)) hab
    · exact mem_singleton.mp hx ▸ hab
  rcases mem_cons.mp hy with rfl | hy
  · exact hxb
  · exact before_trans hb hxb ((pairwise_cons.mp h'.ordered).1 y hy)

theorem before_of_inOrder {first last : Box} (h : inOrder first last = true) :
    last.Before first := by
  rw [inOrder, decide_eq_true_eq] at h
  rcases h with h | ⟨h₁, h₂, h₃⟩
  · exact .inr h.le
  · exact .inl ⟨h₁.symm, h₂.symm, h₃.le⟩

theorem bounds_append {d e : Box} {as bs : List Box} (h : Banded (as ++ bs))
    (hd : Bounds d (covers as)) (he : Bounds e (covers bs)) :
    Bounds ⟨min d.x1 e.x1, d.y1, max d.x2 e.x2, e.y2⟩ (covers (as ++ bs)) := by
  have hrows : ∀ p ∈ covers as, ∀ q ∈ covers bs, d.y1 ≤ q.2 ∧ p.2 < e.y2 := by
    rintro p ⟨a, haa, hp⟩ q ⟨b, hb, hq⟩
    have hab := (pairwise_append.mp h.ordered).2.2 a haa b hb
    have hna := h.nonempty a (mem_append_left _ haa)
    have hnb := h.nonempty b (mem_append_right _ hb)
    have hda := hd.inside _ ⟨a, haa, Box.corner_mem hna⟩
    have hbot : (b.x1, b.y2 - 1) ∈ b.points := by
      rw [Box.mem_points]
      exact ⟨le_rfl, hnb.1, by have := hnb.2; dsimp only; omega, by dsimp only; omega⟩
    have heb := he.inside _ ⟨b, hb, hbot⟩
    rw [Box.mem_points] at hp hq hda heb
    have hta := hna.2
    have htb := hnb.2
    rcases hab with ⟨h₁, h₂, _⟩ | h₁ <;> constructor <;> omega
  have hy1 : min d.y1 e.y1 = d.y1 := by
    obtain ⟨q, hq, hqe⟩ := he.top
    obtain ⟨p, hp, _⟩ := hd.left
    have := (hrows p hp q hq).1
    omega
  have hy2 : max d.y2 e.y2 = e.y2 := by
    obtain ⟨p, hp, hpd⟩ := hd.bottom
    obtain ⟨q, hq, _⟩ := he.left
    have := (hrows p hp q hq).2
    omega
  have hu := hd.union he
  rwa [hy1, hy2, ← covers_append] at hu

variable {rgn : RegionRec}

theorem not_broken_of_valid (hv : regionIsValid rgn = true) : rgn.data ≠ .broken := by
  intro hb
  rw [regionIsValid] at hv
  split at hv
  · cases hv
  · simp [rects, hb] at hv

structure Regular (rgn : RegionRec) : Prop where
  valid : regionIsValid rgn = true
  banded : Banded rgn.rects

theorem Regular.bounds (h : Regular rgn) (hne : rgn.rects ≠ []) :
    Bounds rgn.extents (covers rgn.rects) := by
  match hr : rgn.rects, hne with
  | [b], _ =>
    have hv := h.valid
    rw [regionIsValid] at hv
    split at hv
    · cases hv
    · simp only [hr, decide_eq_true_eq] at hv
      rw [rects, hv] at hr
      have hb := h.banded.nonempty b (by rw [rects, hv, hr]; exact mem_cons_self ..)
      rw [singleton_inj.mp hr, covers_cons, covers_nil, Set.union_empty]
      exact .box hb
  | b :: n :: rest, _ => exact bounds_of_valid hr (hr ▸ h.banded) h.valid

/-- The region between two calls of `RegionAppend`. -/
inductive Gathered (dst : RegionRec) : Prop where
  | empty (rects : dst.rects = []) (valid : regionIsValid dst = true)
  | banded (rects : dst.rects ≠ []) (banded : Banded dst.rects)
    (extents : Bounds dst.extents (covers dst.rects))
  | loose (boxes : List Box) (data : dst.data = .array boxes) (rects : boxes ≠ [])
    (nonempty : ∀ b ∈ boxes, b.Nonempty) (extents : dst.extents.x1 = dst.extents.x2)

variable {dst : RegionRec}

theorem regionAppend_cons {new old : Box} {news olds : List Box}
    (hb : rgn.data ≠ .broken) (hd : dst.rects = new :: news) (hr : rgn.rects = old :: olds) :
    regionAppend dst rgn = (true, if dst.extents.x1 < dst.extents.x2 then
        if inOrder old (news.getLastD new) then
          ⟨⟨min dst.extents.x1 rgn.extents.x1, dst.extents.y1, max dst.extents.x2 rgn.extents.x2,
            rgn.extents.y2⟩, .array (dst.rects ++ rgn.rects)⟩
        else if inOrder new (olds.getLastD old) then
          ⟨⟨min dst.extents.x1 rgn.extents.x1, rgn.extents.y1, max dst.extents.x2 rgn.extents.x2,
            dst.extents.y2⟩, .array (rgn.rects ++ dst.rects)⟩
        else ⟨{ dst.extents with x2 := dst.extents.x1 }, .array (dst.rects ++ rgn.rects)⟩
      else ⟨dst.extents, .array (dst.rects ++ rgn.rects)⟩) := by
  have hmin : ∀ x y : Int, (if y < x then y else x) = min x y := fun x y => by
    split <;> omega
  have hmax : ∀ x y : Int, (if x < y then y else x) = max x y := fun x y => by
    split <;> omega
  have hde : ¬ (rgn.data = .null ∧ dst.data = .empty) := by
    rintro ⟨_, he⟩
    rw [rects, he] at hd
    cases hd
  have halloc : (regionRectAlloc dst).rects = dst.rects := rfl
  rw [regionAppend, if_neg hb, if_neg hde, halloc, hd, hr]
  simp only [hmin, hmax]

theorem getLastD_eq (new : Box) (news : List Box) :
    ∃ front, new :: news = front ++ [news.getLastD new] := by
  rcases eq_nil_or_concat' news with rfl | ⟨front, z, rfl⟩
  · exact ⟨[], rfl⟩
  · exact ⟨new :: front, by rw [getLastD_concat, cons_append]⟩

theorem regionAppend_spec (h : Gathered dst) (hrgn : Regular rgn) :
    ∃ dst', regionAppend dst rgn = (true, dst') ∧ Gathered dst' ∧
      dst'.rects.Perm (dst.rects ++ rgn.rects) := by
  have hb := not_broken_of_valid hrgn.valid
  by_cases hr : rgn.rects = []
  · refine ⟨dst, ?_, h, by rw [hr, append_nil]⟩
    have hn : ¬ (rgn.data = .null ∧ dst.data = .empty) := by
      rintro ⟨hn, _⟩
      rw [rects, hn] at hr
      cases hr
    rw [regionAppend, if_neg hb, if_neg hn, hr]
  · have hbounds := hrgn.bounds hr
    by_cases hd : dst.rects = []
    · -- the first boxes
      rw [hd, nil_append]
      by_cases hn : rgn.data = .null ∧ dst.data = .empty
      · refine ⟨⟨rgn.extents, .null⟩, by rw [regionAppend, if_neg hb, if_pos hn], ?_, ?_⟩
        · have hrr : rgn.rects = [rgn.extents] := by rw [rects, hn.1]
          have hband := hrgn.banded
          rw [hrr] at hband hbounds
          exact .banded (cons_ne_nil rgn.extents []) hband hbounds
        · rw [rects, rects, hn.1]
      · obtain ⟨old, olds, ho⟩ := exists_cons_of_ne_nil hr
        refine ⟨⟨rgn.extents, .array rgn.rects⟩, ?_, .banded hr hrgn.banded hbounds, .refl _⟩
        have halloc : (regionRectAlloc dst).rects = [] := hd
        rw [regionAppend, if_neg hb, if_neg hn, halloc, ho]
    · obtain ⟨old, olds, ho⟩ := exists_cons_of_ne_nil hr
      obtain ⟨new, news, hn⟩ := exists_cons_of_ne_nil hd
      have hall : dst.rects ++ rgn.rects ≠ [] := append_ne_nil_of_left_ne_nil hd _
      have hne : (∀ b ∈ dst.rects, b.Nonempty) → ∀ b ∈ dst.rects ++ rgn.rects, b.Nonempty :=
        fun hs b hb => (mem_append.mp hb).elim (hs b) (hrgn.banded.nonempty b)
      refine ⟨_, regionAppend_cons hb hn ho, ?_⟩
      rcases h with ⟨he, _⟩ | ⟨_, hband, hext⟩ | ⟨boxes, hdata, _, hbox, hext⟩
      · exact absurd he hd
      · rw [if_pos hext.nonempty.1]
        obtain ⟨front, hfront⟩ := getLastD_eq new news
        obtain ⟨front', hfront'⟩ := getLastD_eq old olds
        by_cases h₁ : inOrder old (news.getLastD new) = true
        · -- appended in order
          rw [if_pos h₁]
          have hchain : Banded (dst.rects ++ rgn.rects) := by
            rw [ho, hn, hfront]
            exact banded_append (hfront ▸ hn ▸ hband) (ho ▸ hrgn.banded) (before_of_inOrder h₁)
          exact ⟨.banded hall hchain (bounds_append hchain hext hbounds), .refl _⟩
        · rw [if_neg h₁]
          by_cases h₂ : inOrder new (olds.getLastD old) = true
          · -- prepended in order
            rw [if_pos h₂]
            have hchain : Banded (rgn.rects ++ dst.rects) := by
              rw [ho, hn, hfront']
              exact banded_append (hfront' ▸ ho ▸ hrgn.banded) (hn ▸ hband) (before_of_inOrder h₂)
            refine ⟨.banded (append_ne_nil_of_left_ne_nil hr _) hchain ?_, perm_append_comm⟩
            have hb' := bounds_append hchain hbounds hext
            rwa [min_comm, max_comm] at hb'
          · rw [if_neg h₂]
            exact ⟨.loose _ rfl hall (hne hband.nonempty) rfl, .refl _⟩
      · rw [if_neg (by omega)]
        have hrects : dst.rects = boxes := by rw [rects, hdata]
        exact ⟨.loose _ rfl hall (hne (hrects ▸ hbox)) hext, .refl _⟩

def appendAll (dst : RegionRec) : List RegionRec → Bool × RegionRec
  | [] => (true, dst)
  | rgn :: rgns =>
    let next := regionAppend dst rgn
    let rest := appendAll next.2 rgns
    (next.1 && rest.1, rest.2)

theorem appendAll_spec {rgns : List RegionRec} (h : Gathered dst) (hr : ∀ r ∈ rgns, Regular r) :
    ∃ dst', appendAll dst rgns = (true, dst') ∧ Gathered dst' ∧
      dst'.rects.Perm (dst.rects ++ rgns.flatMap rects) := by
  induction rgns generalizing dst with
  | nil => exact ⟨dst, rfl, h, by simp⟩
  | cons rgn rgns ih =>
    obtain ⟨mid, hmid, hgath, hperm⟩ := regionAppend_spec h (hr rgn (mem_cons_self ..))
    obtain ⟨dst', hall, hgath', hperm'⟩ := ih hgath fun r hr' => hr r (mem_cons_of_mem _ hr')
    refine ⟨dst', by rw [appendAll, hmid, hall]; rfl, hgath', hperm'.trans ?_⟩
    rw [flatMap_cons, ← append_assoc]
    exact hperm.append_right _

theorem regionValidate_gathered (h : Gathered dst) :
    ∃ reg overlap, regionValidate dst = (true, reg, overlap) ∧ regionIsValid reg = true ∧
      covers reg.rects = covers dst.rects ∧
      (overlap = true ↔ ¬ (dst.rects.map Box.points).Pairwise Disjoint) := by
  rcases h with ⟨hr, hv⟩ | ⟨hne, hband, hext⟩ | ⟨boxes, hdata, hne, hbox, hext⟩
  · refine ⟨dst, false, ?_, hv, rfl, by simp [hr]⟩
    cases hd : dst.data with
    | null =>
      rw [rects, hd] at hr
      cases hr
    | empty => rw [regionValidate, hd]
    | broken => exact absurd hd (not_broken_of_valid hv)
    | array boxes =>
      have hnil : boxes = [] := by rwa [rects, hd] at hr
      rw [regionValidate, hd, hnil]
  · have hpair := hband.disjoint
    cases hd : dst.data with
    | null =>
      exact ⟨dst, false, by rw [regionValidate, hd], valid_null hd hext.nonempty, rfl,
        by simp [hpair]⟩
    | empty | broken => exact absurd (by rw [rects, hd]) hne
    | array boxes =>
      have hrects : dst.rects = boxes := by rw [rects, hd]
      obtain _ | ⟨b, _ | ⟨n, rest⟩⟩ := boxes
      · exact absurd hrects hne
      · have hbox : b = dst.extents := by
          rw [hrects, covers_cons, covers_nil, Set.union_empty] at hext
          exact (Bounds.box
            (hband.nonempty b (by rw [hrects]; exact mem_cons_self ..))).unique hext
        refine ⟨{ dst with data := .null }, false, ?_, valid_null rfl hext.nonempty, ?_,
          by simp [hpair]⟩
        · rw [regionValidate, hd]
          dsimp only
          rw [if_pos hext.nonempty.1, if_pos (length_singleton ..)]
        · rw [hrects, hbox]
          rfl
      · refine ⟨dst, false, ?_, valid_array hd (hrects ▸ hband) (hrects ▸ hext), rfl,
          by simp [hpair]⟩
        rw [regionValidate, hd]
        dsimp only
        rw [if_pos hext.nonempty.1, if_neg (by simp)]
  · have hrects : dst.rects = boxes := by rw [rects, hdata]
    obtain ⟨reg, overlap, hval, hvd, hover⟩ := regionValidate_array hdata hne hbox hext
    exact ⟨reg, overlap, hval, hvd.valid, hrects ▸ hvd.covers, hrects ▸ hover⟩

theorem pairwise_points_flatMap {rgns : List RegionRec} (h : ∀ r ∈ rgns, Regular r) :
    ((rgns.flatMap rects).map Box.points).Pairwise Disjoint ↔
      (rgns.map fun r => covers r.rects).Pairwise Disjoint := by
  rw [pairwise_map, pairwise_flatMap, pairwise_map]
  have hown : ∀ r ∈ rgns, r.rects.Pairwise fun a b => Disjoint a.points b.points :=
    fun r hr => pairwise_map.mp (h r hr).banded.disjoint
  rw [and_iff_right hown]
  refine Iff.of_eq (congrArg (List.Pairwise · rgns) ?_)
  funext r q
  refine propext (Iff.trans ?_ disjoint_covers.symm)
  exact ⟨fun hd b hb => (disjoint_covers.mpr fun a ha => (hd a ha b hb).symm).symm,
    fun hd a ha b hb => (disjoint_covers.mp (hd b hb).symm a ha).symm⟩

theorem regionAppend_union {dst : RegionRec} {rgns : List RegionRec} (hempty : dst.rects = [])
    (hvalid : regionIsValid dst = true) (h : ∀ r ∈ rgns, Regular r) :
    ∃ dst' reg overlap, appendAll dst rgns = (true, dst') ∧
      regionValidate dst' = (true, reg, overlap) ∧ regionIsValid reg = true ∧
      covers reg.rects = {p | ∃ r ∈ rgns, p ∈ covers r.rects} ∧
      (overlap = true ↔ ∃ i j : Fin rgns.length, i < j ∧
        ∃ p, p ∈ covers (rgns.get i).rects ∧ p ∈ covers (rgns.get j).rects) := by
  obtain ⟨dst', hall, hgath, hperm⟩ := appendAll_spec (.empty hempty hvalid) h
  obtain ⟨reg, overlap, hval, hv, hcov, hover⟩ := regionValidate_gathered hgath
  rw [hempty, List.nil_append] at hperm
  refine ⟨dst', reg, overlap, hall, hval, hv, ?_, ?_⟩
  · rw [hcov, covers_perm hperm]
    ext p
    simp only [mem_covers, List.mem_flatMap, Set.mem_ofPred_eq]
    exact ⟨fun ⟨b, ⟨r, hr, hb⟩, hp⟩ => ⟨r, hr, b, hb, hp⟩, fun ⟨r, hr, b, hb, hp⟩ =>
      ⟨b, ⟨r, hr, hb⟩, hp⟩⟩
  · rw [hover, pairwise_disjoint_perm (hperm.map Box.points), pairwise_points_flatMap h,
      List.pairwise_map, List.pairwise_iff_get]
    simp only [not_forall, Set.not_disjoint_iff, exists_prop]

theorem regionAppend_union_three : ∃ dst' reg overlap,
      appendAll regionNull [⟨⟨0, 5, 4, 9⟩, .null⟩, regionNull, ⟨⟨0, 0, 2, 4⟩, .null⟩] =
        (true, dst') ∧ regionValidate dst' = (true, reg, overlap) ∧ regionIsValid reg = true :=
  have ⟨dst', reg, overlap, hall, hval, hv, _⟩ :=
    @regionAppend_union regionNull [⟨⟨0, 5, 4, 9⟩, .null⟩, regionNull, ⟨⟨0, 0, 2, 4⟩, .null⟩] rfl
      (by decide) (by
        simp only [List.forall_mem_cons]
        exact ⟨⟨by decide, by decide, by simp [rects]⟩,
          ⟨by decide, by decide, by simp [rects, regionNull]⟩,
          ⟨by decide, by decide, by simp [rects]⟩, nofun⟩)
  ⟨dst', reg, overlap, hall, hval, hv⟩

/-- `RegionIsValid` lets bands reach into each other and takes an empty box. -/
theorem regionAppend_overlap_wrong :
    (let r₁ : RegionRec := ⟨⟨0, 0, 10, 15⟩, .array [⟨0, 0, 10, 100⟩, ⟨0, 5, 10, 15⟩]⟩
      let r₂ : RegionRec := ⟨⟨0, 20, 10, 30⟩, .null⟩
      regionIsValid r₁ = true ∧ regionIsValid r₂ = true ∧
        (regionValidate (appendAll regionNull [r₁, r₂]).2).2.2 = false ∧
        (0, 20) ∈ covers r₁.rects ∧ (0, 20) ∈ covers r₂.rects) ∧
    (let r₁ : RegionRec := ⟨⟨3, 0, 3, 10⟩, .null⟩
      let r₂ : RegionRec := ⟨⟨0, 0, 5, 10⟩, .null⟩
      regionIsValid r₁ = true ∧ regionIsValid r₂ = true ∧
        (regionValidate (appendAll regionNull [r₁, r₂]).2).2.2 = true ∧
        covers r₁.rects = ∅) := by
  refine ⟨⟨by decide, by decide, by decide, ⟨⟨0, 0, 10, 100⟩, by decide, by simp [Box.mem_points]⟩,
    ⟨⟨0, 20, 10, 30⟩, by decide, by simp [Box.mem_points]⟩⟩, ⟨by decide, by decide, ?_, ?_⟩⟩
  · have hloose : appendAll regionNull [⟨⟨3, 0, 3, 10⟩, .null⟩, ⟨⟨0, 0, 5, 10⟩, .null⟩] =
        (true, ⟨⟨3, 0, 3, 10⟩, .array [⟨3, 0, 3, 10⟩, ⟨0, 0, 5, 10⟩]⟩) := by decide
    rw [hloose]
    simp [regionValidate, quickSortRects, precedes, scatterAll, scatter, RegionInfo.start, unionAll]
  · ext p
    simp [rects, Box.mem_points]
    omega

end Xfront.Region
