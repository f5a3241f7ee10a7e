import Xfront.Colormap.Shared

/-!
# Freeing the cells of AllocColorPlanes

If a shared color counts the cells that hold it then `FreeCell` frees it with the last of them, in
whatever order they go.
-/

namespace Xfront.Colormap
open Submasks List Option

def Holds (owner : Nat → Component → Nat) (a x : Nat) : Prop :=
  owner x .red = a ∨ owner x .green = a ∨ owner x .blue = a

instance (owner : Nat → Component → Nat) (a x : Nat) : Decidable (Holds owner a x) :=
  inferInstanceAs (Decidable (_ ∨ _))

variable {x : Nat}

theorem holds_iff {owner : Nat → Component → Nat} {a : Nat} :
    Holds owner a x ↔ ∃ comp, owner x comp = a := by
  constructor
  · rintro (h | h | h)
    · exact ⟨.red, h⟩
    · exact ⟨.green, h⟩
    · exact ⟨.blue, h⟩
  · rintro ⟨comp, h⟩
    cases comp with
    | red => exact .inl h
    | green => exact .inr (.inl h)
    | blue => exact .inr (.inr h)

def slot (n : Nat) : Option Int := if n = 0 then none else some n

/-- The cells that are left hold the shared colors from `lo` on, and these count them. -/
structure Using (owner : Nat → Component → Nat) (lo : Nat) (left : List Nat) (m : Colormap) :
    Prop where
  cells : ∀ x ∈ left, ∃ e, m.red[x]? = some e ∧ e.refcnt ≤ 1 ∧ e.fShared = true ∧
    ∀ comp, e.co.get comp = some (owner x comp)
  range : ∀ x ∈ left, ∀ comp, lo ≤ owner x comp ∧ owner x comp < m.shared.length
  distinct : ∀ x ∈ left, ∀ c d, owner x c = owner x d → c = d
  counter : ∀ a, lo ≤ a → a < m.shared.length →
    m.shared[a]? = some (slot (left.countP fun x => Holds owner a x))

theorem release_slot {shared : List (Option Int)} {a n : Nat}
    (h : shared[a]? = some (slot (n + 1))) :
    release shared (some a) = .ok (shared.set a (slot n)) := by
  rw [slot, if_neg (Nat.succ_ne_zero n)] at h
  rw [release, h]
  dsimp only
  have hsub : ((n + 1 : Nat) : Int) - 1 = n := by omega
  rw [hsub, slot]
  by_cases hzero : n = 0
  · rw [if_pos hzero, if_pos (by omega)]
  · rw [if_neg hzero, if_neg (by omega)]

theorem countP_erase_holds {owner : Nat → Component → Nat} {left : List Nat}
    (hx : x ∈ left) (a : Nat) : left.countP (fun x => decide (Holds owner a x)) =
      (left.erase x).countP (fun x => decide (Holds owner a x)) +
        if Holds owner a x then 1 else 0 := by
  rw [(perm_cons_erase hx).countP_eq, countP_cons]
  simp only [decide_eq_true_eq]

section

variable {owner : Nat → Component → Nat} {lo : Nat} {left : List Nat} {m : Colormap}

theorem Using.freeCell (h : Using owner lo left m) (hnodup : left.Nodup) {x : Nat} (hx : x ∈ left) :
    ∃ m', freeCell m x = .ok m' ∧ m'.shared.length = m.shared.length ∧
      Using owner lo (left.erase x) m' := by
  obtain ⟨e, he, hrefcnt, hshared, hget⟩ := h.cells x hx
  have hcount : ∀ comp, m.shared[owner x comp]? = some (slot ((left.erase x).countP
      (fun y => decide (Holds owner (owner x comp) y)) + 1)) := by
    intro comp
    obtain ⟨hlow, hhigh⟩ := h.range x hx comp
    rw [h.counter _ hlow hhigh, countP_erase_holds hx, if_pos (holds_iff.mpr ⟨comp, rfl⟩)]
  have hrg : owner x .red ≠ owner x .green := fun heq => by cases h.distinct x hx _ _ heq
  have hrb : owner x .red ≠ owner x .blue := fun heq => by cases h.distinct x hx _ _ heq
  have hgb : owner x .green ≠ owner x .blue := fun heq => by cases h.distinct x hx _ _ heq
  have hred := hget .red
  have hgreen := hget .green
  have hblue := hget .blue
  simp only [Shco.get] at hred hgreen hblue
  rw [Colormap.freeCell, cell_ok he]
  dsimp only [bind, Except.bind]
  rw [if_neg (by omega), if_pos hshared, hred, release_slot (hcount .red)]
  dsimp only
  rw [hgreen, release_slot (by rw [getElem?_set_ne hrg]; exact hcount .green)]
  dsimp only
  rw [hblue, release_slot (by
    rw [getElem?_set_ne hgb, getElem?_set_ne hrb]; exact hcount .blue)]
  have hlength := h.range x hx
  refine ⟨_, rfl, by simp only [length_set], fun y hy => ?_, fun y hy comp => ?_,
    fun y hy => h.distinct y (mem_of_mem_erase hy), fun a hlow hhigh => ?_⟩
  · obtain ⟨hne, hmem⟩ := (List.Nodup.mem_erase_iff hnodup).mp hy
    rw [getElem?_set_ne (Ne.symm hne)]
    exact h.cells y hmem
  · simp only [length_set]
    exact h.range y (mem_of_mem_erase hy) comp
  · simp only [length_set] at hhigh
    have hold := h.counter a hlow hhigh
    rw [countP_erase_holds hx] at hold
    rw [getElem?_set, getElem?_set, getElem?_set]
    simp only [length_set]
    by_cases hb : owner x .blue = a
    · subst hb
      rw [if_pos rfl, if_pos hhigh]
    · rw [if_neg hb]
      by_cases hg : owner x .green = a
      · subst hg
        rw [if_pos rfl, if_pos hhigh]
      · rw [if_neg hg]
        by_cases hr : owner x .red = a
        · subst hr
          rw [if_pos rfl, if_pos hhigh]
        · have hnot : ¬ Holds owner a x := fun h => h.elim hr fun h => h.elim hg hb
          rw [if_neg hr, hold, if_neg hnot, add_zero]

theorem Using.freeCells (freed : List Nat) : ∀ {left m}, Using owner lo left m → left.Nodup →
    freed.Nodup → freed ⊆ left →
    ∃ m', freeCellsOf freed m = .ok m' ∧ m'.shared.length = m.shared.length ∧
      Using owner lo (left.diff freed) m' := by
  induction freed with
  | nil => exact fun h _ _ _ => ⟨_, rfl, rfl, h⟩
  | cons x freed ih =>
    intro left m h hnodup hfreed hsub
    obtain ⟨hx, hfreed'⟩ := nodup_cons.mp hfreed
    obtain ⟨m', hm', hlength, hnext⟩ := h.freeCell hnodup (hsub mem_cons_self)
    have hsub' : freed ⊆ left.erase x := fun y hy =>
      (List.Nodup.mem_erase_iff hnodup).mpr
        ⟨fun heq => hx (heq ▸ hy), hsub (mem_cons_of_mem x hy)⟩
    obtain ⟨m'', hm'', hlength', hend⟩ := ih hnext (hnodup.erase x) hfreed' hsub'
    refine ⟨m'', ?_, hlength'.trans hlength, ?_⟩
    · rw [freeCellsOf, hm']
      exact hm''
    · rw [diff_cons]
      exact hend

theorem slot_eq_none {n : Nat} : slot n = none ↔ n = 0 := by
  rw [slot]
  split
  · next h => exact iff_of_true rfl h
  · next h => exact iff_of_false (fun h' => by cases h') h

theorem Using.live (h : Using owner lo left m) {a : Nat} (hlow : lo ≤ a)
    (hhigh : a < m.shared.length) : m.shared[a]? ≠ some none ↔ ∃ x ∈ left, Holds owner a x := by
  rw [h.counter a hlow hhigh, Ne, some_inj, slot_eq_none, countP_eq_zero]
  simp only [decide_eq_true_eq, not_forall, not_not, exists_prop]

end

def pointer (m : Colormap) (x : Nat) (comp : Component) : Option Nat :=
  (m.red[x]?).bind fun e => e.co.get comp

def Points (m : Colormap) (a x : Nat) : Prop :=
  pointer m x .red = some a ∨ pointer m x .green = some a ∨ pointer m x .blue = some a

instance (m : Colormap) (a x : Nat) : Decidable (Points m a x) :=
  inferInstanceAs (Decidable (_ ∨ _))

def Planes.SameBase (p : Planes) (x y : Nat) : Prop :=
  ∃ q ∈ p.pixels, ∃ s t, Submasks.Sub s (p.rmask ||| (p.gmask ||| p.bmask)) ∧
    Submasks.Sub t (p.rmask ||| (p.gmask ||| p.bmask)) ∧ x = q ||| s ∧ y = q ||| t

/-- The shared colors are counted right, and freed right in every order of the cells. -/
structure Counted (before after : Colormap) (p : Planes) : Prop where
  cells : ∀ x ∈ p.ppixFirst, ∃ e, after.red[x]? = some e ∧ e.fShared = true ∧
    ∀ comp, ∃ a, e.co.get comp = some a
  sharing : ∀ x ∈ p.ppixFirst, ∀ y ∈ p.ppixFirst, ∀ comp,
    pointer after x comp = pointer after y comp ↔
      x &&& complement (p.others comp) = y &&& complement (p.others comp) ∧ p.SameBase x y
  counter : ∀ a, before.shared.length ≤ a → a < after.shared.length →
    after.shared[a]? = some (some ((p.ppixFirst.countP fun x => Points after a x : Nat) : Int))
  freeing : ∀ freed : List Nat, freed.Nodup → freed ⊆ p.ppixFirst →
    ∃ m, freeCellsOf freed after = .ok m ∧ ∀ a, before.shared.length ≤ a → a < after.shared.length →
        (m.shared[a]? ≠ some none ↔ ∃ x ∈ p.ppixFirst, x ∉ freed ∧ Points after a x)

structure Pseudo (pmap : Colormap) : Prop where
  length : pmap.red.length = pmap.visual.colormapEntries
  entries : pmap.visual.colormapEntries = 2 ^ pmap.visual.nplanes

structure Shared (before after : Colormap) (c r g b : Nat) (p : Planes) (mask : Nat)
    (red : List Entry) (s : Shares) : Prop where
  allocated : ∃ contig, Allocated before.red red c (r + g + b) contig p.ppixFirst mask
  pixels : p.pixels = p.ppixFirst.take c
  split : Split mask r g b p.rmask p.gmask p.bmask
  mask_lt : mask < 2 ^ 32
  red_eq : after.red = s.ent
  shared_eq : after.shared = s.shared
  run : shareAll (p.ppixFirst.take (c * 2 ^ (r + g + b))) r g b p.rmask p.gmask p.bmask
    (p.pixels.take c)
    { ent := red
      shared := before.shared ++ replicate (c * 2 ^ r + c * 2 ^ g + c * 2 ^ b) (some 0)
      ppshared := range' before.shared.length (c * 2 ^ r + c * 2 ^ g + c * 2 ^ b) } = .ok s

theorem bind_ok {α β : Type} {x : Except Fault α} {f : α → Except Fault β} {y : β}
    (h : x >>= f = .ok y) : ∃ a, x = .ok a ∧ f a = .ok y := by
  cases x with
  | error e => cases h
  | ok a => exact ⟨a, rfl, h⟩

theorem Allocated.lt {ent ent' : List Entry} {count planes : Nat} {contig : Bool}
    {pixels : List Nat} {mask : Nat} (h : Allocated ent ent' count planes contig pixels mask)
    (hx : x ∈ pixels) : x < ent.length := by
  obtain ⟨e, he, -⟩ := h.free x hx
  exact (List.getElem?_eq_some_iff.mp he).1

theorem allocColorPlanes_shared {client : Nat} {before after : Colormap} {c r g b : Nat}
    {contig : Bool} {p : Planes} (hpseudo : Pseudo before) (hc : 1 ≤ c)
    (h : allocColorPlanes client before c r g b contig = .ok (some (after, p))) :
    ∃ mask red s, Shared before after c r g b p mask red s := by
  obtain ⟨result, hpix, h⟩ := bind_ok h
  rw [allocPseudo] at hpix
  split at hpix
  · cases hpix
    cases h
  obtain ⟨found, hcp, hpix⟩ := bind_ok hpix
  match found, hcp with
  | none, _ =>
    cases hpix
    cases h
  | some (red, pixels, mask), hcp =>
    cases hpix
    have halloc := allocCP_allocated hpseudo.length hpseudo.entries hc hcp
    have hpos : 0 < pixels.length := by
      rw [halloc.length]
      exact Nat.mul_pos hc (Nat.two_pow_pos _)
    -- the last cell of the first pixel lies in the channel
    have hmask : mask < 2 ^ 32 := by
      have hlt : before.red.length < 2 ^ 15 := by
        rw [hpseudo.length]
        exact before.visual.entries_lt
      have hq : pixels[0] ∈ pixels.take c := by
        refine mem_take_iff_getElem.mpr ⟨0, ?_, rfl⟩
        omega
      have hmem := (halloc.cells (pixels[0] ||| mask)).mpr
        ⟨_, hq, mask, Submasks.sub_self mask, rfl⟩
      have hle : mask ≤ pixels[0] ||| mask := Nat.right_le_or
      have hlt' := halloc.lt hmem
      omega
    obtain ⟨rm, gm, bm, shift, shift', shift'', hrm, hgm, hbm, hsplit⟩ :=
      takeBits_split hmask halloc.ones
    dsimp only at h
    rw [hrm] at h
    dsimp only [bind, Except.bind] at h
    rw [hgm] at h
    dsimp only at h
    rw [hbm] at h
    obtain ⟨pmap, hshared, h⟩ := bind_ok h
    cases h
    obtain ⟨s, hs, hshared⟩ := bind_ok hshared
    cases hshared
    exact ⟨mask, red, s, ⟨⟨contig, halloc⟩, rfl, hsplit, hmask, rfl, rfl, hs⟩⟩

theorem Split.mask {m r g b : Nat} {p : Planes} (h : Split m r g b p.rmask p.gmask p.bmask)
    (comp : Component) : p.mask comp ||| p.others comp = m ∧ p.mask comp &&& p.others comp = 0 := by
  have hunion := h.union
  have hrg := h.redGreen
  have hrb := h.redBlue
  have hgb := h.greenBlue
  cases comp with
  | red =>
    refine ⟨hunion, ?_⟩
    rw [Planes.mask, Planes.others, Nat.and_or_distrib_left, hrg, hrb, Nat.or_zero]
  | green =>
    refine ⟨?_, ?_⟩
    · rw [Planes.mask, Planes.others, ← Nat.or_assoc, Nat.or_comm p.gmask, Nat.or_assoc]
      exact hunion
    · rw [Planes.mask, Planes.others, Nat.and_or_distrib_left, Nat.and_comm p.gmask, hrg, hgb,
        Nat.or_zero]
  | blue =>
    refine ⟨?_, ?_⟩
    · rw [Planes.mask, Planes.others, Nat.or_comm p.bmask, Nat.or_assoc]
      exact hunion
    · rw [Planes.mask, Planes.others, Nat.and_or_distrib_left, Nat.and_comm p.bmask,
        Nat.and_comm p.bmask, hrb, hgb, Nat.or_zero]

section

variable {before after : Colormap} {c r g b : Nat} {p : Planes} {mask : Nat} {red : List Entry}
  {s : Shares}

def Planes.allTasks (p : Planes) (r g b : Nat) : List Task :=
  p.pixels.flatMap (p.pixelTasks r g b)

namespace Shared

theorem mask_comp_lt (h : Shared before after c r g b p mask red s) (comp : Component) :
    p.mask comp < 2 ^ 32 := by
  have hle : p.mask comp ≤ mask := by
    rw [← (h.split.mask comp).1]
    exact Nat.left_le_or
  exact lt_of_le_of_lt hle h.mask_lt

variable {x : Nat}

theorem cell_lt (h : Shared before after c r g b p mask red s) (hpseudo : Pseudo before)
    (hx : x ∈ p.ppixFirst) : x < 2 ^ 15 := by
  obtain ⟨contig, halloc⟩ := h.allocated
  have hlt := halloc.lt hx
  rw [hpseudo.length] at hlt
  exact lt_trans hlt before.visual.entries_lt

variable {q : Nat}

section
variable (h : Shared before after c r g b p mask red s)
include h

theorem pixel_mem (hq : q ∈ p.pixels) : q ∈ p.ppixFirst := by
  rw [h.pixels] at hq
  exact mem_of_mem_take hq

theorem pixel_mask (hq : q ∈ p.pixels) : q &&& mask = 0 := by
  obtain ⟨contig, halloc⟩ := h.allocated
  rw [h.pixels] at hq
  exact halloc.bases q hq

theorem cells_iff (x : Nat) :
    x ∈ p.ppixFirst ↔ ∃ q ∈ p.pixels, ∃ t, Submasks.Sub t mask ∧ x = q ||| t := by
  obtain ⟨contig, halloc⟩ := h.allocated
  rw [h.pixels]
  exact halloc.cells x

theorem common_eq (hpseudo : Pseudo before)
    (hq : q ∈ p.pixels) (comp : Component) : q &&& complement (p.others comp) = q := by
  obtain ⟨hunion, hdisjoint⟩ := h.split.mask comp
  have hq32 := h.cell_lt hpseudo (h.pixel_mem hq)
  have hpattern := or_and_complement h.mask_lt (by omega) hunion hdisjoint (h.pixel_mask hq)
    (Submasks.sub_zero mask)
  rw [Nat.or_zero, Nat.zero_and, Nat.or_zero] at hpattern
  exact hpattern

theorem mem_allTasks (hpseudo : Pseudo before)
    (t : Task) : t ∈ p.allTasks r g b ↔ ∃ q ∈ p.pixels, ∃ comp bits,
      Submasks.Sub bits (p.mask comp) ∧ t = ⟨comp, q ||| bits, p.counter r g b comp⟩ := by
  rw [Planes.allTasks, mem_flatMap]
  refine exists_congr fun q => and_congr_right fun hq => ?_
  rw [Planes.pixelTasks, mem_flatMap]
  refine exists_congr fun comp => ?_
  have hcomp : comp ∈ components := by cases comp <;> decide
  rw [and_iff_right hcomp, Planes.tasks, List.mem_map]
  refine exists_congr fun bits => ?_
  rw [(apartSubs_spec (h.mask_comp_lt comp)).mem, h.common_eq hpseudo hq, eq_comm]

theorem meets_iff (hpseudo : Pseudo before)
    {q' t bits : Nat} (hq : q ∈ p.pixels) (hq' : q' ∈ p.pixels) (ht : Submasks.Sub t mask)
    (comp : Component) (hbits : Submasks.Sub bits (p.mask comp)) :
    p.Meets ⟨comp, q ||| bits, p.counter r g b comp⟩ (q' ||| t) ↔
      q' = q ∧ t &&& p.mask comp = bits := by
  obtain ⟨hunion, hdisjoint⟩ := h.split.mask comp
  have hq32 := h.cell_lt hpseudo (h.pixel_mem hq')
  exact pattern_iff h.mask_lt (by omega) hunion hdisjoint (h.pixel_mask hq) (h.pixel_mask hq')
    hbits ht

theorem apart (hpseudo : Pseudo before) : (p.allTasks r g b).Pairwise Apart := by
  obtain ⟨contig, halloc⟩ := h.allocated
  have hsub : ∀ comp {bits}, Submasks.Sub bits (p.mask comp) → Submasks.Sub bits mask := by
    intro comp bits hbits
    have hleft := sub_left (p.mask comp) (p.others comp)
    rw [(h.split.mask comp).1] at hleft
    exact hbits.trans hleft
  have hnodup : p.pixels.Nodup := by
    rw [h.pixels]
    exact halloc.nodup.sublist (take_sublist c _)
  have hmem : ∀ {q comp t}, q ∈ p.pixels → t ∈ p.tasks r g b q comp →
      ∃ bits, Submasks.Sub bits (p.mask comp) ∧ t.comp = comp ∧ t.want = q ||| bits := by
    intro q comp t hq ht
    obtain ⟨bits, hbits, rfl⟩ := List.mem_map.mp ht
    rw [(apartSubs_spec (h.mask_comp_lt comp)).mem] at hbits
    exact ⟨bits, hbits, rfl, by rw [h.common_eq hpseudo hq]⟩
  rw [Planes.allTasks, pairwise_flatMap]
  constructor
  · intro q hq
    rw [Planes.pixelTasks, pairwise_flatMap]
    constructor
    · intro comp _
      rw [Planes.tasks, pairwise_map]
      refine (apartSubs_spec (h.mask_comp_lt comp)).sorted.imp_of_mem fun hs ht hlt _ heq => ?_
      rw [(apartSubs_spec (h.mask_comp_lt comp)).mem] at hs ht
      rw [h.common_eq hpseudo hq] at heq
      have hpixel := h.pixel_mask hq
      exact Nat.ne_of_lt hlt (or_inj hpixel hpixel (hsub comp hs) (hsub comp ht) heq).2
    · have hdistinct : components.Pairwise (· ≠ ·) := by decide
      refine hdistinct.imp fun hne t ht u hu heq => ?_
      obtain ⟨_, _, htc, -⟩ := hmem hq ht
      obtain ⟨_, _, huc, -⟩ := hmem hq hu
      exact absurd (htc.symm.trans (heq.trans huc)) hne
  · refine hnodup.imp_of_mem fun hq hq' hne t ht u hu heq hwant => ?_
    obtain ⟨comp, -, ht⟩ := mem_flatMap.mp ht
    obtain ⟨comp', -, hu⟩ := mem_flatMap.mp hu
    obtain ⟨bits, hbits, -, htw⟩ := hmem hq ht
    obtain ⟨bits', hbits', -, huw⟩ := hmem hq' hu
    rw [htw, huw] at hwant
    exact hne (or_inj (h.pixel_mask hq) (h.pixel_mask hq') (hsub comp hbits) (hsub comp' hbits')
      hwant).1

theorem length_pixels : p.pixels.length = c := by
  obtain ⟨contig, halloc⟩ := h.allocated
  rw [h.pixels, length_take, halloc.length]
  exact min_eq_left (Nat.le_mul_of_pos_right c (Nat.two_pow_pos _))

theorem length_allTasks : (p.allTasks r g b).length = c * 2 ^ r + c * 2 ^ g + c * 2 ^ b := by
  have hlength : ∀ q comp, (p.tasks r g b q comp).length = 2 ^ ones 32 (p.mask comp) := by
    intro q comp
    have hsubs := apartSubs_spec (h.mask_comp_lt comp)
    rw [Planes.tasks, length_map, length_of_sorted (h.mask_comp_lt comp) hsubs.sorted hsubs.mem]
  have hpixel : ∀ q, (p.pixelTasks r g b q).length = 2 ^ r + 2 ^ g + 2 ^ b := by
    intro q
    rw [Planes.pixelTasks, components, flatMap_cons, flatMap_cons, flatMap_cons,
      flatMap_nil, append_nil, length_append, length_append, hlength, hlength,
      hlength, Planes.mask, Planes.mask, Planes.mask, h.split.onesRed, h.split.onesGreen,
      h.split.onesBlue, add_assoc]
  rw [Planes.allTasks, length_flatMap, ← h.length_pixels]
  induction p.pixels with
  | nil => simp
  | cons q qs ih =>
    rw [map_cons, sum_cons, ih, hpixel, length_cons]
    ring

theorem given (hpseudo : Pseudo before) :
    after.shared.length = before.shared.length + (p.allTasks r g b).length ∧
      Given p p.ppixFirst red ((p.allTasks r g b).zip
        (range' before.shared.length (p.allTasks r g b).length)) s := by
  obtain ⟨contig, halloc⟩ := h.allocated
  have hrun := h.run
  have hcells : p.ppixFirst.take (c * 2 ^ (r + g + b)) = p.ppixFirst := by
    rw [← halloc.length, take_length]
  have hpixels : p.pixels.take c = p.pixels := by
    conv_lhs => rw [← h.length_pixels, take_length]
  rw [hcells, hpixels, shareAll_eq p _ r g b h.mask_comp_lt, ← h.length_allTasks] at hrun
  have hin : ∀ x ∈ p.ppixFirst, x < red.length := by
    intro x hx
    obtain ⟨e, -, -, he⟩ := halloc.free x hx
    exact (List.getElem?_eq_some_iff.mp he).1
  have hstart : Given p p.ppixFirst red []
      { ent := red
        shared := before.shared ++ replicate (p.allTasks r g b).length (some 0)
        ppshared := range' before.shared.length (p.allTasks r g b).length } :=
    ⟨rfl, fun d hd => absurd hd not_mem_nil, fun d hd => absurd hd not_mem_nil, fun x => rfl⟩
  obtain ⟨s', hs', hlength, hgiven⟩ := runTasks_spec hin (p.allTasks r g b) [] _ [] _ hstart
    (append_nil _).symm length_range' (h.apart hpseudo) nodup_range' fun a ha => by
      have hlt := (mem_range'_1.mp ha).2
      rw [length_append, length_replicate]
      exact hlt
  rw [Planes.allTasks] at hs' hrun
  rw [hrun] at hs'
  cases hs'
  rw [length_append, length_replicate, ← h.shared_eq] at hlength
  exact ⟨hlength, hgiven⟩

end

variable {t : Task} {i : Nat}

theorem zip_mem (ht : (p.allTasks r g b)[i]? = some t) :
    (t, before.shared.length + i) ∈ (p.allTasks r g b).zip
      (range' before.shared.length (p.allTasks r g b).length) := by
  have hlt := (List.getElem?_eq_some_iff.mp ht).1
  refine mem_iff_getElem?.mpr ⟨i, getElem?_zip_eq_some.mpr ⟨ht, ?_⟩⟩
  rw [getElem?_range' hlt, one_mul]

section
variable (h : Shared before after c r g b p mask red s)
include h

section
variable (hpseudo : Pseudo before)
include hpseudo

theorem covered
    (hx : x ∈ p.ppixFirst) (comp : Component) :
    ∃ (i : Nat) (t : Task), (p.allTasks r g b)[i]? = some t ∧ t.comp = comp ∧ p.Meets t x := by
  obtain ⟨q, hq, t, ht, rfl⟩ := (h.cells_iff x).mp hx
  have hbits := sub_and t (p.mask comp)
  have hmem := (h.mem_allTasks hpseudo _).mpr ⟨q, hq, comp, t &&& p.mask comp, hbits, rfl⟩
  obtain ⟨i, hi⟩ := mem_iff_getElem?.mp hmem
  exact ⟨i, _, hi, rfl, (h.meets_iff hpseudo hq hq ht comp hbits).mpr ⟨rfl, rfl⟩⟩

theorem pointer_of_meets
    (hx : x ∈ p.ppixFirst) (ht : (p.allTasks r g b)[i]? = some t)
    (hmeets : p.Meets t x) : pointer after x t.comp = some (before.shared.length + i) := by
  obtain ⟨e, he, hget, -⟩ := (h.given hpseudo).2.pointer _ (zip_mem ht) x hx hmeets
  rw [pointer, h.red_eq, he]
  exact hget

theorem pointer_iff
    (hx : x ∈ p.ppixFirst) (ht : (p.allTasks r g b)[i]? = some t) (comp : Component) :
    pointer after x comp = some (before.shared.length + i) ↔ comp = t.comp ∧ p.Meets t x := by
  constructor
  · intro hpointer
    obtain ⟨j, u, hu, rfl, hmeets⟩ := h.covered hpseudo hx comp
    rw [h.pointer_of_meets hpseudo hx hu hmeets, some_inj] at hpointer
    have hij : j = i := Nat.add_left_cancel hpointer
    rw [hij, ht] at hu
    cases hu
    exact ⟨rfl, hmeets⟩
  · rintro ⟨rfl, hmeets⟩
    exact h.pointer_of_meets hpseudo hx ht hmeets

theorem points_iff
    (hx : x ∈ p.ppixFirst) (ht : (p.allTasks r g b)[i]? = some t) :
    Points after (before.shared.length + i) x ↔ p.Meets t x := by
  rw [Points, h.pointer_iff hpseudo hx ht, h.pointer_iff hpseudo hx ht, h.pointer_iff hpseudo hx ht]
  constructor
  · rintro (h | h | h) <;> exact h.2
  · intro hmeets
    cases hcomp : t.comp with
    | red => exact .inl ⟨rfl, hmeets⟩
    | green => exact .inr (.inl ⟨rfl, hmeets⟩)
    | blue => exact .inr (.inr ⟨rfl, hmeets⟩)

theorem task_at {a : Nat}
    (hlow : before.shared.length ≤ a) (hhigh : a < after.shared.length) :
    ∃ (i : Nat) (t : Task), a = before.shared.length + i ∧ (p.allTasks r g b)[i]? = some t := by
  rw [(h.given hpseudo).1] at hhigh
  obtain ⟨i, rfl⟩ := Nat.exists_eq_add_of_le hlow
  have hlt : i < (p.allTasks r g b).length := by omega
  exact ⟨i, _, rfl, getElem?_eq_getElem hlt⟩

theorem counter_at
    (ht : (p.allTasks r g b)[i]? = some t) :
    after.shared[before.shared.length + i]? = some (some (p.counter r g b t.comp)) := by
  obtain ⟨q, -, comp, bits, -, rfl⟩ := (h.mem_allTasks hpseudo t).mp (mem_of_getElem? ht)
  rw [h.shared_eq]
  exact (h.given hpseudo).2.counter _ (zip_mem ht)

theorem count_at
    (ht : (p.allTasks r g b)[i]? = some t) :
    (p.ppixFirst.countP fun x => Points after (before.shared.length + i) x) =
      2 ^ ones 32 (p.others t.comp) := by
  obtain ⟨contig, halloc⟩ := h.allocated
  have hpoints : ∀ x ∈ p.ppixFirst, decide (Points after (before.shared.length + i) x) = true ↔
      decide (x &&& complement (p.others t.comp) = t.want) = true := by
    intro x hx
    rw [decide_eq_true_iff, decide_eq_true_iff]
    exact h.points_iff hpseudo hx ht
  rw [countP_congr hpoints]
  obtain ⟨q, hq, comp, bits, hbits, rfl⟩ := (h.mem_allTasks hpseudo t).mp (mem_of_getElem? ht)
  obtain ⟨hunion, hdisjoint⟩ := h.split.mask comp
  have hlt : ∀ x ∈ p.ppixFirst, x < 2 ^ 32 := fun x hx =>
    lt_trans (h.cell_lt hpseudo hx) (by decide)
  have hq' : q ∈ p.ppixFirst.take c := by
    rw [← h.pixels]
    exact hq
  exact count_pattern halloc h.mask_lt hlt hunion hdisjoint hq' hbits

end

end

def owner (after : Colormap) (x : Nat) (comp : Component) : Nat := (pointer after x comp).getD 0

section
variable (h : Shared before after c r g b p mask red s)
include h

theorem owner_eq (hpseudo : Pseudo before)
    (hx : x ∈ p.ppixFirst) (comp : Component) :
    pointer after x comp = some (owner after x comp) := by
  obtain ⟨i, t, ht, rfl, hmeets⟩ := h.covered hpseudo hx comp
  rw [owner, h.pointer_of_meets hpseudo hx ht hmeets]
  rfl

theorem holds_points (hpseudo : Pseudo before)
    (hx : x ∈ p.ppixFirst) (a : Nat) : Holds (owner after) a x ↔ Points after a x := by
  rw [Holds, Points, h.owner_eq hpseudo hx, h.owner_eq hpseudo hx, h.owner_eq hpseudo hx,
    some_inj, some_inj, some_inj]

theorem cell_entry (hpseudo : Pseudo before)
    (hx : x ∈ p.ppixFirst) :
    ∃ e, after.red[x]? = some e ∧ e.refcnt = allocPrivate ∧ e.fShared = true ∧
      ∀ comp, e.co.get comp = some (owner after x comp) := by
  obtain ⟨contig, halloc⟩ := h.allocated
  obtain ⟨i, t, ht, hred, hmeets⟩ := h.covered hpseudo hx .red
  obtain ⟨e, he, -, hshared⟩ := (h.given hpseudo).2.pointer _ (zip_mem ht) x hx hmeets
  obtain ⟨e', -, -, he'⟩ := halloc.free x hx
  have hrefcnt := (h.given hpseudo).2.refcnt x
  rw [he, he', map_some, map_some, some_inj] at hrefcnt
  rw [h.red_eq]
  refine ⟨e, he, hrefcnt, hshared hred, fun comp => ?_⟩
  have hpointer := h.owner_eq hpseudo hx comp
  rw [pointer, h.red_eq, he] at hpointer
  exact hpointer

theorem sharing (hpseudo : Pseudo before)
    {y : Nat} (hx : x ∈ p.ppixFirst) (hy : y ∈ p.ppixFirst) (comp : Component) :
    pointer after x comp = pointer after y comp ↔
      x &&& complement (p.others comp) = y &&& complement (p.others comp) ∧ p.SameBase x y := by
  obtain ⟨i, t, ht, rfl, hmeets⟩ := h.covered hpseudo hx comp
  rw [h.pointer_of_meets hpseudo hx ht hmeets, eq_comm, h.pointer_iff hpseudo hy ht]
  constructor
  · rintro ⟨-, hmeets'⟩
    refine ⟨hmeets.trans hmeets'.symm, ?_⟩
    obtain ⟨q, hq, comp, bits, hbits, rfl⟩ := (h.mem_allTasks hpseudo t).mp (mem_of_getElem? ht)
    obtain ⟨qx, hqx, sx, hsx, rfl⟩ := (h.cells_iff x).mp hx
    obtain ⟨qy, hqy, sy, hsy, rfl⟩ := (h.cells_iff y).mp hy
    obtain ⟨rfl, -⟩ := (h.meets_iff hpseudo hq hqx hsx comp hbits).mp hmeets
    obtain ⟨rfl, -⟩ := (h.meets_iff hpseudo hq hqy hsy comp hbits).mp hmeets'
    rw [← h.split.union] at hsx hsy
    exact ⟨_, hq, sx, sy, hsx, hsy, rfl, rfl⟩
  · rintro ⟨hagree, -⟩
    exact ⟨rfl, hagree.symm.trans hmeets⟩

end

def CountsRight (p : Planes) (r g b : Nat) : Prop :=
  ∀ comp, p.counter r g b comp = ((2 ^ ones 32 (p.others comp) : Nat) : Int)

section
variable (h : Shared before after c r g b p mask red s)
include h

theorem inUse (hpseudo : Pseudo before)
    (hright : CountsRight p r g b) :
    Using (owner after) before.shared.length p.ppixFirst after := by
  have hpos : ∀ n k : Nat, slot (2 ^ n + k) = some ((2 ^ n + k : Nat) : Int) := by
    intro n k
    have hne : 2 ^ n + k ≠ 0 := ne_of_gt (Nat.add_pos_left (Nat.two_pow_pos n) k)
    rw [slot, if_neg hne]
  refine ⟨fun x hx => ?_, fun x hx comp => ?_, fun x hx comp comp' heq => ?_,
    fun a hlow hhigh => ?_⟩
  · obtain ⟨e, he, hrefcnt, hshared, hget⟩ := h.cell_entry hpseudo hx
    refine ⟨e, he, ?_, hshared, hget⟩
    rw [hrefcnt]
    decide
  · obtain ⟨i, t, ht, rfl, hmeets⟩ := h.covered hpseudo hx comp
    have hlt := (List.getElem?_eq_some_iff.mp ht).1
    rw [owner, h.pointer_of_meets hpseudo hx ht hmeets, getD_some, (h.given hpseudo).1]
    omega
  · obtain ⟨i, t, ht, rfl, hmeets⟩ := h.covered hpseudo hx comp
    have hpointer := h.owner_eq hpseudo hx comp'
    rw [← heq, ← h.owner_eq hpseudo hx t.comp, h.pointer_of_meets hpseudo hx ht hmeets,
      h.pointer_iff hpseudo hx ht] at hpointer
    exact hpointer.1.symm
  · obtain ⟨i, t, rfl, ht⟩ := h.task_at hpseudo hlow hhigh
    have hholds : ∀ x ∈ p.ppixFirst,
        decide (Holds (owner after) (before.shared.length + i) x) = true ↔
          decide (Points after (before.shared.length + i) x) = true := by
      intro x hx
      rw [decide_eq_true_iff, decide_eq_true_iff]
      exact h.holds_points hpseudo hx _
    rw [h.counter_at hpseudo ht, countP_congr hholds, h.count_at hpseudo ht, hright]
    exact congrArg some (hpos _ 0).symm

theorem counted (hpseudo : Pseudo before)
    (hright : CountsRight p r g b) : Counted before after p := by
  obtain ⟨contig, halloc⟩ := h.allocated
  refine ⟨fun x hx => ?_, fun x hx y hy comp => h.sharing hpseudo hx hy comp,
    fun a hlow hhigh => ?_, fun freed hnodup hsub => ?_⟩
  · obtain ⟨e, he, -, hshared, hget⟩ := h.cell_entry hpseudo hx
    exact ⟨e, he, hshared, fun comp => ⟨_, hget comp⟩⟩
  · obtain ⟨i, t, rfl, ht⟩ := h.task_at hpseudo hlow hhigh
    rw [h.counter_at hpseudo ht, h.count_at hpseudo ht, hright]
  · obtain ⟨m, hm, hlength, hend⟩ :=
      (h.inUse hpseudo hright).freeCells freed halloc.nodup hnodup hsub
    refine ⟨m, hm, fun a hlow hhigh => ?_⟩
    rw [hend.live hlow (by rw [hlength]; exact hhigh)]
    refine exists_congr fun x => ?_
    rw [halloc.nodup.mem_sdiff_iff, and_assoc]
    refine and_congr_right fun hx => and_congr_right fun _ => ?_
    exact h.holds_points hpseudo hx a

theorem countsRight_of_counter
    (hpseudo : Pseudo before) (hc : 1 ≤ c) (hcounted : Counted before after p) :
    CountsRight p r g b := by
  intro comp
  have hlength := h.length_pixels
  have hq : p.pixels[0] ∈ p.pixels := getElem_mem (by omega)
  obtain ⟨i, t, ht, rfl, -⟩ := h.covered hpseudo (h.pixel_mem hq) comp
  have hlt := (List.getElem?_eq_some_iff.mp ht).1
  have hcounter := hcounted.counter (before.shared.length + i) (Nat.le_add_right _ i)
    (by rw [(h.given hpseudo).1]; omega)
  rw [h.counter_at hpseudo ht, h.count_at hpseudo ht, some_inj, some_inj] at hcounter
  exact hcounter

theorem pow_lt (hpseudo : Pseudo before)
    (hc : 1 ≤ c) : 2 ^ (r + g + b) < 2 ^ 15 := by
  obtain ⟨contig, halloc⟩ := h.allocated
  have hsub : p.ppixFirst ⊆ range before.red.length := fun x hx =>
    mem_range.mpr (halloc.lt hx)
  have hle := (subperm_of_subset halloc.nodup hsub).length_le
  have hlt := before.visual.entries_lt
  rw [halloc.length, length_range, hpseudo.length] at hle
  have hmul : 2 ^ (r + g + b) ≤ c * 2 ^ (r + g + b) := Nat.le_mul_of_pos_left _ hc
  omega

end

theorem short_of_lt (h : x < 2 ^ 15) : short x = (x : Int) := by
  unfold short
  apply Int.bmod_eq_of_le
  · omega
  · norm_num
    omega

theorem short_pow {k n : Nat} (hk : k ≤ n) (hn : 2 ^ n < 2 ^ 15) :
    short (2 ^ k) = ((2 ^ k : Nat) : Int) := by
  have hle : 2 ^ k ≤ 2 ^ n := Nat.pow_le_pow_right zero_lt_two hk
  exact short_of_lt (lt_of_le_of_lt hle hn)

theorem ite_pow (n k k' : Nat) :
    (if n ≠ 0 then 2 ^ k else 2 ^ k') = 2 ^ (if n ≠ 0 then k else k') := by
  split <;> rfl

theorem countsRight_iff (h : Shared before after c r g b p mask red s) (hpseudo : Pseudo before)
    (hc : 1 ≤ c) : CountsRight p r g b ↔ r = 0 ∨ g ≠ 0 ∧ b ≠ 0 := by
  have hpow := h.pow_lt hpseudo hc
  have hgm : p.gmask ≠ 0 ↔ g ≠ 0 := by
    rw [← h.split.onesGreen]
    exact not_congr ⟨fun heq => by rw [heq, ones_zero], ones_eq_zero (h.mask_comp_lt .green)⟩
  have hbm : p.bmask ≠ 0 ↔ b ≠ 0 := by
    rw [← h.split.onesBlue]
    exact not_congr ⟨fun heq => by rw [heq, ones_zero], ones_eq_zero (h.mask_comp_lt .blue)⟩
  have hred : p.counter r g b .red = ((2 ^ ones 32 (p.others .red) : Nat) : Int) := by
    rw [Planes.counter, Planes.others, ones_or 32 h.split.greenBlue, h.split.onesGreen,
      h.split.onesBlue]
    exact short_pow (by omega) hpow
  have hgreen : p.counter r g b .green = ((2 ^ ones 32 (p.others .green) : Nat) : Int) ↔
      r = 0 ∨ g ≠ 0 := by
    have hle : (if p.gmask ≠ 0 then r + b else g + b) ≤ r + g + b := by split <;> omega
    rw [Planes.counter, Planes.others, ones_or 32 h.split.redBlue, h.split.onesRed,
      h.split.onesBlue, ite_pow, short_pow hle hpow, Int.natCast_inj,
      Nat.pow_right_inj (le_refl 2)]
    split
    · next hne => exact iff_of_true rfl (.inr (hgm.mp hne))
    · next hzero =>
      have hg : ¬ g ≠ 0 := fun hne => hzero (hgm.mpr hne)
      omega
  have hblue : p.counter r g b .blue = ((2 ^ ones 32 (p.others .blue) : Nat) : Int) ↔
      r = 0 ∨ b ≠ 0 := by
    have hle : (if p.bmask ≠ 0 then r + g else g + b) ≤ r + g + b := by split <;> omega
    rw [Planes.counter, Planes.others, ones_or 32 h.split.redGreen, h.split.onesRed,
      h.split.onesGreen, ite_pow, short_pow hle hpow, Int.natCast_inj,
      Nat.pow_right_inj (le_refl 2)]
    split
    · next hne => exact iff_of_true rfl (.inr (hbm.mp hne))
    · next hzero =>
      have hb : ¬ b ≠ 0 := fun hne => hzero (hbm.mpr hne)
      omega
  constructor
  · intro hright
    have hg := hgreen.mp (hright .green)
    have hb := hblue.mp (hright .blue)
    rcases hg with hr | hg
    · exact .inl hr
    · rcases hb with hr | hb
      · exact .inl hr
      · exact .inr ⟨hg, hb⟩
  · intro hcond comp
    cases comp with
    | red => exact hred
    | green => exact hgreen.mpr (hcond.imp_right And.left)
    | blue => exact hblue.mpr (hcond.imp_right And.right)

end Shared

end

theorem allocColorPlanes_counted_iff {client : Nat} {before after : Colormap} {c r g b : Nat}
    {contig : Bool} {p : Planes} (hpseudo : Pseudo before) (hc : 1 ≤ c)
    (h : allocColorPlanes client before c r g b contig = .ok (some (after, p))) :
    Counted before after p ↔ r = 0 ∨ g ≠ 0 ∧ b ≠ 0 := by
  obtain ⟨mask, red, s, hshared⟩ := allocColorPlanes_shared hpseudo hc h
  rw [← hshared.countsRight_iff hpseudo hc]
  exact ⟨hshared.countsRight_of_counter hpseudo hc, hshared.counted hpseudo⟩

def small : Colormap :=
  ⟨⟨2, 4, by decide, by decide, by decide⟩, replicate 4 { refcnt := 0 }, 4, fun _ => [], []⟩

theorem small_pseudo : Pseudo small := ⟨rfl, rfl⟩

def smallAfter : Colormap :=
  { small with
    red := [⟨-1, true, ⟨some 0, some 2, some 3⟩⟩, ⟨-1, true, ⟨some 1, some 2, some 3⟩⟩,
      { refcnt := 0 }, { refcnt := 0 }]
    freeRed := 2
    clientPixelsRed := fun k => if k = 0 then [0, 1] else []
    shared := [some 1, some 1, some 1, some 1] }

def smallPlanes : Planes := ⟨[0], [0, 1], 1, 0, 0⟩

theorem small_run :
    allocColorPlanes 0 small 1 1 0 0 false = .ok (some (smallAfter, smallPlanes)) := by
  rfl

theorem allocColorPlanes_counted_iff_small :
    Counted small smallAfter smallPlanes ↔ 1 = 0 ∨ 0 ≠ 0 ∧ 0 ≠ 0 :=
  allocColorPlanes_counted_iff small_pseudo (le_refl 1) small_run

/-- With one red plane and no others, freeing the first cell frees the green that the second cell
still holds. -/
theorem allocColorPlanes_not_counted :
    allocColorPlanes 0 small 1 1 0 0 false = .ok (some (smallAfter, smallPlanes)) ∧
      ¬ Counted small smallAfter smallPlanes := by
  refine ⟨small_run, fun hcounted => ?_⟩
  obtain ⟨m, hm, -⟩ := hcounted.freeing [0, 1] (by decide) (by decide)
  have hfault : freeCellsOf [0, 1] smallAfter = .error .freed := rfl
  rw [hfault] at hm
  cases hm

end Xfront.Colormap
