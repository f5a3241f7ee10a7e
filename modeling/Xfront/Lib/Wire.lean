import Xfront.Lib.Bytes

/-!
# Wire layouts

A message is a list of items: single bytes and words of 16 and 32 bits, one after the other and
each word in one byte order. `fields` has the places of the words. Reversing the bytes of each
of them gives the same message in the other byte order.
-/

namespace Xfront.Wire

open Bytes List

abbrev Memory := Nat → Byte

structure Member where
  off : Nat
  width : Nat
  deriving DecidableEq

namespace Member

def Covers (f : Member) (i : Nat) : Prop := f.off ≤ i ∧ i < f.off + f.width

def Apart (f g : Member) : Prop := f.off + f.width ≤ g.off ∨ g.off + g.width ≤ f.off

instance : Std.Symm Apart := ⟨fun _ _ h => Or.symm h⟩

end Member

def load16 (be : Bool) (m : Memory) (off : Nat) : Nat := word16 be (m off) (m (off + 1))

def load32 (be : Bool) (m : Memory) (off : Nat) : Nat :=
  word32 be (m off) (m (off + 1)) (m (off + 2)) (m (off + 3))

def read (be : Bool) (m : Memory) (f : Member) : Nat :=
  if f.width = 2 then load16 be m f.off else load32 be m f.off

def put (m : Memory) (off : Nat) (data : List Byte) : Memory :=
  fun i => if off ≤ i ∧ i < off + data.length then data.getD (i - off) 0 else m i

def flip (m : Memory) (f : Member) : Memory :=
  fun i => if f.off ≤ i ∧ i < f.off + f.width then m (2 * f.off + f.width - 1 - i) else m i

def flipAll (m : Memory) (fs : List Member) : Memory := fs.foldl flip m

@[simp] theorem flipAll_nil (m : Memory) : flipAll m [] = m := rfl

@[simp] theorem flipAll_cons (m : Memory) (f : Member) (fs : List Member) :
    flipAll m (f :: fs) = flipAll (flip m f) fs := rfl

theorem flipAll_append (m : Memory) (fs gs : List Member) :
    flipAll m (fs ++ gs) = flipAll (flipAll m fs) gs := foldl_append

variable {f : Member} {m : Memory} {i : Nat}

theorem flip_of_not_covers (h : ¬ f.Covers i) : flip m f i = m i := if_neg h

variable {fs : List Member}

theorem flipAll_of_not_covers (h : ∀ f ∈ fs, ¬ f.Covers i) : flipAll m fs i = m i := by
  induction fs generalizing m with
  | nil => rfl
  | cons f fs ih =>
    rw [flipAll_cons, ih fun g hg => h g (mem_cons_of_mem _ hg),
      flip_of_not_covers (h f mem_cons_self)]

theorem flip_comm {g : Member} (m : Memory) (h : f.Apart g) :
    flip (flip m f) g = flip (flip m g) f := by
  funext i
  rcases f with ⟨a, v⟩
  rcases g with ⟨b, w⟩
  simp only [Member.Apart] at h
  simp only [flip]
  by_cases hf : a ≤ i ∧ i < a + v
  · have hg : ¬ (b ≤ i ∧ i < b + w) := by omega
    have hg' : ¬ (b ≤ 2 * a + v - 1 - i ∧ 2 * a + v - 1 - i < b + w) := by omega
    rw [if_neg hg, if_pos hf, if_pos hf, if_neg hg']
  · by_cases hg : b ≤ i ∧ i < b + w
    · have hf' : ¬ (a ≤ 2 * b + w - 1 - i ∧ 2 * b + w - 1 - i < a + v) := by omega
      rw [if_pos hg, if_neg hf', if_neg hf, if_pos hg]
    · rw [if_neg hg, if_neg hf, if_neg hf, if_neg hg]

theorem flipAll_perm {fs gs : List Member} (m : Memory) (hperm : fs.Perm gs)
    (hapart : gs.Pairwise Member.Apart) : flipAll m fs = flipAll m gs := by
  refine hperm.foldl_eq' (fun f hf g hg m => ?_) m
  by_cases hne : f = g
  · rw [hne]
  · exact flip_comm m (hapart.forall (hperm.subset hf) (hperm.subset hg) hne)

theorem put_bswap16 (be : Bool) (m : Memory) (off : Nat) :
    put m off (bytes16 be (bswap16 (load16 be m off))) = flip m ⟨off, 2⟩ := by
  rw [load16, bswap16_word16, bytes16_word16_not]
  funext i
  simp only [put, flip, length_cons, length_nil]
  by_cases hi : off ≤ i ∧ i < off + 2
  · rw [if_pos hi, if_pos hi]
    obtain rfl | rfl : i = off ∨ i = off + 1 := by omega
    · rw [Nat.sub_self, show 2 * i + 2 - 1 - i = i + 1 by omega]
      rfl
    · rw [Nat.add_sub_cancel_left, show 2 * off + 2 - 1 - (off + 1) = off by omega]
      rfl
  · rw [if_neg hi, if_neg hi]

theorem put_bswap32 (be : Bool) (m : Memory) (off : Nat) :
    put m off (bytes32 be (bswap32 (load32 be m off))) = flip m ⟨off, 4⟩ := by
  rw [load32, bswap32_word32, bytes32_word32_not]
  funext i
  simp only [put, flip, length_cons, length_nil]
  by_cases hi : off ≤ i ∧ i < off + 4
  · rw [if_pos hi, if_pos hi]
    obtain rfl | rfl | rfl | rfl : i = off ∨ i = off + 1 ∨ i = off + 2 ∨ i = off + 3 := by omega
    · rw [Nat.sub_self, show 2 * i + 4 - 1 - i = i + 3 by omega]
      rfl
    · rw [Nat.add_sub_cancel_left, show 2 * off + 4 - 1 - (off + 1) = off + 2 by omega]
      rfl
    · rw [Nat.add_sub_cancel_left, show 2 * off + 4 - 1 - (off + 2) = off + 1 by omega]
      rfl
    · rw [Nat.add_sub_cancel_left, show 2 * off + 4 - 1 - (off + 3) = off by omega]
      rfl
  · rw [if_neg hi, if_neg hi]

theorem load16_flip (be : Bool) (m : Memory) (off : Nat) :
    load16 (!be) (flip m ⟨off, 2⟩) off = load16 be m off := by
  have h0 : flip m ⟨off, 2⟩ off = m (off + 1) := by
    simp only [flip]
    rw [if_pos (by omega)]
    congr 1
    omega
  have h1 : flip m ⟨off, 2⟩ (off + 1) = m off := by
    simp only [flip]
    rw [if_pos (by omega)]
    congr 1
    omega
  rw [load16, load16, h0, h1]
  cases be <;> rfl

theorem load32_flip (be : Bool) (m : Memory) (off : Nat) :
    load32 (!be) (flip m ⟨off, 4⟩) off = load32 be m off := by
  have h : ∀ i j : Nat, i + j = 3 → flip m ⟨off, 4⟩ (off + i) = m (off + j) := by
    intro i j hij
    simp only [flip]
    rw [if_pos (by omega)]
    congr 1
    omega
  have h0 : flip m ⟨off, 4⟩ off = m (off + 3) := h 0 3 rfl
  have h3 : flip m ⟨off, 4⟩ (off + 3) = m off := h 3 0 rfl
  rw [load32, load32, h0, h 1 2 rfl, h 2 1 rfl, h3]
  cases be <;> rfl

inductive Item
  | card8 (n : Nat)
  | card16 (n : Nat)
  | card32 (n : Nat)
  deriving DecidableEq

namespace Item

def width : Item → Nat
  | card8 _ => 1
  | card16 _ => 2
  | card32 _ => 4

def bytes (be : Bool) : Item → List Byte
  | card8 n => [digit n 0]
  | card16 n => bytes16 be n
  | card32 n => bytes32 be n

def Holds (be : Bool) (m : Memory) (off : Nat) : Item → Prop
  | card8 n => m off = digit n 0
  | card16 n => load16 be m off = n % 2 ^ 16
  | card32 n => load32 be m off = n % 2 ^ 32

@[simp] theorem bytes_length (be : Bool) (it : Item) : (it.bytes be).length = it.width := by
  cases it with
  | card8 n => rfl
  | card16 n => exact bytes16_length be n
  | card32 n => exact bytes32_length be n

theorem Holds.congr {be : Bool} {m m' : Memory} {off : Nat} {it : Item} (h : it.Holds be m off)
    (hm : ∀ i, off ≤ i → i < off + it.width → m' i = m i) : it.Holds be m' off := by
  cases it with
  | card8 n => exact (hm off (by omega) (by simp [width])).trans h
  | card16 n =>
    have h0 := hm off (by omega) (by simp [width])
    have h1 := hm (off + 1) (by omega) (by simp [width])
    simp only [Holds, load16] at h ⊢
    rw [h0, h1, h]
  | card32 n =>
    have h0 := hm off (by omega) (by simp [width])
    have h1 := hm (off + 1) (by omega) (by simp [width])
    have h2 := hm (off + 2) (by omega) (by simp [width])
    have h3 := hm (off + 3) (by omega) (by simp [width])
    simp only [Holds, load32] at h ⊢
    rw [h0, h1, h2, h3, h]

end Item

def size (items : List Item) : Nat := (items.map Item.width).sum

@[simp] theorem size_nil : size [] = 0 := rfl

@[simp] theorem size_cons (it : Item) (items : List Item) :
    size (it :: items) = it.width + size items := by
  simp [size]

@[simp] theorem size_append (xs ys : List Item) : size (xs ++ ys) = size xs + size ys := by
  simp [size]

def encode (be : Bool) (items : List Item) : List Byte := items.flatMap (Item.bytes be)

def fields : Nat → List Item → List Member
  | _, [] => []
  | off, .card8 _ :: items => fields (off + 1) items
  | off, .card16 _ :: items => ⟨off, 2⟩ :: fields (off + 2) items
  | off, .card32 _ :: items => ⟨off, 4⟩ :: fields (off + 4) items

theorem fields_append (xs ys : List Item) (off : Nat) :
    fields off (xs ++ ys) = fields off xs ++ fields (off + size xs) ys := by
  induction xs generalizing off with
  | nil => rfl
  | cons it xs ih =>
    have hsize : off + size (it :: xs) = off + it.width + size xs := by
      rw [size_cons]
      omega
    rw [hsize]
    cases it with
    | card8 n => exact ih (off + 1)
    | card16 n => exact congrArg (⟨off, 2⟩ :: ·) (ih (off + 2))
    | card32 n => exact congrArg (⟨off, 4⟩ :: ·) (ih (off + 4))

variable {items : List Item} {off : Nat}

theorem fields_bounds (h : f ∈ fields off items) :
    off ≤ f.off ∧ f.off + f.width ≤ off + size items ∧ (f.width = 2 ∨ f.width = 4) := by
  induction items generalizing off with
  | nil => cases h
  | cons it items ih =>
    rw [size_cons]
    cases it with
    | card8 n =>
      obtain ⟨h1, h2, hw⟩ := ih h
      exact ⟨by omega, by simp only [Item.width]; omega, hw⟩
    | card16 n =>
      rcases mem_cons.mp h with rfl | h
      · exact ⟨le_refl _, by simp only [Item.width]; omega, .inl rfl⟩
      · obtain ⟨h1, h2, hw⟩ := ih h
        exact ⟨by omega, by simp only [Item.width]; omega, hw⟩
    | card32 n =>
      rcases mem_cons.mp h with rfl | h
      · exact ⟨le_refl _, by simp only [Item.width]; omega, .inr rfl⟩
      · obtain ⟨h1, h2, hw⟩ := ih h
        exact ⟨by omega, by simp only [Item.width]; omega, hw⟩

theorem fields_apart (items : List Item) (off : Nat) :
    (fields off items).Pairwise Member.Apart := by
  induction items generalizing off with
  | nil => exact List.Pairwise.nil
  | cons it items ih =>
    cases it with
    | card8 n => exact ih _
    | card16 n | card32 n => exact List.Pairwise.cons (fun g hg => .inl (fields_bounds hg).1) (ih _)

theorem fields_nodup (items : List Item) (off : Nat) : (fields off items).Nodup := by
  refine (fields_apart items off).imp_of_mem fun {f g} hf _ hapart heq => ?_
  obtain ⟨-, -, hw⟩ := fields_bounds hf
  rw [← heq] at hapart
  rcases hapart with h | h <;> omega

/-- The items stand in memory one after the other, from `off` on. -/
def Holds (be : Bool) (m : Memory) : Nat → List Item → Prop
  | _, [] => True
  | off, it :: items => it.Holds be m off ∧ Holds be m (off + it.width) items

variable {be : Bool} {m' : Memory}

theorem Holds.congr
    (h : Holds be m off items) (hm : ∀ i, off ≤ i → i < off + size items → m' i = m i) :
    Holds be m' off items := by
  induction items generalizing off with
  | nil => trivial
  | cons it items ih =>
    rw [size_cons] at hm
    exact ⟨h.1.congr fun i h1 h2 => hm i h1 (by omega),
      ih h.2 fun i h1 h2 => hm i (by omega) (by omega)⟩

theorem holds_append {xs ys : List Item} :
    Holds be m off (xs ++ ys) ↔ Holds be m off xs ∧ Holds be m (off + size xs) ys := by
  induction xs generalizing off with
  | nil => simp [Holds]
  | cons it xs ih =>
    rw [cons_append, Holds, ih, Holds, size_cons, and_assoc, add_assoc]

theorem Item.holds_bytes (be : Bool) {it : Item}
    (hm : ∀ i < it.width, m (off + i) = (it.bytes be).getD i 0) : it.Holds be m off := by
  cases it with
  | card8 n => exact hm 0 (by simp [width])
  | card16 n =>
    have h0 : m off = _ := hm 0 (by simp [width])
    have h1 := hm 1 (by simp [width])
    rw [Holds, load16, h0, h1]
    cases be <;> simp [bytes, bytes16, word16, digit] <;> omega
  | card32 n =>
    have h0 : m off = _ := hm 0 (by simp [width])
    have h1 := hm 1 (by simp [width])
    have h2 := hm 2 (by simp [width])
    have h3 := hm 3 (by simp [width])
    rw [Holds, load32, h0, h1, h2, h3]
    cases be <;> simp [bytes, bytes32, word32, digit] <;> omega

theorem holds_encode (be : Bool)
    (hm : ∀ i < size items, m (off + i) = (encode be items).getD i 0) : Holds be m off items := by
  induction items generalizing off with
  | nil => trivial
  | cons it items ih =>
    rw [size_cons] at hm
    have henc : encode be (it :: items) = it.bytes be ++ encode be items := flatMap_cons
    refine ⟨Item.holds_bytes be fun i hi => ?_, ih fun i hi => ?_⟩
    · rw [hm i (by omega), henc, getD_append _ _ _ _ (by rwa [Item.bytes_length])]
    · rw [Nat.add_assoc, hm _ (by omega), henc,
        getD_append_right _ _ _ _ (by rw [Item.bytes_length]; omega), Item.bytes_length,
        Nat.add_sub_cancel_left]

theorem Item.Holds.flipAll {it : Item}
    (h : it.Holds be m off) : it.Holds (!be) (flipAll m (fields off [it])) off := by
  cases it with
  | card8 n => exact h
  | card16 n => exact (load16_flip be m off).trans h
  | card32 n => exact (load32_flip be m off).trans h

theorem Holds.flipAll
    (h : Holds be m off items) : Holds (!be) (flipAll m (fields off items)) off items := by
  induction items generalizing m off with
  | nil => trivial
  | cons it items ih =>
    have hfields : fields off (it :: items) = fields off [it] ++ fields (off + it.width) items :=
      fields_append [it] items off
    rw [hfields, flipAll_append]
    constructor
    · refine h.1.flipAll.congr fun i _ hi => flipAll_of_not_covers fun f hf hcov => ?_
      have hb := fields_bounds hf
      have hc := hcov.1
      omega
    · refine ih (h.2.congr fun i hi _ => flipAll_of_not_covers fun f hf hcov => ?_)
      have hb := fields_bounds hf
      have hc := hcov.2
      rw [size_cons, size_nil] at hb
      omega

theorem Holds.read_eq {be' : Bool} (h : Holds be m off items) (h' : Holds be' m' off items) :
    ∀ f ∈ fields off items, read be' m' f = read be m f := by
  induction items generalizing off with
  | nil => intro f hf; cases hf
  | cons it items ih =>
    have hrest := ih h.2 h'.2
    cases it with
    | card8 n => exact hrest
    | card16 n | card32 n =>
      intro f hf
      rcases mem_cons.mp hf with rfl | hf
      · exact h'.1.trans h.1.symm
      · exact hrest f hf

theorem Holds.byte_eq {be' : Bool}
    (h : Holds be m off items) (h' : Holds be' m' off items) (hlow : off ≤ i)
    (hhigh : i < off + size items) (hbyte : ∀ f ∈ fields off items, ¬ f.Covers i) : m' i = m i := by
  induction items generalizing off with
  | nil => rw [size_nil] at hhigh; omega
  | cons it items ih =>
    rw [size_cons] at hhigh
    by_cases hi : off + it.width ≤ i
    · refine ih h.2 h'.2 hi (by omega) fun f hf => hbyte f ?_
      have hfields := fields_append [it] items off
      rw [singleton_append] at hfields
      rw [hfields]
      exact mem_append_right _ hf
    · cases it with
      | card8 n =>
        obtain rfl : i = off := by simp only [Item.width] at hi; omega
        exact h'.1.trans h.1.symm
      | card16 n =>
        exact absurd ⟨hlow, by simpa [Item.width] using hi⟩ (hbyte ⟨off, 2⟩ mem_cons_self)
      | card32 n =>
        exact absurd ⟨hlow, by simpa [Item.width] using hi⟩ (hbyte ⟨off, 4⟩ mem_cons_self)

inductive Write
  | copy (off n : Nat)
  | swap (f : Member)
  deriving DecidableEq

def Write.fin : Write → Nat
  | copy off n => off + n
  | swap f => f.off + f.width

structure Output where
  mem : Memory
  writes : List Write

namespace Output

def copy (o : Output) (src : Memory) (off n : Nat) : Output :=
  ⟨fun i => if off ≤ i ∧ i < off + n then src i else o.mem i, o.writes ++ [.copy off n]⟩

def swaps (o : Output) (be : Bool) (off : Nat) : Output :=
  ⟨put o.mem off (bytes16 be (bswap16 (load16 be o.mem off))), o.writes ++ [.swap ⟨off, 2⟩]⟩

def swapl (o : Output) (be : Bool) (off : Nat) : Output :=
  ⟨put o.mem off (bytes32 be (bswap32 (load32 be o.mem off))), o.writes ++ [.swap ⟨off, 4⟩]⟩

def swapField (be : Bool) (o : Output) (f : Member) : Output :=
  if f.width = 2 then o.swaps be f.off else o.swapl be f.off

def swapFields (o : Output) (be : Bool) (fs : List Member) : Output := fs.foldl (swapField be) o

def flipped (o : Output) (fs : List Member) : Output :=
  ⟨flipAll o.mem fs, o.writes ++ fs.map .swap⟩

@[simp] theorem flipped_nil (o : Output) : o.flipped [] = o := by
  simp [flipped]

@[simp] theorem flipped_flipped (o : Output) (fs gs : List Member) :
    (o.flipped fs).flipped gs = o.flipped (fs ++ gs) := by
  simp only [flipped, flipAll_append, map_append, append_assoc]

theorem swaps_eq (o : Output) (be : Bool) (off : Nat) : o.swaps be off = o.flipped [⟨off, 2⟩] := by
  rw [swaps, put_bswap16]
  rfl

theorem swapl_eq (o : Output) (be : Bool) (off : Nat) : o.swapl be off = o.flipped [⟨off, 4⟩] := by
  rw [swapl, put_bswap32]
  rfl

theorem swapField_eq (o : Output) (be : Bool) {f : Member} (h : f.width = 2 ∨ f.width = 4) :
    swapField be o f = o.flipped [f] := by
  rcases f with ⟨off, width⟩
  rcases h with rfl | rfl
  · exact swaps_eq o be off
  · exact swapl_eq o be off

theorem swapFields_eq (o : Output) (be : Bool)
    (h : ∀ f ∈ fs, f.width = 2 ∨ f.width = 4) : o.swapFields be fs = o.flipped fs := by
  induction fs generalizing o with
  | nil => exact (flipped_nil o).symm
  | cons f fs ih =>
    rw [swapFields, foldl_cons, swapField_eq o be (h f mem_cons_self)]
    refine (ih (o.flipped [f]) fun g hg => h g (mem_cons_of_mem _ hg)).trans ?_
    rw [flipped_flipped, singleton_append]

theorem flipped_mem {o : Output} {i : Nat} (h : ∀ f ∈ fs, ¬ f.Covers i) :
    (o.flipped fs).mem i = o.mem i := flipAll_of_not_covers h

end Output
end Xfront.Wire
