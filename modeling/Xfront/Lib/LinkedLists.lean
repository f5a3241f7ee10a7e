import Xfront.Lib.Linked

/-!
# Several linked lists in one heap

Lists with a head each, whose cells lie in one heap. `Holds` says which lists they are; each
operation on one list leaves the others as they are.
-/

open List Option Function

namespace Xfront.Linked

variable {K V : Type}

structure Lists (K V : Type) where
  heap : Heap V
  heads : K → Option Addr

def Lists.empty : Lists K V := { heap := Heap.empty, heads := fun _ => none }

def onList (h : Heap V) (a : Addr) : Nat → Option Addr → Option Bool
  | _, none => some false
  | 0, some _ => none
  | fuel + 1, some b => if b = a then some true else (h.read b).bind fun n => onList h a fuel n.next

structure Lists.Holds (l : Lists K V) (view : K → List (Addr × V)) : Prop where
  chain : ∀ k, Chain l.heap (l.heads k) (view k)
  nodup : ∀ k, (addrs (view k)).Nodup
  apart : ∀ j k, j ≠ k → ∀ a ∈ addrs (view j), a ∉ addrs (view k)

def Lists.Frames (l l' : Lists K V) (view : K → List (Addr × V)) : Prop :=
  ∀ a, (∀ k, a ∉ addrs (view k)) → l'.heap.read a = l.heap.read a

theorem Lists.empty_holds : (Lists.empty : Lists K V).Holds fun _ => [] :=
  ⟨fun _ => rfl, fun _ => nodup_nil, fun _ _ _ _ ha => nomatch ha⟩

section

variable {l : Lists K V} {view : K → List (Addr × V)}

theorem Lists.Holds.length_le (h : l.Holds view) (k : K) : (view k).length ≤ l.heap.size :=
  (h.chain k).length_le (h.nodup k)

theorem Lists.Holds.free (h : l.Holds view) {a : Addr} (ha : ∀ k, a ∉ addrs (view k)) :
    Lists.Holds { l with heap := l.heap.free a } view := by
  refine ⟨fun k => (h.chain k).congr fun b hb => read_free_ne ?_, h.nodup, h.apart⟩
  rintro rfl
  exact ha k hb

theorem Lists.Holds.onList (h : l.Holds view) (k : K) (a : Addr) :
    Linked.onList l.heap a l.heap.size (l.heads k) = some (decide (a ∈ addrs (view k))) := by
  have hgo : ∀ (list : List (Addr × V)) (p : Option Addr) (fuel : Nat), Chain l.heap p list →
      list.length ≤ fuel → Linked.onList l.heap a fuel p = some (decide (a ∈ addrs list)) := by
    intro list
    induction list with
    | nil =>
      rintro _ fuel rfl _
      cases fuel <;> rfl
    | cons x list ih =>
      rintro _ fuel ⟨rfl, q, hread, hrest⟩ hfuel
      obtain ⟨fuel, rfl⟩ : ∃ m, fuel = m + 1 := by
        rw [length_cons] at hfuel
        exact ⟨fuel - 1, by omega⟩
      rw [Linked.onList]
      by_cases hx : x.1 = a
      · rw [if_pos hx]
        simp [addrs, hx]
      · rw [length_cons] at hfuel
        rw [if_neg hx, hread, bind_some, ih q fuel hrest (by omega)]
        have hmem : a ∈ addrs (x :: list) ↔ a ∈ addrs list := by
          rw [addrs, map_cons, mem_cons, or_iff_right (Ne.symm hx)]
          rfl
        rw [decide_eq_decide.mpr hmem]
  exact hgo (view k) _ _ (h.chain k) (h.length_le k)

theorem Lists.Holds.find (h : l.Holds view) (k : K) (test : V → Bool) :
    ((∀ x ∈ view k, test x.2 = false) ∧
      Linked.find l.heap test l.heap.size none (l.heads k) = some none) ∨
    ∃ front a v back, view k = front ++ (a, v) :: back ∧ (∀ x ∈ front, test x.2 = false) ∧
      test v = true ∧
      Linked.find l.heap test l.heap.size none (l.heads k) = some (some (lastAddr front, a)) := by
  rcases @Chain.find V l.heap _ _ _ test (h.chain k) (h.length_le k) none with hnone | hsome
  · exact .inl hnone
  · obtain ⟨front, a, v, back, hsplit, hfront, hv, hfind⟩ := hsome
    rw [or_none] at hfind
    exact .inr ⟨front, a, v, back, hsplit, hfront, hv, hfind⟩

end

section

variable [DecidableEq K]

def Lists.unlinkFirst (l : Lists K V) (k : K) (test : V → Bool) : Option (Lists K V) :=
  (find l.heap test l.heap.size none (l.heads k)).bind fun
  | none => some l
  | some (prev, a) => (unlink l.heap (l.heads k) prev a).map fun (heap, head) =>
    { heap := heap, heads := update l.heads k head }

def Lists.writeFirst (l : Lists K V) (k : K) (test : V → Bool) (w : V) : Option (Lists K V) :=
  (find l.heap test l.heap.size none (l.heads k)).bind fun
  | none => some l
  | some (_, a) => (l.heap.read a).map fun n => { l with heap := l.heap.write a { n with val := w } }

def Lists.push (l : Lists K V) (k : K) (v : V) : Lists K V :=
  { heap := l.heap.alloc ⟨v, l.heads k⟩
    heads := update l.heads k (some l.heap.size) }

variable {l : Lists K V} {view : K → List (Addr × V)} {k : K} {list : List (Addr × V)}

theorem Lists.Holds.update (h : l.Holds view) {head : Option Addr}
    {heap : Heap V} (hchain : Chain heap head list) (hnodup : (addrs list).Nodup)
    (hsub : ∀ a ∈ addrs list, a ∈ addrs (view k))
    (hsame : ∀ a, a ∉ addrs (view k) → heap.read a = l.heap.read a) :
    Lists.Holds { heap := heap, heads := Function.update l.heads k head }
      (Function.update view k list) := by
  refine ⟨fun j => ?_, fun j => ?_, fun i j hij a ha => ?_⟩
  · by_cases hj : j = k
    · subst hj
      simpa only [update_self] using hchain
    · simp only [update_of_ne hj]
      exact (h.chain j).congr fun a ha => hsame a (h.apart j k hj a ha)
  · by_cases hj : j = k
    · subst hj
      rwa [update_self]
    · rw [update_of_ne hj]
      exact h.nodup j
  · have hmem : ∀ m, ∀ b ∈ addrs (Function.update view k list m), b ∈ addrs (view m) := by
      intro m b hb
      by_cases hm : m = k
      · subst hm
        rw [update_self] at hb
        exact hsub b hb
      · rwa [update_of_ne hm] at hb
    exact fun hb => h.apart i j hij a (hmem i a ha) (hmem j a hb)

theorem eraseP_split {α : Type} {test : α → Bool} {front back : List α} {x : α}
    (hfront : ∀ y ∈ front, test y = false) (hx : test x = true) :
    (front ++ x :: back).eraseP test = front ++ back := by
  rw [eraseP_append_right _ (by simpa using hfront), eraseP_cons_of_pos hx]

theorem Lists.Holds.unlinkFirst (h : l.Holds view) (k : K) (test : V → Bool) :
    ∃ l', l.unlinkFirst k test = some l' ∧
      l'.Holds (Function.update view k ((view k).eraseP fun x => test x.2)) ∧ l.Frames l' view := by
  rcases h.find k test with ⟨hall, hfind⟩ | ⟨front, a, v, back, hsplit, hfront, hv, hfind⟩
  · refine ⟨l, ?_, ?_, fun _ _ => rfl⟩
    · rw [Lists.unlinkFirst, hfind]
      rfl
    · rw [eraseP_of_forall_not (by simpa using hall), update_eq_self]
      exact h
  · have hchain := h.chain k
    have hnodup := h.nodup k
    rw [hsplit] at hchain hnodup
    obtain ⟨heap, head, hunlink, hchain', _, hsame⟩ := hchain.unlink hnodup
    refine ⟨{ heap := heap, heads := Function.update l.heads k head }, ?_, ?_, ?_⟩
    · rw [Lists.unlinkFirst, hfind, bind_some]
      simp only [hunlink, map_some]
    · rw [hsplit, eraseP_split hfront hv]
      refine h.update hchain' (nodup_middle hnodup).2.2 ?_ ?_
      · intro b hb
        rw [addrs_append, mem_append] at hb
        rw [hsplit, addrs_append, mem_append]
        exact hb.imp id (mem_cons_of_mem a)
      · intro b hb
        rw [hsplit] at hb
        exact hsame b hb
    · intro b hb
      refine hsame b ?_
      rw [← hsplit]
      exact hb k

def setFirst (test : V → Bool) (w : V) : List (Addr × V) → List (Addr × V)
  | [] => []
  | x :: l => if test x.2 then (x.1, w) :: l else x :: setFirst test w l

variable {test : V → Bool} {w v : V} {a : Addr} {front back : List (Addr × V)}

theorem setFirst_split (hfront : ∀ x ∈ front, test x.2 = false) (hv : test v = true) :
    setFirst test w (front ++ (a, v) :: back) = front ++ (a, w) :: back := by
  induction front with
  | nil => rw [nil_append, setFirst, if_pos hv, nil_append]
  | cons x front ih =>
    rw [cons_append, setFirst, if_neg (by simp [hfront x mem_cons_self]),
      ih fun y hy => hfront y (mem_cons_of_mem x hy), cons_append]

theorem setFirst_of_forall (hall : ∀ x ∈ list, test x.2 = false) : setFirst test w list = list := by
  induction list with
  | nil => rfl
  | cons x list ih =>
    rw [setFirst, if_neg (by simp [hall x mem_cons_self]),
      ih fun y hy => hall y (mem_cons_of_mem x hy)]

theorem Lists.Holds.writeFirst (h : l.Holds view) (k : K) (test : V → Bool) (w : V) :
    ∃ l', l.writeFirst k test w = some l' ∧
      l'.Holds (Function.update view k (setFirst test w (view k))) ∧ l.Frames l' view := by
  rcases h.find k test with ⟨hall, hfind⟩ | ⟨front, a, v, back, hsplit, hfront, hv, hfind⟩
  · refine ⟨l, ?_, ?_, fun _ _ => rfl⟩
    · rw [Lists.writeFirst, hfind]
      rfl
    · rw [setFirst_of_forall hall, update_eq_self]
      exact h
  · have hchain := h.chain k
    have hnodup := h.nodup k
    rw [hsplit] at hchain hnodup
    obtain ⟨q, hread, _⟩ := hchain.split
    have haddrs : addrs (front ++ (a, w) :: back) = addrs (view k) := by
      rw [hsplit]
      simp [addrs]
    have hother : ∀ b, b ∉ addrs (view k) → (l.heap.write a ⟨w, q⟩).read b = l.heap.read b := by
      intro b hb
      refine read_write_ne _ ?_
      rintro rfl
      rw [hsplit] at hb
      exact hb (by simp [addrs])
    refine ⟨{ l with heap := l.heap.write a ⟨w, q⟩ }, ?_, ?_, fun b hb => hother b (hb k)⟩
    · rw [Lists.writeFirst, hfind, bind_some]
      simp only [hread, map_some]
    · rw [hsplit, setFirst_split hfront hv]
      have hheads : ({ l with heap := l.heap.write a ⟨w, q⟩ } : Lists K V) =
          { heap := l.heap.write a ⟨w, q⟩, heads := Function.update l.heads k (l.heads k) } := by
        rw [update_eq_self]
      rw [hheads]
      refine h.update (hchain.write hnodup hread w) ?_ ?_ hother
      · rw [haddrs]
        exact h.nodup k
      · rw [haddrs]
        exact fun b hb => hb

theorem Lists.Holds.push (h : l.Holds view) (k : K) (v : V) :
    (l.push k v).Holds (Function.update view k ((l.heap.size, v) :: view k)) := by
  have hlt : ∀ j, ∀ a ∈ addrs (view j), a < l.heap.size := fun j a ha => (h.chain j).lt ha
  refine ⟨fun j => ?_, fun j => ?_, fun i j hij a ha hb => ?_⟩
  · by_cases hj : j = k
    · subst hj
      simp only [Lists.push, update_self]
      exact (h.chain j).alloc v
    · simp only [Lists.push, update_of_ne hj]
      exact (h.chain j).congr fun a ha => read_alloc_of_lt _ (hlt j a ha)
  · by_cases hj : j = k
    · subst hj
      rw [update_self]
      exact nodup_cons.mpr ⟨(h.chain j).fresh, h.nodup j⟩
    · rw [update_of_ne hj]
      exact h.nodup j
  · by_cases hi : i = k
    · subst hi
      rw [update_self] at ha
      rw [update_of_ne (Ne.symm hij)] at hb
      rcases mem_cons.mp ha with rfl | ha
      · exact lt_irrefl _ (hlt j _ hb)
      · exact h.apart i j hij a ha hb
    · rw [update_of_ne hi] at ha
      by_cases hj : j = k
      · subst hj
        rw [update_self] at hb
        rcases mem_cons.mp hb with rfl | hb
        · exact lt_irrefl _ (hlt i _ ha)
        · exact h.apart i j hij a ha hb
      · rw [update_of_ne hj] at hb
        exact h.apart i j hij a ha hb

theorem Lists.Holds.advance (h : l.Holds view) (hk : view k = (a, v) :: list) :
    ∃ q, l.heap.read a = some ⟨v, q⟩ ∧
      Lists.Holds { l with heads := Function.update l.heads k q } (Function.update view k list) ∧
      ∀ j, a ∉ addrs (Function.update view k list j) := by
  have hchain := h.chain k
  have hnodup := h.nodup k
  rw [hk] at hchain hnodup
  obtain ⟨_, q, hread, hrest⟩ := hchain
  refine ⟨q, hread, ?_, fun j hj => ?_⟩
  · refine h.update hrest (nodup_cons.mp hnodup).2 ?_ fun _ _ => rfl
    intro b hb
    rw [hk]
    exact mem_cons_of_mem a hb
  · by_cases hjk : j = k
    · subst hjk
      rw [update_self] at hj
      exact (nodup_cons.mp hnodup).1 hj
    · rw [update_of_ne hjk] at hj
      refine h.apart j k hjk a hj ?_
      rw [hk]
      exact mem_cons_self

end

end Xfront.Linked

/-!
## Links of linked lists

A walk that takes entries off a list holds the place of the pointer to the next one: the head of
the list or the `next` field of a cell.
-/

namespace Xfront.Linked

variable {K V : Type}

/-- A place that holds a pointer: the head of a list or the `next` field of a cell. -/
inductive Link (K : Type)
  | head (k : K)
  | next (a : Addr)
  deriving DecidableEq

def Lists.load (l : Lists K V) : Link K → Option (Option Addr)
  | .head k => some (l.heads k)
  | .next a => (l.heap.read a).map (·.next)

def linkBehind (k : K) (front : List (Addr × V)) : Link K :=
  match lastAddr front with
  | none => .head k
  | some a => .next a

theorem linkBehind_nil (k : K) : linkBehind k ([] : List (Addr × V)) = .head k := rfl

theorem linkBehind_concat (k : K) (front : List (Addr × V)) (a : Addr) (v : V) :
    linkBehind k (front ++ [(a, v)]) = .next a := by
  simp [linkBehind, lastAddr]

variable {k : K}

theorem Lists.Holds.load {l : Lists K V} {view : K → List (Addr × V)} (h : l.Holds view)
    (hk : view k = front ++ back) :
    l.load (linkBehind k front) = some (back.head?.map Prod.fst) := by
  have hchain := h.chain k
  rw [hk] at hchain
  rcases eq_nil_or_concat front with rfl | ⟨pre, ⟨a, v⟩, rfl⟩
  · exact congrArg some hchain.head
  · rw [concat_eq_append, append_assoc] at hchain
    obtain ⟨q, hread, hrest⟩ := hchain.split
    rw [concat_eq_append, linkBehind_concat, Lists.load, hread, map_some]
    exact congrArg some hrest.head

section

variable [DecidableEq K]

def Lists.store (l : Lists K V) (p : Option Addr) : Link K → Option (Lists K V)
  | .head k => some { l with heads := update l.heads k p }
  | .next a => (l.heap.read a).map fun n => { l with heap := l.heap.write a { n with next := p } }

theorem Lists.Holds.relink {l : Lists K V} {view : K → List (Addr × V)} (h : l.Holds view) {k : K}
    {a : Addr} {v : V} (hk : view k = front ++ (a, v) :: back) :
    ∃ q l', l.heap.read a = some ⟨v, q⟩ ∧ l.store q (linkBehind k front) = some l' ∧
      l'.Holds (Function.update view k (front ++ back)) ∧
      ∀ b, b ∉ addrs front → l'.heap.read b = l.heap.read b := by
  have hchain := h.chain k
  have hnodup := h.nodup k
  rw [hk] at hchain hnodup
  obtain ⟨q, hread, hback⟩ := hchain.split
  obtain ⟨hafront, _, hparts⟩ := nodup_middle hnodup
  have hsub : ∀ b ∈ addrs (front ++ back), b ∈ addrs (view k) := by
    intro b hb
    rw [addrs_append, mem_append] at hb
    rw [hk, addrs_append, mem_append]
    exact hb.imp id (mem_cons_of_mem a)
  refine ⟨q, ?_⟩
  rcases eq_nil_or_concat front with rfl | ⟨pre, ⟨b, w⟩, rfl⟩
  · exact ⟨_, hread, rfl, h.update hback hparts hsub fun _ _ => rfl, fun _ _ => rfl⟩
  · rw [concat_eq_append] at *
    rw [append_assoc, singleton_append] at hchain hnodup hparts hsub
    obtain ⟨hpre, hrest, _⟩ := nodup_middle hnodup
    obtain ⟨r, hreadb, _⟩ := hchain.split
    have hlists : ({ l with heap := l.heap.write b ⟨w, q⟩ } : Lists K V) =
        { heap := l.heap.write b ⟨w, q⟩
          heads := Function.update l.heads k (l.heads k) } := by rw [update_eq_self]
    refine ⟨{ l with heap := l.heap.write b ⟨w, q⟩ }, hread, ?_, ?_, fun c hc => ?_⟩
    · rw [linkBehind_concat, Lists.store, hreadb, map_some]
    · rw [hlists, append_assoc, singleton_append]
      refine h.update ?_ hparts hsub fun c hc => read_write_ne _ ?_
      · refine hchain.splice (fun c hc => read_write_ne _ ?_) (read_write_self _ hreadb)
          (hback.congr fun c hc => read_write_ne _ ?_)
        · rintro rfl
          exact hpre hc
        · rintro rfl
          exact hrest (mem_cons_of_mem _ hc)
      · rintro rfl
        exact hc (by rw [hk]; simp [addrs])
    · refine read_write_ne _ ?_
      rintro rfl
      exact hc (by simp [addrs])

end

variable {α : Type} {ks : List K}

theorem flatMap_update [DecidableEq K] {view : K → List α}
    {front back : List α} {x : α} (hview : view k = front ++ x :: back)
    (hnodup : ks.Nodup) (hk : k ∈ ks) :
    (ks.flatMap view).Perm (x :: ks.flatMap (update view k (front ++ back))) := by
  induction ks with
  | nil => cases hk
  | cons i ks ih =>
    obtain ⟨hi, hnodup⟩ := nodup_cons.mp hnodup
    rw [flatMap_cons, flatMap_cons]
    by_cases hik : i = k
    · subst hik
      have hsame : ks.flatMap (update view i (front ++ back)) = ks.flatMap view := by
        refine flatMap_congr fun j hj => update_of_ne ?_ _ _
        rintro rfl
        exact hi hj
      rw [update_self, hsame, hview, append_assoc, append_assoc, cons_append]
      exact perm_middle
    · have hk : k ∈ ks := by
        rcases mem_cons.mp hk with rfl | hk
        · exact absurd rfl hik
        · exact hk
      rw [update_of_ne hik]
      exact ((ih hnodup hk).append_left _).trans perm_middle

theorem length_le_flatMap (view : K → List α) (hk : k ∈ ks) :
    (view k).length ≤ (ks.flatMap view).length := by
  obtain ⟨before, after, rfl⟩ := append_of_mem hk
  simp only [flatMap_append, flatMap_cons, length_append]
  omega

end Xfront.Linked
