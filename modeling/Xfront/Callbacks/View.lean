import Xfront.Callbacks.Model

/-!
# Callback lists as lists

What a state of the heap stands for: the records in order, and for every call under way the record
whose callback is running.
-/

namespace Xfront.Callbacks
open List Option Prod
open Linked (Addr Node Heap Chain addrs lastAddr)

/-- A callback list. `cursors` has the innermost call first. -/
structure Registry where
  head : Addr
  entries : List (Addr × Callback)
  deleted : Bool
  numDeleted : Nat
  cursors : List Addr

structure View where
  size : Nat
  current : Option Registry

def Registry.empty (head : Addr) : Registry :=
  { head := head, entries := [], deleted := false, numDeleted := 0, cursors := [] }

def isMarked (x : Addr × Callback) : Bool := x.2.deleted

def mark (c : Callback) : Callback := { c with deleted := true }

/-- The heap holds the list, with `n` calls counted. -/
structure Holds (s : State) (r : Registry) (n : Nat) : Prop where
  pcbl : s.pcbl = some r.head
  record : ∃ list, s.readList r.head = some
    { inCallback := n, deleted := r.deleted, numDeleted := r.numDeleted, list := list } ∧
    Chain s.records list r.entries
  nodup : (addrs r.entries).Nodup
  frames : s.frames = r.cursors.map (Frame.mk r.head)

structure Represents (s : State) (v : View) : Prop where
  size : v.size = s.lists.length
  null : v.current = none → s.pcbl = none ∧ s.frames = []
  holds : ∀ r, v.current = some r → Holds s r r.cursors.length

/-- Every cursor is at a record of the list, and outside a call nothing is marked. -/
structure Registry.Sound (r : Registry) : Prop where
  cursors : ∀ a ∈ r.cursors, a ∈ addrs r.entries
  counted : r.entries.countP isMarked ≤ r.numDeleted
  idle : r.cursors = [] → r.deleted = false ∧ ∀ x ∈ r.entries, isMarked x = false

def View.Sound (v : View) : Prop := ∀ r, v.current = some r → r.Sound

inductive Move : View → Act → Event → View → Prop
  | notAdded {v p d b₁ b₂} : Move v (.add p d b₁ b₂) .notAdded v
  | created {n p d b₁ b₂} :
    Move ⟨n, none⟩ (.add p d b₁ b₂) .notAdded ⟨n + 1, some (.empty n)⟩
  | added {n r p d b₁ b₂ a} :
    Move ⟨n, some r⟩ (.add p d b₁ b₂) (.added a p d)
      ⟨n, some { r with entries := (a, ⟨p, d, false⟩) :: r.entries }⟩
  | addedFirst {n p d b₁ b₂ a} :
    Move ⟨n, none⟩ (.add p d b₁ b₂) (.added a p d)
      ⟨n + 1, some { Registry.empty n with entries := [(a, ⟨p, d, false⟩)] }⟩
  | notFound {v p d} :
    (∀ r, v.current = some r → ∀ x ∈ r.entries, isCallback p d x.2 = false) →
    Move v (.delete p d) (.deleted p d none) v
  | marked {n r p d front a c back} : r.entries = front ++ (a, c) :: back →
    (∀ x ∈ front, isCallback p d x.2 = false) → isCallback p d c = true → r.cursors ≠ [] →
    Move ⟨n, some r⟩ (.delete p d) (.deleted p d (some a))
      ⟨n, some { r with
        entries := front ++ (a, mark c) :: back, numDeleted := r.numDeleted + 1 }⟩
  | unlinked {n r p d front a c back} : r.entries = front ++ (a, c) :: back →
    (∀ x ∈ front, isCallback p d x.2 = false) → isCallback p d c = true → r.cursors = [] →
    Move ⟨n, some r⟩ (.delete p d) (.deleted p d (some a))
      ⟨n, some { r with entries := front ++ back }⟩
  | deferred {n r} : r.cursors ≠ [] →
    Move ⟨n, some r⟩ .deleteList (.deferred r.head) ⟨n, some { r with deleted := true }⟩
  | freed {n r} : r.cursors = [] →
    Move ⟨n, some r⟩ .deleteList (.listFreed r.head) ⟨n, none⟩
  | called {n r a c back} : r.entries = (a, c) :: back →
    Move ⟨n, some r⟩ .call (.invoked a) ⟨n, some { r with cursors := a :: r.cursors }⟩
  | stepped {n r a ca b cb front back rest} : r.cursors = b :: rest →
    r.entries = front ++ (b, cb) :: (a, ca) :: back →
    Move ⟨n, some r⟩ .returns (.invoked a) ⟨n, some { r with cursors := a :: rest }⟩
  | ended {n r b cb front rest} : r.cursors = b :: rest → rest ≠ [] →
    r.entries = front ++ [(b, cb)] →
    Move ⟨n, some r⟩ .returns .quiet ⟨n, some { r with cursors := rest }⟩
  | endedFreed {n r b} : r.cursors = [b] → r.deleted = true →
    Move ⟨n, some r⟩ .returns (.listFreed r.head) ⟨n, none⟩
  | swept {n r b} : r.cursors = [b] → r.deleted = false →
    Move ⟨n, some r⟩ .returns .quiet
      ⟨n, some { r with
        entries := r.entries.filter fun x => !isMarked x
        numDeleted := r.numDeleted - r.entries.countP isMarked
        cursors := [] }⟩
  | idle {v a} : (∀ p d, a ≠ .delete p d) →
    (∀ r, v.current = some r → (a = .call ∧ r.entries = []) ∨ (a = .returns ∧ r.cursors = [])) →
    Move v a .quiet v

theorem Registry.empty_sound (head : Addr) : (Registry.empty head).Sound :=
  ⟨by simp [Registry.empty], by simp [Registry.empty], by simp [Registry.empty]⟩

theorem Move.sound {v v' : View} {a : Act} {e : Event} (h : Move v a e v') (hv : v.Sound) :
    v'.Sound := by
  cases h with
  | notAdded | notFound | idle => exact hv
  | created =>
    rintro _ ⟨⟩
    exact Registry.empty_sound _
  | @added n r p d b₁ b₂ a =>
    rintro _ ⟨⟩
    have hr := hv r rfl
    refine ⟨fun b hb => mem_cons_of_mem _ (hr.cursors b hb), ?_, fun hc => ⟨(hr.idle hc).1, ?_⟩⟩
    · simpa [isMarked] using hr.counted
    · simpa [isMarked] using (hr.idle hc).2
  | addedFirst =>
    rintro _ ⟨⟩
    exact ⟨by simp [Registry.empty], by simp [isMarked], by simp [Registry.empty, isMarked]⟩
  | @marked n r p d front b c back hsplit _ _ hbusy =>
    rintro _ ⟨⟩
    have hr := hv r rfl
    refine ⟨fun b hb => ?_, ?_, fun hc => absurd hc hbusy⟩
    · simpa [hsplit, addrs] using hr.cursors b hb
    · have := hr.counted
      rw [hsplit, countP_append, countP_cons] at this
      simp only [countP_append, countP_cons]
      have hmark : isMarked (b, mark c) = true := rfl
      rw [hmark]
      split at this <;> simp only [if_true] <;> omega
  | @unlinked n r p d front b c back hsplit _ _ hidle =>
    rintro _ ⟨⟩
    have hr := hv r rfl
    have hclean := (hr.idle hidle).2
    refine ⟨by simp [hidle], ?_, fun _ => ⟨(hr.idle hidle).1, fun x hx => hclean x ?_⟩⟩
    · have hzero : (front ++ back).countP isMarked = 0 := by
        rw [countP_eq_zero]
        intro x hx
        simp [hclean x (by rw [hsplit]; rcases mem_append.mp hx with h | h <;> simp [h])]
      rw [hzero]
      omega
    · rw [hsplit]
      rcases mem_append.mp hx with h | h <;> simp [h]
  | @deferred n r hbusy =>
    rintro _ ⟨⟩
    have hr := hv r rfl
    exact ⟨hr.cursors, hr.counted, fun hc => absurd hc hbusy⟩
  | freed => rintro _ ⟨⟩
  | @called n r a c back hsplit =>
    rintro _ ⟨⟩
    have hr := hv r rfl
    refine ⟨fun b hb => ?_, hr.counted, by simp⟩
    rcases mem_cons.mp hb with rfl | hb
    · rw [hsplit]
      exact mem_cons_self
    · exact hr.cursors b hb
  | @stepped n r a ca b cb front back rest hcur hsplit =>
    rintro _ ⟨⟩
    have hr := hv r rfl
    refine ⟨fun x hx => ?_, hr.counted, by simp⟩
    rcases mem_cons.mp hx with rfl | hx
    · simp [hsplit, addrs]
    · exact hr.cursors x (by rw [hcur]; exact mem_cons_of_mem _ hx)
  | @ended n r b cb front rest hcur hrest hsplit =>
    rintro _ ⟨⟩
    have hr := hv r rfl
    exact ⟨fun x hx => hr.cursors x (by rw [hcur]; exact mem_cons_of_mem _ hx), hr.counted,
      fun hc => absurd hc hrest⟩
  | endedFreed => rintro _ ⟨⟩
  | @swept n r b hcur hdel =>
    rintro _ ⟨⟩
    have hclean : ∀ x ∈ r.entries.filter fun x => !isMarked x, isMarked x = false := by
      intro x hx
      simpa using (mem_filter.mp hx).2
    refine ⟨by simp, ?_, fun _ => ⟨hdel, hclean⟩⟩
    rw [countP_eq_zero.mpr fun x hx => by simp [hclean x hx]]
    exact Nat.zero_le _

theorem readList_lt {s : State} {l : Addr} {c : CallbackListRec} (h : s.readList l = some c) :
    l < s.lists.length := by
  by_contra hlt
  rw [State.readList, getElem?_eq_none (not_lt.mp hlt)] at h
  cases h

theorem getElem?_set_list {lists : List (Option CallbackListRec)} {l : Addr}
    (hlt : l < lists.length) (c : Option CallbackListRec) : ((lists.set l c)[l]?).join = c := by
  rw [getElem?_set_self hlt]
  rfl

theorem free_write_comm {h : Heap Callback} {a b : Addr} (n : Node Callback) (hne : a ≠ b) :
    (h.free a).write b n = (h.write b n).free a := by
  simp only [Heap.free, Heap.write]
  rw [set_comm _ _ hne]

theorem sweep_marked {h : Heap Callback} {list : Option Addr} {front back : List (Addr × Callback)}
    {a : Addr} {c : Callback} (hc : Chain h list (front ++ (a, c) :: back))
    (hn : (addrs (front ++ (a, c) :: back)).Nodup) (hdel : c.deleted = true) (fuel k : Nat) :
    sweep h (fuel + 1) list (lastAddr front) (some a) (k + 1) =
      (Linked.unlink h list (lastAddr front) a).bind fun (h', list') =>
        sweep h' fuel list' (lastAddr front) (back.head?.map fst) k := by
  obtain ⟨q, hr, hrest⟩ := hc.split
  have hq := hrest.head
  rcases eq_nil_or_concat front with rfl | ⟨pre, ⟨b, w⟩, rfl⟩
  · obtain ⟨rfl, _⟩ := hc
    simp [sweep, Linked.unlink, hr, hdel, lastAddr, ← hq]
  · have hc' : Chain h list (pre ++ (b, w) :: (a, c) :: back) := by
      rwa [concat_eq_append, append_assoc, singleton_append] at hc
    obtain ⟨_, hrb, hnext⟩ := hc'.split
    have hne : a ≠ b := by
      rintro rfl
      exact (Linked.nodup_middle hn).1 (by simp [addrs, concat_eq_append])
    have hlast : lastAddr (pre.concat (b, w)) = some b := by
      simp [lastAddr, concat_eq_append]
    obtain rfl := hnext.1
    rw [hlast]
    simp [sweep, Linked.unlink, hr, hrb, hdel, ← hq, free_write_comm _ hne]

theorem sweep_spec {back : List (Addr × Callback)} : ∀ {h : Heap Callback} {list : Option Addr}
    {front : List (Addr × Callback)} {fuel k : Nat}, Chain h list (front ++ back) →
    (addrs (front ++ back)).Nodup → back.length ≤ fuel → back.countP isMarked ≤ k →
    ∃ h' list', sweep h fuel list (lastAddr front) (back.head?.map fst) k =
        some (h', list', k - back.countP isMarked) ∧
      Chain h' list' (front ++ back.filter fun x => !isMarked x) := by
  induction back with
  | nil =>
    intro h list front fuel k hc _ _ _
    exact ⟨h, list, by cases fuel <;> rfl, hc⟩
  | cons x back ih =>
    obtain ⟨a, c⟩ := x
    intro h list front fuel k hc hn hfuel hk
    rw [length_cons] at hfuel
    obtain ⟨fuel, rfl⟩ : ∃ n, fuel = n + 1 := ⟨fuel - 1, by omega⟩
    rw [countP_cons] at hk
    cases k with
    | zero =>
      have hnone : ∀ x ∈ (a, c) :: back, isMarked x = false := by
        have hzero : countP isMarked ((a, c) :: back) = 0 := by
          rw [countP_cons]
          omega
        intro x hx
        simpa using countP_eq_zero.mp hzero x hx
      refine ⟨h, list, ?_, ?_⟩
      · rw [Nat.zero_sub]
        rfl
      · rwa [filter_eq_self.mpr fun x hx => by simp [hnone x hx]]
    | succ k =>
      cases hdel : c.deleted with
      | true =>
        have hmark : isMarked (a, c) = true := hdel
        rw [hmark, if_pos rfl] at hk
        obtain ⟨h₁, list₁, hun, hc₁, _, _⟩ := hc.unlink hn
        obtain ⟨h', list', hsweep, hc'⟩ := ih hc₁ (Linked.nodup_middle hn).2.2
          (show back.length ≤ fuel by omega) (show _ ≤ k by omega)
        refine ⟨h', list', ?_, ?_⟩
        · rw [head?_cons, map_some, sweep_marked hc hn hdel, hun, bind_some]
          simp only [hsweep, countP_cons, hmark, if_true, Nat.add_sub_add_right]
        · rwa [filter_cons_of_neg (by simp [hmark])]
      | false =>
        have hmark : isMarked (a, c) = false := hdel
        rw [hmark] at hk
        obtain ⟨q, hr, hrest⟩ := hc.split
        have hc' : Chain h list ((front ++ [(a, c)]) ++ back) := by
          rwa [append_assoc, singleton_append]
        have hn' : (addrs ((front ++ [(a, c)]) ++ back)).Nodup := by
          rwa [append_assoc, singleton_append]
        obtain ⟨h', list', hsweep, hc''⟩ := ih (k := k + 1) hc' hn' (show back.length ≤ fuel by omega)
          (by simpa using hk)
        refine ⟨h', list', ?_, ?_⟩
        · have hlast : lastAddr (front ++ [(a, c)]) = some a := by simp [lastAddr]
          rw [hlast] at hsweep
          rw [head?_cons, map_some, sweep, hr, bind_some, if_neg (by simp [hdel]),
            hrest.head, hsweep, countP_cons, hmark, if_neg (by simp)]
          rfl
        · rw [filter_cons_of_pos (by simp [hmark])]
          rwa [append_assoc, singleton_append] at hc''

end Xfront.Callbacks
