import Xfront.Resource.Destroy
import Xfront.Resource.Table

/-!
# Every entry is destroyed once

A waiting loop knows the number of elements it saved. Whatever the delete function has freed in
the meantime, either the number has not changed, and then the link of the loop stands where it
stood, or the loop starts over. That is all that has to be kept for the loops that wait.
-/

namespace Xfront.Resource
open Nat

open List Option Function
open Linked (Addr Link Lists linkBehind addrs)

variable {V : Type}

abbrev View (V : Type) := Nat → List (Addr × ResourceRec V)

def entries (view : View V) (buckets : Nat) : List (Addr × ResourceRec V) :=
  (range buckets).flatMap view

/-- No entry fits the call any more; `FreeResourceByType` frees one at most. -/
def Done (c : Call) (view : View V) : Prop :=
  match c with
  | .freeResourceByType _ _ _ => True
  | c => ∀ k, ∀ x ∈ view k, c.fits x.2 = false

def Placed (hash : XID → Nat) (view : View V) (l : Loop) : Prop :=
  match l.call with
  | .freeResource id _ => l.j = hash id
  | .freeResourceByType id _ _ => l.j = hash id
  | c => ∀ k < l.j, ∀ x ∈ view k, c.fits x.2 = false

def Stands (view : View V) (l : Loop) : Prop :=
  ∃ front back, view l.j = front ++ back ∧ l.prev = linkBehind l.j front ∧
    ∀ x ∈ front, l.call.fits x.2 = false

def Call.Plain (found : List (Addr × ResourceRec V)) (c : Call) : Prop :=
  ∀ x ∈ found, c.fits x.2 = true → c.skips x.2 = false

def Action.Plain (found : List (Addr × ResourceRec V)) : Action → Prop
  | .freeResource id skip => (Call.freeResource id skip).Plain found
  | .freeResourceByType id type skipFree => (Call.freeResourceByType id type skipFree).Plain found
  | _ => True

def Freeing.loops (s : Freeing V) : List Loop := s.loop.toList ++ s.waits.map (·.loop)

/-- A table as it is found: every entry in the bucket of its id, and as many elements as entries. -/
structure Found (hash : XID → Nat) (size : Nat) (lists : Lists Nat (ResourceRec V))
    (elements : Int) (view : View V) : Prop where
  holds : lists.Holds view
  placed : ∀ k, ∀ x ∈ view k, k < size ∧ hash x.2.id = k
  elements : elements = (entries view size).length

/-- What is fixed in a run: the buckets, the entries at first, the call, and whether no call skips
a delete function. -/
structure Setting (V : Type) where
  hash : XID → Nat
  size : Nat
  found : List (Addr × ResourceRec V)
  call : Call
  plain : Prop

structure Stack (t : Setting V) (view : View V) (ls : List Loop) : Prop where
  placed : ∀ l ∈ ls, l.j < t.size ∧ Placed t.hash view l
  plain : t.plain → ∀ l ∈ ls, l.call.Plain t.found
  inner : ∀ l ∈ ls.dropLast, l.call ≠ .freeClientResources
  outer : (∃ l, ls.getLast? = some l ∧ l.call = t.call) ∨ (ls = [] ∧ Done t.call view)

/-- What holds whichever loop is running: the table, each entry once, and the loops that wait. -/
structure Core (t : Setting V) (s : Freeing V) (view : View V) : Prop where
  table : Found t.hash t.size s.lists s.elements view
  once : t.found.Perm (entries view t.size ++ (s.called ++ s.skipped))
  waits : ∀ w ∈ s.waits, s.elements ≤ w.elements ∧ (s.elements = w.elements → Stands view w.loop)
  held : ∀ w ∈ s.waits, (s.lists.heap.read w.res).isSome ∧ ∀ k, w.res ∉ addrs (view k)
  apart : (s.waits.map (·.res)).Nodup
  skipped : t.plain → s.skipped = []

structure Kept (t : Setting V) (s : Freeing V) (view : View V) : Prop extends Core t s view where
  buckets : s.loops ≠ [] → s.buckets = t.size
  stack : Stack t view s.loops
  loop : ∀ l, s.loop = some l → Stands view l

def Fewer (view' view : View V) : Prop := ∀ k, ∀ x ∈ view' k, x ∈ view k

variable {view : View V} {front back : List (Addr × ResourceRec V)}

theorem fewer_update {k : Nat} {x : Addr × ResourceRec V} (hview : view k = front ++ x :: back) :
    Fewer (update view k (front ++ back)) view := by
  intro i y hy
  by_cases hik : i = k
  · subst hik
    rw [update_self, mem_append] at hy
    rw [hview, mem_append]
    exact hy.imp id (mem_cons_of_mem x)
  · rwa [update_of_ne hik] at hy

variable {view' : View V}

theorem Done.fewer {c : Call} (h : Done c view) (hfewer : Fewer view' view) : Done c view' := by
  cases c with
  | freeResourceByType id type skipFree => trivial
  | freeResource id skip | freeClientNeverRetainResources | freeClientResources =>
    exact fun k x hx => h k x (hfewer k x hx)

variable {l : Loop}

theorem Placed.fewer {hash : XID → Nat} (h : Placed hash view l)
    (hfewer : Fewer view' view) : Placed hash view' l := by
  unfold Placed at h ⊢
  split at h
  · exact h
  · exact h
  · exact fun k hk x hx => h k hk x (hfewer k x hx)

theorem stands_head (view : View V) (c : Call) (j : Nat) : Stands view ⟨c, j, .head j⟩ :=
  ⟨[], view j, rfl, rfl, by simp⟩

section

variable {t : Setting V} {view view' : View V} {l l' : Loop} {ls : List Loop}

theorem Stack.fewer (h : Stack t view ls) (hfewer : Fewer view' view) : Stack t view' ls where
  placed := fun l hl => ⟨(h.placed l hl).1, (h.placed l hl).2.fewer hfewer⟩
  plain := h.plain
  inner := h.inner
  outer := h.outer.imp id fun ⟨hnil, hdone⟩ => ⟨hnil, hdone.fewer hfewer⟩

theorem Stack.replace (h : Stack t view (l :: ls)) (hcall : l'.call = l.call)
    (hj : l'.j < t.size) (hplaced : Placed t.hash view l') : Stack t view (l' :: ls) := by
  refine ⟨?_, fun hplain => ?_, ?_, ?_⟩
  · rintro m hm
    rcases mem_cons.mp hm with rfl | hm
    · exact ⟨hj, hplaced⟩
    · exact h.placed m (mem_cons_of_mem _ hm)
  · rintro m hm
    rcases mem_cons.mp hm with rfl | hm
    · rw [hcall]
      exact h.plain hplain l mem_cons_self
    · exact h.plain hplain m (mem_cons_of_mem _ hm)
  · cases ls with
    | nil => simp
    | cons m ls =>
      rintro n hn
      rw [dropLast_cons_of_ne_nil (by simp)] at hn
      have hinner := h.inner
      rw [dropLast_cons_of_ne_nil (by simp)] at hinner
      rcases mem_cons.mp hn with rfl | hn
      · rw [hcall]
        exact hinner l mem_cons_self
      · exact hinner n (mem_cons_of_mem _ hn)
  · rcases h.outer with ⟨m, hlast, hm⟩ | ⟨hnil, _⟩
    · cases ls with
      | nil =>
        obtain rfl : l = m := by simpa using hlast
        exact .inl ⟨l', rfl, hcall.trans hm⟩
      | cons n ls => exact .inl ⟨m, by simpa [getLast?_cons_cons] using hlast, hm⟩
    · cases hnil

theorem Stack.pop (h : Stack t view (l :: ls)) (hdone : Done l.call view) : Stack t view ls := by
  refine ⟨fun m hm => h.placed m (mem_cons_of_mem _ hm),
    fun hplain m hm => h.plain hplain m (mem_cons_of_mem _ hm), fun m hm => ?_, ?_⟩
  · cases ls with
    | nil => cases hm
    | cons n ls =>
      refine h.inner m ?_
      rw [dropLast_cons_of_ne_nil (by simp)]
      exact mem_cons_of_mem _ hm
  · rcases h.outer with ⟨m, hlast, hm⟩ | ⟨hnil, _⟩
    · cases ls with
      | nil =>
        obtain rfl : l = m := by simpa using hlast
        exact .inr ⟨rfl, hm ▸ hdone⟩
      | cons n ls => exact .inl ⟨m, by simpa [getLast?_cons_cons] using hlast, hm⟩
    · cases hnil

theorem Stack.push (h : Stack t view ls) (hne : ls ≠ []) (hinner : l.call ≠ .freeClientResources)
    (hj : l.j < t.size) (hplaced : Placed t.hash view l)
    (hplain : t.plain → l.call.Plain t.found) : Stack t view (l :: ls) := by
  refine ⟨?_, fun hall => ?_, ?_, ?_⟩
  · rintro m hm
    rcases mem_cons.mp hm with rfl | hm
    · exact ⟨hj, hplaced⟩
    · exact h.placed m hm
  · rintro m hm
    rcases mem_cons.mp hm with rfl | hm
    · exact hplain hall
    · exact h.plain hall m hm
  · rw [dropLast_cons_of_ne_nil hne]
    rintro m hm
    rcases mem_cons.mp hm with rfl | hm
    · exact hinner
    · exact h.inner m hm
  · rcases h.outer with ⟨m, hlast, hm⟩ | ⟨hnil, _⟩
    · refine .inl ⟨m, ?_, hm⟩
      rw [getLast?_cons_of_ne_nil hne]
      exact hlast
    · exact absurd hnil hne

end

section

variable {hash : XID → Nat} {size : Nat} {lists : Lists Nat (ResourceRec V)} {elements : Int}
  {view : View V}

theorem Found.length_le (h : Found hash size lists elements view) (k : Nat) :
    (view k).length ≤ (entries view size).length := by
  by_cases hk : k < size
  · exact Linked.length_le_flatMap view (mem_range.mpr hk)
  · have hnil : view k = [] := eq_nil_iff_forall_not_mem.mpr fun x hx =>
      hk (h.placed k x hx).1
    simp [hnil]

variable {a : Addr}

theorem Found.unlink (h : Found hash size lists elements view) {k : Nat}
    {front back : List (Addr × ResourceRec V)} {res : ResourceRec V}
    (hview : view k = front ++ (a, res) :: back) : ∃ q lists', lists.heap.read a = some ⟨res, q⟩ ∧
      lists.store q (linkBehind k front) = some lists' ∧
      Found hash size lists' (elements - 1) (update view k (front ++ back)) ∧
      (entries view size).Perm ((a, res) :: entries (update view k (front ++ back)) size) ∧
      (∀ i, a ∉ addrs (update view k (front ++ back) i)) ∧
      ∀ b, b ∉ addrs front → lists'.heap.read b = lists.heap.read b := by
  obtain ⟨q, lists', hread, hstore, hholds, hsame⟩ := h.holds.relink hview
  have hk : k < size := (h.placed k (a, res) (by rw [hview]; simp)).1
  have hperm : (entries view size).Perm
      ((a, res) :: entries (update view k (front ++ back)) size) :=
    Linked.flatMap_update hview nodup_range (mem_range.mpr hk)
  refine ⟨q, lists', hread, hstore, ⟨hholds, fun i x hx => ?_, ?_⟩, hperm, fun i ha => ?_, hsame⟩
  · exact h.placed i x (fewer_update hview i x hx)
  · have hlength := hperm.length_eq
    rw [length_cons] at hlength
    rw [h.elements, hlength]
    omega
  · have hnodup := h.holds.nodup k
    rw [hview] at hnodup
    obtain ⟨hfront, hback, _⟩ := Linked.nodup_middle hnodup
    by_cases hik : i = k
    · subst hik
      rw [update_self, Linked.addrs_append, mem_append] at ha
      exact ha.elim hfront hback
    · rw [update_of_ne hik] at ha
      refine h.holds.apart i k hik a ha ?_
      rw [hview]
      simp [addrs]

theorem Found.free (h : Found hash size lists elements view) (ha : ∀ k, a ∉ addrs (view k)) :
    Found hash size { lists with heap := lists.heap.free a } elements view :=
  ⟨h.holds.free ha, h.placed, h.elements⟩

end

def ahead (view : View V) (l : Loop) : Nat :=
  match l.prev with
  | .head _ => (view l.j).length
  | .next a => (view l.j).length - ((addrs (view l.j)).idxOf a + 1)

def Loop.left (size : Nat) (l : Loop) : Nat :=
  match l.call with
  | .freeResource _ _ => 0
  | .freeResourceByType _ _ _ => 0
  | .freeClientNeverRetainResources => size - 1 - l.j
  | .freeClientResources => size - 1 - l.j

/-- With `n` entries at most on a chain: the turns of a loop until the next entry that fits. -/
def Loop.cost (size n : Nat) (view : View V) (l : Loop) : Nat :=
  l.left size * (n + 2) + ahead view l + 1

def Wait.cost (size n : Nat) (w : Wait) : Nat := w.loop.left size * (n + 2) + n + 2

def potential (t : Setting V) (s : Freeing V) (view : View V) : Nat :=
  (entries view t.size).length * (t.found.length + 4) +
    (s.loop.elim 0 (Loop.cost t.size t.found.length view) +
      (s.waits.map (Wait.cost t.size t.found.length)).sum)

theorem ahead_eq (hnodup : (addrs (view l.j)).Nodup) (hview : view l.j = front ++ back)
    (hprev : l.prev = linkBehind l.j front) : ahead view l = back.length := by
  rcases eq_nil_or_concat front with rfl | ⟨pre, ⟨a, v⟩, rfl⟩
  · simp [ahead, hprev, hview, Linked.linkBehind_nil]
  · rw [concat_eq_append] at hview hprev
    rw [Linked.linkBehind_concat] at hprev
    have hidx : (addrs (view l.j)).idxOf a = pre.length := by
      have hview' : view l.j = pre ++ (a, v) :: back := by simpa using hview
      rw [hview'] at hnodup ⊢
      have hpre := (Linked.nodup_middle hnodup).1
      rw [Linked.addrs_append, idxOf_append_of_notMem hpre]
      simp [addrs]
    have hlength := congrArg length hview
    simp only [length_append, length_cons, length_nil] at hlength
    simp only [ahead, hprev, hidx]
    omega

theorem ahead_le (view : View V) (l : Loop) : ahead view l ≤ (view l.j).length := by
  unfold ahead
  split <;> omega

section

variable {t : Setting V} {s : Freeing V} {view : View V} {l l' : Loop}

theorem Placed.congr {hash : XID → Nat} (h : Placed hash view l) (hcall : l'.call = l.call)
    (hj : l'.j = l.j) : Placed hash view l' := by
  unfold Placed at h ⊢
  rwa [hcall, hj]

theorem Loop.left_congr (size : Nat) (hcall : l'.call = l.call) (hj : l'.j = l.j) :
    l'.left size = l.left size := by
  rw [Loop.left, Loop.left, hcall, hj]

theorem Core.goOn (h : Core t s view) {o : Option Loop} {b : Nat}
    (hstack : Stack t view (o.toList ++ s.waits.map (·.loop)))
    (hloop : ∀ l, o = some l → Stands view l)
    (hbuckets : o.toList ++ s.waits.map (·.loop) ≠ [] → b = t.size) :
    Kept t
      { s with
        loop := o
        buckets := b } view where
  table := h.table
  once := h.once
  waits := h.waits
  held := h.held
  apart := h.apart
  skipped := h.skipped
  buckets := hbuckets
  stack := hstack
  loop := hloop

theorem Core.entries_le (h : Core t s view) : (entries view t.size).length ≤ t.found.length := by
  have hlength := h.once.length_eq
  rw [length_append] at hlength
  omega

theorem Core.ahead_le (h : Core t s view) (l : Loop) : ahead view l ≤ t.found.length :=
  le_trans (Resource.ahead_le view l) (le_trans (h.table.length_le l.j) h.entries_le)

variable {e : Int}

theorem resume_cases (hstands : s.elements = e → Stands view l) :
    ∃ o, s.resume l e = { s with loop := o } ∧ ((o = none ∧ Done l.call view) ∨
        ∃ l', o = some l' ∧ l'.call = l.call ∧ l'.j = l.j ∧ Stands view l') := by
  have hagain : Stands view (if s.elements ≠ e then { l with prev := .head l.j } else l) := by
    split
    case isTrue => exact stands_head view l.call l.j
    case isFalse heq => exact hstands (by simpa using heq)
  have hcall : (if s.elements ≠ e then { l with prev := .head l.j } else l).call = l.call := by
    split <;> rfl
  have hj : (if s.elements ≠ e then { l with prev := .head l.j } else l).j = l.j := by
    split <;> rfl
  unfold Freeing.resume
  split
  case h_1 => exact ⟨_, rfl, .inr ⟨_, rfl, hcall, hj, hagain⟩⟩
  case h_2 id type skipFree hc =>
    refine ⟨none, rfl, .inl ⟨rfl, ?_⟩⟩
    rw [hc]
    trivial
  case h_3 => exact ⟨_, rfl, .inr ⟨_, rfl, hcall, hj, hagain⟩⟩
  case h_4 => exact ⟨_, rfl, .inr ⟨_, rfl, rfl, rfl, stands_head view l.call l.j⟩⟩

theorem resume_kept (h : Core t s view) (hbuckets : s.buckets = t.size)
    (hstack : Stack t view (l :: s.waits.map (·.loop))) (hstands : s.elements = e → Stands view l) :
    Kept t (s.resume l e) view ∧ potential t (s.resume l e) view ≤
      (entries view t.size).length * (t.found.length + 4) +
        (l.left t.size * (t.found.length + 2) + t.found.length + 1 +
          (s.waits.map (Wait.cost t.size t.found.length)).sum) := by
  obtain ⟨hj, hplaced⟩ := hstack.placed l mem_cons_self
  obtain ⟨o, heq, ⟨rfl, hdone⟩ | ⟨l', rfl, hcall', hj', hstands'⟩⟩ := resume_cases hstands
  · rw [heq]
    refine ⟨h.goOn (hstack.pop hdone) (by simp) fun _ => hbuckets, ?_⟩
    simp only [potential, elim_none]
    omega
  · rw [heq]
    refine ⟨h.goOn (hstack.replace hcall' (by omega) (hplaced.congr hcall' hj')) ?_
      fun _ => hbuckets, ?_⟩
    · rintro m hm
      obtain rfl := some.inj hm
      exact hstands'
    · have hahead := h.ahead_le l'
      simp only [potential, elim_some, Loop.cost, Loop.left_congr t.size hcall' hj']
      omega

theorem behind_next {c : Call} {j : Nat} (hplaced : ∀ k < j, ∀ x ∈ view k, c.fits x.2 = false)
    (hchain : ∀ x ∈ view j, c.fits x.2 = false) :
    ∀ k < j + 1, ∀ x ∈ view k, c.fits x.2 = false := by
  intro k hk x hx
  rcases Nat.lt_succ_iff_lt_or_eq.mp hk with hk | rfl
  · exact hplaced k hk x hx
  · exact hchain x hx

theorem endOfChain_cases (htable : Found t.hash t.size s.lists s.elements view)
    (hbuckets : s.buckets = t.size) (hj : l.j < t.size) (hplaced : Placed t.hash view l)
    (hchain : ∀ x ∈ view l.j, l.call.fits x.2 = false) :
    ∃ o b, s.endOfChain l = { s with
        loop := o
        buckets := b } ∧
      ((o = none ∧ Done l.call view ∧ (b = t.size ∨ l.call = .freeClientResources)) ∨
        ∃ l', o = some l' ∧ b = t.size ∧ l'.call = l.call ∧ l'.j < t.size ∧
          Placed t.hash view l' ∧ Stands view l' ∧ l'.left t.size + 1 = l.left t.size) := by
  obtain ⟨c, j, prev⟩ := l
  cases c with
  | freeResource id skip =>
    refine ⟨none, s.buckets, rfl, .inl ⟨rfl, fun k x hx => ?_, .inl hbuckets⟩⟩
    by_cases hk : k = j
    · subst hk
      exact hchain x hx
    · have hne : x.2.id ≠ id := by
        rintro heq
        have hhash := (htable.placed k x hx).2
        rw [heq] at hhash
        exact hk (hhash.symm.trans (show j = t.hash id from hplaced).symm)
      simpa [Call.fits] using hne
  | freeResourceByType id type skipFree =>
    exact ⟨none, s.buckets, rfl, .inl ⟨rfl, trivial, .inl hbuckets⟩⟩
  | freeClientNeverRetainResources =>
    have hbehind := behind_next (j := j) hplaced hchain
    by_cases hnext : j + 1 < s.buckets
    · refine ⟨_, s.buckets, if_pos hnext, .inr ⟨_, rfl, hbuckets, rfl,
        show j + 1 < t.size by omega, hbehind, stands_head view _ _, ?_⟩⟩
      simp only [Loop.left]
      omega
    · refine ⟨none, s.buckets, if_neg hnext, .inl ⟨rfl, fun k x hx => ?_, .inl hbuckets⟩⟩
      have hk := (htable.placed k x hx).1
      exact hbehind k (by omega) x hx
  | freeClientResources =>
    have hbehind := behind_next (j := j) hplaced hchain
    by_cases hnext : j + 1 < s.buckets
    · refine ⟨_, s.buckets, if_pos hnext, .inr ⟨_, rfl, hbuckets, rfl,
        show j + 1 < t.size by omega, hbehind, stands_head view _ _, ?_⟩⟩
      simp only [Loop.left]
      omega
    · refine ⟨none, 0, if_neg hnext, .inl ⟨rfl, fun k x hx => ?_, .inr rfl⟩⟩
      have hk := (htable.placed k x hx).1
      exact hbehind k (by omega) x hx

theorem Kept.turn_end (h : Kept t s view) (hl : s.loop = some l) {front : List _}
    (hview : view l.j = front) (hfront : ∀ x ∈ front, l.call.fits x.2 = false) :
    Kept t (s.endOfChain l) view ∧ potential t (s.endOfChain l) view < potential t s view := by
  have hloops : s.loops = l :: s.waits.map (·.loop) := by simp [Freeing.loops, hl]
  have hbuckets := h.buckets (by simp [hloops])
  have hstack := hloops ▸ h.stack
  obtain ⟨hj, hplaced⟩ := hstack.placed l mem_cons_self
  obtain ⟨o, b, heq, ⟨rfl, hdone, hb⟩ | ⟨l', rfl, rfl, hcall, hj', hplaced', hstands, hleft⟩⟩ :=
    endOfChain_cases h.table hbuckets hj hplaced (hview ▸ hfront)
  · rw [heq]
    refine ⟨h.toCore.goOn (hstack.pop hdone) (by simp) fun hne => ?_, ?_⟩
    · -- the loop of `FreeClientResources` is the outermost one
      refine hb.resolve_right fun hc => hstack.inner l ?_ hc
      rw [toList_none, nil_append] at hne
      rw [dropLast_cons_of_ne_nil hne]
      exact mem_cons_self
    · simp only [potential, hl, elim_none, elim_some, Loop.cost]
      omega
  · rw [heq]
    refine ⟨h.toCore.goOn (hstack.replace hcall hj' hplaced') ?_ fun _ => rfl, ?_⟩
    · rintro m hm
      obtain rfl := some.inj hm
      exact hstands
    · have hahead := h.ahead_le l'
      simp only [potential, hl, elim_some, Loop.cost, ← hleft, add_mul, one_mul]
      omega

variable {front back : List (Addr × ResourceRec V)} {a : Addr} {res : ResourceRec V}

theorem Kept.turn_next (h : Kept t s view) (hl : s.loop = some l)
    (hview : view l.j = front ++ (a, res) :: back) (hprev : l.prev = linkBehind l.j front)
    (hfront : ∀ x ∈ front, l.call.fits x.2 = false) (hres : l.call.fits res = false) :
    Kept t { s with loop := some { l with prev := .next a } } view ∧
    potential t { s with loop := some { l with prev := .next a } } view < potential t s view := by
  have hloops : s.loops = l :: s.waits.map (·.loop) := by simp [Freeing.loops, hl]
  have hstack := hloops ▸ h.stack
  obtain ⟨hj, hplaced⟩ := hstack.placed l mem_cons_self
  have hview' : view l.j = (front ++ [(a, res)]) ++ back := by
    rw [hview, append_assoc, singleton_append]
  have hprev' : Link.next a = linkBehind l.j (front ++ [(a, res)]) :=
    (Linked.linkBehind_concat l.j front a res).symm
  have hstack' : Stack t view ({ l with prev := .next a } :: s.waits.map (·.loop)) :=
    hstack.replace rfl hj (hplaced.congr rfl rfl)
  refine ⟨h.toCore.goOn hstack' ?_ fun _ => h.buckets (by simp [hloops]), ?_⟩
  · rintro m hm
    obtain rfl := some.inj hm
    refine ⟨front ++ [(a, res)], back, hview', hprev', fun x hx => ?_⟩
    rcases mem_append.mp hx with hx | hx
    · exact hfront x hx
    · obtain rfl : x = (a, res) := by simpa using hx
      exact hres
  · have hnodup := h.table.holds.nodup l.j
    have hbefore := ahead_eq hnodup hview hprev
    have hafter : ahead view { l with prev := .next a } = back.length :=
      ahead_eq (l := { l with prev := .next a }) hnodup hview' hprev'
    have hleft : Loop.left t.size { l with prev := .next a } = l.left t.size := rfl
    simp only [potential, hl, elim_some, Loop.cost, hbefore, hafter, hleft, length_cons]
    omega

theorem Core.unlinked (h : Core t s view) {j : Nat} (hview : view j = front ++ (a, res) :: back)
    {lists : Lists Nat (ResourceRec V)}
    (hsame : ∀ b, b ∉ addrs front → lists.heap.read b = s.lists.heap.read b) :
    (∀ w ∈ s.waits, s.elements - 1 < w.elements) ∧ (∀ w ∈ s.waits, (lists.heap.read w.res).isSome ∧
      ∀ k, w.res ∉ addrs (update view j (front ++ back) k)) ∧ ∀ w ∈ s.waits, a ≠ w.res := by
  have hmem : ∀ b ∈ addrs front, b ∈ addrs (view j) := by
    intro b hb
    rw [hview, Linked.addrs_append, mem_append]
    exact .inl hb
  refine ⟨fun w hw => ?_, fun w hw => ?_, fun w hw heq => ?_⟩
  · have hle := (h.waits w hw).1
    omega
  · obtain ⟨hread, hout⟩ := h.held w hw
    refine ⟨?_, fun k hk => ?_⟩
    · rwa [hsame w.res fun hb => hout j (hmem _ hb)]
    · obtain ⟨x, hx, heq⟩ := List.mem_map.mp hk
      exact hout k (heq ▸ List.mem_map_of_mem (fewer_update hview k x hx))
  · refine (h.held w hw).2 j ?_
    rw [hview, ← heq, Linked.addrs_append, mem_append]
    exact .inr mem_cons_self

theorem Kept.turn_fits (h : Kept t s view) (hl : s.loop = some l)
    (hview : view l.j = front ++ (a, res) :: back) (hprev : l.prev = linkBehind l.j front)
    (hfront : ∀ x ∈ front, l.call.fits x.2 = false) (hfits : l.call.fits res = true) :
    ∃ q lists s', s.lists.heap.read a = some ⟨res, q⟩ ∧ s.lists.store q l.prev = some lists ∧
      Freeing.doFreeResource
        { s with
          lists := lists
          elements := s.elements - 1 } l a res = some s' ∧
      Kept t s' (update view l.j (front ++ back)) ∧
      potential t s' (update view l.j (front ++ back)) < potential t s view := by
  obtain ⟨q, lists, hread, hstore, htable, hperm, hout, hsame⟩ := h.table.unlink hview
  have hloops : s.loops = l :: s.waits.map (·.loop) := by simp [Freeing.loops, hl]
  have hbuckets : s.buckets = t.size := h.buckets (by simp [hloops])
  have hstack := (hloops ▸ h.stack).fewer (fewer_update hview)
  have hstands : Stands (update view l.j (front ++ back)) l :=
    ⟨front, back, update_self .., hprev, hfront⟩
  obtain ⟨hless, hheld, hapart⟩ := h.toCore.unlinked hview hsame
  have hafront : a ∉ addrs front := by
    have hnodup := h.table.holds.nodup l.j
    rw [hview] at hnodup
    exact (Linked.nodup_middle hnodup).1
  have hwaits : ∀ w ∈ s.waits, s.elements - 1 ≤ w.elements ∧ (s.elements - 1 = w.elements →
      Stands (update view l.j (front ++ back)) w.loop) := fun w hw =>
    ⟨Int.le_of_lt (hless w hw), fun heq => absurd heq (Int.ne_of_lt (hless w hw))⟩
  have hcount : (entries view t.size).length =
      (entries (update view l.j (front ++ back)) t.size).length + 1 := hperm.length_eq
  have honce := h.once.trans (hperm.append_right _)
  refine ⟨q, lists, ?_⟩
  rw [hprev]
  unfold Freeing.doFreeResource
  split
  case isTrue hskips =>
    have hreada : lists.heap.read a = some ⟨res, q⟩ := (hsame a hafront).trans hread
    have hcore : Core t
        { s with
          lists := { lists with heap := lists.heap.free a }
          elements := s.elements - 1
          skipped := s.skipped ++ [(a, res)] }
        (update view l.j (front ++ back)) := by
      refine ⟨htable.free hout, honce.trans ?_, hwaits, fun w hw => ?_, h.apart, fun hplain => ?_⟩
      · rw [← append_assoc, ← append_assoc, ← append_assoc]
        exact (perm_append_singleton _ _).symm
      · rw [Linked.read_free_ne (hapart w hw)]
        exact hheld w hw
      · have hfound : (a, res) ∈ t.found := honce.symm.subset (by simp)
        rw [hstack.plain hplain l mem_cons_self (a, res) hfound hfits] at hskips
        cases hskips
    obtain ⟨hkept, hpotential⟩ := resume_kept (l := l) (e := s.elements - 1) hcore hbuckets hstack
      fun _ => hstands
    refine ⟨_, hread, hstore, ?_, hkept, lt_of_le_of_lt hpotential ?_⟩
    · simp only [Freeing.release, hreada, map_some]
    · simp only [potential, hl, elim_some, Loop.cost, hcount, add_mul, one_mul]
      omega
  case isFalse hskips =>
    refine ⟨_, hread, hstore, rfl, ⟨⟨htable, honce.trans ?_, ?_, ?_, ?_, h.skipped⟩,
      fun _ => hbuckets, hstack, fun _ hnone => nomatch hnone⟩, ?_⟩
    · have hmove : ((a, res) :: (s.called ++ s.skipped)).Perm
          (s.called ++ [(a, res)] ++ s.skipped) := by
        rw [append_assoc, singleton_append]
        exact perm_middle.symm
      rw [cons_append]
      exact perm_middle.symm.trans (hmove.append_left _)
    · rintro w hw
      rcases mem_cons.mp hw with rfl | hw
      · exact ⟨Int.le_refl _, fun _ => hstands⟩
      · exact hwaits w hw
    · rintro w hw
      rcases mem_cons.mp hw with rfl | hw
      · refine ⟨?_, hout⟩
        rw [hsame a hafront, hread]
        rfl
      · exact hheld w hw
    · rw [map_cons, nodup_cons]
      refine ⟨fun ha => ?_, h.apart⟩
      obtain ⟨w, hw, heq⟩ := List.mem_map.mp ha
      exact hapart w hw heq.symm
    · simp only [potential, hl, elim_none, elim_some, Loop.cost, Wait.cost, hcount,
        add_mul, one_mul, map_cons, sum_cons]
      omega

theorem Kept.turn (h : Kept t s view) (hl : s.loop = some l) :
    ∃ s' view', s.advance l = some s' ∧ Kept t s' view' ∧
      potential t s' view' < potential t s view := by
  obtain ⟨front, back, hview, hprev, hfront⟩ := h.loop l hl
  have hload := h.table.holds.load hview
  rw [← hprev] at hload
  cases back with
  | nil =>
    rw [append_nil] at hview
    exact ⟨_, view, by rw [Freeing.advance, hload]; rfl, h.turn_end hl hview hfront⟩
  | cons x back =>
    obtain ⟨a, res⟩ := x
    cases hfits : l.call.fits res with
    | false =>
      obtain ⟨q, _, hread, _⟩ := h.table.unlink hview
      refine ⟨_, view, ?_, h.turn_next hl hview hprev hfront hfits⟩
      simp [Freeing.advance, hload, hread, hfits]
    | true =>
      obtain ⟨q, lists, s', hread, hstore, hfree, hkept⟩ := h.turn_fits hl hview hprev hfront hfits
      refine ⟨s', _, ?_, hkept⟩
      simp [Freeing.advance, hload, hread, hfits, hstore, hfree]

theorem Kept.finish (h : Kept t s view) (hl : s.loop = none) (hwaits : s.waits ≠ []) :
    ∃ s', s.finish = some s' ∧ Kept t s' view ∧ potential t s' view < potential t s view := by
  obtain ⟨w, ws, hw⟩ := exists_cons_of_ne_nil hwaits
  have hloops : s.loops = w.loop :: ws.map (·.loop) := by simp [Freeing.loops, hl, hw]
  have hmem : w ∈ s.waits := by simp [hw]
  obtain ⟨hread, hout⟩ := h.held w hmem
  obtain ⟨n, hn⟩ := isSome_iff_exists.mp hread
  have hapart := h.apart
  rw [hw, map_cons, nodup_cons] at hapart
  have hcore : Core t
      { s with
        waits := ws
        lists := { s.lists with heap := s.lists.heap.free w.res } } view := by
    refine ⟨h.table.free hout, h.once, fun v hv => h.waits v (by simp [hw, hv]), fun v hv => ?_,
      hapart.2, h.skipped⟩
    have hne : w.res ≠ v.res := fun heq => hapart.1 (heq ▸ List.mem_map_of_mem hv)
    rw [Linked.read_free_ne hne]
    exact h.held v (by simp [hw, hv])
  obtain ⟨hkept, hpotential⟩ := resume_kept (l := w.loop) (e := w.elements) hcore
    (h.buckets (by simp [hloops])) (hloops ▸ h.stack) (h.waits w hmem).2
  refine ⟨_, ?_, hkept, lt_of_le_of_lt hpotential ?_⟩
  · rw [Freeing.finish, hl, hw]
    simp only [Freeing.release, hn, map_some]
  · simp only [potential, hl, hw, elim_none, map_cons, sum_cons, Wait.cost]
    omega

theorem enter_cases (view : View V) (hlt : 0 < t.size → ∀ id, t.hash id < t.size)
    (hbuckets : s.buckets = t.size) (hsize : 0 < t.size) (c : Call) :
    ∃ j, s.enter t.hash c = { s with loop := some ⟨c, j, .head j⟩ } ∧ j < t.size ∧
      Placed t.hash view ⟨c, j, .head j⟩ := by
  have hne : s.buckets ≠ 0 := by omega
  unfold Freeing.enter
  rw [if_neg hne]
  cases c with
  | freeResource id skip | freeResourceByType id type skipFree =>
    exact ⟨t.hash id, rfl, hlt hsize id, rfl⟩
  | freeClientNeverRetainResources =>
    exact ⟨0, rfl, hsize, fun k hk => absurd hk (Nat.not_lt_zero k)⟩
  | freeClientResources => exact ⟨0, rfl, hsize, fun k hk => absurd hk (Nat.not_lt_zero k)⟩

variable {s' : Freeing V}

theorem Kept.nested (h : Kept t s view) (hlt : 0 < t.size → ∀ id, t.hash id < t.size) {c : Call}
    (hinner : c ≠ .freeClientResources) (hleft : ∀ j, Loop.left t.size ⟨c, j, .head j⟩ = 0)
    (hplain : t.plain → c.Plain t.found) (hs : s.nested t.hash c = some s') :
    Kept t s' view ∧ potential t s' view ≤ potential t s view + t.found.length + 1 := by
  unfold Freeing.nested at hs
  split at hs
  case h_2 => cases hs
  case h_1 w ws hl hw =>
    obtain rfl := some.inj hs
    have hloops : s.loops = w.loop :: ws.map (·.loop) := by simp [Freeing.loops, hl, hw]
    have hbuckets := h.buckets (by simp [hloops])
    have hj := (h.stack.placed w.loop (by simp [hloops])).1
    obtain ⟨j, heq, hjlt, hplaced⟩ := enter_cases view hlt hbuckets (by omega) c
    rw [heq]
    refine ⟨h.toCore.goOn ?_ ?_ fun _ => hbuckets, ?_⟩
    · have hstack : Stack t view (s.waits.map (·.loop)) := by
        simpa [Freeing.loops, hl] using h.stack
      exact hstack.push (by simp [hw]) hinner hjlt hplaced hplain
    · rintro m hm
      obtain rfl := some.inj hm
      exact stands_head view c j
    · have hahead := h.ahead_le ⟨c, j, .head j⟩
      simp only [potential, hl, elim_none, elim_some, Loop.cost, hleft]
      omega

def Action.isCall : Action → Bool
  | .turn => false
  | .freeResource _ _ => true
  | .freeResourceByType _ _ _ => true
  | .ret => false

theorem Kept.act (h : Kept t s view) (hlt : 0 < t.size → ∀ id, t.hash id < t.size) {a : Action}
    (hplain : t.plain → a.Plain t.found) (hs : s.act t.hash a = some s') :
    ∃ view', Kept t s' view' ∧ potential t s' view' + 1 ≤
      potential t s view + if a.isCall then t.found.length + 2 else 0 := by
  cases a with
  | turn =>
    obtain ⟨l, hl, hs⟩ := bind_eq_some_iff.mp hs
    obtain ⟨s'', view', hadvance, hkept, hless⟩ := h.turn hl
    obtain rfl := some.inj (hadvance.symm.trans hs)
    exact ⟨view', hkept, by simpa [Action.isCall] using succ_le_of_lt hless⟩
  | freeResource id skip | freeResourceByType id type skipFree =>
    obtain ⟨hkept, hle⟩ := h.nested hlt (by simp) (fun _ => rfl) hplain hs
    exact ⟨view, hkept, by simp only [Action.isCall, if_true]; omega⟩
  | ret =>
    cases hl : s.loop with
    | some l =>
      have hnone : s.finish = none := by rw [Freeing.finish, hl]
      exact absurd (hnone.symm.trans hs) (by simp)
    | none =>
      have hwaits : s.waits ≠ [] := by
        intro hnil
        have hnone : s.finish = none := by rw [Freeing.finish, hl, hnil]
        exact absurd (hnone.symm.trans hs) (by simp)
      obtain ⟨s'', hfinish, hkept, hless⟩ := h.finish hl hwaits
      obtain rfl := some.inj (hfinish.symm.trans hs)
      exact ⟨view, hkept, by simpa [Action.isCall] using succ_le_of_lt hless⟩

theorem Kept.run (h : Kept t s view) (hlt : 0 < t.size → ∀ id, t.hash id < t.size)
    {acts : List Action} (hplain : t.plain → ∀ a ∈ acts, a.Plain t.found)
    {outs : List Unit} (hrun : Run.exec (destroyStep t.hash) s acts = some (s', outs)) :
    ∃ view', Kept t s' view' ∧ potential t s' view' + acts.length ≤
      potential t s view + acts.countP Action.isCall * (t.found.length + 2) := by
  induction acts generalizing s view outs with
  | nil =>
    cases hrun
    exact ⟨view, h, by simp⟩
  | cons a acts ih =>
    obtain ⟨⟨u, o⟩, hu, hrest⟩ := bind_eq_some_iff.mp hrun
    obtain ⟨⟨u', os⟩, hexec, he⟩ := map_eq_some_iff.mp hrest
    cases he
    obtain ⟨v, hv, heq⟩ := map_eq_some_iff.mp hu
    cases heq
    obtain ⟨view₁, hkept, hle⟩ := h.act hlt (fun hp => hplain hp a (by simp)) hv
    obtain ⟨view₂, hkept', hle'⟩ := ih hkept (fun hp b hb => hplain hp b (by simp [hb])) hexec
    refine ⟨view₂, hkept', ?_⟩
    rw [countP_cons, length_cons, add_mul]
    cases hcall : a.isCall <;> simp only [hcall, Bool.false_eq_true, if_true, if_false] at hle ⊢ <;>
      omega

end

/-- A client's table as the calls find it: without buckets, or with those of its hash size. -/
structure TableFound (L : Limits) (hashsize size : Nat) (lists : Lists Nat (ResourceRec V))
    (elements : Int) (view : View V) : Prop
    extends Found (hashResourceID L · hashsize) size lists elements view where
  size_eq : size = 0 ∨ size = 2 ^ hashsize ∧ hashsize ≤ maxHashSize

variable {lists : Lists Nat (ResourceRec V)}

theorem addrs_entries_nodup
    (h : lists.Holds view) (size : Nat) : (addrs (entries view size)).Nodup := by
  have hmap : addrs (entries view size) = (range size).flatMap fun k => addrs (view k) :=
    map_flatMap
  rw [hmap, nodup_flatMap]
  refine ⟨fun k _ => h.nodup k, nodup_range.imp fun hne => ?_⟩
  exact fun a ha hb => h.apart _ _ hne a ha hb

theorem destroy_kept {t : Setting V} {elements : Int}
    (htable : Found t.hash t.size lists elements view)
    (hfound : t.found = entries view t.size) (hlt : 0 < t.size → ∀ id, t.hash id < t.size)
    (hplain : t.plain → t.call.Plain t.found) :
    Kept t (destroy t.hash lists t.size elements t.call) view ∧
    potential t (destroy t.hash lists t.size elements t.call) view ≤
      (t.found.length + t.size + 1) * (t.found.length + 4) := by
  have hcore : Core t ⟨lists, t.size, elements, none, [], [], []⟩ view :=
    ⟨htable, by simp [hfound], by simp, by simp, by simp, fun _ => rfl⟩
  unfold destroy
  by_cases hsize : t.size = 0
  · have hdone : Done t.call view := by
      have hnone (k : Nat) (x : Addr × ResourceRec V) (hx : x ∈ view k) : False := by
        have hk := (htable.placed k x hx).1
        omega
      unfold Done
      split
      · trivial
      · exact fun k x hx => (hnone k x hx).elim
    have henter : Freeing.enter t.hash ⟨lists, t.size, elements, none, [], [], []⟩ t.call =
        ⟨lists, t.size, elements, none, [], [], []⟩ := by
      unfold Freeing.enter
      exact if_pos hsize
    rw [henter]
    refine ⟨hcore.goOn ⟨by simp, by simp, by simp, .inr ⟨rfl, hdone⟩⟩ (by simp) fun _ => rfl, ?_⟩
    simp only [potential, elim_none, map_nil, sum_nil, ← hfound, add_mul]
    omega
  · obtain ⟨j, heq, hj, hplaced⟩ := enter_cases view (s := ⟨lists, t.size, elements, none, [], [], []⟩)
      hlt rfl (Nat.pos_of_ne_zero hsize) t.call
    rw [heq]
    refine ⟨hcore.goOn ⟨?_, ?_, by simp, .inl ⟨_, rfl, rfl⟩⟩ ?_ fun _ => rfl, ?_⟩
    · intro l hl
      obtain rfl : l = ⟨t.call, j, .head j⟩ := by simpa using hl
      exact ⟨hj, hplaced⟩
    · intro hp l hl
      obtain rfl : l = ⟨t.call, j, .head j⟩ := by simpa using hl
      exact hplain hp
    · rintro m hm
      obtain rfl := some.inj hm
      exact stands_head view t.call j
    · have hahead := hcore.ahead_le ⟨t.call, j, .head j⟩
      have hleft : Loop.left t.size ⟨t.call, j, .head j⟩ ≤ t.size := by
        unfold Loop.left
        split <;> omega
      have hmul := Nat.mul_le_mul_right (t.found.length + 2) hleft
      simp only [potential, elim_some, Loop.cost, map_nil, sum_nil, ← hfound,
        add_mul, mul_add] at hmul ⊢
      omega

/-- However the delete functions free other entries, in every state that a call comes to each
entry is in the table, or has had its delete function called once, or has been skipped once;
`elements` counts those in the table; a loop that runs has a turn and so reads no freed cell, and
a delete function can return. When the call returns nothing in the table fits it. The steps are
bounded by the number of calls that the delete functions make. -/
theorem destroy_once {L : Limits} {hashsize size : Nat} {lists : Lists Nat (ResourceRec V)}
    {elements : Int} {view : View V} (htable : TableFound L hashsize size lists elements view)
    (c : Call) {acts : List Action} {s : Freeing V} {outs : List Unit}
    (hrun : Run.exec (destroyStep (hashResourceID L · hashsize))
      (destroy (hashResourceID L · hashsize) lists size elements c) acts = some (s, outs)) :
    ∃ view', s.lists.Holds view' ∧ s.elements = (entries view' size).length ∧
      (entries view size).Perm (entries view' size ++ (s.called ++ s.skipped)) ∧
      (addrs (entries view' size ++ (s.called ++ s.skipped))).Nodup ∧
      (c.Plain (entries view size) → (∀ a ∈ acts, a.Plain (entries view size)) → s.skipped = []) ∧
      (s.loop.isSome → (destroyStep (hashResourceID L · hashsize) s .turn).isSome) ∧
      (s.loop = none → s.waits ≠ [] → (destroyStep (hashResourceID L · hashsize) s .ret).isSome) ∧
      (s.loop = none → s.waits = [] → Done c view') ∧
      acts.length ≤ ((entries view size).length + size + 1) * ((entries view size).length + 4) +
        acts.countP Action.isCall * ((entries view size).length + 2) := by
  have hlt : 0 < size → ∀ id, hashResourceID L id hashsize < size := by
    intro hpos id
    rcases htable.size_eq with hzero | ⟨rfl, hle⟩
    · omega
    · exact hashResourceID_lt L id hle
  let t : Setting V :=
    { hash := (hashResourceID L · hashsize)
      size := size
      found := entries view size
      call := c
      plain := c.Plain (entries view size) ∧ ∀ a ∈ acts, a.Plain (entries view size) }
  obtain ⟨hstart, hbound⟩ := destroy_kept (t := t) htable.toFound rfl hlt And.left
  obtain ⟨view', hkept, hle⟩ := hstart.run hlt (fun hp => hp.2) hrun
  refine ⟨view', hkept.table.holds, hkept.table.elements, hkept.once, ?_,
    fun hc hacts => hkept.skipped ⟨hc, hacts⟩, fun hloop => ?_, fun hl hwaits => ?_,
    fun hl hwaits => ?_, ?_⟩
  · exact (hkept.once.map Prod.fst).nodup_iff.mp (addrs_entries_nodup htable.holds size)
  · obtain ⟨l, hl⟩ := isSome_iff_exists.mp hloop
    obtain ⟨s', _, hadvance, _⟩ := hkept.turn hl
    simp [destroyStep, Freeing.act, hl, hadvance]
  · obtain ⟨s', hfinish, _⟩ := hkept.finish hl hwaits
    simp [destroyStep, Freeing.act, hfinish]
  · have hloops : s.loops = [] := by simp [Freeing.loops, hl, hwaits]
    rcases hkept.stack.outer with ⟨l, hlast, _⟩ | ⟨_, hdone⟩
    · rw [hloops] at hlast
      cases hlast
    · exact hdone
  · have hpotential : potential t s view' + acts.length ≤ potential t _ view +
        acts.countP Action.isCall * ((entries view size).length + 2) := hle
    have hbound' : potential t (destroy t.hash lists t.size elements t.call) view ≤
        ((entries view size).length + size + 1) * ((entries view size).length + 4) := hbound
    omega

def twoEntries : View Nat
  | 0 => [(0, ⟨5, 1, 10⟩), (1, ⟨6, 2, 11⟩)]
  | _ => []

def twoLists : Lists Nat (ResourceRec Nat) where
  heap := ⟨[some ⟨⟨5, 1, 10⟩, some 1⟩, some ⟨⟨6, 2, 11⟩, none⟩]⟩
  heads
    | 0 => some 0
    | _ => none

theorem twoEntries_found (L : Limits) : TableFound L 0 1 twoLists 2 twoEntries where
  holds := by
    refine ⟨fun k => ?_, fun k => ?_, fun j k hjk => ?_⟩
    · cases k with
      | zero => exact ⟨rfl, _, rfl, rfl, _, rfl, rfl⟩
      | succ k => exact rfl
    · cases k with
      | zero => decide
      | succ k => exact nodup_nil
    · cases j with
      | zero =>
        cases k with
        | zero => exact absurd rfl hjk
        | succ k => exact fun _ _ hb => nomatch hb
      | succ j => exact fun _ ha => nomatch ha
  placed := by
    intro k x hx
    cases k with
    | zero =>
      have hhash : hashResourceID L x.2.id 0 < 2 ^ 0 := hashResourceID_lt L x.2.id (by decide)
      exact ⟨by decide, by omega⟩
    | succ k => cases hx
  elements := rfl
  size_eq := .inr ⟨rfl, by decide⟩

def twoActions : List Action := [.turn, .freeResource 6 0, .turn, .ret, .turn, .ret, .turn]

theorem destroy_once_two : ∃ s outs view',
    Run.exec (destroyStep (hashResourceID ⟨64, by decide⟩ · 0))
      (destroy (hashResourceID ⟨64, by decide⟩ · 0) twoLists 1 2 .freeClientResources) twoActions =
      some (s, outs) ∧ (entries twoEntries 1).Perm (entries view' 1 ++ (s.called ++ s.skipped)) ∧
    Done .freeClientResources view' := by
  obtain ⟨s, outs, hrun, hloop, hwaits⟩ : ∃ s outs,
      Run.exec (destroyStep (hashResourceID ⟨64, by decide⟩ · 0))
        (destroy (hashResourceID ⟨64, by decide⟩ · 0) twoLists 1 2 .freeClientResources)
        twoActions = some (s, outs) ∧ s.loop = none ∧ s.waits = [] := ⟨_, _, rfl, rfl, rfl⟩
  obtain ⟨view', _, _, hperm, _, _, _, _, hdone, _⟩ :=
    destroy_once (twoEntries_found ⟨64, by decide⟩) .freeClientResources hrun
  exact ⟨s, outs, view', hrun, hperm, hdone hloop hwaits⟩

end Xfront.Resource
