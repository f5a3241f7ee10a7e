import Xfront.Callbacks.View

/-!
# The operations on the heap are moves

Each operation on a heap that holds a list has a result, and it is a move of the list.
-/

namespace Xfront.Callbacks
open List Option
open Linked (Addr Node Heap Chain addrs lastAddr)

def Refines (v : View) (a : Act) (result : Option (State × Event)) : Prop :=
  ∃ s' e v', result = some (s', e) ∧ Represents s' v' ∧ Move v a e v'

variable {s : State} {r : Registry}

open Represents

theorem Represents.of_holds (h : Holds s r r.cursors.length) : Represents s ⟨s.lists.length, some r⟩ :=
  ⟨rfl, nofun, by rintro _ ⟨⟩; exact h⟩

variable {n : Nat}

theorem Represents.holds_cur (h : Represents s ⟨n, some r⟩) :
    Holds s r r.cursors.length := h.holds r rfl

def Registry.record (r : Registry) (n : Nat) (list : Option Addr) : CallbackListRec :=
  { inCallback := n, deleted := r.deleted, numDeleted := r.numDeleted, list := list }

variable {records : Heap Callback} {frames : List Frame} {list : Option Addr}

theorem Holds.update {m : Nat} (h : Holds s r n) (r' : Registry)
    (hhead : r'.head = r.head) (hc : Chain records list r'.entries) (hn : (addrs r'.entries).Nodup)
    (hf : frames = r'.cursors.map (Frame.mk r.head)) : Holds {
        records := records
        lists := s.lists.set r.head (some (r'.record m list))
        pcbl := s.pcbl
        frames := frames } r' m := by
  obtain ⟨hp, ⟨list₀, hr, _⟩, _, _⟩ := h
  refine ⟨hp.trans (by rw [hhead]), ⟨list, ?_, hc⟩, hn, by rw [hf, hhead]⟩
  rw [hhead]
  exact getElem?_set_list (readList_lt hr) _

theorem Holds.represents (h : Holds s r n) (r' : Registry)
    (hhead : r'.head = r.head) (hc : Chain records list r'.entries) (hn : (addrs r'.entries).Nodup)
    (hf : frames = r'.cursors.map (Frame.mk r.head)) : Represents {
        records := records
        lists := s.lists.set r.head (some (r'.record r'.cursors.length list))
        pcbl := s.pcbl
        frames := frames } ⟨s.lists.length, some r'⟩ := by
  have hrep := of_holds (h.update r' hhead hc hn hf (m := r'.cursors.length))
  rwa [length_set] at hrep

open State

theorem pushCallback_spec (h : Holds s r n) (proc data : Pointer) :
    ∃ s', s.pushCallback r.head proc data true = some (s', .added s.records.size proc data) ∧
      Holds s' { r with entries := (s.records.size, ⟨proc, data, false⟩) :: r.entries } n ∧
      s'.lists.length = s.lists.length := by
  obtain ⟨_, ⟨list, hr, hc⟩, hn, hf⟩ := id h
  refine ⟨_, by rw [pushCallback, if_pos rfl, hr]; rfl, ?_, by simp⟩
  exact h.update { r with entries := _ } rfl (hc.alloc _)
    (nodup_cons.mpr ⟨hc.fresh, hn⟩) hf

variable {v : View}

theorem addCallback_refines (h : Represents s v) (proc data : Pointer) (created allocated : Bool) :
    Refines v (.add proc data created allocated) (s.addCallback proc data created allocated) := by
  obtain ⟨size, current⟩ := v
  obtain ⟨rfl, hnull, hholds⟩ := h
  cases current with
  | some r =>
    have hr := hholds r rfl
    rw [addCallback, hr.pcbl]
    cases allocated with
    | true =>
      obtain ⟨s', hs', hholds', hlen⟩ := pushCallback_spec hr proc data
      exact ⟨s', _, _, hs', hlen ▸ of_holds hholds', .added⟩
    | false => exact ⟨s, _, _, rfl, of_holds hr, .notAdded⟩
  | none =>
    obtain ⟨hp, hf⟩ := hnull rfl
    rw [addCallback, hp]
    cases created with
    | false => exact ⟨s, _, _, rfl, ⟨rfl, hnull, nofun⟩, .notAdded⟩
    | true =>
      have hnew : Holds s.createCallbackList.1 (Registry.empty s.lists.length) 0 := by
        refine ⟨rfl, ⟨none, ?_, rfl⟩, nodup_nil, hf⟩
        show ((s.lists ++ [_])[s.lists.length]?).join = _
        rw [getElem?_concat_length]
        rfl
      have hlen : s.createCallbackList.1.lists.length = s.lists.length + 1 := by
        simp [createCallbackList]
      cases allocated with
      | true =>
        obtain ⟨s', hs', hholds', hlen'⟩ := pushCallback_spec hnew proc data
        refine ⟨s', _, _, hs', ?_, .addedFirst⟩
        rw [← hlen, ← hlen']
        exact of_holds hholds'
      | false =>
        refine ⟨_, _, _, rfl, ?_, .created⟩
        rw [← hlen]
        exact of_holds hnew

theorem deleteCallback_refines (h : Represents s v) (proc data : Pointer) :
    Refines v (.delete proc data) (s.deleteCallback proc data) := by
  obtain ⟨size, current⟩ := v
  cases current with
  | none =>
    refine ⟨s, _, _, ?_, h, .notFound (by simp)⟩
    rw [deleteCallback, (h.null rfl).1]
  | some r =>
    obtain rfl : size = s.lists.length := h.size
    obtain ⟨hp, ⟨list, hr, hc⟩, hn, hf⟩ := h.holds_cur
    rw [deleteCallback, hp]
    simp only [hr, bind_some]
    rcases hc.find (hc.length_le hn) none with
      ⟨hall, hfind⟩ | ⟨front, a, c, back, hsplit, hfront, ha, hfind⟩
    · rw [hfind]
      refine ⟨s, _, _, rfl, h, .notFound ?_⟩
      rintro _ ⟨⟩
      exact hall
    rw [hfind, or_none]
    rw [hsplit] at hc hn
    have hold := h.holds_cur
    cases hcur : r.cursors with
    | cons b rest =>
      obtain ⟨q, hread, _⟩ := hc.split
      refine ⟨_, _, _, ?_, hold.represents
        { r with
          entries := front ++ (a, mark c) :: back, numDeleted := r.numDeleted + 1 }
        rfl (hc.write hn hread (mark c)) (by simpa [addrs] using hn) hf,
        .marked hsplit hfront ha (by simp [hcur])⟩
      simp [hread, hcur, hp, Registry.record, mark]
    | nil =>
      obtain ⟨h', p', hun, hc', _, _⟩ := hc.unlink hn
      refine ⟨_, _, _, ?_, hold.represents { r with entries := front ++ back } rfl hc'
        (Linked.nodup_middle hn).2.2 hf, .unlinked hsplit hfront ha hcur⟩
      simp [hun, hcur, hp, Registry.record]

theorem freeList_spec (h : Holds s r 0) (hf : s.frames = []) :
    ∃ s', s.deleteCallbackList = some (s', .listFreed r.head) ∧
      Represents s' ⟨s.lists.length, none⟩ := by
  obtain ⟨hp, ⟨list, hr, hc⟩, hn, _⟩ := h
  obtain ⟨h', hfree, _, _⟩ := hc.freeAll hn (hc.length_le hn)
  refine ⟨{ s with records := h', lists := s.lists.set r.head none, pcbl := none }, ?_,
    ⟨by simp, fun _ => ⟨rfl, hf⟩, nofun⟩⟩
  rw [deleteCallbackList, hp]
  simp [hr, hfree]

theorem deleteCallbackList_refines (h : Represents s v) :
    Refines v .deleteList s.deleteCallbackList := by
  obtain ⟨size, current⟩ := v
  cases current with
  | none =>
    refine ⟨s, _, _, ?_, h, .idle (by simp) (by simp)⟩
    rw [deleteCallbackList, (h.null rfl).1]
  | some r =>
    obtain rfl : size = s.lists.length := h.size
    have hold := h.holds_cur
    cases hcur : r.cursors with
    | nil =>
      rw [hcur] at hold
      obtain ⟨s', hs', hrep⟩ := freeList_spec hold (by rw [hold.frames, hcur]; rfl)
      exact ⟨s', _, _, hs', hrep, .freed hcur⟩
    | cons b rest =>
      obtain ⟨hp, ⟨list, hr, hc⟩, hn, hf⟩ := h.holds_cur
      refine ⟨_, _, _, ?_, hold.represents { r with deleted := true } rfl hc hn hf,
        .deferred (by simp [hcur])⟩
      rw [deleteCallbackList, hp]
      simp [hr, hcur, writeList, hp, Registry.record]

theorem finish_cases (hcount : r.entries.countP isMarked ≤ r.numDeleted)
    (h : Holds s r (r.cursors.length + 1)) :
    (r.cursors ≠ [] ∧ ∃ s', s.finish r.head = some (s', .quiet) ∧
        Represents s' ⟨s.lists.length, some r⟩) ∨
      (r.cursors = [] ∧ r.deleted = true ∧ ∃ s', s.finish r.head = some (s', .listFreed r.head) ∧
        Represents s' ⟨s.lists.length, none⟩) ∨
      (r.cursors = [] ∧ r.deleted = false ∧ ∃ s', s.finish r.head = some (s', .quiet) ∧
        Represents s' ⟨s.lists.length, some { r with
          entries := r.entries.filter fun x => !isMarked x
          numDeleted := r.numDeleted - r.entries.countP isMarked }⟩) := by
  obtain ⟨hp, ⟨list, hr, hc⟩, hn, hf⟩ := id h
  by_cases hcur : r.cursors = []
  swap
  · have hpos : 0 < r.cursors.length := length_pos_iff.mpr hcur
    refine .inl ⟨hcur, _, ?_, h.represents r rfl hc hn hf⟩
    rw [finish, hr, bind_some, if_pos (show 0 < r.cursors.length + 1 - 1 by omega)]
    rfl
  have hframes : s.frames = [] := by rw [hf, hcur]; rfl
  by_cases hdel : r.deleted = true
  · have hlast : Holds (s.writeList r.head (r.record 0 list)) r 0 := h.update r rfl hc hn hf
    obtain ⟨s', hs', hrep⟩ := freeList_spec hlast hframes
    refine .inr (.inl ⟨hcur, hdel, s', ?_, ?_⟩)
    · rw [finish, hr, bind_some, if_neg (by simp [hcur]), if_pos hdel, hcur]
      exact hs'
    · simpa [writeList] using hrep
  by_cases hnum : 0 < r.numDeleted
  · obtain ⟨h', list', hsweep, hc'⟩ := sweep_spec (show Chain s.records list ([] ++ r.entries) from hc)
      hn (hc.length_le hn) hcount
    refine .inr (.inr ⟨hcur, by simpa using hdel, _, ?_, h.represents
      { r with
        entries := r.entries.filter fun x => !isMarked x
        numDeleted := r.numDeleted - r.entries.countP isMarked }
      rfl hc' (hn.sublist (filter_sublist.map _)) hf⟩)
    rw [finish, hr, bind_some, if_neg (by simp [hcur]), if_neg (by simp [hdel]), if_pos hnum]
    simp only [lastAddr, getLast?_nil, map_none, ← hc.head] at hsweep
    rw [hsweep, map_some, hcur]
    rfl
  · -- nothing is marked
    have hzero : r.entries.countP isMarked = 0 := by omega
    have hkeep : r.entries.filter (fun x => !isMarked x) = r.entries :=
      filter_eq_self.mpr fun x hx => by
        simpa using countP_eq_zero.mp hzero x hx
    rw [hkeep, hzero, Nat.sub_zero]
    refine .inr (.inr ⟨hcur, by simpa using hdel, _, ?_, h.represents r rfl hc hn hf⟩)
    rw [finish, hr, bind_some, if_neg (by simp [hcur]), if_neg (by simp [hdel]), if_neg hnum, hcur]
    rfl

theorem callCallbacks_refines (h : Represents s v) (hv : v.Sound) :
    Refines v .call s.callCallbacks := by
  obtain ⟨size, current⟩ := v
  cases current with
  | none =>
    refine ⟨s, _, _, ?_, h, .idle (by simp) (by simp)⟩
    rw [callCallbacks, (h.null rfl).1]
  | some r =>
    obtain rfl : size = s.lists.length := h.size
    have hr := hv r rfl
    have hold := h.holds_cur
    obtain ⟨hp, ⟨list, hrd, hc⟩, hn, hf⟩ := h.holds_cur
    have hcounted : Holds (s.writeList r.head (r.record (r.cursors.length + 1) list)) r
        (r.cursors.length + 1) := hold.update r rfl hc hn hf
    have hlen : (s.writeList r.head (r.record (r.cursors.length + 1) list)).lists.length =
        s.lists.length := by simp [writeList]
    have hcall : s.callCallbacks =
        (s.writeList r.head (r.record (r.cursors.length + 1) list)).loop r.head list := by
      rw [callCallbacks, hp]
      simp only [hrd, bind_some]
      rfl
    rw [hcall]
    cases hent : r.entries with
    | nil =>
      rw [hent] at hc
      cases hc
      have hidle : Move ⟨s.lists.length, some r⟩ .call .quiet ⟨s.lists.length, some r⟩ :=
        .idle (by simp) (by rintro _ ⟨⟩; exact .inl ⟨rfl, hent⟩)
      rcases finish_cases hr.counted hcounted with
        ⟨_, s', hs', hrep⟩ | ⟨hcur, hdel, _⟩ | ⟨_, _, s', hs', hrep⟩
      · rw [hlen] at hrep
        exact ⟨s', _, _, hs', hrep, hidle⟩
      · rw [(hr.idle hcur).1] at hdel
        cases hdel
      · have hsame : { r with
            entries := r.entries.filter fun x => !isMarked x
            numDeleted := r.numDeleted - r.entries.countP isMarked } = r := by
          rw [hent, filter_nil, countP_nil, Nat.sub_zero, ← hent]
        rw [hlen, hsame] at hrep
        exact ⟨s', _, _, hs', hrep, hidle⟩
    | cons x back =>
      obtain ⟨a, c⟩ := x
      rw [hent] at hc
      obtain ⟨rfl, q, hread, hrest⟩ := hc
      refine ⟨_, _, _, ?_, hold.represents { r with cursors := a :: r.cursors } rfl
        (by rw [hent]; exact ⟨rfl, q, hread, hrest⟩) hn
        (show Frame.mk r.head a :: s.frames = _ by rw [hf]; rfl), .called hent⟩
      rw [loop]
      simp only [writeList, hread, map_some]
      rfl

theorem callbackReturns_refines (h : Represents s v) (hv : v.Sound) :
    Refines v .returns s.callbackReturns := by
  obtain ⟨size, current⟩ := v
  cases current with
  | none =>
    refine ⟨s, _, _, ?_, h, .idle (by simp) (by simp)⟩
    rw [callbackReturns, (h.null rfl).2]
  | some r =>
    obtain rfl : size = s.lists.length := h.size
    have hr := hv r rfl
    obtain ⟨hp, ⟨list, hrd, hc⟩, hn, hf⟩ := h.holds_cur
    cases hcur : r.cursors with
    | nil =>
      refine ⟨s, _, _, ?_, h, .idle (by simp) (by rintro _ ⟨⟩; exact .inr ⟨rfl, hcur⟩)⟩
      rw [callbackReturns, hf, hcur]
      rfl
    | cons b rest =>
      obtain ⟨⟨_, cb⟩, hmem, rfl⟩ := List.mem_map.mp (hr.cursors b (by simp [hcur]))
      obtain ⟨front, back, hsplit⟩ := append_of_mem hmem
      rw [hsplit] at hc
      obtain ⟨q, hread, hrest⟩ := hc.split
      -- the calls around this one, with the record of the list not yet written
      have hpopped : Holds { s with frames := rest.map (Frame.mk r.head) }
          { r with cursors := rest } (rest.length + 1) := by
        refine ⟨hp, ⟨list, ?_, by rwa [← hsplit] at hc⟩, hn, rfl⟩
        rw [hcur] at hrd
        exact hrd
      have hret : s.callbackReturns =
          { s with frames := rest.map (Frame.mk r.head) }.loop r.head q := by
        rw [callbackReturns, hf, hcur]
        simp [hread]
      rw [hret]
      cases back with
      | nil =>
        cases hrest
        rcases finish_cases (r := { r with cursors := rest }) hr.counted hpopped with
          ⟨hne, s', hs', hrep⟩ | ⟨hnil, hdel, s', hs', hrep⟩ | ⟨hnil, hdel, s', hs', hrep⟩
        · exact ⟨s', _, _, hs', hrep, .ended hcur hne hsplit⟩
        · obtain rfl : rest = [] := hnil
          exact ⟨s', _, _, hs', hrep, .endedFreed hcur hdel⟩
        · obtain rfl : rest = [] := hnil
          exact ⟨s', _, _, hs', hrep, .swept hcur hdel⟩
      | cons x back =>
        obtain ⟨a, ca⟩ := x
        obtain ⟨rfl, q', hread', _⟩ := hrest
        have hnext : Holds { s with frames := (a :: rest).map (Frame.mk r.head) }
            { r with cursors := a :: rest } (rest.length + 1) := by
          refine ⟨hp, ⟨list, ?_, by rwa [← hsplit] at hc⟩, hn, rfl⟩
          rw [hcur] at hrd
          exact hrd
        refine ⟨_, _, _, ?_, of_holds hnext, .stepped hcur hsplit⟩
        rw [loop]
        simp only [hread', map_some]
        rfl

theorem step_refines (h : Represents s v) (hv : v.Sound) (a : Act) : Refines v a (step s a) := by
  cases a with
  | add proc data created allocated => exact addCallback_refines h proc data created allocated
  | delete proc data => exact deleteCallback_refines h proc data
  | deleteList => exact deleteCallbackList_refines h
  | call => exact callCallbacks_refines h hv
  | returns => exact callbackReturns_refines h hv

end Xfront.Callbacks
