import Xfront.Lib.Run

/-!
# Block and wakeup handlers

dix/dixutils.c: `BlockHandler`, `WakeupHandler`, `RegisterBlockAndWakeupHandlers` and
`RemoveBlockAndWakeupHandlers`. A pass calls the handlers one after another, and whatever runs
in between may register and remove handlers.
-/

open List

namespace Xfront.Handlers

abbrev Pointer := Nat

structure Registration where
  blockHandler : Pointer
  wakeupHandler : Pointer
  blockData : Pointer
deriving DecidableEq

structure BlockHandlerRec extends Registration where
  deleted : Bool
deriving DecidableEq

/-- Where a pass stands. `BlockHandler` goes up through the entries and then calls the screens,
`WakeupHandler` calls the screens and then goes down. -/
inductive Pass where
  | block (i : Nat)
  | blockScreens
  | wakeupScreens
  | wakeup (i : Nat)
deriving DecidableEq

/-- `handlers` are the first `numHandlers` entries of the array. -/
structure State where
  handlers : List BlockHandlerRec
  sizeHandlers : Nat
  inHandler : Nat
  handlerDeleted : Bool
  pass : Option Pass
deriving DecidableEq

def State.start : State :=
  { handlers := [], sizeHandlers := 0, inHandler := 0, handlerDeleted := false, pass := none }

def State.numHandlers (s : State) : Nat := s.handlers.length

def dropDeleted (handlers : List BlockHandlerRec) (i : Nat) : List BlockHandlerRec :=
  if h : i < handlers.length then
    if handlers[i].deleted then dropDeleted (handlers.eraseIdx i) i
    else dropDeleted handlers (i + 1)
  else handlers
termination_by handlers.length - i
decreasing_by
  · rw [length_eraseIdx_of_lt h]
    omega
  · omega

def State.finish (s : State) : State :=
  { s with
    handlers := if s.handlerDeleted then dropDeleted s.handlers 0 else s.handlers
    handlerDeleted := false
    inHandler := s.inHandler - 1
    pass := none }

def State.register (s : State) (r : Registration) (allocated : Bool) : State × Bool :=
  if s.sizeHandlers ≤ s.numHandlers then
    if allocated then
      ({ s with
        handlers := s.handlers ++ [{ r with deleted := false }]
        sizeHandlers := s.numHandlers + 1 }, true)
    else (s, false)
  else ({ s with handlers := s.handlers ++ [{ r with deleted := false }] }, true)

def State.search (s : State) (r : Registration) : Option Nat :=
  s.handlers.findIdx? (fun h => h.toRegistration = r)

def markDeleted (h : BlockHandlerRec) : BlockHandlerRec := { h with deleted := true }

def State.remove (s : State) (r : Registration) : State :=
  match s.search r with
  | none => s
  | some i =>
    if 0 < s.inHandler then
      { s with handlerDeleted := true, handlers := s.handlers.modify i markDeleted }
    else { s with handlers := s.handlers.eraseIdx i }

inductive Act where
  | register (r : Registration) (allocated : Bool)
  | remove (r : Registration)
  | beginBlock
  | beginWakeup
  /-- What the pass has called returns, and the pass goes on. -/
  | next
deriving DecidableEq

inductive Event where
  | registered (r : Registration) (ok : Bool)
  /-- `entry`: the entry that was marked or taken out. -/
  | removed (r : Registration) (entry : Option Nat)
  | called (i : Nat) (r : Registration)
  | quiet
deriving DecidableEq

def State.turn (s : State) (i : Nat) (then_ : Pass) : Option (State × Event) :=
  (s.handlers[i]?).map fun h =>
    ({ s with pass := some then_ }, if h.deleted then .quiet else .called i h.toRegistration)

def State.next (s : State) : Option (State × Event) :=
  match s.pass with
  | none => none
  | some (.block i) =>
    if i < s.numHandlers then s.turn i (.block (i + 1))
    else some ({ s with pass := some .blockScreens }, .quiet)
  | some .blockScreens => some (s.finish, .quiet)
  | some .wakeupScreens => some ({ s with pass := some (.wakeup s.numHandlers) }, .quiet)
  | some (.wakeup 0) => some (s.finish, .quiet)
  | some (.wakeup (i + 1)) => s.turn i (.wakeup i)

def State.begin (s : State) (p : Pass) : Option (State × Event) :=
  if s.pass = none then some ({ s with inHandler := s.inHandler + 1, pass := some p }, .quiet)
  else none

def step (s : State) : Act → Option (State × Event)
  | .register r allocated =>
    some ((s.register r allocated).1, .registered r (s.register r allocated).2)
  | .remove r => some (s.remove r, .removed r (s.search r))
  | .beginBlock => s.begin (.block 0)
  | .beginWakeup => s.begin .wakeupScreens
  | .next => s.next

end Xfront.Handlers

/-!
## Registrations and passes

What is registered is a multiset of registrations, to which a registration adds and from which
a removal takes one. The unmarked entries of the array are that multiset, as long as no removal
inside a pass comes upon an entry that is already marked while an unmarked one would match.
-/

namespace Xfront.Handlers
open Run (exec Guarded)

def live (handlers : List BlockHandlerRec) : Multiset Registration :=
  ((handlers.filter (!·.deleted)).map BlockHandlerRec.toRegistration : List Registration)

def Event.after (m : Multiset Registration) : Event → Multiset Registration
  | .registered r true => r ::ₘ m
  | .removed r _ => m.erase r
  | _ => m

def registered (es : List Event) : Multiset Registration := es.foldl Event.after 0

theorem live_append (l₁ l₂ : List BlockHandlerRec) : live (l₁ ++ l₂) = live l₁ + live l₂ := by
  rw [live, filter_append, map_append, ← Multiset.coe_add]
  rfl

variable {h : BlockHandlerRec}

theorem live_marked (hh : h.deleted = true) : live [h] = 0 := by
  simp [live, hh]

theorem live_unmarked (hh : h.deleted = false) : live [h] = {h.toRegistration} := by
  simp [live, hh]

variable {r : Registration}

theorem mem_live {handlers : List BlockHandlerRec} :
    r ∈ live handlers ↔ ∃ h ∈ handlers, h.deleted = false ∧ h.toRegistration = r := by
  simp [live, and_assoc]

theorem live_split {handlers : List BlockHandlerRec} {i : Nat} (hi : handlers[i]? = some h) :
    live handlers = live [h] + live (handlers.eraseIdx i) ∧
      live (handlers.modify i markDeleted) = live (handlers.eraseIdx i) := by
  obtain ⟨hlt, rfl⟩ := List.getElem?_eq_some_iff.mp hi
  have hall : handlers = handlers.take i ++ ([handlers[i]] ++ handlers.drop (i + 1)) := by
    rw [singleton_append, getElem_cons_drop, take_append_drop]
  constructor
  · conv_lhs => rw [hall]
    rw [eraseIdx_eq_take_drop_succ, live_append, live_append, live_append, ← Multiset.add_assoc,
      Multiset.add_comm (live (handlers.take i)), Multiset.add_assoc]
  · rw [modify_eq_take_cons_drop hlt, eraseIdx_eq_take_drop_succ, live_append,
      ← singleton_append, live_append, live_append, live_marked (h := markDeleted _) rfl,
      Multiset.zero_add]

theorem dropDeleted_eq (handlers : List BlockHandlerRec) (i : Nat)
    (h : ∀ x ∈ handlers.take i, x.deleted = false) :
    dropDeleted handlers i = handlers.filter (!·.deleted) := by
  fun_induction dropDeleted handlers i with
  | case1 handlers i hlt hdel ih =>
    have htake : (handlers.eraseIdx i).take i = handlers.take i := by
      rw [eraseIdx_eq_take_drop_succ, take_append_of_le_length (by simp; omega),
        take_take, min_self]
    rw [ih (by rwa [htake]), eraseIdx_eq_take_drop_succ, filter_append]
    conv_rhs => rw [← take_append_drop i handlers, ← getElem_cons_drop hlt]
    rw [filter_append, filter_cons_of_neg (by simp [hdel])]
  | case2 handlers i hlt hdel ih =>
    refine ih fun x hx => ?_
    rw [take_succ_eq_append_getElem hlt] at hx
    rcases mem_append.mp hx with hx | hx
    · exact h x hx
    · rw [mem_singleton.mp hx]
      simpa using hdel
  | case3 handlers i hlt =>
    rw [take_of_length_le (by omega)] at h
    exact (filter_eq_self.mpr fun x hx => by simp [h x hx]).symm

theorem live_dropDeleted (handlers : List BlockHandlerRec) :
    live (dropDeleted handlers 0) = live handlers ∧
      ∀ h ∈ dropDeleted handlers 0, h.deleted = false := by
  rw [dropDeleted_eq handlers 0 (by simp)]
  refine ⟨by simp [live, filter_filter], fun h hh => ?_⟩
  simpa using (mem_filter.mp hh).2

structure State.Sound (s : State) : Prop where
  unmarked : s.handlerDeleted = false → ∀ h ∈ s.handlers, h.deleted = false
  idle : s.pass = none → s.handlerDeleted = false ∧ s.inHandler = 0
  busy : s.pass ≠ none → s.inHandler = 1
  fits : s.numHandlers ≤ s.sizeHandlers
  inside : ∀ i, s.pass = some (.wakeup i) → i ≤ s.numHandlers

theorem State.start_sound : State.start.Sound :=
  ⟨by simp [State.start], by simp [State.start], by simp [State.start], by simp [State.start, State.numHandlers],
    by simp [State.start]⟩

/-- A removal inside a pass does not stop at a marked entry while an unmarked one matches. -/
def Fresh (s : State) : Act → Prop
  | .remove r => ∀ i h, s.search r = some i → s.handlers[i]? = some h → h.deleted = true →
      r ∉ live s.handlers
  | _ => True

variable {s : State}

theorem search_some {i : Nat} (h : s.search r = some i) :
    ∃ x, s.handlers[i]? = some x ∧ x.toRegistration = r := by
  obtain ⟨hlt, hx, _⟩ := findIdx?_eq_some_iff_getElem.mp h
  exact ⟨_, getElem?_eq_getElem hlt, by simpa using hx⟩

theorem search_none (h : s.search r = none) : r ∉ live s.handlers := by
  intro hr
  obtain ⟨x, hx, _, hxr⟩ := mem_live.mp hr
  have := findIdx?_eq_none_iff.mp h x hx
  simp [hxr] at this

theorem register_sound (hs : s.Sound) (r : Registration) (allocated : Bool) :
    (s.register r allocated).1.Sound ∧ live (s.register r allocated).1.handlers =
        Event.after (live s.handlers) (.registered r (s.register r allocated).2) := by
  have hadd : live (s.handlers ++ [{ r with deleted := false }]) = r ::ₘ live s.handlers := by
    rw [live_append, live_unmarked rfl, Multiset.add_comm, Multiset.singleton_add]
  have hkeep : s.handlerDeleted = false →
      ∀ h ∈ s.handlers ++ [({ r with deleted := false } : BlockHandlerRec)], h.deleted = false := by
    intro hd h hh
    rcases mem_append.mp hh with hh | hh
    · exact hs.unmarked hd h hh
    · rw [mem_singleton.mp hh]
  have hwider : ∀ i, s.pass = some (.wakeup i) →
      i ≤ (s.handlers ++ [({ r with deleted := false } : BlockHandlerRec)]).length := by
    intro i hi
    have := hs.inside i hi
    rw [State.numHandlers] at this
    rw [length_append]
    omega
  rw [State.register]
  split
  · next hfull =>
    split
    · exact ⟨⟨hkeep, hs.idle, hs.busy, by simp [State.numHandlers], hwider⟩, hadd⟩
    · exact ⟨hs, rfl⟩
  · next hroom =>
    refine ⟨⟨hkeep, hs.idle, hs.busy, ?_, hwider⟩, hadd⟩
    simp only [State.numHandlers, length_append, length_singleton] at hroom ⊢
    omega

theorem remove_sound (hs : s.Sound) (r : Registration) : (s.remove r).Sound := by
  rw [State.remove]
  split
  · exact hs
  split
  · next i _ hin =>
    refine ⟨by simp, fun hp => ?_, hs.busy, ?_, ?_⟩
    · have := (hs.idle hp).2
      omega
    · simpa [State.numHandlers] using hs.fits
    · simpa [State.numHandlers] using hs.inside
  · next i _ hin =>
    have hpass : s.pass = none := by
      by_contra hp
      have := hs.busy hp
      omega
    refine ⟨fun hd h hh => hs.unmarked hd h (mem_of_mem_eraseIdx hh), hs.idle, hs.busy, ?_, ?_⟩
    · have := hs.fits
      have := length_eraseIdx_le s.handlers i
      simp only [State.numHandlers] at *
      omega
    · simp [hpass]

theorem remove_live (hs : s.Sound) (hf : Fresh s (.remove r)) :
    live (s.remove r).handlers = (live s.handlers).erase r := by
  rw [State.remove]
  split
  · next hnone => rw [Multiset.erase_of_notMem (search_none hnone)]
  next i hi =>
  obtain ⟨x, hx, rfl⟩ := search_some hi
  obtain ⟨hsplit, hmark⟩ := live_split hx
  cases hd : x.deleted with
  | false =>
    rw [hsplit, live_unmarked hd, Multiset.singleton_add, Multiset.erase_cons_head]
    split
    · exact hmark
    · rfl
  | true =>
    have hin : 0 < s.inHandler := by
      by_contra hin
      have hidle : s.pass = none := by
        by_contra hp
        have := hs.busy hp
        omega
      have := hs.unmarked (hs.idle hidle).1 x (mem_of_getElem? hx)
      rw [hd] at this
      cases this
    rw [if_pos hin, Multiset.erase_of_notMem (hf i x hi hx hd), hsplit, live_marked hd, Multiset.zero_add]
    exact hmark

theorem finish_sound (hs : s.Sound) (hp : s.pass ≠ none) :
    s.finish.Sound ∧ live s.finish.handlers = live s.handlers := by
  obtain ⟨hlive, hclean⟩ := live_dropDeleted s.handlers
  have hin := hs.busy hp
  have hfits := hs.fits
  cases hd : s.handlerDeleted with
  | false =>
    refine ⟨⟨fun _ => ?_, fun _ => ?_, ?_, ?_, ?_⟩, ?_⟩
    · simpa [State.finish, hd] using hs.unmarked hd
    · simp [State.finish, hin]
    · simp [State.finish]
    · simpa [State.finish, hd, State.numHandlers] using hfits
    · simp [State.finish]
    · simp [State.finish, hd]
  | true =>
    refine ⟨⟨fun _ => ?_, fun _ => ?_, ?_, ?_, ?_⟩, ?_⟩
    · simpa [State.finish, hd] using hclean
    · simp [State.finish, hin]
    · simp [State.finish]
    · have hle := length_filter_le (!·.deleted) s.handlers
      simp only [State.finish, hd, State.numHandlers, if_true, dropDeleted_eq s.handlers 0 (by simp)] at hfits ⊢
      omega
    · simp [State.finish]
    · simpa [State.finish, hd] using hlive

end Xfront.Handlers
