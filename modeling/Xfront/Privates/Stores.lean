import Xfront.Lib.Run
import Xfront.Privates.Areas

/-!
# What is stored through the keys

Beside the state a run keeps what was last stored in each object through each key, and
whether a registration has failed for want of memory.
-/

namespace Xfront.Privates
open Function

open Bytes (Byte Block)
open Packing (Packed packed_bounds packed_apart packed_shift packed_congr packed_le)
open Run (exec Guarded Always)

structure Tracked where
  state : State
  last : Nat → Nat → Option (List Byte)
  starved : Bool

def Tracked.after (s : Tracked) (action : Action) (state : State) (result : Bool) : Tracked :=
  match action with
  | .register .. => ⟨state, s.last, s.starved || !result⟩
  | .create id .. => ⟨state, update s.last id fun _ => none, s.starved⟩
  | .set id key val =>
    ⟨state, update s.last id (update (s.last id) key (some val)), s.starved⟩
  | _ => ⟨state, s.last, s.starved⟩

def track (s : Tracked) (action : Action) : Option (Tracked × Bool) :=
  (step s.state action).map fun (state, result) => (s.after action state result, result)

def trackedStart : Tracked := ⟨start, fun _ _ => none, false⟩

def Tracked.value (s : Tracked) (id key : Nat) : List Byte :=
  (s.last id key).getD (List.replicate (s.state.keys key).storage 0)

/-- The storage of the keys of an object is apart and inside its private area, which is as
large as its set says, and has what was stored. -/
structure Sound (s : Tracked) : Prop where
  apart : ∀ o ∈ s.state.objects, ∀ k ∈ keysFor s.state o, ∀ k' ∈ keysFor s.state o, k ≠ k' →
    (s.state.keys k).offset + (s.state.keys k).storage ≤ (s.state.keys k').offset ∨
      (s.state.keys k').offset + (s.state.keys k').storage ≤ (s.state.keys k).offset
  inside : ∀ o ∈ s.state.objects, ∀ k ∈ keysFor s.state o,
    (s.state.keys k).offset + (s.state.keys k).storage ≤ privatesSize s.state o.type o.screen
  size : ∀ o ∈ s.state.objects, privatesSize s.state o.type o.screen ≤ o.area.size ∧
    (s.starved = false → o.area.size = privatesSize s.state o.type o.screen)
  reads : ∀ o ∈ s.state.objects, ∀ k ∈ keysFor s.state o,
    getPrivate s.state o k = some (s.value o.id k)

def Reached (s : State) (type : PrivateType) : Prop :=
  allocatedEarly type = true → ∀ o ∈ s.objects, o.type = type → o.reached = true

/-- A new key finds room, the objects that are there already can be given more of it, and a
shared key is the first. -/
def Keeps (s : Tracked) : Action → Prop
  | .register key type size _ => (s.state.keys key).initialized = false →
    if type = .xselinux then (s.state.globalKeys .xselinux).keys = [] ∧
      ∀ t, xselinuxPrivate t = true → Roomy s.state t (neededSize size) ∧ Reached s.state t
    else Roomy s.state type (neededSize size) ∧ Reached s.state type
  | .registerScreenSpecific screen key type size => (s.state.keys key).initialized = false →
    ∀ set ∈ screenSet s.state screen type, set.offset + neededSize size ≤ 2 ^ 31
  | _ => True

structure Laid (s : State) (shared : Nat) : Prop where
  front : Packed (fun k => (s.keys k).offset) (fun k => (s.keys k).padded) 0 shared
    (s.globalKeys .xselinux).keys
  layout : Layout s fun type => if xselinuxPrivate type then shared else 0

structure Filled (s : Tracked) (o : Object) : Prop where
  fits : privatesSize s.state o.type o.screen ≤ o.area.size
  exact : s.starved = false → o.area.size = privatesSize s.state o.type o.screen
  holds : ∀ k ∈ keysFor s.state o,
    o.area.slice (s.state.keys k).offset (s.state.keys k).storage = s.value o.id k

structure Inv (s : Tracked) : Prop where
  listed : Listed s.state
  laid : ∃ shared, Laid s.state shared
  roomy : ∀ type, type ≠ .xselinux → Roomy s.state type 0
  census : Census s.state
  filled : ∀ o ∈ s.state.objects, Filled s o
  fresh : ∀ id key, (s.state.keys key).initialized = false → s.last id key = none

variable {s : State} {shared : Nat}

theorem base_le (h : Laid s shared) {type : PrivateType} (hne : type ≠ .xselinux) :
    (if xselinuxPrivate type then shared else 0) ≤ (s.globalKeys type).offset :=
  packed_le (h.layout.global type hne)

variable {o : Object} {k : Nat}

theorem keysFor_cases (h : Laid s shared) (hne : o.type ≠ .xselinux)
    (hk : k ∈ keysFor s o) : ∃ lo hi l, k ∈ l ∧ hi ≤ privatesSize s o.type o.screen ∧
      Packed (fun k => (s.keys k).offset) (fun k => (s.keys k).padded) lo hi l := by
  have hglobal := global_le_privatesSize h.layout hne o.screen
  rcases mem_keysFor.mp hk with ⟨hx, hk⟩ | hk | ⟨i, hi, hk⟩
  · have hbase := base_le h hne
    rw [if_pos hx] at hbase
    exact ⟨_, _, _, hk, le_trans hbase hglobal, h.front⟩
  · exact ⟨_, _, _, hk, hglobal, h.layout.global o.type hne⟩
  · obtain ⟨set, hset, hk⟩ := mem_keysAt_screen.mp hk
    rw [hi, screen_privatesSize h.layout hne hset]
    exact ⟨_, _, _, hk, le_refl _, h.layout.screen i o.type set hne hset⟩

theorem key_inside (h : Laid s shared) (hne : o.type ≠ .xselinux) (hk : k ∈ keysFor s o) :
    (s.keys k).offset + (s.keys k).padded ≤ privatesSize s o.type o.screen := by
  obtain ⟨lo, hi, l, hl, hle, hpacked⟩ := keysFor_cases h hne hk
  exact le_trans (packed_bounds hpacked hl).2 hle

theorem keys_apart (h : Laid s shared) (hne : o.type ≠ .xselinux) {k' : Nat}
    (hk : k ∈ keysFor s o) (hk' : k' ∈ keysFor s o) (hdiff : k ≠ k') :
    (s.keys k).offset + (s.keys k).padded ≤ (s.keys k').offset ∨
      (s.keys k').offset + (s.keys k').padded ≤ (s.keys k).offset := by
  have hglobal := h.layout.global o.type hne
  have hbase : xselinuxPrivate o.type = true → ∀ j ∈ keysAt s (.global .xselinux),
      (s.keys j).offset + (s.keys j).padded ≤ shared := fun _ j hj =>
    (packed_bounds h.front hj).2
  have htype : xselinuxPrivate o.type = true → ∀ j ∈ keysAt s (.global o.type),
      shared ≤ (s.keys j).offset ∧
        (s.keys j).offset + (s.keys j).padded ≤ (s.globalKeys o.type).offset := fun hx j hj => by
    have hb := packed_bounds hglobal hj
    rw [if_pos hx] at hb
    exact hb
  have hscreen : ∀ i, ∀ j ∈ keysAt s (.screen i o.type),
      (s.globalKeys o.type).offset ≤ (s.keys j).offset := fun i j hj => by
    obtain ⟨set, hset, hj⟩ := mem_keysAt_screen.mp hj
    exact (packed_bounds (h.layout.screen i o.type set hne hset) hj).1
  have hshared := base_le h hne
  have hends : ∀ j ∈ keysAt s (.global o.type),
      (s.keys j).offset + (s.keys j).padded ≤ (s.globalKeys o.type).offset := fun j hj =>
    (packed_bounds hglobal hj).2
  rcases mem_keysFor.mp hk with ⟨hx, hk⟩ | hk | ⟨i, hi, hk⟩ <;>
    rcases mem_keysFor.mp hk' with ⟨hx', hk'⟩ | hk' | ⟨i', hi', hk'⟩
  · have happart := packed_apart h.front hk hk' hdiff
    exact happart
  · exact .inl (le_trans (hbase hx k hk) (htype hx k' hk').1)
  · rw [if_pos hx] at hshared
    exact .inl (le_trans (hbase hx k hk) (le_trans hshared (hscreen i' k' hk')))
  · exact .inr (le_trans (hbase hx' k' hk') (htype hx' k hk).1)
  · have happart := packed_apart hglobal hk hk' hdiff
    exact happart
  · exact .inl (le_trans (hends k hk) (hscreen i' k' hk'))
  · rw [if_pos hx'] at hshared
    exact .inr (le_trans (hbase hx' k' hk') (le_trans hshared (hscreen i k hk)))
  · exact .inr (le_trans (hends k' hk') (hscreen i k hk))
  · rw [hi] at hi'
    cases hi'
    obtain ⟨set, hset, hk⟩ := mem_keysAt_screen.mp hk
    obtain ⟨set', hset', hk'⟩ := mem_keysAt_screen.mp hk'
    rw [hset] at hset'
    cases hset'
    have happart := packed_apart (h.layout.screen i o.type set hne hset) hk hk' hdiff
    exact happart

theorem storage_pos (key : Key) : 0 < key.storage := by
  rw [Key.storage]
  split <;> omega

theorem privatesSize_le (h : ∀ type, type ≠ .xselinux → Roomy s type 0) {type : PrivateType}
    (hne : type ≠ .xselinux) (screen : Option Nat) : privatesSize s type screen ≤ 2 ^ 31 := by
  have hroomy := h type hne
  rw [privatesSize]
  split
  · split
    · next set hset =>
      obtain ⟨i, -, hset⟩ := Option.bind_eq_some_iff.mp hset
      exact hroomy.screen i set hset
    · exact hroomy.global
  · exact hroomy.global

theorem keysFor_listed (hk : k ∈ keysFor s o) : ∃ home, k ∈ keysAt s home := by
  rcases mem_keysFor.mp hk with ⟨-, hk⟩ | hk | ⟨i, -, hk⟩
  · exact ⟨_, hk⟩
  · exact ⟨_, hk⟩
  · exact ⟨_, hk⟩

theorem sound_of_inv {s : Tracked} (h : Inv s) : Sound s := by
  obtain ⟨shared, hlaid⟩ := h.laid
  refine ⟨fun o ho k hk k' hk' hdiff => ?_, fun o ho k hk => ?_, fun o ho => ?_,
    fun o ho k hk => ?_⟩
  · have hstore := storage_le (s.state.keys k)
    have hstore' := storage_le (s.state.keys k')
    rcases keys_apart hlaid (h.census.typed o ho) hk hk' hdiff with hle | hle
    · exact .inl (by omega)
    · exact .inr (by omega)
  · have hin := key_inside hlaid (h.census.typed o ho) hk
    have hstore := storage_le (s.state.keys k)
    omega
  · exact ⟨(h.filled o ho).fits, (h.filled o ho).exact⟩
  · have hin := key_inside hlaid (h.census.typed o ho) hk
    have hstore := storage_le (s.state.keys k)
    have hpos := storage_pos (s.state.keys k)
    have hsize := privatesSize_le h.roomy (h.census.typed o ho) o.screen
    have hfits := (h.filled o ho).fits
    obtain ⟨home, hhome⟩ := keysFor_listed hk
    have hinit := h.listed.known home k hhome
    have hok : ¬((!(s.state.keys k).initialized) = true ∨ 2 ^ 31 ≤ (s.state.keys k).offset) := by
      rintro (hbad | hbad)
      · rw [hinit] at hbad
        cases hbad
      · omega
    rw [getPrivate, if_neg hok, Block.read_eq (by omega), (h.filled o ho).holds k hk]

theorem filled_frame {s s' : Tracked} {o' : Object} (h : Filled s o)
    (htype : o'.type = o.type) (hscreen : o'.screen = o.screen) (hid : o'.id = o.id)
    (hsize : privatesSize s'.state o.type o.screen = privatesSize s.state o.type o.screen)
    (hfits : privatesSize s.state o.type o.screen ≤ o'.area.size)
    (hexact : s'.starved = false → o'.area.size = privatesSize s.state o.type o.screen)
    (hkeys : ∀ k ∈ keysFor s'.state o, k ∈ keysFor s.state o ∧
    (s'.state.keys k).storage = (s.state.keys k).storage ∧ s'.last o.id k = s.last o.id k ∧
      o'.area.slice (s'.state.keys k).offset (s.state.keys k).storage =
        o.area.slice (s.state.keys k).offset (s.state.keys k).storage) : Filled s' o' := by
  have hsame : keysFor s'.state o' = keysFor s'.state o := by
    rw [keysFor, keysFor, htype, hscreen]
  refine ⟨?_, fun hs => ?_, fun k hk => ?_⟩
  · rw [htype, hscreen, hsize]
    exact hfits
  · rw [htype, hscreen, hsize]
    exact hexact hs
  · rw [hsame] at hk
    obtain ⟨hold, hstorage, hlast, hslice⟩ := hkeys k hk
    rw [hstorage, hslice, h.holds k hold, Tracked.value, Tracked.value, hid, hlast, hstorage]

end Xfront.Privates
