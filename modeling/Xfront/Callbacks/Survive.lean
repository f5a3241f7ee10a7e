import Xfront.Callbacks.Refine

/-!
# Callback lists in every run

No operation touches freed memory, whatever the callbacks do.
-/

namespace Xfront.Callbacks
open List Option Nat Prod
open Linked (Addr Node Heap Chain addrs)
open Run (exec Guarded exec_keeps)

abbrev Added := Addr × Pointer × Pointer

def Event.after (added : List Added) : Event → List Added
  | .added a proc data => (a, proc, data) :: added
  | .deleted proc data (some _) => added.eraseP fun x => x.2 = (proc, data)
  | .listFreed _ => []
  | _ => added

def registered (es : List Event) : List Added := es.foldl Event.after []

def toAdded (x : Addr × Callback) : Added := (x.1, x.2.proc, x.2.data)

def live (entries : List (Addr × Callback)) : List Added :=
  (entries.filter fun x => !isMarked x).map toAdded

theorem live_append (l₁ l₂ : List (Addr × Callback)) : live (l₁ ++ l₂) = live l₁ ++ live l₂ := by
  rw [live, filter_append, map_append]
  rfl

variable {x : Addr × Callback}

theorem live_cons_marked (hx : isMarked x = true)
    (l : List (Addr × Callback)) : live (x :: l) = live l := by
  rw [live, filter_cons_of_neg (by simp [hx])]
  rfl

theorem live_cons (hx : isMarked x = false) (l : List (Addr × Callback)) :
    live (x :: l) = toAdded x :: live l := by
  rw [live, filter_cons_of_pos (by simp [hx])]
  rfl

theorem mem_live {l : List (Addr × Callback)} (hx : isMarked x = false)
    (hm : x ∈ l) : x.1 ∈ (live l).map fst := by
  refine List.mem_map.mpr ⟨toAdded x, List.mem_map_of_mem (mem_filter.mpr ⟨hm, ?_⟩), rfl⟩
  simp [hx]

theorem live_of_unmarked {l : List (Addr × Callback)} (h : ∀ x ∈ l, isMarked x = false) :
    live l = l.map toAdded := by
  rw [live, filter_eq_self.mpr fun x hx => by simp [h x hx]]

variable {proc data : Pointer}

theorem isCallback_iff : isCallback proc data x.2 = true ↔ (toAdded x).2 = (proc, data) := by
  simp [isCallback, toAdded]

variable {front back : List (Addr × Callback)} {c : Callback}

theorem live_erase {a : Addr} (hfront : ∀ x ∈ front, isCallback proc data x.2 = false)
    (hc : isCallback proc data c = true) (hd : isMarked (a, c) = false) :
    (live (front ++ (a, c) :: back)).eraseP (fun x => x.2 = (proc, data)) =
      live front ++ live back := by
  have hno : ∀ y ∈ live front, ¬ (decide (y.2 = (proc, data)) = true) := by
    intro y hy hm
    obtain ⟨x, hx, rfl⟩ := List.mem_map.mp hy
    have := isCallback_iff.mpr (of_decide_eq_true hm)
    rw [hfront x (mem_filter.mp hx).1] at this
    cases this
  rw [live_append, live_cons hd, eraseP_append_right _ hno, eraseP_cons_of_pos]
  exact decide_eq_true (isCallback_iff.mp hc)

def State.entries (s : State) : List (Addr × Callback) :=
  match s.pcbl.bind s.readList with
  | none => []
  | some c => Linked.walk s.records s.records.size c.list

def behind (b : Addr) (entries : List (Addr × Callback)) : List (Addr × Callback) :=
  (entries.dropWhile fun x => x.1 ≠ b).tail

/-- Inside a call, a deletion marks a record that is not marked and that no call under way has
still to reach, and a nested call starts with no record marked. -/
def Careful (s : State) : Act → Prop
  | .delete proc data => s.frames ≠ [] →
    ∀ x, s.entries.find? (fun x => isCallback proc data x.2) = some x →
      isMarked x = false ∧ ∀ f ∈ s.frames, x.1 ∉ addrs (behind f.cbr s.entries)
  | .call => s.frames ≠ [] → ∀ x ∈ s.entries, isMarked x = false
  | _ => True

theorem behind_split {entries : List (Addr × Callback)} {b : Addr}
    (hn : (addrs entries).Nodup) (hsplit : entries = front ++ (b, c) :: back) :
    behind b entries = back := by
  subst hsplit
  have hfront : ∀ x ∈ front, decide (x.1 ≠ b) = true := by
    intro x hx
    refine decide_eq_true ?_
    rintro rfl
    exact (Linked.nodup_middle hn).1 (List.mem_map_of_mem hx)
  rw [behind, dropWhile_append_of_pos hfront, dropWhile_cons_of_neg (by simp), tail_cons]

theorem behind_mark {a b : Addr} (ha : a ∉ addrs (behind b (front ++ (a, c) :: back))) :
    behind b (front ++ (a, mark c) :: back) = behind b (front ++ (a, c) :: back) := by
  simp only [behind, dropWhile_append] at ha ⊢
  cases hfront : front.dropWhile (fun x => decide (x.1 ≠ b)) with
  | nil =>
    simp only [isEmpty_nil, if_true]
    by_cases hab : a = b
    · simp [hab]
    · simp [hab]
  | cons x rest =>
    rw [hfront] at ha
    exact absurd (by simp [addrs]) ha

structure Tidy (r : Registry) (added : List Added) : Prop where
  counted : r.entries.countP isMarked = r.numDeleted
  live : live r.entries = added
  ahead : ∀ b ∈ r.cursors, ∀ x ∈ behind b r.entries, isMarked x = false

def View.Tidy (v : View) (added : List Added) : Prop :=
  (v.current = none → added = []) ∧ ∀ r, v.current = some r → Callbacks.Tidy r added

variable {s : State} {n : Nat} {r : Registry}

theorem Represents.entries (h : Represents s ⟨n, some r⟩) : s.entries = r.entries := by
  obtain ⟨hp, ⟨list, hr, hc⟩, hn, _⟩ := h.holds_cur
  rw [State.entries, hp, bind_some, hr]
  exact hc.walk (hc.length_le hn)

theorem Represents.nodup (h : Represents s ⟨n, some r⟩) :
    (addrs r.entries).Nodup := h.holds_cur.nodup

theorem find?_split
    (hfront : ∀ y ∈ front, isCallback proc data y.2 = false) (hx : isCallback proc data x.2 = true) :
    (front ++ x :: back).find? (fun y => isCallback proc data y.2) = some x := by
  rw [find?_append, find?_eq_none.mpr fun y hy => by simp [hfront y hy], none_or, find?_cons_of_pos]
  exact hx

variable {v v' : View} {e : Event}

theorem Move.tidy {s' : State} {a : Act} {added : List Added}
    (hm : Move v a e v') (hs : Represents s v) (hs' : Represents s' v') (hv : v.Sound)
    (ht : v.Tidy added) (hg : Careful s a) :
    v'.Tidy (e.after added) ∧ ∀ b, e = .invoked b → b ∈ added.map Prod.fst := by
  cases hm with
  | notAdded | notFound | idle => exact ⟨ht, by simp⟩
  | created | addedFirst =>
    rw [ht.1 rfl]
    refine ⟨⟨by simp, ?_⟩, by simp⟩
    rintro _ ⟨⟩
    exact ⟨rfl, rfl, by simp [Registry.empty]⟩
  | @added n r p d b₁ b₂ b =>
    refine ⟨⟨by simp, ?_⟩, by simp⟩
    rintro _ ⟨⟩
    obtain ⟨hcount, hlive, hahead⟩ := ht.2 r rfl
    refine ⟨?_, ?_, fun x hx y hy => hahead x hx y ?_⟩
    · simpa [isMarked] using hcount
    · rw [live_cons (by rfl), hlive]
      rfl
    · -- the new record stands before every cursor
      have hne : b ≠ x := by
        rintro rfl
        exact (nodup_cons.mp hs'.nodup).1 ((hv r rfl).cursors b hx)
      simpa [behind, hne] using hy
  | @marked n r p d front b c back hsplit hfront hc hbusy =>
    have hframes : s.frames ≠ [] := by
      rw [hs.holds_cur.frames]
      simpa using hbusy
    obtain ⟨hd, hfar⟩ := hg hframes (b, c) (by
      rw [hs.entries, hsplit]
      exact find?_split hfront hc)
    refine ⟨⟨by simp, ?_⟩, by simp⟩
    rintro _ ⟨⟩
    obtain ⟨hcount, hlive, hahead⟩ := ht.2 r rfl
    rw [hsplit] at hcount hlive hahead
    have hmark : isMarked (b, mark c) = true := rfl
    refine ⟨?_, ?_, fun x hx y hy => hahead x hx y ?_⟩
    · rw [countP_append, countP_cons, hd] at hcount
      rw [countP_append, countP_cons, hmark, if_pos rfl, ← hcount]
      simp only [Bool.false_eq_true, if_false]
      omega
    · rw [live_append, live_cons_marked hmark, ← hlive]
      exact (live_erase hfront hc hd).symm
    · have hx' : Frame.mk r.head x ∈ s.frames := by
        rw [hs.holds_cur.frames]
        exact List.mem_map_of_mem hx
      have := hfar _ hx'
      rw [hs.entries, hsplit] at this
      rwa [behind_mark this] at hy
  | @unlinked n r p d front b c back hsplit hfront hc hidle =>
    refine ⟨⟨by simp, ?_⟩, by simp⟩
    rintro _ ⟨⟩
    obtain ⟨hcount, hlive, _⟩ := ht.2 r rfl
    have hd : isMarked (b, c) = false := ((hv r rfl).idle hidle).2 _ (by simp [hsplit])
    rw [hsplit] at hcount hlive
    refine ⟨?_, ?_, by simp [hidle]⟩
    · rw [countP_append, countP_cons, hd] at hcount
      rw [countP_append, ← hcount]
      simp
    · rw [live_append, ← hlive]
      exact (live_erase hfront hc hd).symm
  | @deferred n r hbusy =>
    refine ⟨⟨by simp, ?_⟩, by simp⟩
    rintro _ ⟨⟩
    exact ⟨(ht.2 r rfl).counted, (ht.2 r rfl).live, (ht.2 r rfl).ahead⟩
  | freed | endedFreed => exact ⟨⟨fun _ => rfl, by simp⟩, by simp⟩
  | @called n r b c back hsplit =>
    have hclean : ∀ x ∈ r.entries, isMarked x = false := by
      by_cases hidle : r.cursors = []
      · exact ((hv r rfl).idle hidle).2
      · rw [← hs.entries]
        exact hg (by rw [hs.holds_cur.frames]; simpa using hidle)
    obtain ⟨hcount, hlive, hahead⟩ := ht.2 r rfl
    refine ⟨⟨by simp, ?_⟩, ?_⟩
    · rintro _ ⟨⟩
      refine ⟨hcount, hlive, fun x _ y hy => hclean y ?_⟩
      exact (dropWhile_sublist _).mem (mem_of_mem_tail hy)
    · rintro _ ⟨⟩
      rw [← hlive]
      have hm : (b, c) ∈ r.entries := by simp [hsplit]
      exact mem_live (hclean _ hm) hm
  | @stepped n r b cb d cd front back rest hcur hsplit =>
    obtain ⟨hcount, hlive, hahead⟩ := ht.2 r rfl
    have hn := hs.nodup
    have hd : behind d r.entries = (b, cb) :: back := behind_split hn hsplit
    have hb : behind b r.entries = back :=
      behind_split (c := cb) hn (show r.entries = (front ++ [(d, cd)]) ++ (b, cb) :: back by simp [hsplit])
    have hclean := hahead d (by simp [hcur])
    rw [hd] at hclean
    refine ⟨⟨by simp, ?_⟩, ?_⟩
    · rintro _ ⟨⟩
      refine ⟨hcount, hlive, fun x hx => ?_⟩
      rcases mem_cons.mp hx with rfl | hx
      · rw [hb]
        exact fun y hy => hclean y (mem_cons_of_mem _ hy)
      · exact hahead x (by rw [hcur]; exact mem_cons_of_mem _ hx)
    · rintro _ ⟨⟩
      rw [← hlive]
      exact mem_live (hclean _ mem_cons_self) (by simp [hsplit])
  | @ended n r b cb front rest hcur hrest hsplit =>
    refine ⟨⟨by simp, ?_⟩, by simp⟩
    rintro _ ⟨⟩
    obtain ⟨hcount, hlive, hahead⟩ := ht.2 r rfl
    exact ⟨hcount, hlive, fun x hx => hahead x (by rw [hcur]; exact mem_cons_of_mem _ hx)⟩
  | @swept n r b hcur hdel =>
    refine ⟨⟨by simp, ?_⟩, by simp⟩
    rintro _ ⟨⟩
    obtain ⟨hcount, hlive, hahead⟩ := ht.2 r rfl
    have hclean : ∀ x ∈ r.entries.filter fun x => !isMarked x, isMarked x = false := by
      intro x hx
      simpa using (mem_filter.mp hx).2
    refine ⟨?_, ?_, by simp⟩
    · rw [hcount, Nat.sub_self]
      exact countP_eq_zero.mpr fun x hx => by simp [hclean x hx]
    · rw [live_of_unmarked hclean, ← hlive]
      rfl

structure Freed (v : View) (es : List Event) : Prop where
  once : ∀ l, es.count (.listFreed l) ≤ 1
  past : ∀ l, .listFreed l ∈ es → l < v.size ∧ ∀ r, v.current = some r → r.head ≠ l
  head : ∀ r, v.current = some r → r.head < v.size
  deferred : ∀ l, .deferred l ∈ es →
    .listFreed l ∈ es ∨ ∃ r, v.current = some r ∧ r.head = l ∧ r.deleted = true

variable {es : List Event}

theorem Freed.keep (h : Freed v es) (hfreed : ∀ l, e ≠ .listFreed l) (hdefer : ∀ l, e ≠ .deferred l)
    (hsize : v.size ≤ v'.size) (hhead : ∀ r, v'.current = some r → r.head < v'.size)
    (hold : ∀ r, v'.current = some r → v.size ≤ r.head ∨ ∃ r₀, v.current = some r₀ ∧ r₀.head = r.head)
    (hdel : ∀ r₀, v.current = some r₀ → r₀.deleted = true →
      ∃ r, v'.current = some r ∧ r.head = r₀.head ∧ r.deleted = true) : Freed v' (es ++ [e]) := by
  have hmem : ∀ l, .listFreed l ∈ es ++ [e] → .listFreed l ∈ es := by
    intro l hl
    rcases mem_append.mp hl with hl | hl
    · exact hl
    · exact absurd (mem_singleton.mp hl).symm (hfreed l)
  refine ⟨fun l => ?_, fun l hl => ?_, hhead, fun l hl => ?_⟩
  · rw [count_append, count_singleton, if_neg (by simpa using hfreed l)]
    exact h.once l
  · obtain ⟨hlt, hne⟩ := h.past l (hmem l hl)
    refine ⟨lt_of_lt_of_le hlt hsize, fun r hr hl' => ?_⟩
    rcases hold r hr with hnew | ⟨r₀, hr₀, heq⟩
    · exact absurd (hl' ▸ hnew) (Nat.not_le_of_lt hlt)
    · exact hne r₀ hr₀ (heq.trans hl')
  · rcases mem_append.mp hl with hl | hl
    · rcases h.deferred l hl with hl | ⟨r₀, hr₀, rfl, hd⟩
      · exact .inl (mem_append_left _ hl)
      · exact .inr (hdel r₀ hr₀ hd)
    · exact absurd (mem_singleton.mp hl).symm (hdefer l)

theorem Freed.free (h : Freed ⟨n, some r⟩ es) : Freed ⟨n, none⟩ (es ++ [.listFreed r.head]) := by
  have hnew : .listFreed r.head ∉ es := fun hm => (h.past _ hm).2 r rfl rfl
  refine ⟨fun l => ?_, fun l hl => ⟨?_, nofun⟩, nofun, fun l hl => .inl ?_⟩
  · rw [count_append, count_singleton]
    by_cases hl : r.head = l
    · subst hl
      rw [count_eq_zero_of_not_mem hnew]
      simp
    · simpa [hl] using h.once l
  · rcases mem_append.mp hl with hl | hl
    · exact (h.past l hl).1
    · cases mem_singleton.mp hl
      exact h.head r rfl
  · rcases mem_append.mp hl with hl | hl
    · rcases h.deferred l hl with hl | ⟨_, ⟨⟩, rfl, _⟩
      · exact mem_append_left _ hl
      · simp
    · cases mem_singleton.mp hl

theorem Move.frees {a : Act} (hm : Move v a e v') (h : Freed v es) : Freed v' (es ++ [e]) := by
  have same : ∀ {n : Nat} {r r' : Registry} {es : List Event} {e : Event}, Freed ⟨n, some r⟩ es →
      (∀ l, e ≠ .listFreed l) → (∀ l, e ≠ .deferred l) → r'.head = r.head →
      r'.deleted = r.deleted → Freed ⟨n, some r'⟩ (es ++ [e]) := by
    intro n r r' es e h hf hd hhead hdel
    refine h.keep hf hd (le_refl _) ?_ ?_ ?_
    · rintro _ ⟨⟩
      exact hhead ▸ h.head r rfl
    · rintro _ ⟨⟩
      exact .inr ⟨r, rfl, hhead.symm⟩
    · rintro _ ⟨⟩ hdr
      exact ⟨r', rfl, hhead, hdel.trans hdr⟩
  have quiet : ∀ {v : View} {e : Event}, Freed v es → (∀ l, e ≠ .listFreed l) →
      (∀ l, e ≠ .deferred l) → Freed v (es ++ [e]) := fun h hf hd =>
    h.keep hf hd (le_refl _) h.head (fun r hr => .inr ⟨r, hr, rfl⟩) fun r hr hdr => ⟨r, hr, rfl, hdr⟩
  have fresh : ∀ {n : Nat} {r : Registry} {e : Event}, Freed ⟨n, none⟩ es →
      (∀ l, e ≠ .listFreed l) → (∀ l, e ≠ .deferred l) → r.head = n →
      Freed ⟨n + 1, some r⟩ (es ++ [e]) := by
    intro n r e h hf hd hhead
    refine h.keep hf hd (le_succ n) ?_ ?_ nofun
    · rintro _ ⟨⟩
      exact hhead ▸ lt_succ_self _
    · rintro _ ⟨⟩
      exact .inl (le_of_eq hhead.symm)
  cases hm with
  | notAdded | notFound | idle => exact quiet h nofun nofun
  | created | addedFirst => exact fresh h nofun nofun rfl
  | added | marked | unlinked | called | stepped | ended | swept => exact same h nofun nofun rfl rfl
  | @deferred n r hbusy =>
    refine ⟨fun l => ?_, fun l hl => ?_, ?_, fun l hl => ?_⟩
    · rw [count_append, count_singleton, if_neg (by simp)]
      exact h.once l
    · rcases mem_append.mp hl with hl | hl
      · obtain ⟨hlt, hne⟩ := h.past l hl
        refine ⟨hlt, ?_⟩
        rintro _ ⟨⟩
        exact hne r rfl
      · cases mem_singleton.mp hl
    · rintro _ ⟨⟩
      exact h.head r rfl
    · rcases mem_append.mp hl with hl | hl
      · rcases h.deferred l hl with hl | ⟨_, ⟨⟩, rfl, _⟩
        · exact .inl (mem_append_left _ hl)
        · exact .inr ⟨_, rfl, rfl, rfl⟩
      · cases mem_singleton.mp hl
        exact .inr ⟨_, rfl, rfl, rfl⟩
  | freed => exact h.free
  | endedFreed => exact h.free

theorem registered_snoc (es : List Event) (e : Event) :
    registered (es ++ [e]) = e.after (registered es) := by
  rw [registered, foldl_append]
  rfl

theorem exec_spec {acts : List Act} (hs : Represents s v) (hv : v.Sound) (hf : Freed v es) :
    ∃ s' v' es', exec step s acts = some (s', es') ∧ Represents s' v' ∧ v'.Sound ∧
      Freed v' (es ++ es') ∧ (v.Tidy (registered es) → Guarded step Careful s acts →
        v'.Tidy (registered (es ++ es')) ∧ ∀ front b back, es' = front ++ .invoked b :: back →
          b ∈ (registered (es ++ front)).map fst) := by
  induction acts generalizing s v es with
  | nil =>
    refine ⟨s, v, [], rfl, hs, hv, by rwa [append_nil], fun ht _ => ⟨?_, by simp⟩⟩
    rwa [append_nil]
  | cons a acts ih =>
    obtain ⟨u, e, w, hstep, hu, hm⟩ := step_refines hs hv a
    obtain ⟨s', v', es', hexec, hs', hv', hf', htidy⟩ := ih hu (hm.sound hv) (hm.frees hf)
    have hassoc : es ++ [e] ++ es' = es ++ e :: es' := by
      rw [append_assoc, singleton_append]
    rw [hassoc] at hf'
    refine ⟨s', v', e :: es', by rw [Run.exec_cons acts hstep, hexec, map_some], hs', hv', hf',
      fun ht hg => ?_⟩
    obtain ⟨hnext, hcall⟩ := hm.tidy hs hu hv ht hg.1
    rw [← registered_snoc] at hnext
    obtain ⟨hend, hcalls⟩ := htidy hnext (hg.2 u e hstep)
    rw [hassoc] at hend
    refine ⟨hend, fun front b back hsplit => ?_⟩
    cases front with
    | nil =>
      obtain ⟨rfl, _⟩ := cons.inj hsplit
      rw [append_nil]
      exact hcall b rfl
    | cons f front =>
      obtain ⟨rfl, hrest⟩ := cons.inj hsplit
      have := hcalls front b back hrest
      rwa [append_assoc, singleton_append] at this

theorem State.start_represents : Represents State.start ⟨0, none⟩ := ⟨rfl, fun _ => ⟨rfl, rfl⟩, nofun⟩

structure Survives (s : State) (es : List Event) : Prop where
  invoked : ∀ front a back, es = front ++ .invoked a :: back → a ∈ (registered front).map fst
  settled : s.frames = [] → s.entries.map toAdded = registered es ∧
    (∀ x ∈ s.entries, isMarked x = false) ∧
    ∀ l c, s.pcbl = some l → s.readList l = some c → c.numDeleted = 0 ∧ c.deleted = false
  once : ∀ l, es.count (.listFreed l) ≤ 1
  deferred : s.frames = [] → ∀ l, .deferred l ∈ es → es.count (.listFreed l) = 1

theorem survives_of_view (hs : Represents s v)
    (hv : v.Sound) (hf : Freed v es) (ht : v.Tidy (registered es))
    (hcalls : ∀ front b back, es = front ++ .invoked b :: back →
      b ∈ (registered front).map fst) : Survives s es := by
  obtain ⟨n, current⟩ := v
  cases current with
  | none =>
    have hp := (hs.null rfl).1
    have hentries : s.entries = [] := by rw [State.entries, hp]; rfl
    refine ⟨hcalls, fun _ => ⟨?_, by simp [hentries], by simp [hp]⟩, hf.once, fun _ l hl => ?_⟩
    · rw [hentries, ht.1 rfl]
      rfl
    · rcases hf.deferred l hl with hl | ⟨_, ⟨⟩, _⟩
      exact le_antisymm (hf.once l) (count_pos_iff.mpr hl)
  | some r =>
    have hcur : s.frames = [] → r.cursors = [] := by
      rw [hs.holds_cur.frames]
      exact map_eq_nil_iff.mp
    obtain ⟨hcount, hlive, _⟩ := ht.2 r rfl
    refine ⟨hcalls, fun hframes => ?_, hf.once, fun hframes l hl => ?_⟩
    · obtain ⟨hdel, hclean⟩ := (hv r rfl).idle (hcur hframes)
      rw [hs.entries]
      refine ⟨by rw [← live_of_unmarked hclean, hlive], hclean, fun l c hp hr => ?_⟩
      obtain ⟨hp', ⟨list, hr', _⟩, _, _⟩ := hs.holds_cur
      rw [hp] at hp'
      cases hp'
      rw [hr] at hr'
      cases hr'
      refine ⟨?_, hdel⟩
      rw [← hcount]
      exact countP_eq_zero.mpr fun x hx => by simp [hclean x hx]
    · rcases hf.deferred l hl with hl | ⟨_, ⟨⟩, rfl, hd⟩
      · exact le_antisymm (hf.once l) (count_pos_iff.mpr hl)
      · rw [((hv r rfl).idle (hcur hframes)).1] at hd
        cases hd

theorem Freed.start : Freed ⟨0, none⟩ [] := ⟨by simp, by simp, nofun, by simp⟩

/-- A careful run touches nothing that has been freed, runs no deleted callback, leaves exactly
the registered callbacks, and frees a list that was deleted during a call once. -/
theorem callbacks_survive {acts : List Act} (hg : Guarded step Careful State.start acts) :
    ∃ s es, exec step State.start acts = some (s, es) ∧ Survives s es := by
  obtain ⟨s, v, es, hexec, hs, hv, hf, htidy⟩ :=
    exec_spec State.start_represents nofun Freed.start
  obtain ⟨ht, hcalls⟩ := htidy ⟨fun _ => rfl, nofun⟩ hg
  exact ⟨s, es, hexec, survives_of_view hs hv hf ht hcalls⟩

def selfDeletion : List Act := [.add 1 1 true true, .call, .delete 1 1, .returns]

theorem selfDeletion_careful : Guarded step Careful State.start selfDeletion := by
  refine Run.guarded_cons trivial rfl (Run.guarded_cons (fun h => absurd rfl h) rfl
    (Run.guarded_cons (fun _ x hx => ?_) rfl ⟨trivial, fun _ _ _ => trivial⟩))
  obtain rfl : x = (0, ⟨1, 1, false⟩) := by
    have hfind : some x = some (0, ⟨1, 1, false⟩) := hx.symm.trans (by decide +kernel)
    exact some.inj hfind
  exact ⟨rfl, by decide +kernel⟩

theorem callbacks_survive_selfDeletion :
    ∃ s es, exec step State.start selfDeletion = some (s, es) ∧ Survives s es :=
  callbacks_survive selfDeletion_careful

/-- A callback that the one before it deletes runs all the same, and deleting a callback twice
leaves `numDeleted` at one. -/
theorem callbacks_deleted_runs : (∃ s es, exec step State.start
        [.add 1 1 true true, .add 2 2 true true, .call, .delete 1 1, .returns] =
          some (s, es ++ [.deleted 1 1 (some 0), .invoked 0]) ∧
        registered (es ++ [.deleted 1 1 (some 0)]) = [(1, 2, 2)]) ∧ ∃ s es c, exec step State.start
        [.add 1 1 true true, .call, .delete 1 1, .delete 1 1, .returns] = some (s, es) ∧
        s.frames = [] ∧ s.readList 0 = some c ∧ c.numDeleted = 1 := by
  refine ⟨⟨⟨⟨[some ⟨⟨1, 1, true⟩, none⟩, some ⟨⟨2, 2, false⟩, some 0⟩]⟩,
      [some ⟨1, false, 1, some 1⟩], some 0, [⟨0, 0⟩]⟩,
    [.added 0 1 1, .added 1 2 2, .invoked 1], by decide +kernel, by decide +kernel⟩,
    ⟨⟨[none]⟩, [some ⟨0, false, 1, none⟩], some 0, []⟩,
    [.added 0 1 1, .invoked 0, .deleted 1 1 (some 0), .deleted 1 1 (some 0), .quiet],
    ⟨0, false, 1, none⟩, by decide +kernel, rfl, rfl, rfl⟩

end Xfront.Callbacks
