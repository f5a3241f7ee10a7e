import Xfront.Atom.Model

/-!
# Names and atoms

The tree is searched by the fingerprint and the C string of a name. Names without a
zero byte are their own C strings, and for them the atoms are a bijection.
-/

namespace Xfront.Atom
open Nat

open List

abbrev Key := ℕ ×ₗ List ℕ

def keyOf (s : Name) : Key := toLex ((fingerPrint s).toNat, (cstr s).map UInt8.toNat)

def NodeRec.key (node : NodeRec) : Key :=
  toLex (node.fingerPrint.toNat, node.string.map UInt8.toNat)

variable {s t : Name}

theorem map_toNat_inj : s.map UInt8.toNat = t.map UInt8.toNat ↔ s = t :=
  ⟨fun h => (map_injective_iff.mpr fun _ _ => UInt8.toNat_inj.mp) h, congrArg _⟩

theorem keyOf_eq : keyOf s = keyOf t ↔ fingerPrint s = fingerPrint t ∧ cstr s = cstr t := by
  rw [keyOf, keyOf, toLex_inj, Prod.mk.injEq, BitVec.toNat_inj, map_toNat_inj]

theorem cstr_of_not_mem (h : 0 ∉ s) : cstr s = s := by
  rw [cstr, takeWhile_eq_self_iff]
  intro c hc
  have hne : c ≠ 0 := fun he => h (he ▸ hc)
  simpa using hne

theorem not_mem_cstr (s : Name) : 0 ∉ cstr s := by
  intro h
  simpa using mem_takeWhile_imp h

def stringSide (s t : Name) : Ordering :=
  let comp := strncmp s.length s t
  if comp < 0 ∨ (comp = 0 ∧ s.length < t.length) then .lt
  else if 0 < comp then .gt
  else .eq

theorem cstr_cons {a : UInt8} (h : a ≠ 0) (s : Name) : cstr (a :: s) = a :: cstr s := by
  simp [cstr, h]

theorem stringSide_compares (s : Name) (ht : 0 ∉ t) :
    (stringSide s t).Compares ((cstr s).map UInt8.toNat) (t.map UInt8.toNat) := by
  induction s generalizing t with
  | nil =>
    cases t with
    | nil => rfl
    | cons b t =>
      simp only [stringSide, strncmp, length_nil, length_cons]
      exact nil_lt_cons ..
  | cons a s ih =>
    by_cases ha : a = 0
    · subst ha
      have hcstr : cstr (0 :: s) = [] := by simp [cstr]
      rw [hcstr]
      cases t with
      | nil => simp [stringSide, strncmp, Ordering.Compares]
      | cons b t =>
        have hb : (0 : UInt8) ≠ b := fun he => ht (he ▸ mem_cons_self ..)
        have hpos : 0 < b.toNat := Nat.pos_of_ne_zero fun h0 => hb (UInt8.toNat_inj.mp h0.symm)
        have hlt : stringSide (0 :: s) (b :: t) = .lt := by
          simp [stringSide, strncmp, hb]
          omega
        rw [hlt]
        exact nil_lt_cons ..
    · have hapos : 0 < a.toNat := Nat.pos_of_ne_zero fun h0 => ha (UInt8.toNat_inj.mp h0)
      rw [cstr_cons ha, map_cons]
      cases t with
      | nil =>
        have hgt : stringSide (a :: s) [] = .gt := by
          have h₁ : ¬ ((a.toNat : Int) < 0) := by omega
          have h₂ : ¬ (a.toNat = 0) := by omega
          simp [stringSide, strncmp, ha, h₁, h₂, hapos]
        rw [hgt]
        exact nil_lt_cons ..
      | cons b t =>
        rw [map_cons]
        by_cases hab : a = b
        · subst hab
          have hrec : stringSide (a :: s) (a :: t) = stringSide s t := by
            simp [stringSide, strncmp, ha]
          have htail := ih (t := t) fun h => ht (mem_cons_of_mem _ h)
          rw [hrec]
          revert htail
          cases stringSide s t with
          | lt | gt => exact fun h => cons_lt_cons_iff.mpr (.inr ⟨rfl, h⟩)
          | eq => exact fun h => congrArg (a.toNat :: ·) h
        · have hne : a.toNat ≠ b.toNat := fun h => hab (UInt8.toNat_inj.mp h)
          rcases Nat.lt_or_gt_of_ne hne with hlt | hgt
          · have hside : stringSide (a :: s) (b :: t) = .lt := by
              simp [stringSide, strncmp, hab]
              omega
            rw [hside]
            exact cons_lt_cons_iff.mpr (.inl hlt)
          · have hside : stringSide (a :: s) (b :: t) = .gt := by
              have h₁ : ¬ ((a.toNat : Int) - b.toNat < 0) := by omega
              have h₂ : ¬ ((a.toNat : Int) - b.toNat = 0) := by omega
              have h₃ : 0 < (a.toNat : Int) - b.toNat := by omega
              simp only [stringSide, strncmp, length_cons, headD_cons, ne_eq, hab,
                not_false_eq_true, ↓reduceIte, h₁, h₂, h₃, false_and, or_self]
            rw [hside]
            exact cons_lt_cons_iff.mpr (.inl hgt)

theorem side_compares (s : Name) {node : NodeRec} (h : 0 ∉ node.string) :
    (side s (fingerPrint s) node).Compares (keyOf s) node.key := by
  rw [side]
  split
  · rename_i hlt
    exact Prod.Lex.toLex_lt_toLex.mpr (.inl hlt)
  · split
    · rename_i hgt
      exact Prod.Lex.toLex_lt_toLex.mpr (.inl hgt)
    · rename_i hlt hgt
      have heq : (fingerPrint s).toNat = node.fingerPrint.toNat := by
        rw [BitVec.lt_def] at hlt hgt
        omega
      change (stringSide s node.string).Compares _ _
      have hs := stringSide_compares s h
      revert hs
      cases stringSide s node.string with
      | lt => exact fun hs => Prod.Lex.toLex_lt_toLex.mpr (.inr ⟨heq, hs⟩)
      | eq => exact fun hs => congrArg₂ (fun a b => toLex (a, b)) heq hs
      | gt => exact fun hs => Prod.Lex.toLex_lt_toLex.mpr (.inr ⟨heq.symm, hs⟩)

structure Interned (st : Atoms) (nodes : List NodeRec) : Prop where
  last : st.lastAtom = nodes.length
  ordered : st.atomRoot.Ordered NodeRec.key
  elems : ∀ n, n ∈ st.atomRoot.elems ↔ n ∈ nodes
  numbered : ∀ i n, nodes[i]? = some n → n.a = i + 1
  terminated : ∀ n ∈ nodes, 0 ∉ n.string
  table : ∀ i n, nodes[i]? = some n → st.nodeTable[i + 1]? = some (some n.string)
  room : nodes.length < st.nodeTable.length

namespace Interned
variable {st : Atoms} {nodes : List NodeRec}

theorem steers (h : Interned st nodes) (s : Name) :
    Tree.Steers NodeRec.key (keyOf s) (side s (fingerPrint s)) st.atomRoot :=
  fun n hn => side_compares s (h.terminated n ((h.elems n).mp hn))

variable {n : NodeRec}

theorem key_inj (h : Interned st nodes) {m : NodeRec} (hm : m ∈ nodes) (hn : n ∈ nodes) :
    m.a = n.a ↔ m.key = n.key := by
  constructor
  · intro ha
    obtain ⟨i, hi⟩ := getElem?_of_mem hm
    obtain ⟨j, hj⟩ := getElem?_of_mem hn
    have hij : i = j := by
      have := h.numbered i m hi
      have := h.numbered j n hj
      omega
    subst hij
    rw [Option.some.inj (hi.symm.trans hj)]
  · intro hk
    rw [h.ordered.key_inj ((h.elems m).mpr hm) ((h.elems n).mpr hn) hk]

theorem name (h : Interned st nodes) (hn : n ∈ nodes) : nameForAtom st n.a = some n.string := by
  obtain ⟨i, hi⟩ := getElem?_of_mem hn
  have hlt := (List.getElem?_eq_some_iff.mp hi).1
  have ha := h.numbered i n hi
  rw [nameForAtom, if_neg (by rw [h.last]; omega), ha, h.table i n hi]
  rfl

theorem pos (h : Interned st nodes) (hn : n ∈ nodes) : 0 < n.a ∧ n.a ≤ st.lastAtom := by
  obtain ⟨i, hi⟩ := getElem?_of_mem hn
  have hlt := (List.getElem?_eq_some_iff.mp hi).1
  have := h.numbered i n hi
  have := h.last
  omega

theorem snoc (h : Interned st nodes) {s : Name}
    (hf : st.atomRoot.find (side s (fingerPrint s)) = none) {table : List (Option Name)}
    (htable : ∀ i < nodes.length + 1, table[i]? = st.nodeTable[i]?)
    (hroom : nodes.length + 1 < table.length) :
    Interned ⟨st.lastAtom + 1,
      st.atomRoot.link (side s (fingerPrint s)) ⟨st.lastAtom + 1, fingerPrint s, cstr s⟩,
      table.set (st.lastAtom + 1) (some (cstr s))⟩
      (nodes ++ [⟨st.lastAtom + 1, fingerPrint s, cstr s⟩]) where
  last := by rw [length_append, h.last]; rfl
  ordered := Tree.link_ordered h.ordered (h.steers s) hf
  elems n := by
    rw [Tree.mem_link hf, h.elems, mem_append, mem_singleton, or_comm]
  numbered i n hn := by
    rcases lt_trichotomy i nodes.length with hi | rfl | hi
    · rw [getElem?_append_left hi] at hn
      exact h.numbered i n hn
    · rw [getElem?_concat_length] at hn
      cases hn
      rw [h.last]
    · rw [getElem?_eq_none (by rw [length_append, length_singleton]; omega)] at hn
      cases hn
  terminated n hn := by
    rcases mem_append.mp hn with hn | hn
    · exact h.terminated n hn
    · rw [mem_singleton.mp hn]
      exact not_mem_cstr s
  table i n hn := by
    rw [h.last]
    rcases lt_trichotomy i nodes.length with hi | rfl | hi
    · rw [getElem?_append_left hi] at hn
      rw [getElem?_set_ne (by omega), htable _ (by omega)]
      exact h.table i n hn
    · rw [getElem?_concat_length] at hn
      cases hn
      rw [getElem?_set_self hroom]
    · rw [getElem?_eq_none (by rw [length_append, length_singleton]; omega)] at hn
      cases hn
  room := by
    rw [length_set, length_append, length_singleton]
    exact hroom

end Interned

structure Call where
  string : Name
  makeit : Bool
  nodeAllocated : Bool
  stringAllocated : Bool
  tableAllocated : Bool

def Call.run (s : Atoms) (c : Call) : Option Nat × Atoms :=
  makeAtom s c.string c.makeit c.nodeAllocated c.stringAllocated c.tableAllocated

inductive Call.Does (c : Call) (st : Atoms) (nodes : List NodeRec) : Prop where
  | found (n : NodeRec) (mem : n ∈ nodes) (key : n.key = keyOf c.string)
    (run : c.run st = (some n.a, st))
  | absent (fresh : ∀ n ∈ nodes, n.key ≠ keyOf c.string) (makeit : c.makeit = false)
    (run : c.run st = (some 0, st))
  | failed (fresh : ∀ n ∈ nodes, n.key ≠ keyOf c.string) (makeit : c.makeit = true)
    (run : c.run st = (none, st))
    (out : ¬ (c.nodeAllocated ∧ c.stringAllocated ∧ c.tableAllocated))
  | made (st' : Atoms) (fresh : ∀ n ∈ nodes, n.key ≠ keyOf c.string)
    (run : c.run st = (some (st.lastAtom + 1), st')) (makeit : c.makeit = true)
    (next : Interned st' (nodes ++ [⟨st.lastAtom + 1, fingerPrint c.string, cstr c.string⟩]))

variable {st : Atoms} {nodes : List NodeRec}

theorem Call.does (h : Interned st nodes) (c : Call) : c.Does st nodes := by
  have hsteers := h.steers c.string
  cases hf : st.atomRoot.find (side c.string (fingerPrint c.string)) with
  | some n =>
    obtain ⟨hn, hk⟩ := (Tree.find_eq_some h.ordered hsteers).mp hf
    exact .found n ((h.elems n).mp hn) hk (by simp only [Call.run, makeAtom, hf])
  | none =>
    have hfresh : ∀ n ∈ nodes, n.key ≠ keyOf c.string := fun n hn =>
      (Tree.find_eq_none h.ordered hsteers).mp hf n ((h.elems n).mpr hn)
    cases hm : c.makeit with
    | false => exact .absent hfresh hm (by simp [Call.run, makeAtom, hf, hm])
    | true =>
      by_cases h₁ : c.nodeAllocated = true
      · by_cases h₂ : ¬ st.lastAtom < lastPredefined ∧ ¬ c.stringAllocated = true
        · exact .failed hfresh hm (by
            simp only [Call.run, makeAtom, hf, hm, h₁, not_true_eq_false, if_false, if_pos h₂,
              if_true]) fun ho => h₂.2 ho.2.1
        · by_cases h₃ : st.lastAtom + 1 ≥ st.nodeTable.length ∧ ¬ c.tableAllocated = true
          · exact .failed hfresh hm (by
              simp only [Call.run, makeAtom, hf, hm, h₁, not_true_eq_false, if_false, if_neg h₂,
                if_pos h₃, if_true]) fun ho => h₃.2 ho.2.2
          · refine .made _ hfresh (by
              simp only [Call.run, makeAtom, hf, hm, h₁, not_true_eq_false, if_false, if_neg h₂,
                if_neg h₃, if_true]; rfl) hm (h.snoc hf ?_ ?_)
            · intro i hi
              have hroom := h.room
              split
              · rw [getElem?_append_left (by omega)]
              · rfl
            · have hroom := h.room
              have hlast := h.last
              split
              · rw [length_append, length_replicate]
                omega
              · omega
      · exact .failed hfresh hm (by
          simp only [Call.run, makeAtom, hf, hm, if_pos h₁, if_true]) fun ho => h₁ ho.1

def runAll (st : Atoms) (calls : List Call) : Atoms := calls.foldl (fun s c => (c.run s).2) st

def after (calls : List Call) : Atoms := runAll initAtoms calls

def answer (calls : List Call) (c : Call) : Option Nat := (c.run (after calls)).1

theorem after_snoc (calls : List Call) (c : Call) :
    after (calls ++ [c]) = (c.run (after calls)).2 := by
  rw [after, runAll, foldl_append]
  rfl

theorem after_append (calls more : List Call) : after (calls ++ more) = runAll (after calls) more :=
  foldl_append ..

variable {c : Call}

theorem Call.Does.next (h : c.Does st nodes)
    (hi : Interned st nodes) : ∃ nodes', Interned (c.run st).2 nodes' ∧ nodes ⊆ nodes' := by
  rcases h with ⟨n, _, _, hrun⟩ | ⟨_, _, hrun⟩ | ⟨_, _, hrun, _⟩ | ⟨st', _, hrun, _, hnext⟩
  · exact ⟨nodes, hrun ▸ hi, fun _ => id⟩
  · exact ⟨nodes, hrun ▸ hi, fun _ => id⟩
  · exact ⟨nodes, hrun ▸ hi, fun _ => id⟩
  · exact ⟨_, by rw [hrun]; exact hnext, fun _ => mem_append_left _⟩

theorem Interned.runAll (h : Interned st nodes) (calls : List Call) :
    ∃ nodes', Interned (Atom.runAll st calls) nodes' ∧ nodes ⊆ nodes' := by
  induction calls generalizing st nodes with
  | nil => exact ⟨nodes, h, fun _ => id⟩
  | cons c calls ih =>
    obtain ⟨mid, hmid, hsub⟩ := (c.does h).next h
    obtain ⟨nodes', hn, hsub'⟩ := ih hmid
    exact ⟨nodes', hn, fun n hn => hsub' (hsub hn)⟩

def builtInCalls : List Call := builtInAtoms.map fun name => ⟨bytesOf name, true, true, true, true⟩

def HasKeys (nodes : List NodeRec) (P : Key → Prop) : Prop := ∀ k, (∃ n ∈ nodes, n.key = k) ↔ P k

theorem HasKeys.snoc {P : Key → Prop} (h : HasKeys nodes P) (a : Nat) (s : Name) :
    HasKeys (nodes ++ [⟨a, fingerPrint s, cstr s⟩]) fun k => P k ∨ keyOf s = k := by
  intro k
  dsimp only
  rw [← h k]
  constructor
  · rintro ⟨n, hn, hk⟩
    rcases mem_append.mp hn with hn | hn
    · exact .inl ⟨n, hn, hk⟩
    · rw [mem_singleton.mp hn] at hk
      exact .inr hk
  · rintro (⟨n, hn, hk⟩ | hk)
    · exact ⟨n, mem_append_left _ hn, hk⟩
    · exact ⟨_, mem_append_right _ (mem_singleton_self _), hk⟩

theorem Interned.runAll_keys {P : Key → Prop}
    (h : Interned st nodes) (hP : HasKeys nodes P) (calls : List Call)
    (hall : ∀ c ∈ calls, c.makeit ∧ c.nodeAllocated ∧ c.stringAllocated ∧ c.tableAllocated) :
    ∃ nodes', Interned (Atom.runAll st calls) nodes' ∧
      HasKeys nodes' fun k => P k ∨ ∃ c ∈ calls, keyOf c.string = k := by
  induction calls generalizing st nodes P with
  | nil => exact ⟨nodes, h, fun k => by rw [hP k]; simp⟩
  | cons c calls ih =>
    obtain ⟨hm, hok⟩ := hall c (mem_cons_self ..)
    have hstep : ∃ mid, Interned (c.run st).2 mid ∧
        HasKeys mid fun k => P k ∨ keyOf c.string = k := by
      rcases c.does h with ⟨n, hn, hk, hrun⟩ | ⟨_, hm', _⟩ | ⟨_, _, _, hout⟩ |
        ⟨st', _, hrun, _, hnext⟩
      · refine ⟨nodes, hrun ▸ h, fun k => ?_⟩
        rw [hP k]
        refine (or_iff_left_of_imp ?_).symm
        rintro rfl
        exact (hP _).mp ⟨n, hn, hk⟩
      · rw [hm] at hm'
        cases hm'
      · exact absurd hok hout
      · exact ⟨_, by rw [hrun]; exact hnext, hP.snoc _ _⟩
    obtain ⟨mid, hmid, hkeys⟩ := hstep
    obtain ⟨nodes', hn, hkeys'⟩ := ih hmid hkeys fun d hd => hall d (mem_cons_of_mem _ hd)
    refine ⟨nodes', hn, fun k => ?_⟩
    rw [hkeys' k]
    simp only [mem_cons, exists_eq_or_imp, or_assoc]

theorem initAtoms_interned : ∃ nodes, Interned initAtoms nodes ∧
    HasKeys nodes fun k => ∃ name ∈ builtInAtoms, keyOf (bytesOf name) = k := by
  have hstart : Interned ⟨0, .nil, replicate initialTableSize none⟩ [] :=
    ⟨rfl, trivial, fun n => Iff.rfl, nofun, nofun, nofun, by rw [length_replicate]; decide⟩
  have hnone : HasKeys [] fun _ => False := fun k => by simp
  obtain ⟨nodes, hn, hkeys⟩ := hstart.runAll_keys hnone builtInCalls (by
    intro c hc
    obtain ⟨name, _, rfl⟩ := mem_map.mp hc
    exact ⟨rfl, rfl, rfl, rfl⟩)
  have hinit : Atom.runAll ⟨0, .nil, replicate initialTableSize none⟩ builtInCalls =
      initAtoms := foldl_map
  refine ⟨nodes, hinit ▸ hn, fun k => ?_⟩
  rw [hkeys k]
  dsimp only
  rw [false_or]
  constructor
  · rintro ⟨c, hc, hk⟩
    obtain ⟨name, hname, rfl⟩ := mem_map.mp hc
    exact ⟨name, hname, hk⟩
  · rintro ⟨name, hname, hk⟩
    exact ⟨_, mem_map_of_mem hname, hk⟩

def Named (calls : List Call) (s : Name) : Prop :=
  (∃ name ∈ builtInAtoms, bytesOf name = s) ∨
    ∃ pre c post a, calls = pre ++ c :: post ∧ c.string = s ∧ answer pre c = some a ∧ a ≠ 0

theorem named_nil : Named [] s ↔ ∃ name ∈ builtInAtoms, bytesOf name = s := by
  refine or_iff_left ?_
  rintro ⟨pre, c, post, a, h, _⟩
  cases pre <;> cases h

theorem named_snoc {calls : List Call} : Named (calls ++ [c]) s ↔
      Named calls s ∨ (c.string = s ∧ ∃ a, answer calls c = some a ∧ a ≠ 0) := by
  rw [Named, Named, or_assoc]
  refine or_congr_right ⟨?_, ?_⟩
  · rintro ⟨pre, d, post, a, h, hs, ha⟩
    rcases eq_nil_or_concat' post with rfl | ⟨post, e, rfl⟩
    · obtain ⟨rfl, hd⟩ := append_inj' h rfl
      cases hd
      exact .inr ⟨hs, a, ha⟩
    · rw [← cons_append, ← append_assoc] at h
      obtain ⟨rfl, _⟩ := append_inj' h rfl
      exact .inl ⟨pre, d, post, a, rfl, hs, ha⟩
  · rintro (⟨pre, d, post, a, rfl, hs, ha⟩ | ⟨hs, a, ha⟩)
    · exact ⟨pre, d, post ++ [c], a, by simp, hs, ha⟩
    · exact ⟨calls, c, [], a, rfl, hs, ha⟩

theorem after_interned (calls : List Call) : ∃ nodes, Interned (after calls) nodes ∧
    HasKeys nodes fun k => ∃ s, Named calls s ∧ keyOf s = k := by
  induction calls using reverseRecOn with
  | nil =>
    obtain ⟨nodes, hn, hkeys⟩ := initAtoms_interned
    rw [after, runAll, foldl_nil]
    refine ⟨nodes, hn, fun k => ?_⟩
    rw [hkeys k]
    simp only [named_nil]
    constructor
    · rintro ⟨name, hname, hk⟩
      exact ⟨bytesOf name, ⟨name, hname, rfl⟩, hk⟩
    · rintro ⟨s, ⟨name, hname, rfl⟩, hk⟩
      exact ⟨name, hname, hk⟩
  | append_singleton calls c ih =>
    obtain ⟨nodes, hi, hkeys⟩ := ih
    rw [after_snoc]
    simp only [named_snoc]
    -- no new name
    have hsame : (∀ a, answer calls c = some a → a ≠ 0 → ∃ n ∈ nodes, n.key = keyOf c.string) →
        HasKeys nodes fun k => ∃ s, (Named calls s ∨
          (c.string = s ∧ ∃ a, answer calls c = some a ∧ a ≠ 0)) ∧ keyOf s = k := by
      intro hc k
      rw [hkeys k]
      constructor
      · exact fun ⟨s, hs, hk⟩ => ⟨s, .inl hs, hk⟩
      · rintro ⟨s, hs | ⟨rfl, a, ha, h0⟩, rfl⟩
        · exact ⟨s, hs, rfl⟩
        · exact (hkeys _).mp (hc a ha h0)
    rcases c.does hi with ⟨n, hn, hk, hrun⟩ | ⟨_, _, hrun⟩ | ⟨_, _, hrun, _⟩ |
      ⟨st', _, hrun, _, hnext⟩
    · exact ⟨nodes, hrun ▸ hi, hsame fun _ _ _ => ⟨n, hn, hk⟩⟩
    · refine ⟨nodes, hrun ▸ hi, hsame fun a ha h0 => ?_⟩
      rw [answer, hrun] at ha
      cases ha
      exact absurd rfl h0
    · refine ⟨nodes, hrun ▸ hi, hsame fun a ha h0 => ?_⟩
      rw [answer, hrun] at ha
      cases ha
    · refine ⟨_, by rw [hrun]; exact hnext, fun k => ?_⟩
      rw [hkeys.snoc _ _ k]
      have hans : answer calls c = some ((after calls).lastAtom + 1) := by rw [answer, hrun]
      constructor
      · rintro (⟨s, hs, hk⟩ | hk)
        · exact ⟨s, .inl hs, hk⟩
        · exact ⟨_, .inr ⟨rfl, _, hans, succ_ne_zero _⟩, hk⟩
      · rintro ⟨s, hs | ⟨rfl, _⟩, hk⟩
        · exact .inl ⟨s, hs, hk⟩
        · exact .inr hk

variable {a : Nat}

theorem answer_node {calls : List Call} (h : answer calls c = some a)
    (h0 : a ≠ 0) : ∃ nodes, Interned (after (calls ++ [c])) nodes ∧
      ∃ n ∈ nodes, n.a = a ∧ n.key = keyOf c.string := by
  obtain ⟨nodes, hi, _⟩ := after_interned calls
  rw [after_snoc]
  rw [answer] at h
  rcases c.does hi with ⟨n, hn, hk, hrun⟩ | ⟨_, _, hrun⟩ | ⟨_, _, hrun, _⟩ |
    ⟨st', _, hrun, _, hnext⟩
  · rw [hrun] at h ⊢
    cases h
    exact ⟨nodes, hi, n, hn, rfl, hk⟩
  · rw [hrun] at h
    cases h
    exact absurd rfl h0
  · rw [hrun] at h
    cases h
  · rw [hrun] at h ⊢
    cases h
    exact ⟨_, hnext, _, mem_append_right _ (mem_singleton_self _), rfl, rfl⟩

theorem string_of_key {n : NodeRec} (h : n.key = keyOf s) : n.string = cstr s := by
  rw [NodeRec.key, keyOf, toLex_inj, Prod.mk.injEq, map_toNat_inj] at h
  exact h.2

theorem same_atom_iff (pre mid : List Call) {d : Call} {b : Nat}
    (hc : answer pre c = some a) (ha : a ≠ 0) (hd : answer (pre ++ c :: mid) d = some b)
    (hb : b ≠ 0) : a = b ↔ keyOf c.string = keyOf d.string := by
  obtain ⟨nodes₁, h₁, n, hn, hna, hnk⟩ := answer_node hc ha
  obtain ⟨nodes₂, h₂, m, hm, hma, hmk⟩ := answer_node hd hb
  obtain ⟨nodes₃, h₃, hsub⟩ := h₁.runAll (mid ++ [d])
  have hstate : Atom.runAll (after (pre ++ [c])) (mid ++ [d]) = after (pre ++ c :: mid ++ [d]) := by
    rw [← after_append]
    simp
  rw [hstate] at h₃
  have hm₃ : m ∈ nodes₃ := (h₃.elems m).mp ((h₂.elems m).mpr hm)
  rw [← hna, ← hma, ← hnk, ← hmk]
  exact h₃.key_inj (hsub hn) hm₃

theorem name_of_answer (pre post : List Call) (hc : answer pre c = some a) (ha : a ≠ 0) :
    nameForAtom (after (pre ++ c :: post)) a = some (cstr c.string) := by
  obtain ⟨nodes, h, n, hn, hna, hnk⟩ := answer_node hc ha
  obtain ⟨nodes', h', hsub⟩ := h.runAll post
  have hstate : Atom.runAll (after (pre ++ [c])) post = after (pre ++ c :: post) := by
    rw [← after_append]
    simp
  rw [hstate] at h'
  rw [← hna, h'.name (hsub hn), string_of_key hnk]

theorem atoms_bijection :
    -- the same atom for the same name
    (∀ pre mid c d a b, answer pre c = some a → a ≠ 0 →
      answer (pre ++ c :: mid) d = some b → b ≠ 0 →
        (a = b ↔ fingerPrint c.string = fingerPrint d.string ∧ cstr c.string = cstr d.string)) ∧
    -- consecutive numbers, and nothing else changes the state
    (∀ calls c, (after (calls ++ [c]) = after calls ∧ ∀ a, answer calls c = some a →
        a ≤ (after calls).lastAtom) ∨
      (answer calls c = some ((after calls).lastAtom + 1) ∧
        (after (calls ++ [c])).lastAtom = (after calls).lastAtom + 1)) ∧
    (∀ calls c, answer calls c = none → after (calls ++ [c]) = after calls) ∧
    -- `None` for names that were never interned
    (∀ calls c, c.makeit = false → (answer calls c = some 0 ↔
      ¬ ∃ s, Named calls s ∧ fingerPrint s = fingerPrint c.string ∧ cstr s = cstr c.string)) ∧
    (∀ pre post c a, answer pre c = some a → a ≠ 0 →
      nameForAtom (after (pre ++ c :: post)) a = some (cstr c.string)) ∧
    -- names without a zero byte
    ∀ s t, 0 ∉ s → 0 ∉ t → cstr s = s ∧
      (fingerPrint s = fingerPrint t ∧ cstr s = cstr t ↔ s = t) := by
  refine ⟨fun pre mid c d a b hc ha hd hb => ?_, fun calls c => ?_, fun calls c h => ?_,
    fun calls c hm => ?_, fun pre post c a hc ha => name_of_answer pre post hc ha, fun s t hs ht => ?_⟩
  · rw [same_atom_iff pre mid hc ha hd hb, keyOf_eq]
  · obtain ⟨nodes, hi, _⟩ := after_interned calls
    rw [after_snoc, answer]
    rcases c.does hi with ⟨n, hn, _, hrun⟩ | ⟨_, _, hrun⟩ | ⟨_, _, hrun, _⟩ |
      ⟨st', _, hrun, _, hnext⟩
    · rw [hrun]
      refine .inl ⟨rfl, fun a ha => ?_⟩
      cases ha
      exact (hi.pos hn).2
    · rw [hrun]
      refine .inl ⟨rfl, fun a ha => ?_⟩
      cases ha
      exact zero_le _
    · rw [hrun]
      exact .inl ⟨rfl, nofun⟩
    · rw [hrun]
      refine .inr ⟨rfl, ?_⟩
      rw [hnext.last, hi.last, length_append, length_singleton]
  · obtain ⟨nodes, hi, _⟩ := after_interned calls
    rw [after_snoc]
    rw [answer] at h
    rcases c.does hi with ⟨n, _, _, hrun⟩ | ⟨_, _, hrun⟩ | ⟨_, _, hrun, _⟩ | ⟨st', _, hrun, _⟩
    · rw [hrun] at h
      cases h
    · rw [hrun] at h
      cases h
    · rw [hrun]
    · rw [hrun] at h
      cases h
  · obtain ⟨nodes, hi, hkeys⟩ := after_interned calls
    have hk := hkeys (keyOf c.string)
    dsimp only at hk
    simp only [← keyOf_eq]
    rw [← hk, answer]
    rcases c.does hi with ⟨n, hn, hk, hrun⟩ | ⟨hfresh, _, hrun⟩ | ⟨_, hm', _⟩ |
      ⟨st', _, _, hm', _⟩
    · rw [hrun]
      refine iff_of_false ?_ (not_not.mpr ⟨n, hn, hk⟩)
      intro h0
      have := (hi.pos hn).1
      have := Option.some.inj h0
      omega
    · rw [hrun]
      exact iff_of_true rfl fun ⟨n, hn, hk⟩ => hfresh n hn hk
    · rw [hm] at hm'
      cases hm'
    · rw [hm] at hm'
      cases hm'
  · rw [cstr_of_not_mem hs, cstr_of_not_mem ht]
    exact ⟨rfl, fun h => h.2, fun h => ⟨congrArg _ h, h⟩⟩

theorem answer_made
    (hc : c.makeit ∧ c.nodeAllocated ∧ c.stringAllocated ∧ c.tableAllocated) (calls : List Call) :
    ∃ a, answer calls c = some a ∧ a ≠ 0 := by
  obtain ⟨nodes, hi, _⟩ := after_interned calls
  rcases c.does hi with ⟨n, hn, _, hrun⟩ | ⟨_, hm, _⟩ | ⟨_, _, _, hout⟩ | ⟨st', _, hrun, _⟩
  · have hpos := (hi.pos hn).1
    exact ⟨n.a, by rw [answer, hrun], by omega⟩
  · rw [hc.1] at hm
    cases hm
  · exact absurd hc.2 hout
  · exact ⟨_, by rw [answer, hrun], succ_ne_zero _⟩

/-- `A`, a zero byte and two tails with the same fingerprint. -/
theorem atoms_zero_byte : ∃ a, a ≠ 0 ∧
      answer [] ⟨[65, 0, 65, 97, 88, 89], true, true, true, true⟩ = some a ∧
      answer [⟨[65, 0, 65, 97, 88, 89], true, true, true, true⟩]
        ⟨[65, 0, 66, 70, 88, 89], true, true, true, true⟩ = some a ∧
      nameForAtom (after [⟨[65, 0, 65, 97, 88, 89], true, true, true, true⟩]) a = some [65] := by
  obtain ⟨a, ha, ha0⟩ := answer_made (c := ⟨[65, 0, 65, 97, 88, 89], true, true, true, true⟩)
    ⟨rfl, rfl, rfl, rfl⟩ []
  obtain ⟨b, hb, hb0⟩ := answer_made (c := ⟨[65, 0, 66, 70, 88, 89], true, true, true, true⟩)
    ⟨rfl, rfl, rfl, rfl⟩ [⟨[65, 0, 65, 97, 88, 89], true, true, true, true⟩]
  have hkey : keyOf [65, 0, 65, 97, 88, 89] = keyOf [65, 0, 66, 70, 88, 89] :=
    keyOf_eq.mpr ⟨by decide, by decide⟩
  have hab : a = b := (same_atom_iff [] [] ha ha0 hb hb0).mpr hkey
  have hname := name_of_answer [] [] ha ha0
  exact ⟨a, ha0, ha, hab ▸ hb, hname⟩

end Xfront.Atom
