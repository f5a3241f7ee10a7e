import Xfront.Namespace.Frame
import Xfront.Lib.Tagged

/-!
# The names of selections

A selection `s` of the namespace `n` is called `<n>s`, cut to what the buffer holds.
-/

namespace Xfront.Namespace.Server
open List Option
open Atom (Name Atoms Call Interned NodeRec keyOf runAll cstr)
open Tagged (tag untag)

def prefixOf (nsName : Name) : Name := tag langle rangle nsName

def Short (nsName : Name) : Prop := nsName.length + 2 ≤ pathMax - 2

def Fits (nsName s : Name) : Prop := nsName.length + 2 + s.length ≤ pathMax - 2

theorem langle_ne_rangle : langle ≠ rangle := by decide

variable {nsName : Name}

theorem selname_eq (h : Short nsName) (s : Name) :
    selname nsName (some s) = prefixOf nsName ++ s.take (pathMax - 2 - (nsName.length + 2)) := by
  rw [prefixOf, ← Tagged.take_tag_append h, Tagged.tag_append]
  rfl

theorem prefix_selname (h : Short nsName) (orig : Option Name) :
    prefixOf nsName <+: selname nsName orig := by
  cases orig with
  | none => exact selname_eq h (Atom.bytesOf "(null)") ▸ prefix_append ..
  | some s => exact selname_eq h s ▸ prefix_append ..

theorem selname_of_fits {nsName s : Name} (h : Fits nsName s) :
    selname nsName (some s) = prefixOf nsName ++ s := by
  rw [Fits] at h
  rw [selname_eq (by rw [Short]; omega), take_of_length_le (by omega)]

theorem prefixOf_inj {a b x : Name} (ha : rangle ∉ a) (hb : rangle ∉ b) (h : prefixOf a <+: x)
    (h' : prefixOf b <+: x) : a = b := Tagged.tag_unique ha hb h h'

theorem stripNS_prefix (nsName s : Name) :
    stripNS (prefixOf nsName ++ s) = untag rangle (prefixOf nsName ++ s) := by
  have hmem : rangle ∈ prefixOf nsName ++ s := by simp [prefixOf, tag]
  have hhead : (prefixOf nsName ++ s).head? = some langle := rfl
  rw [stripNS, if_neg (not_not.mpr hhead), untag]
  cases hd : (prefixOf nsName ++ s).dropWhile (· ≠ rangle) with
  | nil =>
    rw [dropWhile_eq_nil_iff] at hd
    simpa using hd rangle hmem
  | cons c got => rfl

theorem stripNS_selname (h : Short nsName) (hn : rangle ∉ nsName) (s : Name) :
    stripNS (selname nsName (some s)) = s.take (pathMax - 2 - (nsName.length + 2)) := by
  rw [selname_eq h, stripNS_prefix, prefixOf, Tagged.untag_tag_append langle_ne_rangle hn]

theorem stripNS_selname_iff (h : Short nsName) (hn : rangle ∉ nsName) (s : Name) :
    stripNS (selname nsName (some s)) = s ↔ Fits nsName s := by
  rw [Short] at h
  rw [stripNS_selname h hn, Fits]
  constructor
  · intro he
    have hlen := congrArg length he
    rw [length_take] at hlen
    omega
  · intro hf
    exact take_of_length_le (by omega)

theorem stripNS_selname_ne {nsName s : Name} (h : Fits nsName s) (hn : rangle ∈ nsName) :
    stripNS (selname nsName (some s)) ≠ s := by
  intro he
  have hlt := Tagged.lt_length_untag langle_ne_rangle hn s
  rw [← prefixOf, ← stripNS_prefix, ← selname_of_fits h, he] at hlt
  exact lt_irrefl _ hlt

/-- For every selection whose internal name is not cut, the namespaces are kept apart and
the name comes back, exactly when neither has a `>` in its name. -/
theorem separate_iff {a b : Name} (hab : a ≠ b) (ha : Short a) (hb : Short b) :
    (∀ s t, 0 ∉ s → 0 ∉ t → Fits a s → Fits b t → selname a (some s) ≠ selname b (some t) ∧
        stripNS (selname a (some s)) = s ∧ stripNS (selname b (some t)) = t) ↔
      rangle ∉ a ∧ rangle ∉ b := by
  constructor
  · intro h
    have hfa : Fits a [] := ha
    have hfb : Fits b [] := hb
    obtain ⟨_, hsa, hsb⟩ := h [] [] not_mem_nil not_mem_nil hfa hfb
    exact ⟨fun hm => stripNS_selname_ne hfa hm hsa, fun hm => stripNS_selname_ne hfb hm hsb⟩
  · rintro ⟨hma, hmb⟩ s t _ _ hfa hfb
    refine ⟨fun he => hab ?_, (stripNS_selname_iff ha hma s).mpr hfa,
      (stripNS_selname_iff hb hmb t).mpr hfb⟩
    exact prefixOf_inj hma hmb (prefix_selname ha _) (he ▸ prefix_selname hb _)

def Named (st : Atoms) (a : Nat) (x : Name) : Prop :=
  ∃ nodes, Interned st nodes ∧ ∃ n ∈ nodes, n.a = a ∧ n.string = x

variable {a : Nat} {st : Atoms} {x : Name}

theorem Named.name (h : Named st a x) : Atom.nameForAtom st a = some x := by
  obtain ⟨nodes, hi, n, hn, rfl, rfl⟩ := h
  exact hi.name hn

theorem Named.runAll (h : Named st a x) (calls : List Call) : Named (runAll st calls) a x := by
  obtain ⟨nodes, hi, n, hn, ha, hx⟩ := h
  obtain ⟨nodes', hi', hsub⟩ := hi.runAll calls
  exact ⟨nodes', hi', n, hsub hn, ha, hx⟩

def Tabled (s : Server) : Prop := ∃ nodes, Interned s.atoms nodes

variable {s t : Server}

theorem Tabled.interns (h : Tabled s) (ht : Interns s t) : Tabled t := by
  obtain ⟨nodes, hi⟩ := h
  obtain ⟨calls, rfl⟩ := ht
  obtain ⟨nodes', hi', _⟩ := hi.runAll calls
  exact ⟨nodes', hi'⟩

theorem dixAddAtom_node (h : Tabled s) {mem : Name → Bool} {name : Name}
    (ha : (s.dixAddAtom mem name).1 = some a) :
    ∃ nodes, Interned (s.dixAddAtom mem name).2.atoms nodes ∧
      ∃ n ∈ nodes, n.a = a ∧ n.key = keyOf name := by
  obtain ⟨nodes, hi⟩ := h
  have hrun : ∀ r, Call.run s.atoms ⟨name, true, mem name, mem name, mem name⟩ = r →
      (s.dixAddAtom mem name).1 = r.1 ∧ (s.dixAddAtom mem name).2.atoms = r.2 := by
    rintro r rfl
    exact ⟨rfl, rfl⟩
  rcases Call.does hi ⟨name, true, mem name, mem name, mem name⟩ with
    ⟨n, hn, hk, he⟩ | ⟨_, hm, _⟩ | ⟨_, _, he, _⟩ | ⟨st', _, he, _, hnext⟩
  · obtain ⟨h1, h2⟩ := hrun _ he
    rw [h1] at ha
    exact ⟨nodes, h2 ▸ hi, n, hn, some.inj ha, hk⟩
  · cases hm
  · rw [(hrun _ he).1] at ha
    cases ha
  · obtain ⟨h1, h2⟩ := hrun _ he
    rw [h1] at ha
    rw [h2]
    exact ⟨_, hnext, _, mem_append_right _ mem_cons_self, some.inj ha, rfl⟩

theorem dixAddAtom_named (h : Tabled s) {mem : Name → Bool} {name : Name}
    (ha : (s.dixAddAtom mem name).1 = some a) :
    Named (s.dixAddAtom mem name).2.atoms a (cstr name) := by
  obtain ⟨nodes, hi, n, hn, hna, hk⟩ := dixAddAtom_node h ha
  exact ⟨nodes, hi, n, hn, hna, Atom.string_of_key hk⟩

def FilterOp.Rewrites (op : FilterOp) : Prop :=
  op = .getOwner ∨ op = .setOwner ∨ op = .convert ∨ op = .listen

def Filtered (s : Server) (i : Nat) (n : Xnamespace) : Prop :=
  (s.nsOf i).bind s.findNs = some n ∧ n.superPower = false

variable {n : Xnamespace}

theorem Filtered.mem {i : Nat} (h : s.Filtered i n) : n ∈ s.nsList := by
  obtain ⟨_, _, hf⟩ := bind_eq_some_iff.mp h.1
  exact mem_of_find?_eq_some hf

variable {op : FilterOp}

theorem hookSelectionFilter_rewrites {i : Nat} (hn : s.Filtered i n)
    (hop : FilterOp.Rewrites op) (mem : Name → Bool) (sel : Option Nat) :
    s.hookSelectionFilter mem i op sel = s.dixAddAtom mem (selname n.name (s.nameForAtom sel)) := by
  rw [hookSelectionFilter, hn.1]
  dsimp only
  rw [hn.2, if_neg Bool.false_ne_true]
  rcases hop with rfl | rfl | rfl | rfl <;> rfl

theorem hookSelectionFilter_named (h : Tabled s) {i : Nat} (hn : s.Filtered i n)
    (hop : FilterOp.Rewrites op) {mem : Name → Bool} {sel : Option Nat}
    (ha : (s.hookSelectionFilter mem i op sel).1 = some a) :
    Named (s.hookSelectionFilter mem i op sel).2.atoms a
      (cstr (selname n.name (s.nameForAtom sel))) := by
  rw [hookSelectionFilter_rewrites hn hop] at ha ⊢
  exact dixAddAtom_named h ha

def Plain (nsName : Name) : Prop := 0 ∉ nsName ∧ Short nsName

theorem prefix_cstr {p x : Name} (hp : 0 ∉ p) (h : p <+: x) : p <+: cstr x := by
  obtain ⟨s, rfl⟩ := h
  rw [cstr, takeWhile_append_of_pos]
  · exact prefix_append ..
  · intro c hc
    have hne : c ≠ 0 := fun he => hp (he ▸ hc)
    simpa using hne

theorem zero_not_mem_prefixOf (h : 0 ∉ nsName) : 0 ∉ prefixOf nsName := by
  intro hm
  rw [prefixOf, tag, mem_append, mem_cons, mem_singleton] at hm
  rcases hm with (hm | hm) | hm
  · exact absurd hm (by decide)
  · exact h hm
  · exact absurd hm (by decide)

def Within (st : Atoms) (nsName : Name) (a : Nat) : Prop :=
  ∃ x, Named st a x ∧ prefixOf nsName <+: x

theorem Within.runAll (h : Within st nsName a)
    (calls : List Call) : Within (runAll st calls) nsName a := by
  obtain ⟨x, hx, hp⟩ := h
  exact ⟨x, hx.runAll calls, hp⟩

theorem Within.inj {m n : Name} (h : Within st m a) (h' : Within st n a)
    (hm : rangle ∉ m) (hn : rangle ∉ n) : m = n := by
  obtain ⟨x, hx, hp⟩ := h
  obtain ⟨y, hy, hp'⟩ := h'
  have hxy : x = y := some.inj (hx.name.symm.trans hy.name)
  exact prefixOf_inj hm hn hp (hxy ▸ hp')

theorem hookSelectionFilter_within (h : Tabled s) {i : Nat}
    (hn : s.Filtered i n) (hplain : Plain n.name) (hop : FilterOp.Rewrites op)
    {mem : Name → Bool} {sel : Option Nat} (ha : (s.hookSelectionFilter mem i op sel).1 = some a) :
    Within (s.hookSelectionFilter mem i op sel).2.atoms n.name a :=
  ⟨_, hookSelectionFilter_named h hn hop ha,
    prefix_cstr (zero_not_mem_prefixOf hplain.1) (prefix_selname hplain.2 _)⟩

theorem filter_separate (h : Tabled s) {i j : Nat} {m n : Xnamespace} (hm : s.Filtered i m)
    (hn : t.Filtered j n) (hpm : Plain m.name) (hpn : Plain n.name) (hne : m.name ≠ n.name)
    (hrm : rangle ∉ m.name) (hrn : rangle ∉ n.name) {op op' : FilterOp}
    (hop : FilterOp.Rewrites op) (hop' : FilterOp.Rewrites op') {mem mem' : Name → Bool}
    {sel sel' : Option Nat} {a b : Nat} {calls : List Call}
    (ht : t.atoms = runAll (s.hookSelectionFilter mem i op sel).2.atoms calls)
    (ha : (s.hookSelectionFilter mem i op sel).1 = some a)
    (hb : (t.hookSelectionFilter mem' j op' sel').1 = some b) : a ≠ b := by
  rintro rfl
  have htab : Tabled t := by
    obtain ⟨nodes, hi⟩ := h.interns (s.hookSelectionFilter_interns mem i op sel)
    obtain ⟨nodes', hi', _⟩ := hi.runAll calls
    exact ⟨nodes', ht ▸ hi'⟩
  have hwa := (hookSelectionFilter_within h hm hpm hop ha).runAll calls
  rw [← ht] at hwa
  obtain ⟨more, hmore⟩ := t.hookSelectionFilter_interns mem' j op' sel'
  have hwb := hookSelectionFilter_within htab hn hpn hop' hb
  rw [hmore] at hwb
  exact hne ((hwa.runAll more).inj hwb hrm hrn)

def AtomOf (st : Atoms) (a : Nat) (x : Name) : Prop :=
  ∃ nodes, Interned st nodes ∧ ∃ n ∈ nodes, n.a = a ∧ n.key = keyOf x

theorem AtomOf.named (h : AtomOf st a x) : Named st a (cstr x) := by
  obtain ⟨nodes, hi, n, hn, ha, hk⟩ := h
  exact ⟨nodes, hi, n, hn, ha, Atom.string_of_key hk⟩

theorem AtomOf.runAll (h : AtomOf st a x) (calls : List Call) : AtomOf (runAll st calls) a x := by
  obtain ⟨nodes, hi, n, hn, ha, hk⟩ := h
  obtain ⟨nodes', hi', hsub⟩ := hi.runAll calls
  exact ⟨nodes', hi', n, hsub hn, ha, hk⟩

theorem AtomOf.eq_iff {a b : Nat} {x y : Name} (h : AtomOf st a x)
    (h' : AtomOf st b y) : a = b ↔ keyOf x = keyOf y := by
  obtain ⟨nodes, hi, n, hn, rfl, hk⟩ := h
  obtain ⟨nodes', hi', n', hn', rfl, hk'⟩ := h'
  have hmem : n' ∈ nodes := (hi.elems n').mp ((hi'.elems n').mpr hn')
  rw [hi.key_inj hn hmem, hk, hk']

/-- `SELECTION_FILTER_NOTIFY` leads from the internal atom of a selection to the atom of its
name exactly when the internal name was not cut. -/
theorem filter_back {i j sel : Nat} {m n : Xnamespace}
    (hm : s.Filtered i m) (hn : t.Filtered j n) (hpm : Plain m.name) (hrm : rangle ∉ m.name)
    (hx : 0 ∉ x) (hsel : AtomOf s.atoms sel x) (hop : FilterOp.Rewrites op)
    {mem mem' : Name → Bool} {a b : Nat} {calls : List Call}
    (ht : t.atoms = runAll (s.hookSelectionFilter mem i op (some sel)).2.atoms calls)
    (ha : (s.hookSelectionFilter mem i op (some sel)).1 = some a)
    (hb : (t.hookSelectionFilter mem' j .notify (some a)).1 = some b) :
    b = sel ↔ Fits m.name x := by
  have htab : Tabled s := ⟨hsel.choose, hsel.choose_spec.1⟩
  have horig : s.nameForAtom (some sel) = some x := by
    have hname := hsel.named.name
    rwa [Atom.cstr_of_not_mem hx] at hname
  have hzero : 0 ∉ selname m.name (some x) := by
    rw [selname_eq hpm.2, mem_append, not_or]
    exact ⟨zero_not_mem_prefixOf hpm.1, fun hm => hx (mem_of_mem_take hm)⟩
  have hnamed := (hookSelectionFilter_named htab hm hop ha).runAll calls
  rw [horig, Atom.cstr_of_not_mem hzero, ← ht] at hnamed
  -- what the second filter interns
  have hnotify : t.hookSelectionFilter mem' j .notify (some a) =
      (t.dixAddAtom mem' (selname n.name (some (selname m.name (some x))))).2.dixAddAtom mem'
        (stripNS (selname m.name (some x))) := by
    rw [hookSelectionFilter, hn.1]
    dsimp only
    have hna : t.nameForAtom (some a) = some (selname m.name (some x)) := hnamed.name
    rw [hn.2, if_neg Bool.false_ne_true, hna]
    rfl
  rw [hnotify] at hb
  have hint := t.dixAddAtom_interns mem' (selname n.name (some (selname m.name (some x))))
  set u := (t.dixAddAtom mem' (selname n.name (some (selname m.name (some x))))).2
  have htabt : Tabled t := ⟨hnamed.choose, hnamed.choose_spec.1⟩
  have hstripped : AtomOf (u.dixAddAtom mem' (stripNS (selname m.name (some x)))).2.atoms b
      (stripNS (selname m.name (some x))) := dixAddAtom_node (htabt.interns hint) hb
  -- the atom of `x` is still the same
  obtain ⟨c₁, h₁⟩ := s.hookSelectionFilter_interns mem i op (some sel)
  obtain ⟨c₂, h₂⟩ := hint.trans (u.dixAddAtom_interns mem' (stripNS (selname m.name (some x))))
  have hatoms : (u.dixAddAtom mem' (stripNS (selname m.name (some x)))).2.atoms =
      runAll (runAll (runAll s.atoms c₁) calls) c₂ := by
    rw [h₂]
    rw [ht, h₁]
  have hkept := ((hsel.runAll c₁).runAll calls).runAll c₂
  rw [← hatoms] at hkept
  rw [hstripped.eq_iff hkept, ← stripNS_selname_iff hpm.2 hrm x, Atom.keyOf_eq]
  constructor
  · rintro ⟨_, hc⟩
    rwa [Atom.cstr_of_not_mem hx, Atom.cstr_of_not_mem ?_] at hc
    rw [stripNS_selname hpm.2 hrm]
    exact fun hm => hx (mem_of_mem_take hm)
  · intro he
    rw [he]
    exact ⟨rfl, rfl⟩

end Xfront.Namespace.Server
