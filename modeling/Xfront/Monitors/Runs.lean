import Xfront.Monitors.Lists

/-!
# Runs of monitor requests

What the requests are for: a registry of names, one of which may be the primary one.
-/

namespace Xfront.Monitors
open Option MonitorInfo

open List

/-- The names of the monitors, and the name last set as primary while it is there. -/
structure Registry where
  names : List Atom
  primary : Option Atom

def Registry.delete (r : Registry) (name : Atom) : Registry where
  names := r.names.erase name
  primary := if r.primary = some name then none else r.primary

def Registry.set (r : Registry) (name : Atom) (primary : Bool) : Registry where
  names := r.names.erase name ++ [name]
  primary := if primary then some name else (r.delete name).primary

def Registry.after (r : Registry) : Request × Nat → Registry
  | (.setMonitor _ _ _ _ info, status) =>
    if status = success then r.set info.name info.primary else r
  | (.deleteMonitor _ _ name, status) => if status = success then r.delete name else r

theorem Registry.after_refused (r : Registry) (req : Request) {status : Nat}
    (h : status ≠ success) : r.after (req, status) = r := by
  cases req <;> exact if_neg h

structure Registers (monitors : List Monitor) (r : Registry) : Prop where
  names : monitors.map (·.name) = r.names
  nodup : (monitors.map (·.name)).Nodup
  primary : ∀ mon ∈ monitors, mon.primary = true ↔ r.primary = some mon.name
  present : ∀ name, r.primary = some name → name ∈ r.names

def Accepted (cfg : Config) (lookup : Nat) (monitorAllocated arrayAllocated : Bool)
    (info : MonitorInfo) : Prop :=
  info.noutput = info.outputs.length ∧ lookup = success ∧ cfg.validAtom info.name = true ∧
  monitorAllocated = true ∧ cfg.known = true ∧
  (∀ screen ∈ cfg.screen :: cfg.secondaries, matchesOutputName cfg screen info.name = false) ∧
  arrayAllocated = true

def NextPlain (monitors : List Monitor) : Request → Prop
  | .setMonitor cfg lookup monitorAllocated arrayAllocated info =>
    Accepted cfg lookup monitorAllocated arrayAllocated info → info.primary = true →
      ∀ before old next after, monitors = before ++ old :: next :: after →
        old.name = info.name → next.primary = false
  | .deleteMonitor .. => True

/-! ### The loop of `RRMonitorAdd` -/

def demoted (monitor existing : Monitor) : Monitor :=
  if monitor.primary then existing.unmarked else existing

theorem demoted_name (monitor existing : Monitor) :
    (demoted monitor existing).name = existing.name := by
  unfold demoted
  split <;> rfl

theorem map_demoted_name (monitor : Monitor) (monitors : List Monitor) :
    (monitors.map (demoted monitor)).map (·.name) = monitors.map (·.name) := by
  simp [demoted_name]

section

variable {cfg : Config} {monitor : Monitor}

theorem replaceNamed_cons {existing : Monitor} (hname : existing.name ≠ monitor.name) (n : Nat)
    (pre rest : List Monitor) :
    replaceNamed cfg monitor (n + 1) pre.length (pre ++ existing :: rest) =
      replaceNamed cfg monitor n (pre ++ [demoted monitor existing]).length
        ((pre ++ [demoted monitor existing]) ++ rest) := by
  have hget : (pre ++ existing :: rest)[pre.length]? = some existing := by simp
  rw [replaceNamed, hget]
  simp only [if_neg hname]
  split
  case isTrue hprimary => simp [demoted, hprimary, Monitor.unmarked]
  case isFalse hprimary => simp [demoted, hprimary]

variable {n : Nat}

theorem replaceNamed_other {rest : List Monitor} (hrest : ∀ e ∈ rest, e.name ≠ monitor.name)
    (hn : rest.length ≤ n) (pre : List Monitor) :
    replaceNamed cfg monitor n pre.length (pre ++ rest) = pre ++ rest.map (demoted monitor) := by
  induction rest generalizing n pre with
  | nil =>
    cases n with
    | zero | succ n => simp [replaceNamed]
  | cons e rest ih =>
    cases n with
    | zero => simp at hn
    | succ n =>
      rw [replaceNamed_cons (hrest e (by simp)), ih (fun x hx => hrest x (by simp [hx]))
        (by simpa using hn)]
      simp

variable {old : Monitor} {before after : List Monitor}

theorem replaceNamed_named (hknown : cfg.known = true) (hold : old.name = monitor.name)
    (hbefore : ∀ e ∈ before, e.name ≠ monitor.name) (hafter : ∀ e ∈ after, e.name ≠ monitor.name)
    (hn : (before ++ old :: after).length ≤ n) (pre : List Monitor)
    (hpre : ∀ e ∈ pre, e.name ≠ monitor.name) :
    replaceNamed cfg monitor n pre.length (pre ++ (before ++ old :: after)) =
      pre ++ (before.map (demoted monitor) ++
        (after.take 1 ++ (after.drop 1).map (demoted monitor))) := by
  induction before generalizing n pre with
  | nil =>
    cases n with
    | zero => simp at hn
    | succ n =>
      have hget : (pre ++ old :: after)[pre.length]? = some old := by simp
      have hdeleted : (monitorDelete cfg (pre ++ old :: after) old.name).2 = pre ++ after := by
        have herase : (pre ++ old :: after).eraseP (·.name = old.name) = pre ++ after := by
          rw [eraseP_append_right _ (by simpa [hold] using hpre)]
          simp
        simp [monitorDelete, hknown, herase]
      rw [nil_append, replaceNamed, hget]
      simp only [if_pos hold, hdeleted]
      cases after with
      | nil =>
        cases n with
        | zero | succ n => simp [replaceNamed]
      | cons next after =>
        have hlength : after.length ≤ n := by simp at hn; omega
        have hloop : replaceNamed cfg monitor n (pre ++ [next]).length ((pre ++ [next]) ++ after) =
            (pre ++ [next]) ++ after.map (demoted monitor) :=
          replaceNamed_other (fun e he => hafter e (by simp [he])) hlength _
        simpa using hloop
  | cons e before ih =>
    cases n with
    | zero => simp at hn
    | succ n =>
      have he : e.name ≠ monitor.name := hbefore e (by simp)
      rw [cons_append, replaceNamed_cons he, ih (fun x hx => hbefore x (by simp [hx]))
        (by simpa using hn) (pre ++ [demoted monitor e]) ?_]
      · simp
      · intro x hx
        rcases mem_append.mp hx with hx | hx
        · exact hpre x hx
        · obtain rfl : x = demoted monitor e := by simpa using hx
          rwa [demoted_name]

variable {monitors : List Monitor}

theorem split_named (hnodup : (monitors.map (·.name)).Nodup) (hold : old ∈ monitors) :
    ∃ before after, monitors = before ++ old :: after ∧
      (∀ e ∈ before, e.name ≠ old.name) ∧ ∀ e ∈ after, e.name ≠ old.name := by
  obtain ⟨before, after, rfl⟩ := append_of_mem hold
  rw [map_append, map_cons, nodup_append] at hnodup
  obtain ⟨_, hcons, hdisjoint⟩ := hnodup
  refine ⟨before, after, rfl, fun e he => ?_, fun e he heq => ?_⟩
  · exact hdisjoint e.name (mem_map_of_mem he) old.name (by simp)
  · exact (nodup_cons.mp hcons).1 (heq ▸ mem_map_of_mem he)

theorem eraseP_split (hbefore : ∀ e ∈ before, e.name ≠ old.name) :
    (before ++ old :: after).eraseP (·.name = old.name) = before ++ after := by
  rw [eraseP_append_right _ (by simpa using hbefore)]
  simp

theorem eraseP_names (monitors : List Monitor) (name : Atom) :
    (monitors.eraseP (·.name = name)).map (·.name) = (monitors.map (·.name)).erase name := by
  induction monitors with
  | nil => rfl
  | cons e rest ih =>
    by_cases he : e.name = name
    · simp [he]
    · simp [he, ih]

theorem replaceNamed_names (hknown : cfg.known = true) (hnodup : (monitors.map (·.name)).Nodup) :
    (replaceNamed cfg monitor monitors.length 0 monitors).map (·.name) =
      (monitors.map (·.name)).erase monitor.name := by
  by_cases hnamed : ∃ old ∈ monitors, old.name = monitor.name
  · obtain ⟨old, hmem, hold⟩ := hnamed
    obtain ⟨before, after, rfl, hbefore, hafter⟩ := split_named hnodup hmem
    have hloop := replaceNamed_named hknown hold (hold ▸ hbefore) (hold ▸ hafter) le_rfl []
      (by simp)
    rw [nil_append, length_nil, nil_append] at hloop
    rw [hloop, ← eraseP_names, ← hold, eraseP_split hbefore, map_append, map_append,
      map_demoted_name, map_demoted_name, ← map_append, take_append_drop,
      map_append]
  · have hother : ∀ e ∈ monitors, e.name ≠ monitor.name := fun e he heq => hnamed ⟨e, he, heq⟩
    have hloop : replaceNamed cfg monitor monitors.length 0 monitors =
        monitors.map (demoted monitor) := replaceNamed_other hother le_rfl []
    rw [hloop, map_demoted_name, erase_of_not_mem]
    intro hmem
    obtain ⟨e, he, heq⟩ := mem_map.mp hmem
    exact hother e he heq

theorem replaceNamed_plain (hknown : cfg.known = true) (hnodup : (monitors.map (·.name)).Nodup)
    (hplain : monitor.primary = true → ∀ before old next after,
      monitors = before ++ old :: next :: after → old.name = monitor.name → next.primary = false) :
    replaceNamed cfg monitor monitors.length 0 monitors =
      (monitors.eraseP (·.name = monitor.name)).map (demoted monitor) := by
  by_cases hnamed : ∃ old ∈ monitors, old.name = monitor.name
  · obtain ⟨old, hmem, hold⟩ := hnamed
    obtain ⟨before, after, rfl, hbefore, hafter⟩ := split_named hnodup hmem
    have hloop := replaceNamed_named hknown hold (hold ▸ hbefore) (hold ▸ hafter) le_rfl []
      (by simp)
    rw [nil_append, length_nil, nil_append] at hloop
    have hnext : after.take 1 ++ (after.drop 1).map (demoted monitor) =
        after.map (demoted monitor) := by
      cases after with
      | nil => rfl
      | cons next after =>
        have hsame : demoted monitor next = next := by
          unfold demoted
          split
          case isTrue hprimary =>
            have hfalse := hplain hprimary before old next after rfl hold
            rw [Monitor.unmarked, ← hfalse]
          case isFalse => rfl
        simp [hsame]
    rw [hloop, hnext, ← hold, eraseP_split hbefore, map_append]
  · have hother : ∀ e ∈ monitors, e.name ≠ monitor.name := fun e he heq => hnamed ⟨e, he, heq⟩
    have hloop : replaceNamed cfg monitor monitors.length 0 monitors =
        monitors.map (demoted monitor) := replaceNamed_other hother le_rfl []
    rw [hloop, eraseP_of_forall_not (by simpa using hother)]

end

variable {cfg : Config} {lookup : Nat} {allocated arrayAllocated : Bool} {info : MonitorInfo}

theorem procSetMonitor_accepted (h : Accepted cfg lookup allocated arrayAllocated info)
    (monitors : List Monitor) : procSetMonitor cfg lookup allocated arrayAllocated info monitors =
      (success, replaceNamed cfg (info.monitor cfg.screen) monitors.length 0 monitors ++
        [info.monitor cfg.screen]) := by
  obtain ⟨hlength, hlookup, hatom, hallocated, hknown, houtputs, harray⟩ := h
  have hscreen : ¬ matchesOutputName cfg cfg.screen (info.monitor cfg.screen).name = true := by
    rw [monitor, houtputs cfg.screen (by simp)]
    decide
  have hsecondaries : ¬ (cfg.secondaries.any fun secondary =>
      matchesOutputName cfg secondary (info.monitor cfg.screen).name) = true := by
    rw [List.any_eq_true]
    rintro ⟨secondary, hmem, hmatches⟩
    rw [monitor, houtputs secondary (by simp [hmem])] at hmatches
    cases hmatches
  rw [procSetMonitor, if_neg (by simp [hlength]), if_neg (by simp [hlookup]),
    if_neg (by simp [hatom]), if_neg (by simp [hallocated]), monitorAdd,
    if_neg (by simp [hknown]), if_neg hscreen, if_neg hsecondaries, if_neg (by simp [harray])]

theorem procSetMonitor_refused (h : ¬ Accepted cfg lookup allocated arrayAllocated info)
    (monitors : List Monitor) :
    (procSetMonitor cfg lookup allocated arrayAllocated info monitors).1 ≠ success ∧
    (procSetMonitor cfg lookup allocated arrayAllocated info monitors).2 = monitors := by
  unfold procSetMonitor
  split
  · exact ⟨(by decide : badLength ≠ success), rfl⟩
  split
  case isTrue hlookup => exact ⟨hlookup, rfl⟩
  split
  · exact ⟨(by decide : badAtom ≠ success), rfl⟩
  split
  · exact ⟨(by decide : badAlloc ≠ success), rfl⟩
  rename_i hlength hlookup hatom hallocated
  unfold monitorAdd
  split
  · exact ⟨(by decide : badAlloc ≠ success), rfl⟩
  split
  · exact ⟨(by decide : badValue ≠ success), rfl⟩
  split
  · exact ⟨(by decide : badValue ≠ success), rfl⟩
  split
  · exact ⟨(by decide : badAlloc ≠ success), rfl⟩
  rename_i hknown hscreen hsecondaries harray
  refine absurd ⟨by simpa using hlength, by simpa using hlookup, by simpa using hatom,
    by simpa using hallocated, by simpa using hknown, ?_, by simpa using harray⟩ h
  intro screen hmem
  rcases mem_cons.mp hmem with rfl | hmem
  · simpa [monitor] using hscreen
  · simp only [monitor, List.any_eq_true, not_exists, not_and] at hsecondaries
    exact Bool.eq_false_iff.mpr (hsecondaries screen hmem)

theorem procDeleteMonitor_cases (cfg : Config) (lookup : Nat) (name : Atom)
    (monitors : List Monitor) : ((procDeleteMonitor cfg lookup name monitors).1 ≠ success ∧
      (procDeleteMonitor cfg lookup name monitors).2 = monitors) ∨
    procDeleteMonitor cfg lookup name monitors = (success, monitors.eraseP (·.name = name)) := by
  unfold procDeleteMonitor monitorDelete
  split
  case isTrue hlookup => exact .inl ⟨hlookup, rfl⟩
  split
  · exact .inl ⟨(by decide : badAtom ≠ success), rfl⟩
  split
  · exact .inl ⟨(by decide : badAtom ≠ success), rfl⟩
  split
  · exact .inr rfl
  · exact .inl ⟨(by decide : badValue ≠ success), rfl⟩

theorem start_registers : Registers [] ⟨[], none⟩ := ⟨rfl, nodup_nil, by simp, by simp⟩

variable {monitors : List Monitor} {req : Request}

theorem step_names {monitors' : List Monitor} {o : Request × Nat}
    (hnodup : (monitors.map (·.name)).Nodup) (h : step monitors req = some (monitors', o)) :
    (monitors'.map (·.name)).Nodup ∧ (o.2 ≠ success → monitors' = monitors) := by
  obtain ⟨rfl, rfl⟩ : (handle monitors req).2 = monitors' ∧ (req, (handle monitors req).1) = o := by
    simpa [step] using h
  cases req with
  | setMonitor cfg lookup allocated arrayAllocated info =>
    by_cases haccepted : Accepted cfg lookup allocated arrayAllocated info
    · have hset := procSetMonitor_accepted haccepted monitors
      simp only [handle, hset]
      refine ⟨?_, fun h => absurd rfl h⟩
      have hname : (info.monitor cfg.screen).name = info.name := rfl
      rw [map_append, replaceNamed_names haccepted.2.2.2.2.1 hnodup, map_singleton,
        hname, nodup_append]
      refine ⟨hnodup.erase _, by simp, ?_⟩
      intro a ha b hb
      obtain rfl : b = info.name := by simpa using hb
      exact (hnodup.mem_erase_iff.mp ha).1
    · obtain ⟨_, hsame⟩ := procSetMonitor_refused haccepted monitors
      simp only [handle, hsame]
      exact ⟨hnodup, fun _ => trivial⟩
  | deleteMonitor cfg lookup name =>
    rcases procDeleteMonitor_cases cfg lookup name monitors with ⟨_, hsame⟩ | hdeleted
    · simp only [handle, hsame]
      exact ⟨hnodup, fun _ => trivial⟩
    · simp only [handle, hdeleted]
      exact ⟨hnodup.sublist (eraseP_sublist.map _), fun h => absurd rfl h⟩

theorem demoted_primary {monitor existing : Monitor} : (demoted monitor existing).primary = true ↔
      existing.primary = true ∧ monitor.primary = false := by
  unfold demoted
  split
  case isTrue hprimary => simp [Monitor.unmarked, hprimary]
  case isFalse hprimary => simp [hprimary]

variable {r : Registry}

theorem Registers.delete (h : Registers monitors r)
    (name : Atom) : Registers (monitors.eraseP (·.name = name)) (r.delete name) := by
  have hnames : (monitors.eraseP (·.name = name)).map (·.name) = r.names.erase name := by
    rw [eraseP_names, h.names]
  have hnodup : r.names.Nodup := h.names ▸ h.nodup
  refine ⟨hnames, by rw [hnames]; exact hnodup.erase _, fun mon hmon => ?_, fun other hother => ?_⟩
  · have hname : mon.name ≠ name := by
      have hmem : mon.name ∈ r.names.erase name := hnames ▸ mem_map_of_mem hmon
      exact (hnodup.mem_erase_iff.mp hmem).1
    rw [h.primary mon (mem_of_mem_eraseP hmon), Registry.delete]
    by_cases hprimary : r.primary = some name
    · simp [hprimary, hname.symm]
    · simp [hprimary]
  · by_cases hprimary : r.primary = some name
    · simp [Registry.delete, hprimary] at hother
    · simp only [Registry.delete, if_neg hprimary] at hother
      have hne : other ≠ name := fun heq => hprimary (heq ▸ hother)
      exact hnodup.mem_erase_iff.mpr ⟨hne, h.present other hother⟩

theorem Registers.set (h : Registers monitors r) (monitor : Monitor) :
    Registers ((monitors.eraseP (·.name = monitor.name)).map (demoted monitor) ++ [monitor])
      (r.set monitor.name monitor.primary) := by
  have hdelete := h.delete monitor.name
  have hnames : ((monitors.eraseP (·.name = monitor.name)).map (demoted monitor) ++
      [monitor]).map (·.name) = r.names.erase monitor.name ++ [monitor.name] := by
    rw [map_append, map_demoted_name, hdelete.names]
    rfl
  have hnodup : r.names.Nodup := h.names ▸ h.nodup
  have hout : monitor.name ∉ r.names.erase monitor.name := fun hmem =>
    (hnodup.mem_erase_iff.mp hmem).1 rfl
  refine ⟨hnames, ?_, fun mon hmon => ?_, fun name hname => ?_⟩
  · rw [hnames, nodup_append]
    refine ⟨hnodup.erase _, by simp, ?_⟩
    intro a ha b hb heq
    obtain rfl : b = monitor.name := by simpa using hb
    exact hout (heq ▸ ha)
  · rcases mem_append.mp hmon with hmon | hmon
    · obtain ⟨existing, hexisting, rfl⟩ := mem_map.mp hmon
      have hname : existing.name ≠ monitor.name := by
        intro heq
        have hmem : existing.name ∈ (r.delete monitor.name).names :=
          hdelete.names ▸ mem_map_of_mem hexisting
        exact hout (heq ▸ hmem)
      rw [demoted_primary, hdelete.primary existing hexisting, demoted_name]
      cases hprimary : monitor.primary with
      | true => simp [Registry.set, hname.symm]
      | false => simp [Registry.set]
    · obtain rfl : mon = monitor := by simpa using hmon
      cases hprimary : mon.primary with
      | true => simp [Registry.set]
      | false =>
        have hgone : (r.delete mon.name).primary ≠ some mon.name := fun heq =>
          hout (hdelete.present mon.name heq)
        simp [Registry.set, hgone]
  · cases hprimary : monitor.primary with
    | true =>
      obtain rfl : monitor.name = name := by simpa [Registry.set, hprimary] using hname
      simp [Registry.set]
    | false =>
      have hkept : (r.delete monitor.name).primary = some name := by
        simpa [Registry.set, hprimary] using hname
      exact mem_append_left _ (hdelete.present name hkept)

theorem step_registers (h : Registers monitors r) (hplain : NextPlain monitors req) :
    ∃ monitors' o r', step monitors req = some (monitors', o) ∧
      some (r.after o) = some r' ∧ Registers monitors' r' := by
  refine ⟨_, _, _, rfl, rfl, ?_⟩
  cases req with
  | setMonitor cfg lookup allocated arrayAllocated info =>
    by_cases haccepted : Accepted cfg lookup allocated arrayAllocated info
    · have hloop : replaceNamed cfg (info.monitor cfg.screen) monitors.length 0 monitors =
          (monitors.eraseP (·.name = info.name)).map (demoted (info.monitor cfg.screen)) :=
        replaceNamed_plain haccepted.2.2.2.2.1 h.nodup (hplain haccepted)
      simp only [handle, procSetMonitor_accepted haccepted, Registry.after, if_true, hloop]
      exact h.set _
    · obtain ⟨hstatus, hsame⟩ := procSetMonitor_refused haccepted monitors
      rw [handle, r.after_refused _ hstatus, hsame]
      exact h
  | deleteMonitor cfg lookup name =>
    rcases procDeleteMonitor_cases cfg lookup name monitors with ⟨hstatus, hsame⟩ | hdeleted
    · rw [handle, r.after_refused _ hstatus, hsame]
      exact h
    · simp only [handle, hdeleted, Registry.after, if_true]
      exact h.delete name

/-- Every run of requests keeps the names unique, and one in which no primary monitor is passed
over follows the registry. In every state that is reached the list of monitors is complete, and
its marks are right just where no two sources are primary. -/
theorem monitors_follow (reqs : List Request) :
    Run.Always step (fun s _ s' o => (s'.map (·.name)).Nodup ∧ (o.2 ≠ success → s' = s)) [] reqs ∧
    (Run.Guarded step NextPlain [] reqs → ∃ s outs r, Run.exec step [] reqs = some (s, outs) ∧
        Run.accept (fun r o => some (r.after o)) ⟨[], none⟩ outs = some r ∧ Registers s r) ∧
    ∀ s outs, Run.exec step [] reqs = some (s, outs) → ∀ cfg getActive,
      ((makeList cfg s getActive).isSome = (cfg.known && cfg.info)) ∧
      ∀ entries n, makeList cfg s getActive = some (entries, n) →
        Complete cfg getActive s entries n ∧
        (FirstOnly entries ↔ (sources cfg getActive s).countP (·.primary) ≤ 1) := by
  refine ⟨?_, fun hg => Run.exec_simulates (fun _ _ _ => step_registers) start_registers hg,
    fun s _ _ cfg getActive => ⟨?_, fun entries n => makeList_complete⟩⟩
  · refine Run.always_of_inv (fun s => (s.map (·.name)).Nodup) ?_ nodup_nil
      (Run.guarded_true [] reqs)
    intro s req s' o hnodup _ h
    obtain ⟨hnodup', hsame⟩ := step_names hnodup h
    exact ⟨hnodup', hnodup', hsame⟩
  · cases hknown : cfg.known <;> cases hinfo : cfg.info <;>
      simp [makeList, initList, hknown, hinfo]

def oneCrtc : Config where
  known := true
  info := true
  screen := 0
  secondaryList := []
  isOutputSecondary := fun _ => false
  scrPriv := fun _ => ⟨[⟨1, 0, true, 0, 0, 640, 480, none, [⟨7, [68, 80]⟩]⟩], [⟨7, [68, 80]⟩], some 7⟩
  validAtom := fun _ => true
  nameForAtom := fun _ => [97]
  makeAtom := fun _ => 100

def setNamed (name : Atom) (primary : Bool) : Request :=
  .setMonitor oneCrtc success true true ⟨name, primary, 0, 0, 0, 320, 240, []⟩

theorem monitors_follow_two :
    (∃ s outs r, Run.exec step [] [setNamed 1 false, setNamed 2 false] = some (s, outs) ∧
      Run.accept (fun r o => some (r.after o)) ⟨[], none⟩ outs = some r ∧ Registers s r) ∧
    ∀ entries n, makeList oneCrtc [⟨2, 0, [], false, false, ⟨0, 0, 320, 240⟩⟩] true =
      some (entries, n) → FirstOnly entries := by
  refine ⟨(monitors_follow [setNamed 1 false, setNamed 2 false]).2.1 ?_, fun entries n h => ?_⟩
  · refine ⟨fun _ hprimary => ?_, fun s o _ => ⟨fun _ hprimary => ?_, fun _ _ _ => trivial⟩⟩
    · cases hprimary
    · cases hprimary
  · have hrun : Run.exec step [] [setNamed 2 false] =
        some ([⟨2, 0, [], false, false, ⟨0, 0, 320, 240⟩⟩], [(setNamed 2 false, success)]) := rfl
    exact (((monitors_follow [setNamed 2 false]).2.2 _ _ hrun oneCrtc true).2 entries n h).2.mpr
      (by decide)

/-- A primary monitor takes the place of one that a primary one follows, and both are primary;
and a primary monitor is listed beside the primary output's CRTC. -/
theorem second_primary :
    (∀ s outs, Run.exec step [] [setNamed 1 false, setNamed 2 true, setNamed 1 true] =
      some (s, outs) → ¬ ∃ r, Registers s r) ∧
    ∀ s outs entries n, Run.exec step [] [setNamed 1 true] = some (s, outs) →
      makeList oneCrtc s true = some (entries, n) → ¬ FirstOnly entries := by
  refine ⟨fun s outs hrun ⟨r, hr⟩ => ?_, fun s outs entries n hrun hlist hfirst => ?_⟩
  · obtain rfl : [⟨2, 0, [], true, false, ⟨0, 0, 320, 240⟩⟩,
        ⟨1, 0, [], true, false, ⟨0, 0, 320, 240⟩⟩] = s := congrArg (·.1) (some.inj hrun)
    have htwo := (hr.primary ⟨2, 0, [], true, false, ⟨0, 0, 320, 240⟩⟩ (by simp)).mp rfl
    have hone := (hr.primary ⟨1, 0, [], true, false, ⟨0, 0, 320, 240⟩⟩ (by simp)).mp rfl
    exact absurd (htwo.symm.trans hone) (by decide)
  · obtain rfl : [⟨1, 0, [], true, false, ⟨0, 0, 320, 240⟩⟩] = s :=
      congrArg (·.1) (some.inj hrun)
    obtain rfl : [⟨1, 0, [], true, false, ⟨0, 0, 320, 240⟩⟩,
        ⟨100, 0, [7], true, true, ⟨0, 0, 640, 480⟩⟩] = entries :=
      congrArg (·.1) (some.inj hlist)
    exact absurd (hfirst ⟨100, 0, [7], true, true, ⟨0, 0, 640, 480⟩⟩ (by simp)) (by decide)

end Xfront.Monitors
