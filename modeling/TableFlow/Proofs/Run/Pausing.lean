import Mathlib.Data.Finset.Basic
import Mathlib.Data.Nat.Find
import TableFlow.Proofs.KeyMap
import TableFlow.Proofs.Run.Debugging

/-!
# Pausing

A run to a breakpoint goes on until the next step that is one, however the breakpoints came to be.  The step that the
debugger stands at runs in any case, so that a debugger which is told again and again to go on gets from one breakpoint
to the next, and each of them is reached once.  A step that fails ends this.

Main results:

- Definition `Debugger.breakpointsAfter`: the breakpoints that some calls leave.
- Definition `Debugger.NextPause`: the place of the next step that is a breakpoint.
- Theorems `Debugger.Follows.runToBreakpoint_of_success` and `Debugger.Follows.runToBreakpoint_of_failure`: where a run
  to a breakpoint ends.
- Theorem `Debugger.pauses_before_breakpoints`: a debugger pauses where it should, after any calls.
-/

namespace TableFlow

section

variable {config : Config} {services : Services} {steps : List Step} {files : Files}

/-- A step of a program fails with an error when the program is run: the steps before it succeed. -/
structure FailsAt (config : Config) (services : Services) (steps : List Step) (files : Files)
    (n : Nat) (e : Error) : Prop where
  reached : (Run.ofSteps config services (steps.take n) files).error = none
  fails : (Run.ofSteps config services (steps.take (n + 1)) files).error = some e

/-- Only a step of the program fails. -/
theorem FailsAt.lt_length {n : Nat} {e : Error} (h : FailsAt config services steps files n e) :
    n < steps.length := by
  by_contra hge
  have htake : steps.take (n + 1) = steps.take n := by
    rw [List.take_of_length_le (by omega), List.take_of_length_le (by omega)]
  have hfails := h.fails
  rw [htake, h.reached] at hfails
  cases hfails

/-- When the steps behind a place have not failed, neither have the steps up to it. -/
theorem error_take_of_le {m n : Nat} (hmn : m ≤ n)
    (h : (Run.ofSteps config services (steps.take n) files).error = none) :
    (Run.ofSteps config services (steps.take m) files).error = none := by
  have hsplit := List.take_append_drop m (steps.take n)
  rw [List.take_take, Nat.min_eq_left hmn] at hsplit
  have hrun := Run.advanceAll_append services (r := Run.start config files) rfl (steps.take m)
    ((steps.take n).drop m)
  rw [hsplit] at hrun
  split at hrun
  · next hfailed =>
      rw [Run.ofSteps, hrun] at h
      exact h
  · next hgood => exact Option.not_isSome_iff_eq_none.1 hgood

/-- When no step between two places fails, the run gets from the first to the second. -/
theorem error_take_of_no_failure {m n : Nat} (hmn : m ≤ n)
    (hm : (Run.ofSteps config services (steps.take m) files).error = none)
    (h : ∀ i, m ≤ i → i < n → ∀ e, ¬ FailsAt config services steps files i e) :
    (Run.ofSteps config services (steps.take n) files).error = none := by
  induction n, hmn using Nat.le_induction with
  | base => exact hm
  | succ n hmn ih =>
      have hreached := ih fun i hmi hin => h i hmi (by omega)
      cases herror : (Run.ofSteps config services (steps.take (n + 1)) files).error with
      | none => rfl
      | some e => exact absurd ⟨hreached, herror⟩ (h n hmn (by omega) e)

end

namespace Debugger

/-! ## Breakpoints -/

/-- The breakpoints after one more call. -/
def Call.breakpoints (names : Finset String) : Call → Finset String
  | .step => names
  | .runToBreakpoint => names
  | .addBreakpoint command => insert command names
  | .removeBreakpoint command => names.erase command

/-- The breakpoints that some calls leave: the command words that were added and not removed since. -/
def breakpointsAfter (calls : List Call) : Finset String :=
  calls.foldl Call.breakpoints ∅

/-- The debugger pauses before the steps of these commands and no others. -/
def PausesBefore (d : Debugger) (names : Finset String) : Prop :=
  ∀ s, d.pausesAt s = true ↔ s.name ∈ names

section

variable {d : Debugger} {names : Finset String}

@[simp]
theorem breakpoints_step (d : Debugger) : d.step.2.breakpoints = d.breakpoints := by
  unfold step
  cases d.next? with
  | none => rfl
  | some s =>
      dsimp only
      split <;> rfl

@[simp]
theorem breakpoints_continueFor (d : Debugger) (n : Nat) :
    (d.continueFor n).2.breakpoints = d.breakpoints := by
  induction n generalizing d with
  | zero => rfl
  | succ n ih =>
      have hstep := breakpoints_step d
      unfold continueFor
      split
      · rfl
      · split
        · rfl
        · split <;> simp_all

@[simp]
theorem breakpoints_runToBreakpoint (d : Debugger) :
    d.runToBreakpoint.2.breakpoints = d.breakpoints := by
  have hstep := breakpoints_step d
  unfold runToBreakpoint
  split <;> simp_all

/-- A breakpoint that is added stops the steps of its command, too. -/
theorem pausesAt_addBreakpoint (d : Debugger) (command : String) (s : Step) :
    (d.addBreakpoint command).pausesAt s = true ↔ s.name = command ∨ d.pausesAt s = true := by
  simp only [addBreakpoint, pausesAt, KeyMap.contains, KeyMap.get?_insert]
  by_cases hname : s.name = command <;> simp [hname]

/-- A breakpoint that is removed stops the steps of its command no more. -/
theorem pausesAt_removeBreakpoint (d : Debugger) (command : String) (s : Step) :
    (d.removeBreakpoint command).pausesAt s = true ↔ s.name ≠ command ∧ d.pausesAt s = true := by
  simp only [removeBreakpoint, KeyMap.erase, pausesAt, KeyMap.contains, KeyMap.get?_filter]
  by_cases hname : s.name = command <;> simp [hname]

/-- What a debugger pauses before is told by its breakpoints alone. -/
theorem PausesBefore.congr {other : Debugger} (h : d.PausesBefore names)
    (heq : other.breakpoints = d.breakpoints) : other.PausesBefore names := by
  intro s
  rw [pausesAt, heq]
  exact h s

/-- A call changes what the debugger pauses before as it should. -/
theorem PausesBefore.perform (h : d.PausesBefore names) (c : Call) :
    (d.perform c).PausesBefore (c.breakpoints names) := by
  cases c with
  | step => exact h.congr (breakpoints_step d)
  | runToBreakpoint => exact h.congr (breakpoints_runToBreakpoint d)
  | addBreakpoint command =>
      intro s
      rw [Debugger.perform, pausesAt_addBreakpoint, Call.breakpoints, Finset.mem_insert, h s]
  | removeBreakpoint command =>
      intro s
      rw [Debugger.perform, pausesAt_removeBreakpoint, Call.breakpoints, Finset.mem_erase, h s]

/-- After any calls a debugger pauses before the breakpoints that they leave. -/
theorem PausesBefore.afterCalls (h : d.PausesBefore names) (calls : List Call) :
    (d.afterCalls calls).PausesBefore (calls.foldl Call.breakpoints names) := by
  induction calls generalizing d names with
  | nil => exact h
  | cons c calls ih => exact ih (h.perform c)

end

/-- The next step behind a place that is a breakpoint, or the end of the program if there is none. -/
structure NextPause (steps : List Step) (names : Finset String) (p q : Nat) : Prop where
  behind : p < q
  le_length : q ≤ steps.length
  pauses : ∀ s, steps[q]? = some s → s.name ∈ names
  first : ∀ i s, p < i → i < q → steps[i]? = some s → s.name ∉ names

/-- The places of the steps behind a place that are breakpoints, in the order of the program. -/
def laterPauses (steps : List Step) (names : Finset String) (p : Nat) : List Nat :=
  (List.range' (p + 1) (steps.length - (p + 1))).filter fun i =>
    steps[i]?.any fun s => decide (s.name ∈ names)

section

variable {steps : List Step} {names : Finset String} {p q : Nat}

/-- There is always a place to run to. -/
theorem exists_nextPause (names : Finset String) (hp : p < steps.length) :
    ∃ q, NextPause steps names p q := by
  classical
  by_cases h : ∃ q, p < q ∧ ∃ s, steps[q]? = some s ∧ s.name ∈ names
  · obtain ⟨hbehind, s, hs, hname⟩ := Nat.find_spec h
    refine ⟨Nat.find h, hbehind, ?_, ?_, ?_⟩
    · exact Nat.le_of_lt (List.getElem?_eq_some_iff.1 hs).1
    · intro t ht
      rw [hs] at ht
      cases ht
      exact hname
    · intro i t hi hlt ht hmem
      exact Nat.find_min h hlt ⟨hi, t, ht, hmem⟩
  · refine ⟨steps.length, hp, Nat.le_refl _, ?_, ?_⟩
    · intro s hs
      simp at hs
    · intro i s hi _ hs hmem
      exact h ⟨i, hi, s, hs, hmem⟩

/-- The next pause is the first of the later ones, and those behind it are the others. -/
theorem NextPause.laterPauses_eq (h : NextPause steps names p q) :
    laterPauses steps names p =
      if q < steps.length then q :: laterPauses steps names q else [] := by
  have hbehind := h.behind
  have hle := h.le_length
  have hsplit : List.range' (p + 1) (steps.length - (p + 1)) =
      List.range' (p + 1) (q - (p + 1)) ++ List.range' q (steps.length - q) := by
    have happend := @List.range'_append_1 (p + 1) (q - (p + 1)) (steps.length - q)
    rw [show p + 1 + (q - (p + 1)) = q by omega] at happend
    rw [happend]
    congr 1
    omega
  have hbefore : ((List.range' (p + 1) (q - (p + 1))).filter fun i =>
      steps[i]?.any fun s => decide (s.name ∈ names)) = [] := by
    apply List.filter_eq_nil_iff.2
    intro i hi
    rw [List.mem_range'_1] at hi
    cases hs : steps[i]? with
    | none => simp
    | some s => simpa using h.first i s (by omega) (by omega) hs
  rw [laterPauses, hsplit, List.filter_append, hbefore, List.nil_append]
  by_cases hq : q < steps.length
  · have hpause := h.pauses steps[q] (List.getElem?_eq_getElem hq)
    rw [if_pos hq, show steps.length - q = steps.length - (q + 1) + 1 by omega, List.range'_succ,
      List.filter_cons_of_pos (by simpa [List.getElem?_eq_getElem hq] using hpause)]
    rfl
  · rw [if_neg hq, show steps.length - q = 0 by omega]
    rfl

/-- Behind the end there is no breakpoint. -/
theorem laterPauses_of_le (hp : steps.length ≤ p) : laterPauses steps names p = [] := by
  simp [laterPauses, show steps.length - (p + 1) = 0 by omega]

/-- The later breakpoints, seen from the first of them, are the others. -/
theorem laterPauses_head (steps : List Step) (names : Finset String) (p : Nat) :
    laterPauses steps names ((laterPauses steps names p).head?.getD steps.length) =
      (laterPauses steps names p).tail := by
  by_cases hp : p < steps.length
  · obtain ⟨q, hq⟩ := exists_nextPause names hp
    rw [hq.laterPauses_eq]
    by_cases hend : q < steps.length <;> simp [hend, laterPauses_of_le]
  · simp [laterPauses_of_le (Nat.le_of_not_lt hp), laterPauses_of_le]

/-- The first of the later breakpoints, or the end, is no step back. -/
theorem le_of_laterPauses (names : Finset String) (hp : p ≤ steps.length) :
    p ≤ (laterPauses steps names p).head?.getD steps.length ∧
      (laterPauses steps names p).head?.getD steps.length ≤ steps.length := by
  rcases Nat.lt_or_eq_of_le hp with hlt | rfl
  · obtain ⟨q, hq⟩ := exists_nextPause names hlt
    have hbehind := hq.behind
    rw [hq.laterPauses_eq]
    by_cases hend : q < steps.length
    · simp [hend]
      omega
    · simpa [hend] using hp
  · simp [laterPauses_of_le]

end

/-! ## Going on -/

/-- The debugger once the first `n` steps of the program have run. -/
def movedTo (config : Config) (services : Services) (steps : List Step) (files : Files)
    (d : Debugger) (n : Nat) : Debugger :=
  { d with position := n, run := Run.ofSteps config services (steps.take n) files }

namespace Follows

variable {config : Config} {services : Services} {steps : List Step} {files : Files}
variable {d : Debugger} {names : Finset String} {q : Nat}

/-- A debugger stands where the steps that have run have brought it. -/
theorem movedTo_position (h : Follows config services steps files d) :
    d.movedTo config services steps files d.position = d := by
  rw [movedTo, ← h.run_eq]

variable (h : Follows config services steps files d)

include h

/-- As long as no step has failed, the next one of the program runs next. -/
theorem next?_eq (herror : d.run.error = none) : d.next? = steps[d.position]? := by
  rw [next?, herror, h.steps_eq]
  rfl

/-- A step that runs brings the debugger one place further. -/
theorem after_eq {s : Step} (hnext : d.next? = some s) :
    d.after s = d.movedTo config services steps files (d.position + 1) := by
  have hrun := (h.after hnext).run_eq
  simp only [Debugger.after] at hrun ⊢
  rw [movedTo, hrun]

/-- A step that succeeds is reported. -/
theorem step_of_success {s : Step} (hnext : d.next? = some s)
    (hgood : (Run.ofSteps config services (steps.take (d.position + 1)) files).error = none) :
    ∃ report, d.step =
      (.ok (some report), d.movedTo config services steps files (d.position + 1)) := by
  have hlength : (d.after s).run.reports.length = d.run.reports.length + 1 :=
    length_reports_advance d.services d.run s
  have herror : (d.after s).run.error = none := by
    rw [h.after_eq hnext]
    exact hgood
  cases hlast : (d.after s).run.reports.getLast? with
  | none =>
      rw [List.getLast?_eq_none_iff] at hlast
      simp [hlast] at hlength
  | some report =>
      refine ⟨report, ?_⟩
      rw [← h.after_eq hnext, Debugger.step, hnext]
      simp only [herror, hlast]

/-- A step that fails is answered with its error. -/
theorem step_of_failure {s : Step} {e : Error} (hnext : d.next? = some s)
    (hfails : (Run.ofSteps config services (steps.take (d.position + 1)) files).error = some e) :
    d.step = (.error e, d.movedTo config services steps files (d.position + 1)) := by
  have herror : (d.after s).run.error = some e := by
    rw [h.after_eq hnext]
    exact hfails
  rw [← h.after_eq hnext, Debugger.step, hnext]
  simp only [herror]

/-- So the debugger follows the program from there on, too. -/
theorem follows_movedTo {s : Step} (hnext : d.next? = some s) :
    Follows config services steps files
      (d.movedTo config services steps files (d.position + 1)) := by
  rw [← h.after_eq hnext]
  exact h.after hnext

/-- Going on leads to the first step that is a breakpoint, or to the end, if no step before it fails. -/
theorem continueFor_of_success {m : Nat} (hnames : d.PausesBefore names)
    (hm : steps.length ≤ d.position + m) (hq : d.position ≤ q) (hlength : q ≤ steps.length)
    (hpauses : ∀ s, steps[q]? = some s → s.name ∈ names)
    (hfirst : ∀ i s, d.position ≤ i → i < q → steps[i]? = some s → s.name ∉ names)
    (hgood : (Run.ofSteps config services (steps.take q) files).error = none) :
    d.continueFor m = (.ok steps[q]?, d.movedTo config services steps files q) := by
  induction m generalizing d with
  | zero =>
      obtain rfl : d.position = q := by omega
      rw [h.movedTo_position, List.getElem?_eq_none (by omega)]
      rfl
  | succ m ih =>
      have herror : d.run.error = none := by
        rw [h.run_eq]
        exact error_take_of_le hq hgood
      rcases Nat.lt_or_eq_of_le hq with hlt | rfl
      · have hp : d.position < steps.length := by omega
        have hnext : d.next? = some steps[d.position] := by
          rw [h.next?_eq herror, List.getElem?_eq_getElem hp]
        have hpass : d.pausesAt steps[d.position] = false := by
          rw [← Bool.not_eq_true, hnames]
          exact hfirst _ _ (Nat.le_refl _) hlt (List.getElem?_eq_getElem hp)
        obtain ⟨report, hstep⟩ := h.step_of_success hnext (error_take_of_le hlt hgood)
        simp only [Debugger.continueFor, hnext, hpass, hstep, Bool.false_eq_true, if_false]
        exact ih (h.follows_movedTo hnext) (hnames.congr rfl) (by simp only [movedTo]; omega) hlt
          fun i s hi => hfirst i s (by simp only [movedTo] at hi; omega)
      · rw [h.movedTo_position, Debugger.continueFor, h.next?_eq herror]
        cases hs : steps[d.position]? with
        | none => rfl
        | some s => simp only [(hnames s).2 (hpauses s hs), if_true]

/-- Going on ends with a step that fails, if no step before it is a breakpoint. -/
theorem continueFor_of_failure {m f : Nat} {e : Error} (hnames : d.PausesBefore names)
    (hm : steps.length ≤ d.position + m) (hf : d.position ≤ f)
    (hfirst : ∀ i s, d.position ≤ i → i ≤ f → steps[i]? = some s → s.name ∉ names)
    (hfails : FailsAt config services steps files f e) :
    d.continueFor m = (.error e, d.movedTo config services steps files (f + 1)) := by
  have hlength := hfails.lt_length
  induction m generalizing d with
  | zero => omega
  | succ m ih =>
      have herror : d.run.error = none := by
        rw [h.run_eq]
        exact error_take_of_le hf hfails.reached
      have hp : d.position < steps.length := by omega
      have hnext : d.next? = some steps[d.position] := by
        rw [h.next?_eq herror, List.getElem?_eq_getElem hp]
      have hpass : d.pausesAt steps[d.position] = false := by
        rw [← Bool.not_eq_true, hnames]
        exact hfirst _ _ (Nat.le_refl _) hf (List.getElem?_eq_getElem hp)
      simp only [Debugger.continueFor, hnext, hpass, Bool.false_eq_true, if_false]
      rcases Nat.lt_or_eq_of_le hf with hlt | rfl
      · obtain ⟨report, hstep⟩ := h.step_of_success hnext (error_take_of_le hlt hfails.reached)
        simp only [hstep]
        exact ih (h.follows_movedTo hnext) (hnames.congr rfl) (by simp only [movedTo]; omega) hlt
          fun i s hi => hfirst i s (by simp only [movedTo] at hi; omega)
      · simp only [h.step_of_failure hnext hfails.fails]

/-- A run to a breakpoint runs the step that is next and goes on to the next pause, if no step before it fails. -/
theorem runToBreakpoint_of_success (hnames : d.PausesBefore names)
    (herror : d.run.error = none) (hq : NextPause steps names d.position q)
    (hgood : (Run.ofSteps config services (steps.take q) files).error = none) :
    d.runToBreakpoint = (.ok steps[q]?, d.movedTo config services steps files q) := by
  have hp : d.position < steps.length := Nat.lt_of_lt_of_le hq.behind hq.le_length
  have hnext : d.next? = some steps[d.position] := by
    rw [h.next?_eq herror, List.getElem?_eq_getElem hp]
  obtain ⟨report, hstep⟩ := h.step_of_success hnext (error_take_of_le hq.behind hgood)
  rw [Debugger.runToBreakpoint, hstep]
  refine (h.follows_movedTo hnext).continueFor_of_success (hnames.congr rfl) ?_ hq.behind
    hq.le_length hq.pauses ?_ hgood
  · simp only [remaining, movedTo, h.steps_eq]
    omega
  · exact fun i s hi => hq.first i s hi

/-- A run to a breakpoint ends with a step that fails, if it is the next one or comes before the next pause. -/
theorem runToBreakpoint_of_failure {f : Nat} {e : Error} (hnames : d.PausesBefore names)
    (herror : d.run.error = none) (hq : NextPause steps names d.position q)
    (hf : d.position ≤ f) (hfq : f < q) (hfails : FailsAt config services steps files f e) :
    d.runToBreakpoint = (.error e, d.movedTo config services steps files (f + 1)) := by
  have hp : d.position < steps.length := Nat.lt_of_lt_of_le hq.behind hq.le_length
  have hnext : d.next? = some steps[d.position] := by
    rw [h.next?_eq herror, List.getElem?_eq_getElem hp]
  rcases Nat.lt_or_eq_of_le hf with hlt | rfl
  · obtain ⟨report, hstep⟩ := h.step_of_success hnext (error_take_of_le hlt hfails.reached)
    rw [Debugger.runToBreakpoint, hstep]
    refine (h.follows_movedTo hnext).continueFor_of_failure (hnames.congr rfl) ?_ hlt ?_ hfails
    · simp only [remaining, movedTo, h.steps_eq]
      omega
    · exact fun i s hi hif => hq.first i s hi (by omega)
  · rw [Debugger.runToBreakpoint, h.step_of_failure hnext hfails.fails]

/-- As long as no step fails, going on leads to the first of the later breakpoints, or to the end. -/
theorem runToBreakpoint_of_no_failure (hnames : d.PausesBefore names) (herror : d.run.error = none)
    (hp : d.position ≤ steps.length)
    (hgood : ∀ i, d.position ≤ i → ∀ e, ¬ FailsAt config services steps files i e) :
    d.runToBreakpoint = (.ok ((laterPauses steps names d.position).head?.bind (steps[·]?)),
      d.movedTo config services steps files
        ((laterPauses steps names d.position).head?.getD steps.length)) := by
  rcases Nat.lt_or_eq_of_le hp with hlt | heq
  · obtain ⟨q, hq⟩ := exists_nextPause names hlt
    have hrun : (Run.ofSteps config services (steps.take q) files).error = none := by
      refine error_take_of_no_failure (Nat.le_of_lt hq.behind) ?_ fun i hi _ => hgood i hi
      rw [← h.run_eq]
      exact herror
    rw [h.runToBreakpoint_of_success hnames herror hq hrun, hq.laterPauses_eq]
    rcases Nat.lt_or_eq_of_le hq.le_length with hend | rfl <;> simp [*]
  · have hnext : d.next? = none := by
      rw [h.next?_eq herror, heq]
      simp
    have hmoved := h.movedTo_position
    rw [heq] at hmoved
    rw [runToBreakpoint_of_next_none hnext, laterPauses_of_le (Nat.le_of_eq heq.symm)]
    simp [hmoved]

/-- Going on again and again leads to one later breakpoint after the other, and to the end when there are no more. -/
theorem runToBreakpoint_again (hnames : d.PausesBefore names) (herror : d.run.error = none)
    (hp : d.position ≤ steps.length)
    (hgood : ∀ i, d.position ≤ i → ∀ e, ¬ FailsAt config services steps files i e) (k : Nat) :
    (d.afterCalls (List.replicate k .runToBreakpoint)).runToBreakpoint =
      (.ok ((laterPauses steps names d.position)[k]?.bind (steps[·]?)),
        d.movedTo config services steps files
          ((laterPauses steps names d.position)[k]?.getD steps.length)) := by
  have hcall := h.runToBreakpoint_of_no_failure hnames herror hp hgood
  induction k generalizing d with
  | zero => simpa [Debugger.afterCalls, List.head?_eq_getElem?] using hcall
  | succ k ih =>
      have hnext := h.runToBreakpoint
      have hle := le_of_laterPauses names hp
      have hmoved : d.perform .runToBreakpoint = d.movedTo config services steps files
          ((laterPauses steps names d.position).head?.getD steps.length) := by
        rw [Debugger.perform, hcall]
      rw [hcall] at hnext
      have hgood' : ∀ i, (laterPauses steps names d.position).head?.getD steps.length ≤ i →
          ∀ e, ¬ FailsAt config services steps files i e :=
        fun i hi => hgood i (Nat.le_trans hle.1 hi)
      have hrun : (d.movedTo config services steps files
          ((laterPauses steps names d.position).head?.getD steps.length)).run.error = none := by
        refine error_take_of_no_failure hle.1 ?_ fun i hi _ => hgood i hi
        rw [← h.run_eq]
        exact herror
      rw [List.replicate_succ, Debugger.afterCalls, List.foldl_cons, hmoved]
      refine (ih hnext (hnames.congr rfl) hrun hle.2 hgood'
        (hnext.runToBreakpoint_of_no_failure (hnames.congr rfl) hrun hle.2 hgood')).trans ?_
      simp only [movedTo, laterPauses_head, List.getElem?_tail]

end Follows

/-! ## After any calls -/

/-- Where a debugger that has run the first steps of a program pauses next, and what it answers. -/
structure Pauses (config : Config) (services : Services) (steps : List Step) (files : Files)
    (names : Finset String) (d : Debugger) : Prop where
  run_eq : d.run = Run.ofSteps config services (steps.take d.position) files
  /-- There is a next pause, or the end to run to. -/
  exists_next : d.position < steps.length → ∃ q, NextPause steps names d.position q
  /-- If no step before the next pause fails, exactly these steps run, and the answer is the step there. -/
  pauses : ∀ q, d.run.error = none → NextPause steps names d.position q →
    (∀ i, d.position ≤ i → i < q → ∀ e, ¬ FailsAt config services steps files i e) →
      d.runToBreakpoint = (.ok steps[q]?, d.movedTo config services steps files q)
  /-- Otherwise the one that fails is the last to run, and the answer is its error. -/
  fails : ∀ q f e, d.run.error = none → NextPause steps names d.position q → d.position ≤ f →
    f < q → FailsAt config services steps files f e →
      d.runToBreakpoint = (.error e, d.movedTo config services steps files (f + 1))
  /-- When all steps have run or one has failed, nothing happens. -/
  rests : d.run.error.isSome = true ∨ steps.length ≤ d.position → d.runToBreakpoint = (.ok none, d)
  /-- Calls in a row pause before each later breakpoint once, in order, and then at the end. -/
  again : d.run.error = none → d.position < steps.length →
    (∀ i, d.position ≤ i → ∀ e, ¬ FailsAt config services steps files i e) → ∀ k,
      (d.afterCalls (List.replicate k .runToBreakpoint)).runToBreakpoint =
        (.ok ((laterPauses steps names d.position)[k]?.bind (steps[·]?)),
          d.movedTo config services steps files
            ((laterPauses steps names d.position)[k]?.getD steps.length))

/-- After any calls a debugger runs to the next step that is a breakpoint by now. -/
theorem pauses_before_breakpoints (config : Config) (services : Services) (steps : List Step)
    (files : Files) (calls : List Call) :
    Pauses config services steps files (breakpointsAfter calls)
      ((start config services steps files).afterCalls calls) := by
  have hfollows : Follows config services steps files
      ((start config services steps files).afterCalls calls) := follows_start.afterCalls calls
  have hnames : ((start config services steps files).afterCalls calls).PausesBefore
      (breakpointsAfter calls) := by
    refine PausesBefore.afterCalls ?_ calls
    intro s
    simp [start, pausesAt, KeyMap.contains, KeyMap.get?, KeyMap.empty]
  constructor
  case run_eq => exact hfollows.run_eq
  case exists_next => exact exists_nextPause _
  case pauses =>
    intro q herror hq hgood
    refine hfollows.runToBreakpoint_of_success hnames herror hq ?_
    refine error_take_of_no_failure (Nat.le_of_lt hq.behind) ?_ hgood
    rw [← hfollows.run_eq]
    exact herror
  case fails =>
    intro q f e herror hq hf hfq hfails
    exact hfollows.runToBreakpoint_of_failure hnames herror hq hf hfq hfails
  case rests =>
    intro h
    apply runToBreakpoint_of_next_none
    rw [next?_eq_none_iff, hfollows.steps_eq]
    exact h
  case again =>
    intro herror hp hgood
    exact hfollows.runToBreakpoint_again hnames herror (Nat.le_of_lt hp) hgood

/-- A program that loads, twice in a row and once more, with another step in between. -/
def loadingSteps : List Step :=
  [⟨"load", ["d.csv"], Options.empty, 1, (Instruction.load "d.csv").handler⟩,
    ⟨"load", ["d.csv"], Options.empty, 2, (Instruction.load "d.csv").handler⟩,
    ⟨"clean", ["missing"], Options.empty, 3, (Instruction.clean .missing).handler⟩,
    ⟨"load", ["d.csv"], Options.empty, 4, (Instruction.load "d.csv").handler⟩]

/-- The same program, which evaluates in the end although there is no model. -/
def failingSteps : List Step :=
  loadingSteps ++ [⟨"evaluate", [], Options.empty, 5, Instruction.evaluate.handler⟩]

/-- Calls that leave one of two breakpoints. -/
def breakpointCalls : List Call :=
  [.addBreakpoint "evaluate", .addBreakpoint "load", .removeBreakpoint "evaluate"]

/-- The loads behind the first one are reached one after the other; behind the last one there is nothing to pause
before, but in the longer program a step that fails. -/
theorem pauses_before_breakpoints_of_loads :
    breakpointsAfter breakpointCalls = {"load"} ∧
      (∀ k, (((start {} blankLoading loadingSteps Files.empty).afterCalls
          breakpointCalls).afterCalls (List.replicate k .runToBreakpoint)).runToBreakpoint.1 =
        .ok ([1, 3][k]?.bind (loadingSteps[·]?))) ∧
      ∃ e, FailsAt {} blankLoading failingSteps Files.empty 4 e ∧
        ((start {} blankLoading failingSteps Files.empty).afterCalls
            (breakpointCalls ++ [.step, .step, .runToBreakpoint])).runToBreakpoint.1 = .error e := by
  have hnames : breakpointsAfter breakpointCalls = {"load"} := by decide
  refine ⟨hnames, ?_, ?_⟩
  · intro k
    have hpauses := pauses_before_breakpoints {} blankLoading loadingSteps Files.empty
      breakpointCalls
    have hend : (Run.ofSteps {} blankLoading (loadingSteps.take 4) Files.empty).error = none := rfl
    have hgood : ∀ i, 0 ≤ i → ∀ e, ¬ FailsAt {} blankLoading loadingSteps Files.empty i e := by
      intro i _ e hfails
      have hlength : i < 4 := hfails.lt_length
      have herror := hfails.fails
      rw [error_take_of_le hlength hend] at herror
      cases herror
    rw [hpauses.again rfl (by decide) hgood k, hnames]
    rfl
  · have hpauses := pauses_before_breakpoints {} blankLoading failingSteps Files.empty
      (breakpointCalls ++ [.step, .step, .runToBreakpoint])
    have hfails : FailsAt {} blankLoading failingSteps Files.empty 4 _ := ⟨rfl, rfl⟩
    have hq : NextPause failingSteps
        (breakpointsAfter (breakpointCalls ++ [.step, .step, .runToBreakpoint])) 3 5 := by
      refine ⟨by decide, by decide, ?_, ?_⟩
      · intro s hs
        cases hs
      · intro i s hi hlt hs
        obtain rfl : i = 4 := by omega
        cases hs
        decide
    exact ⟨_, hfails, by rw [hpauses.fails 5 4 _ rfl hq (by decide) (by decide) hfails]⟩

end Debugger
end TableFlow
