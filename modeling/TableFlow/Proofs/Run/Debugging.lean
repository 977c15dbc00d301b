import Mathlib.Data.List.Basic
import TableFlow.Proofs.Run.Contexts
import TableFlow.Run.Debugger

/-!
# Debugging is running

A debugger and a run are two ways to drive the same steps.  However a debugger is driven, by single steps, to
breakpoints that come and go, or to the end, it has always run the first steps of the program and nothing else, with
one report for each; so when the rest has run, too, it has what the run has.  A step that failed is the last one for
both.

Main results:

- Definition `Debugger.afterCalls`: a debugger after any sequence of calls.
- Definition `Debugger.Follows`: a debugger has run the first steps of a program.
- Theorem `Debugger.Follows.afterCalls`: no call makes it do anything else.
- Theorem `Debugger.Follows.finish_eq`: running what is left gives the run of the program.
- Theorem `Debugger.debugging_is_running`: debugging a script is running it.
-/

namespace TableFlow

open Script (Program)

/-- A step that runs has one report. -/
theorem length_reports_advance (services : Services) (r : Run) (s : Step) :
    (r.advance services s).reports.length = r.reports.length + 1 := by
  unfold Run.advance
  split <;> simp

namespace Debugger

/-! ## Calls -/

/-- What can be called on a debugger. -/
inductive Call where
  | step
  | runToBreakpoint
  | addBreakpoint (command : String)
  | removeBreakpoint (command : String)

/-- The debugger after a call. -/
def perform (d : Debugger) : Call → Debugger
  | .step => d.step.2
  | .runToBreakpoint => d.runToBreakpoint.2
  | .addBreakpoint command => d.addBreakpoint command
  | .removeBreakpoint command => d.removeBreakpoint command

/-- The debugger after some calls. -/
def afterCalls (d : Debugger) (calls : List Call) : Debugger :=
  calls.foldl perform d

section

variable {d : Debugger} {s : Step}

/-- A step runs next when none has failed and it is the first one that has not run. -/
theorem next?_eq_some_iff :
    d.next? = some s ↔ d.run.error = none ∧ d.steps[d.position]? = some s := by
  unfold next?
  cases d.run.error <;> simp

/-- Nothing runs next when a step has failed or all have run. -/
theorem next?_eq_none_iff :
    d.next? = none ↔ d.run.error.isSome = true ∨ d.steps.length ≤ d.position := by
  unfold next?
  cases d.run.error <;> simp

theorem step_of_next (h : d.next? = some s) : d.step.2 = d.after s := by
  unfold step
  rw [h]
  dsimp only
  split <;> rfl

theorem step_of_next_none (h : d.next? = none) : d.step = (.ok none, d) := by
  unfold step
  rw [h]

theorem runToBreakpoint_of_next_none (h : d.next? = none) : d.runToBreakpoint = (.ok none, d) := by
  rw [runToBreakpoint, step_of_next_none h]

/-- When nothing runs next, no number of steps changes anything. -/
theorem stepFor_of_next_none (h : d.next? = none) (n : Nat) : d.stepFor n = d := by
  induction n with
  | zero => rfl
  | succ n ih => rw [stepFor, step_of_next_none h, ih]

/-- Once enough steps are allowed, nothing is left to run. -/
theorem next?_stepFor {n : Nat} (h : d.steps.length ≤ d.position + n) :
    (d.stepFor n).next? = none := by
  induction n generalizing d with
  | zero => exact next?_eq_none_iff.2 (Or.inr h)
  | succ n ih =>
      cases hnext : d.next? with
      | none => rw [stepFor_of_next_none hnext, hnext]
      | some s =>
          rw [stepFor, step_of_next hnext]
          refine ih ?_
          simp only [after]
          omega

end

/-! ## Following a program -/

/-- The debugger has run the first steps of the program, as a run would, and has one report for each. -/
structure Follows (config : Config) (services : Services) (steps : List Step) (files : Files)
    (d : Debugger) : Prop where
  services_eq : d.services = services
  steps_eq : d.steps = steps
  run_eq : d.run = Run.ofSteps config services (steps.take d.position) files
  position_eq : d.position = d.run.reports.length

section

variable {config : Config} {services : Services} {steps : List Step} {files : Files}

/-- At first nothing has run. -/
theorem follows_start : Follows config services steps files (start config services steps files) where
  services_eq := rfl
  steps_eq := rfl
  run_eq := rfl
  position_eq := rfl

namespace Follows

variable {d : Debugger} (h : Follows config services steps files d)

include h

/-- The step that runs next is the next one of the program. -/
theorem after {s : Step} (hnext : d.next? = some s) :
    Follows config services steps files (d.after s) where
  services_eq := h.services_eq
  steps_eq := h.steps_eq
  run_eq := by
    obtain ⟨herror, hstep⟩ := next?_eq_some_iff.1 hnext
    rw [h.steps_eq] at hstep
    obtain ⟨hlt, rfl⟩ := List.getElem?_eq_some_iff.1 hstep
    -- One more step of the program is an advance of its run, which is the run of the debugger.
    have htake := ofSteps_take_succ config services files hlt
    rw [← h.run_eq, herror] at htake
    simp only [Debugger.after, h.services_eq, htake]
    rfl
  position_eq := by
    simp only [Debugger.after, length_reports_advance, h.position_eq]

/-- A single step follows the program. -/
theorem step : Follows config services steps files d.step.2 := by
  cases hnext : d.next? with
  | none =>
      rw [step_of_next_none hnext]
      exact h
  | some s =>
      rw [step_of_next hnext]
      exact h.after hnext

/-- So does any number of them. -/
theorem stepFor (n : Nat) : Follows config services steps files (d.stepFor n) := by
  induction n generalizing d with
  | zero => exact h
  | succ n ih => exact ih h.step

/-- So do steps up to a breakpoint. -/
theorem continueFor (n : Nat) : Follows config services steps files (d.continueFor n).2 := by
  induction n generalizing d with
  | zero => exact h
  | succ n ih =>
      have hstep := h.step
      unfold Debugger.continueFor
      split
      · exact h
      · split
        · exact h
        · split
          · next heq => rwa [heq] at hstep
          · next heq =>
              rw [heq] at hstep
              exact ih hstep

/-- A run to a breakpoint follows the program. -/
theorem runToBreakpoint : Follows config services steps files d.runToBreakpoint.2 := by
  have hstep := h.step
  unfold Debugger.runToBreakpoint
  split
  · next heq => rwa [heq] at hstep
  · next heq => rwa [heq] at hstep
  · next heq =>
      rw [heq] at hstep
      exact hstep.continueFor _

/-- Every call follows the program; breakpoints only say where to pause. -/
theorem perform (c : Call) : Follows config services steps files (d.perform c) := by
  cases c with
  | step => exact h.step
  | runToBreakpoint => exact h.runToBreakpoint
  | addBreakpoint command => exact ⟨h.services_eq, h.steps_eq, h.run_eq, h.position_eq⟩
  | removeBreakpoint command => exact ⟨h.services_eq, h.steps_eq, h.run_eq, h.position_eq⟩

/-- So does any sequence of calls. -/
theorem afterCalls (calls : List Call) :
    Follows config services steps files (d.afterCalls calls) := by
  induction calls generalizing d with
  | nil => exact h
  | cons c calls ih => exact ih (h.perform c)

/-- When nothing is left to run, what has run is the run of the program. -/
theorem run_eq_of_next_none (hnext : d.next? = none) :
    d.run = Run.ofSteps config services steps files := by
  rcases next?_eq_none_iff.1 hnext with herror | hle
  · -- A run that has failed is left alone by the steps behind.
    have hall := Run.advanceAll_append services (r := Run.start config files) rfl
      (steps.take d.position) (steps.drop d.position)
    rw [List.take_append_drop] at hall
    rw [h.run_eq] at herror ⊢
    exact (hall.trans (if_pos herror)).symm
  · rw [h.steps_eq] at hle
    rw [h.run_eq, List.take_of_length_le hle]

/-- Running what is left gives the run of the program. -/
theorem finish_eq : d.finish = Run.ofSteps config services steps files := by
  refine (h.stepFor d.remaining).run_eq_of_next_none (next?_stepFor ?_)
  rw [remaining]
  omega

end Follows

end

/-! ## Failures -/

/-- Once a step has failed, a call runs nothing and reports nothing. -/
theorem perform_of_error {d : Debugger} (h : d.run.error.isSome = true) (c : Call) :
    (d.perform c).run = d.run ∧ (d.perform c).position = d.position := by
  have hnext : d.next? = none := next?_eq_none_iff.2 (Or.inl h)
  cases c with
  | step => simp only [perform, step_of_next_none hnext, and_self]
  | runToBreakpoint => simp only [perform, runToBreakpoint_of_next_none hnext, and_self]
  | addBreakpoint command => exact ⟨rfl, rfl⟩
  | removeBreakpoint command => exact ⟨rfl, rfl⟩

/-- Nor do any calls. -/
theorem afterCalls_of_error {d : Debugger} (h : d.run.error.isSome = true) (calls : List Call) :
    (d.afterCalls calls).run = d.run ∧ (d.afterCalls calls).position = d.position := by
  induction calls generalizing d with
  | nil => exact ⟨rfl, rfl⟩
  | cons c calls ih =>
      obtain ⟨hrun, hposition⟩ := perform_of_error h c
      have hcalls := ih (d := d.perform c) (by rw [hrun]; exact h)
      rw [hrun, hposition] at hcalls
      exact hcalls

/-! ## Scripts -/

/-- Debugging a script is running it.  A script that is not accepted is refused with the error of its run.  For one
that is, whatever is called: what has run are the first steps of the script, as many as there are reports; nothing
runs behind a step that failed; and running what is left gives the run of the script. -/
theorem debugging_is_running (d : Dialect) (services : Services) (source : String) (files : Files) :
    (∀ e, d.compileSource source = .error e →
        ofSource d services source files = .error e ∧
          (Run.ofSource d services source files).error = some e) ∧
      ∀ steps, d.compileSource source = .ok steps →
        ∃ debugger, ofSource d services source files = .ok debugger ∧ ∀ calls,
          (debugger.afterCalls calls).finish = Run.ofSource d services source files ∧
          (debugger.afterCalls calls).position = (debugger.afterCalls calls).run.reports.length ∧
          (debugger.afterCalls calls).run = Run.ofSteps d.config services
            (steps.take (debugger.afterCalls calls).position) files ∧
          ((debugger.afterCalls calls).run.error.isSome = true → ∀ more,
            (debugger.afterCalls (calls ++ more)).run = (debugger.afterCalls calls).run ∧
            (debugger.afterCalls (calls ++ more)).position =
              (debugger.afterCalls calls).position) := by
  constructor
  · intro e he
    rw [ofSource, Run.ofSource, he]
    exact ⟨rfl, rfl⟩
  · intro steps hsteps
    refine ⟨start d.config services steps files, by rw [ofSource, hsteps]; rfl, ?_⟩
    intro calls
    have hfollows : Follows d.config services steps files
        ((start d.config services steps files).afterCalls calls) := follows_start.afterCalls calls
    refine ⟨?_, hfollows.position_eq, hfollows.run_eq, ?_⟩
    · rw [hfollows.finish_eq, Run.ofSource, hsteps]
      rfl
    · intro herror more
      rw [Debugger.afterCalls, List.foldl_append]
      exact afterCalls_of_error herror more

/-- Services that load a table with one missing cell. -/
def blankLoading : Services :=
  { Services.native {} "" with load := fun _ => pure ⟨["c"], [[.null]]⟩ }

/-- Calls that pause before a step, take the breakpoint away and go on. -/
def pausingCalls : List Call :=
  [.addBreakpoint "evaluate", .runToBreakpoint, .removeBreakpoint "evaluate", .step, .step,
    .runToBreakpoint]

/-- A script that evaluates without a model is debugged as it is run, and ends in its second step; one that loads
nothing is refused. -/
theorem debugging_is_running_past_evaluate :
    ofSource {} blankLoading "load" Files.empty = .error (.validation "load"
        "line 1: expects at least 1 argument(s), got 0 (usage: load <path>)") ∧
      ∃ debugger,
        ofSource {} blankLoading "load d.csv\nevaluate\nclean missing" Files.empty = .ok debugger ∧
        (debugger.afterCalls pausingCalls).position = 2 ∧
        (debugger.afterCalls pausingCalls).run.reports.length = 2 ∧
        (debugger.afterCalls pausingCalls).finish =
          Run.ofSource {} blankLoading "load d.csv\nevaluate\nclean missing" Files.empty := by
  have hload : Program.parse "load" = .ok ⟨[⟨"load", [], Options.empty, 1⟩]⟩ := by decide +kernel
  have hparse : Program.parse "load d.csv\nevaluate\nclean missing" =
      .ok ⟨[⟨"load", ["d.csv"], Options.empty, 1⟩, ⟨"evaluate", [], Options.empty, 2⟩,
        ⟨"clean", ["missing"], Options.empty, 3⟩]⟩ := by decide +kernel
  have hrefused : ({} : Dialect).compileSource "load" = .error (.validation "load"
      "line 1: expects at least 1 argument(s), got 0 (usage: load <path>)") := by
    rw [Dialect.compileSource, hload]
    rfl
  have hcompile : ({} : Dialect).compileSource "load d.csv\nevaluate\nclean missing" =
      .ok [⟨"load", ["d.csv"], Options.empty, 1, (Instruction.load "d.csv").handler⟩,
        ⟨"evaluate", [], Options.empty, 2, Instruction.evaluate.handler⟩,
        ⟨"clean", ["missing"], Options.empty, 3, (Instruction.clean .missing).handler⟩] := by
    rw [Dialect.compileSource, hparse]
    rfl
  obtain ⟨debugger, hdebugger, hcalls⟩ :=
    (debugging_is_running {} blankLoading _ Files.empty).2 _ hcompile
  obtain ⟨hfinish, hposition, -, -⟩ := hcalls pausingCalls
  have htwo : (debugger.afterCalls pausingCalls).position = 2 := by
    rw [ofSource, hcompile] at hdebugger
    cases hdebugger
    rfl
  exact ⟨((debugging_is_running {} blankLoading _ Files.empty).1 _ hrefused).1,
    debugger, hdebugger, htwo, hposition ▸ htwo, hfinish⟩

end Debugger
end TableFlow
