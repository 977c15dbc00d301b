import TableFlow.Proofs.Command.Effect
import TableFlow.Run.Execution

/-!
# Runs stop at the first failure

A run of the bundled commands performs steps as long as they succeed.  The first one that fails ends it: what the
steps before have done stays, and nothing is left of the one that failed but its report and the error of the run.

Main results:

- Definition `Performs`: steps succeed one after another.
- Theorem `performs_or_fails`: all steps succeed, or there is a first one that fails and changes no context.
- Theorem `run_ends_at_first_failure`: what a run reports, logs, fails with, and leaves behind.
-/

namespace TableFlow

open StepM

/-- The workspace once a message has gone to the log. -/
def Workspace.logged (w : Workspace) (message : String) : Workspace :=
  { w with context := { w.context with log := w.context.log ++ [message] } }

/-- The report of a step that succeeded with a message. -/
def Step.succeeded (s : Step) (message : String) : StepReport :=
  ⟨s.name, s.line, true, message⟩

/-- The report of a step that failed with an error. -/
def Step.failed (s : Step) (e : Error) : StepReport :=
  ⟨s.name, s.line, false, e.message⟩

/-- The steps succeed one after another, with these messages, each of which goes to the log. -/
inductive Performs (services : Services) : Workspace → List Step → List String → Workspace → Prop
    where
  | nil (w : Workspace) : Performs services w [] [] w
  | cons {w w₁ w₂ : Workspace} {s : Step} {steps : List Step} {message : String}
      {messages : List String}
      (hstep : (s.handler.execute services).runWith w = (.ok message, w₁))
      (hrest : Performs services (w₁.logged message) steps messages w₂) :
      Performs services w (s :: steps) (message :: messages) w₂

/-- Each step carries some instruction out. -/
def Instructed (steps : List Step) : Prop :=
  ∀ s ∈ steps, ∃ todo, s.CarriesOut todo

theorem Instructed.take {steps : List Step} (h : Instructed steps) (n : Nat) :
    Instructed (steps.take n) :=
  fun s hs => h s (List.mem_of_mem_take hs)

/-! ## One step -/

section

variable {services : Services} {r : Run} {s : Step} {w : Workspace}

/-- A step that succeeds adds its message to the log and its report to the reports. -/
theorem advance_of_ok {message : String}
    (h : (s.handler.execute services).runWith r.toWorkspace = (.ok message, w)) :
    r.advance services s =
      { w.logged message with reports := r.reports ++ [s.succeeded message], error := none } := by
  rw [Run.advance, Handler.runWith_perform, h]
  rfl

/-- A step that fails leaves its report, and its error ends the run. -/
theorem advance_of_error {e : Error} (hname : s.handler.name = s.name)
    (h : (s.handler.execute services).runWith r.toWorkspace = (.error (.failed e), w)) :
    r.advance services s =
      { w with
        reports := r.reports ++ [s.failed (.execution s.name s.line e)]
        error := some (.execution s.name s.line e) } := by
  rw [Run.advance, Handler.runWith_perform, h, hname]
  rfl

/-- A step that carries an instruction out succeeds, or it fails and changes no context. -/
theorem succeeds_or_fails {todo : Instruction} (hs : s.CarriesOut todo) (services : Services)
    (w : Workspace) :
    (∃ message w', (s.handler.execute services).runWith w = (.ok message, w')) ∨
      ∃ e files, (s.handler.execute services).runWith w = (.error (.failed e), { w with files }) := by
  cases hrun : (s.handler.execute services).runWith w with
  | mk result w' =>
      cases result with
      | ok message => exact Or.inl ⟨message, w', rfl⟩
      | error b =>
          right
          rw [hs.handler_eq] at hrun
          obtain ⟨hcontext, e, rfl⟩ := todo.atomic_execute services w b w' hrun
          refine ⟨e, w'.files, ?_⟩
          rw [← hcontext]

end

/-! ## All steps -/

/-- A run goes on behind steps unless one of them has failed. -/
theorem Run.advanceAll_append (services : Services) {r : Run} (hr : r.error = none)
    (steps more : List Step) :
    r.advanceAll services (steps ++ more) =
      if (r.advanceAll services steps).error.isSome then r.advanceAll services steps
      else (r.advanceAll services steps).advanceAll services more := by
  induction steps generalizing r with
  | nil => simp [Run.advanceAll, hr]
  | cons s steps ih =>
      rw [List.cons_append, Run.advanceAll, Run.advanceAll]
      cases herror : (r.advance services s).error with
      | none => simpa [herror] using ih herror
      | some e => simp [herror]

section

variable {services : Services} {steps : List Step} {messages : List String} {w w' : Workspace}

/-- Each step that succeeded has a message. -/
theorem Performs.length_eq (h : Performs services w steps messages w') :
    messages.length = steps.length := by
  induction h with
  | nil w => rfl
  | cons hstep hrest ih => simp [ih]

/-- All steps succeed, or there is a first one that fails and changes no context. -/
theorem performs_or_fails (h : Instructed steps) (services : Services) (w : Workspace) :
    (∃ messages w', Performs services w steps messages w') ∨
      ∃ done s rest messages w' e files, steps = done ++ s :: rest ∧
        Performs services w done messages w' ∧
        (s.handler.execute services).runWith w' = (.error (.failed e), { w' with files }) := by
  induction steps generalizing w with
  | nil => exact Or.inl ⟨[], w, .nil w⟩
  | cons s steps ih =>
      obtain ⟨todo, hs⟩ := h s (by simp)
      rcases succeeds_or_fails hs services w with
        ⟨message, w₁, hstep⟩ | ⟨e, files, hfails⟩
      · have hmore := ih (fun t ht => h t (by simp [ht])) (w₁.logged message)
        rcases hmore with
          ⟨messages, w', hrest⟩ | ⟨done, t, rest, messages, w', e, files, rfl, hdone, ht⟩
        · exact Or.inl ⟨message :: messages, w', .cons hstep hrest⟩
        · exact Or.inr ⟨s :: done, t, rest, message :: messages, w', e, files, rfl,
            .cons hstep hdone, ht⟩
      · exact Or.inr ⟨[], s, steps, [], w, e, files, rfl, .nil w, hfails⟩

/-- The messages of steps that succeeded are at the end of the log. -/
theorem Performs.log_eq (hsteps : Instructed steps)
    (h : Performs services w steps messages w') : w'.context.log = w.context.log ++ messages := by
  induction h with
  | nil w => rw [List.append_nil]
  | cons hstep hrest ih =>
      rename_i w₁ w₂ s steps message messages
      obtain ⟨todo, hs⟩ := hsteps s (by simp)
      rw [hs.handler_eq] at hstep
      have hlog := (Instruction.effect_of_execute hstep).log_eq
      rw [ih fun t ht => hsteps t (by simp [ht])]
      simp [Workspace.logged, hlog]

/-- Steps that succeed leave their reports and no error. -/
theorem Performs.advanceAll_eq {r : Run}
    (h : Performs services r.toWorkspace steps messages w') (herror : r.error = none) :
    r.advanceAll services steps =
      { w' with
        reports := r.reports ++ List.zipWith Step.succeeded steps messages
        error := none } := by
  generalize hw : r.toWorkspace = w at h
  induction h generalizing r with
  | nil w =>
      subst hw
      rw [List.zipWith_nil_left, List.append_nil, Run.advanceAll, ← herror]
  | cons hstep hrest ih =>
      subst hw
      rw [Run.advanceAll]
      simp only [advance_of_ok hstep, Option.isSome_none, Bool.false_eq_true, if_false]
      rw [ih rfl rfl]
      simp

end

/-! ## The run of a program -/

/-- How a run from a workspace ends: the first `k` steps succeed with these messages and leave `w`, and the step
after them, if there is one, fails there. -/
structure EndsAt (services : Services) (start : Workspace) (steps : List Step) (k : Nat)
    (messages : List String) (w : Workspace) : Prop where
  le_length : k ≤ steps.length
  performs : Performs services start (steps.take k) messages w
  fails : ∀ h : k < steps.length, ∃ e w',
    ((steps[k]).handler.execute services).runWith w = (.error (.failed e), w')

/-- Every run ends somewhere. -/
theorem exists_endsAt {steps : List Step} (h : Instructed steps) (services : Services)
    (start : Workspace) : ∃ k messages w, EndsAt services start steps k messages w := by
  rcases performs_or_fails h services start with
    ⟨messages, w, hall⟩ | ⟨done, s, rest, messages, w, e, files, rfl, hdone, hfails⟩
  · refine ⟨steps.length, messages, w, Nat.le_refl _, ?_, ?_⟩
    · rw [List.take_length]
      exact hall
    · intro hlt
      exact absurd hlt (Nat.lt_irrefl _)
  · refine ⟨done.length, messages, w, by simp, ?_, ?_⟩
    · rw [List.take_left]
      exact hdone
    · intro hlt
      refine ⟨e, { w with files }, ?_⟩
      rw [List.getElem_append_right (Nat.le_refl _)]
      simpa using hfails

section

variable {config : Config} {services : Services} {files : Files} {steps : List Step}
variable {k : Nat} {messages : List String} {w : Workspace}

/-- A run that ends after its last step has reported the success of each step. -/
theorem EndsAt.ofSteps_of_all
    (h : EndsAt services (Run.start config files).toWorkspace steps k messages w)
    (hk : k = steps.length) :
    Run.ofSteps config services steps files =
      { w with reports := List.zipWith Step.succeeded steps messages, error := none } := by
  have hall := h.performs
  rw [hk, List.take_length] at hall
  rw [Run.ofSteps, hall.advanceAll_eq rfl]
  rfl

/-- A run that ends at a step that fails has reported the success of the steps before, and the failure. -/
theorem EndsAt.ofSteps_of_failure (hsteps : Instructed steps)
    (h : EndsAt services (Run.start config files).toWorkspace steps k messages w)
    (hk : k < steps.length) :
    ∃ e files', ((steps[k]).handler.execute services).runWith w =
        (.error (.failed e), { w with files := files' }) ∧
      Run.ofSteps config services steps files =
        { w with
          files := files'
          reports := List.zipWith Step.succeeded (steps.take k) messages ++
            [(steps[k]).failed (.execution (steps[k]).name (steps[k]).line e)]
          error := some (.execution (steps[k]).name (steps[k]).line e) } := by
  obtain ⟨todo, hs⟩ := hsteps steps[k] (List.getElem_mem hk)
  obtain ⟨e, w', hfails⟩ := h.fails hk
  rcases succeeds_or_fails hs services w with ⟨message, w₁, hok⟩ | ⟨e₁, files', herror⟩
  · rw [hfails] at hok
    cases hok
  · refine ⟨e₁, files', herror, ?_⟩
    have hsplit : steps = steps.take k ++ steps[k] :: steps.drop (k + 1) := by
      rw [List.getElem_cons_drop, List.take_append_drop]
    have hbefore := h.performs.advanceAll_eq rfl
    have hadvance := advance_of_error hs.handler_name (r := { w with
      reports := List.zipWith Step.succeeded (steps.take k) messages
      error := none }) herror
    have hall := Run.advanceAll_append services (r := Run.start config files) rfl (steps.take k)
      (steps[k] :: steps.drop (k + 1))
    rw [← hsplit, hbefore] at hall
    rw [Run.ofSteps, hall, Run.advanceAll]
    simp only [Run.start, List.nil_append, hadvance, Option.isSome_none, Option.isSome_some,
      Bool.false_eq_true, if_false, if_true]

/-- Running just the steps that succeeded leaves the same workspace. -/
theorem EndsAt.ofSteps_take
    (h : EndsAt services (Run.start config files).toWorkspace steps k messages w) :
    (Run.ofSteps config services (steps.take k) files).toWorkspace = w := by
  rw [Run.ofSteps, h.performs.advanceAll_eq rfl]

end

/-- What a run leaves, given where it ends: the messages of the steps that succeeded are its log, its context is
the one that those steps alone leave, and a step that failed adds its report and the error of the run. -/
structure Outcome (config : Config) (services : Services) (files : Files) (steps : List Step)
    (k : Nat) (messages : List String) (w : Workspace) : Prop where
  endsAt : EndsAt services ⟨Context.start config.seed, files⟩ steps k messages w
  length_messages : messages.length = k
  log_eq : (Run.ofSteps config services steps files).context.log = messages
  context_eq : (Run.ofSteps config services steps files).context =
    (Run.ofSteps config services (steps.take k) files).context
  of_all : k = steps.length →
    (Run.ofSteps config services steps files).reports =
        List.zipWith Step.succeeded steps messages ∧
      (Run.ofSteps config services steps files).error = none ∧
      (Run.ofSteps config services steps files).success = true
  of_failure : ∀ hk : k < steps.length, ∃ e files',
    ((steps[k]).handler.execute services).runWith w =
        (.error (.failed e), { w with files := files' }) ∧
      (Run.ofSteps config services steps files).reports =
        List.zipWith Step.succeeded (steps.take k) messages ++
          [(steps[k]).failed (.execution (steps[k]).name (steps[k]).line e)] ∧
      (Run.ofSteps config services steps files).error =
        some (.execution (steps[k]).name (steps[k]).line e) ∧
      (Run.ofSteps config services steps files).success = false

/-- Every run of instructions has such an outcome. -/
theorem exists_outcome {steps : List Step} (hsteps : Instructed steps) (config : Config)
    (services : Services) (files : Files) :
    ∃ k messages w, Outcome config services files steps k messages w := by
  obtain ⟨k, messages, w, h⟩ :=
    exists_endsAt hsteps services (Run.start config files).toWorkspace
  have htake := h.ofSteps_take
  have hlog : w.context.log = messages := h.performs.log_eq (hsteps.take k)
  have hlength : messages.length = k := by
    rw [h.performs.length_eq, List.length_take, Nat.min_eq_left h.le_length]
  rcases Nat.lt_or_eq_of_le h.le_length with hlt | heq
  · obtain ⟨e, files', hfails, hrun⟩ := h.ofSteps_of_failure hsteps hlt
    refine ⟨k, messages, w, h, hlength, ?_, ?_, ?_, ?_⟩
    · rw [hrun]
      exact hlog
    · rw [hrun, htake]
    · intro heq
      exact absurd hlt (heq ▸ Nat.lt_irrefl _)
    · intro _
      exact ⟨e, files', hfails, by rw [hrun], by rw [hrun], by rw [hrun]; rfl⟩
  · have hrun := h.ofSteps_of_all heq
    refine ⟨k, messages, w, h, hlength, ?_, ?_, ?_, ?_⟩
    · rw [hrun]
      exact hlog
    · rw [hrun, htake]
    · intro _
      exact ⟨by rw [hrun], by rw [hrun], by rw [hrun]; rfl⟩
    · intro hlt
      exact absurd hlt (heq ▸ Nat.lt_irrefl _)

/-- The run of a program performs its steps until one fails, and leaves nothing of the one that fails but its report
and the error; for a handler that fails changes no context, whatever workspace it finds. -/
theorem run_ends_at_first_failure :
    (∀ (config : Config) (services : Services) (files : Files) (p : Script.Program)
        (steps : List Step), ({ config } : Dialect).compile p = .ok steps →
      ∃ k messages w, Outcome config services files steps k messages w) ∧
      (∀ spec ∈ Registry.bundled.specs, ∀ (input : CommandInput) (handler : Handler),
        spec.build input = .ok handler → ∀ (services : Services) (w w' : Workspace) (b : Breakdown),
          (handler.execute services).runWith w = (.error b, w') → w'.context = w.context) ∧
      ∀ (todo : Instruction) (services : Services) (w w' : Workspace) (b : Breakdown),
        (todo.handler.execute services).runWith w = (.error b, w') → w'.context = w.context := by
  refine ⟨?_, ?_, ?_⟩
  · intro config services files p steps hcompile
    exact exists_outcome (instruction_of_compile hcompile) config services files
  · intro spec hspec input handler hbuild services w w' b hrun
    obtain ⟨todo, rfl, _⟩ := instruction_of_build hspec hbuild
    exact (todo.atomic_execute services w b w' hrun).1
  · intro todo services w w' b hrun
    exact (todo.atomic_execute services w b w' hrun).1

/-- A program that loads a table, evaluates without a model, and would go on. -/
theorem run_ends_at_evaluate :
    ∃ p : Script.Program, p.commands = ["load", "evaluate", "clean"] ∧
      ∃ steps, ({} : Dialect).compile p = .ok steps ∧
        ∃ k messages w, Outcome {}
          { Services.native {} "" with load := fun _ => pure ⟨["c"], [[.null]]⟩ }
          Files.empty steps k messages w := by
  have hcompile : ({} : Dialect).compile ⟨[⟨"load", ["d.csv"], Options.empty, 1⟩,
      ⟨"evaluate", [], Options.empty, 2⟩, ⟨"clean", ["missing"], Options.empty, 3⟩]⟩ =
      .ok [⟨"load", ["d.csv"], Options.empty, 1, (Instruction.load "d.csv").handler⟩,
        ⟨"evaluate", [], Options.empty, 2, Instruction.evaluate.handler⟩,
        ⟨"clean", ["missing"], Options.empty, 3, (Instruction.clean .missing).handler⟩] := rfl
  exact ⟨_, rfl, _, hcompile, run_ends_at_first_failure.1 {} _ _ _ _ hcompile⟩

end TableFlow
