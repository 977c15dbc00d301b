import TableFlow.Proofs.Run.Failure
import TableFlow.Proofs.Run.Leniency
import TableFlow.Proofs.Script.Agreement

/-!
# Programs of equal content run alike

The content of a program is its commands, arguments and options; the lines of its nodes and the order of its options
are not.  The bundled commands ask for an option by its key, so the same content is accepted or refused alike and makes
the same handlers.  Two such sequences of steps, run on the same files with the same services, do the same and end at
the same step; what they tell differs in line numbers alone.

Main results:

- Definition `CommandSpec.ReadsByKey`: options in another order give the same handler.
- Theorem `readsByKey_of_mem`: the bundled commands ask for options by key.
- Theorem `Dialect.compile_agrees`: a program is accepted if one of equal content is, and its steps are alike.
- Theorem `Run.Alike.advanceAll`: steps that are alike keep runs alike.
- Theorem `equal_content_runs_alike`: programs of equal content are checked alike and run alike.
-/

namespace TableFlow

open Script (Node Program)

theorem Allows.trans {α : Type} {x y z : Except Error α} (hxy : Allows x y) (hyz : Allows y z) : Allows x z :=
  fun a h => hyz a (hxy a h)

/-! ## Commands that ask for options by key -/

/-- Options that agree with those of a line give the same handler. -/
def CommandSpec.ReadsByKey (s : CommandSpec) : Prop :=
  ∀ (i : CommandInput) (o : Options), i.options.agrees o = true → Allows (s.build i) (s.build { i with options := o })

section

variable {i : CommandInput} {o : Options}

/-- A key has the value that it has in options that agree. -/
theorem option?_of_agrees (h : i.options.agrees o = true) (key : String) :
    ({ i with options := o } : CommandInput).option? key = i.option? key :=
  Options.get?_of_agrees h key

theorem natural_of_agrees (h : i.options.agrees o = true) (key : String) :
    ({ i with options := o } : CommandInput).natural key = i.natural key := by
  unfold CommandInput.natural
  rw [option?_of_agrees h]
  rfl

theorem number_of_agrees (h : i.options.agrees o = true) (key : String) :
    ({ i with options := o } : CommandInput).number key = i.number key := by
  unfold CommandInput.number
  rw [option?_of_agrees h]
  rfl

theorem readParams_of_agrees (h : i.options.agrees o = true) :
    Training.readParams { i with options := o } = Training.readParams i := by
  unfold Training.readParams
  simp only [natural_of_agrees h, number_of_agrees h]

/-- Which foreign option is found depends on the order; whether one is found does not. -/
theorem foreignOption?_of_agrees {a : Learn.Algorithm} (h : i.options.agrees o = true)
    (hnone : Training.foreignOption? a i.options = none) : Training.foreignOption? a o = none := by
  unfold Training.foreignOption? at hnone ⊢
  rw [List.find?_eq_none] at hnone ⊢
  intro key hkey
  apply hnone
  exact ((Options.agrees_iff_perm.1 h).map Prod.fst).mem_iff.2 hkey

/-- Only the error of a foreign option tells the order of the options. -/
theorem allows_ofInput_of_agrees (h : i.options.agrees o = true) :
    Allows (Training.ofInput i) (Training.ofInput { i with options := o }) := by
  have hfirst : ({ i with options := o } : CommandInput).firstArg = i.firstArg := rfl
  unfold Training.ofInput
  simp only [hfirst, option?_of_agrees h]
  cases Learn.Algorithm.ofName? i.firstArg with
  | none => exact .error _ _
  | some a =>
      apply Allows.bind (.refl _)
      intro a
      cases hforeign : Training.foreignOption? a i.options with
      | some key => exact .error _ _
      | none =>
          rw [foreignOption?_of_agrees h hforeign, readParams_of_agrees h]
          exact .refl _

end

theorem readsByKey_encode : Encoding.spec.ReadsByKey := by
  intro i o h
  simp only [Encoding.spec, option?_of_agrees h]
  exact .refl _

theorem readsByKey_scale : Scaling.spec.ReadsByKey := by
  intro i o h
  simp only [Scaling.spec, option?_of_agrees h]
  exact .refl _

theorem readsByKey_split : Splitting.spec.ReadsByKey := by
  intro i o h
  simp only [Splitting.spec, option?_of_agrees h, natural_of_agrees h]
  exact .refl _

theorem readsByKey_train : Training.spec.ReadsByKey := by
  intro i o h
  apply Allows.bind (allows_ofInput_of_agrees h)
  intro how
  exact .refl _

/-- The bundled commands ask for options by key; those that take no options do not ask at all. -/
theorem readsByKey_of_mem {s : CommandSpec} (hs : s ∈ Registry.bundled.specs) : s.ReadsByKey := by
  simp only [Registry.bundled, List.mem_cons, List.not_mem_nil, or_false] at hs
  rcases hs with rfl | rfl | rfl | rfl | rfl | rfl | rfl | rfl | rfl | rfl | rfl
  case inr.inr.inl => exact readsByKey_encode
  case inr.inr.inr.inl => exact readsByKey_scale
  case inr.inr.inr.inr.inr.inr.inl => exact readsByKey_split
  case inr.inr.inr.inr.inr.inr.inr.inl => exact readsByKey_train
  all_goals exact fun _ _ _ => .refl _

/-! ## Steps of equal content -/

/-- What steps of equal content share: everything but their lines and the order of their options. -/
structure Step.Alike (s s' : Step) : Prop where
  name : s'.name = s.name
  args : s'.args = s.args
  options : s.options.agrees s'.options = true
  handler : s'.handler = s.handler

namespace Dialect

variable {d : Dialect} {n m : Node} {s : Step}

/-- The checks of options do not depend on their order. -/
theorem checkOptions_agrees {spec : CommandSpec} {i j : CommandInput} {strict : Bool} {a b : Options}
    (hagree : a.agrees b = true) (h : checkOptions strict spec i a.pairs = .ok ()) :
    checkOptions strict spec j b.pairs = .ok () := by
  rw [checkOptions_eq_ok_iff] at h ⊢
  intro pair hpair
  exact h pair ((Options.agrees_iff_perm.1 hagree).mem_iff.2 hpair)

/-- A node is made into a step if one of equal content is, and the steps are alike. -/
theorem step_agrees (hreads : ∀ spec ∈ d.registry.specs, spec.ReadsWords ∧ spec.ReadsByKey)
    (hsame : n.SameContent m) (h : d.step n = .ok s) : ∃ s', d.step m = .ok s' ∧ s.Alike s' := by
  rcases step_eq_ok_iff.1 h with ⟨spec, hchecks⟩
  rcases hreads spec (found_eq hchecks.found).2 with ⟨hwords, hkeys⟩
  have hfound : d.registry.get? m.command = some spec := hsame.command ▸ hchecks.found
  have hstripped : (d.stripNode n).options.agrees (d.stripNode m).options = true := by
    rw [options_stripNode hchecks.found, options_stripNode hfound]
    exact Options.agrees_filter hsame.options _
  have hbuilt : spec.build (d.inputOf spec (d.stripNode m)) = .ok s.handler := by
    have hline := (hkeys _ _ hstripped).trans (hwords.build_line _ m.line) _ hchecks.built
    rw [← hline]
    simp only [inputOf, stripNode, hsame.args]
  have harity : spec.checkArity (d.inputOf spec m) = .ok () := by
    have hcount := checkArity_eq_ok_iff.1 hchecks.arity
    rw [checkArity_eq_ok_iff]
    simpa only [inputOf, hsame.args] using hcount
  let s' : Step := ⟨m.command, m.args, (d.stripNode m).options, m.line, s.handler⟩
  have hstep : d.step m = .ok s' :=
    step_eq_ok_iff.2 ⟨spec, hfound, harity, checkOptions_agrees hsame.options hchecks.options, hbuilt, rfl⟩
  have hname : s.name = n.command := congrArg Node.command hchecks.node
  have hargs : s.args = n.args := congrArg Node.args hchecks.node
  have hoptions : s.options = (d.stripNode n).options := congrArg Node.options hchecks.node
  refine ⟨s', hstep, ?_, ?_, ?_, rfl⟩
  · exact hsame.command.symm.trans hname.symm
  · exact hsame.args.symm.trans hargs.symm
  · rw [hoptions]
    exact hstripped

/-- A program is accepted if one of equal content is, and its steps are alike. -/
theorem compile_agrees (hreads : ∀ spec ∈ d.registry.specs, spec.ReadsWords ∧ spec.ReadsByKey) {p q : Program}
    (hagree : p.agrees q = true) {steps : List Step} (h : d.compile p = .ok steps) :
    ∃ steps', d.compile q = .ok steps' ∧ List.Forall₂ Step.Alike steps steps' := by
  rw [Program.agrees_iff] at hagree
  unfold compile at h ⊢
  generalize p.nodes = nodes, q.nodes = nodes' at hagree h
  induction hagree generalizing steps with
  | nil =>
      cases h
      exact ⟨[], rfl, .nil⟩
  | cons hsame _ ih =>
      rw [List.mapM_cons] at h
      rcases bind_eq_ok.1 h with ⟨s, hstep, h⟩
      rcases bind_eq_ok.1 h with ⟨rest, hrest, hpure⟩
      cases hpure
      rcases step_agrees hreads hsame hstep with ⟨s', hstep', hs⟩
      rcases ih hrest with ⟨rest', hrest', hall⟩
      refine ⟨s' :: rest', ?_, .cons hs hall⟩
      rw [List.mapM_cons, hstep', hrest']
      rfl

end Dialect

/-! ## Runs that differ in line numbers alone -/

/-- Two errors of steps of one name with one cause, each with a line of its own. -/
inductive Error.Alike : Error → Error → Prop where
  | execution (step : String) (line line' : Nat) (cause : Error) :
      Alike (.execution step line cause) (.execution step line' cause)

/-- Two reports that tell the same, each with a line of its own: the message of a step that succeeded names no line, and
that of one that failed is the text of an error, which names the line. -/
inductive StepReport.Alike : StepReport → StepReport → Prop where
  | succeeded (name : String) (line line' : Nat) (message : String) :
      Alike ⟨name, line, true, message⟩ ⟨name, line', true, message⟩
  | failed (name : String) (line line' : Nat) {e e' : Error} (herror : e.Alike e') :
      Alike ⟨name, line, false, e.message⟩ ⟨name, line', false, e'.message⟩

/-- The place of the step that failed. -/
def Run.failedAt? (r : Run) : Option Nat :=
  r.reports.findIdx? fun report => !report.success

/-- Two runs that differ in line numbers alone. -/
structure Run.Alike (r r' : Run) : Prop where
  workspace : r'.toWorkspace = r.toWorkspace
  error : Option.Rel Error.Alike r.error r'.error
  reports : List.Forall₂ StepReport.Alike r.reports r'.reports

namespace Run

variable {r r' : Run} {services : Services}

theorem alike_start (config : Config) (files : Files) : (start config files).Alike (start config files) :=
  ⟨rfl, .none, .nil⟩

theorem Alike.isSome_eq (h : r.Alike r') : r'.error.isSome = r.error.isSome := by
  have herror := h.error
  generalize r.error = e, r'.error = e' at herror
  cases herror <;> rfl

theorem Alike.success_eq (h : r.Alike r') : r'.success = r.success := by
  rw [success, success, ← Option.not_isSome, ← Option.not_isSome, h.isSome_eq]

theorem Alike.failedAt?_eq (h : r.Alike r') : r'.failedAt? = r.failedAt? := by
  unfold failedAt?
  have hreports := h.reports
  generalize r.reports = reports, r'.reports = reports' at hreports
  induction hreports with
  | nil => rfl
  | cons hreport _ ih =>
      rw [List.findIdx?_cons, List.findIdx?_cons, ih]
      cases hreport <;> rfl

/-- Steps that are alike keep runs alike: the same handler is run in the same workspace. -/
theorem Alike.advance (h : r.Alike r') {s s' : Step} (hs : s.Alike s') {todo : Instruction}
    (hdoes : s.CarriesOut todo) : (r.advance services s).Alike (r'.advance services s') := by
  have hname : s'.handler.name = s'.name := by
    rw [hs.handler, hs.name, hdoes.handler_name]
  rcases succeeds_or_fails hdoes services r.toWorkspace with ⟨message, w, hok⟩ | ⟨e, files, hfails⟩
  · have hok' : (s'.handler.execute services).runWith r'.toWorkspace = (.ok message, w) := by
      rw [hs.handler, h.workspace, hok]
    rw [advance_of_ok hok, advance_of_ok hok']
    refine ⟨rfl, .none, ?_⟩
    have hreport : (s.succeeded message).Alike (s'.succeeded message) := by
      rw [Step.succeeded, Step.succeeded, hs.name]
      exact .succeeded ..
    exact List.rel_append h.reports (.cons hreport .nil)
  · have hfails' : (s'.handler.execute services).runWith r'.toWorkspace =
        (.error (.failed e), { r.toWorkspace with files }) := by
      rw [hs.handler, h.workspace, hfails]
    have herror : (Error.execution s.name s.line e).Alike (.execution s'.name s'.line e) := by
      rw [hs.name]
      exact .execution ..
    rw [advance_of_error hdoes.handler_name hfails, advance_of_error hname hfails']
    refine ⟨rfl, .some herror, ?_⟩
    have hreport : (s.failed (.execution s.name s.line e)).Alike (s'.failed (.execution s'.name s'.line e)) := by
      rw [Step.failed, Step.failed, hs.name]
      rw [hs.name] at herror
      exact .failed _ _ _ herror
    exact List.rel_append h.reports (.cons hreport .nil)

/-- So do sequences of them. -/
theorem Alike.advanceAll (h : r.Alike r') {steps steps' : List Step}
    (hsteps : List.Forall₂ Step.Alike steps steps') (hdo : Instructed steps) :
    (r.advanceAll services steps).Alike (r'.advanceAll services steps') := by
  induction hsteps generalizing r r' with
  | nil => exact h
  | cons hs _ ih =>
      rename_i s s' rest rest' _
      rcases hdo s (by simp) with ⟨todo, hdoes⟩
      have hnext : (r.advance services s).Alike (r'.advance services s') := h.advance hs hdoes
      rw [Run.advanceAll, Run.advanceAll]
      simp only [hnext.isSome_eq]
      by_cases hfailed : (r.advance services s).error.isSome = true
      · rw [if_pos hfailed, if_pos hfailed]
        exact hnext
      · rw [if_neg hfailed, if_neg hfailed]
        exact ih hnext fun t ht => hdo t (by simp [ht])

end Run

/-- Programs of equal content are accepted or refused alike, with the same names, arguments, options and handlers; and
their runs on the same files with the same services do the same, fail at the same step or nowhere, leave the same
context and the same files, and tell the same but for line numbers. -/
theorem equal_content_runs_alike (config : Config) (p q : Program) (hagree : p.agrees q = true) :
    ((∃ steps, ({ config } : Dialect).compile p = .ok steps) ↔
        ∃ steps', ({ config } : Dialect).compile q = .ok steps') ∧
      ∀ steps steps', ({ config } : Dialect).compile p = .ok steps →
        ({ config } : Dialect).compile q = .ok steps' →
          List.Forall₂ Step.Alike steps steps' ∧
            ∀ (services : Services) (files : Files),
              let r := Run.ofSteps config services steps files
              let r' := Run.ofSteps config services steps' files
              r'.success = r.success ∧ r'.failedAt? = r.failedAt? ∧ r'.context = r.context ∧ r'.files = r.files ∧
                Option.Rel Error.Alike r.error r'.error ∧ List.Forall₂ StepReport.Alike r.reports r'.reports := by
  have hreads : ∀ spec ∈ ({ config } : Dialect).registry.specs, spec.ReadsWords ∧ spec.ReadsByKey :=
    fun _ hspec => ⟨readsWords_of_mem hspec, readsByKey_of_mem hspec⟩
  constructor
  · constructor
    · rintro ⟨steps, h⟩
      rcases Dialect.compile_agrees hreads hagree h with ⟨steps', h', _⟩
      exact ⟨steps', h'⟩
    · rintro ⟨steps', h'⟩
      rcases Dialect.compile_agrees hreads (Program.agrees_symm hagree) h' with ⟨steps, h, _⟩
      exact ⟨steps, h⟩
  · intro steps steps' h h'
    rcases Dialect.compile_agrees hreads hagree h with ⟨made, hmade, halike⟩
    rw [h'] at hmade
    cases hmade
    refine ⟨halike, ?_⟩
    intro services files
    have hruns : (Run.ofSteps config services steps files).Alike (Run.ofSteps config services steps' files) :=
      (Run.alike_start config files).advanceAll halike (instruction_of_compile h)
    exact ⟨hruns.success_eq, hruns.failedAt?_eq, congrArg Workspace.context hruns.workspace,
      congrArg Workspace.files hruns.workspace, hruns.error, hruns.reports⟩

/-! ## Two programs of equal content -/

/-- A program that trains a forest and then cleans the table, which is split by then. -/
def trainAndClean : Program :=
  ⟨[⟨"load", ["d.csv"], Options.empty, 1⟩,
    ⟨"split", ["75/25"], Options.ofList [("target", "y"), ("seed", "7")], 2⟩,
    ⟨"train", ["forest"], Options.ofList [("trees", "3"), ("max_depth", "2"), ("seed", "1")], 3⟩,
    ⟨"evaluate", [], Options.empty, 4⟩, ⟨"clean", ["mean"], Options.empty, 5⟩]⟩

/-- The same program on other lines, with its options in another order. -/
def trainAndCleanLater : Program :=
  ⟨[⟨"load", ["d.csv"], Options.empty, 3⟩,
    ⟨"split", ["75/25"], Options.ofList [("seed", "7"), ("target", "y")], 4⟩,
    ⟨"train", ["forest"], Options.ofList [("seed", "1"), ("trees", "3"), ("max_depth", "2")], 8⟩,
    ⟨"evaluate", [], Options.empty, 9⟩, ⟨"clean", ["mean"], Options.empty, 12⟩]⟩

/-- Services that load four rows from every path. -/
def fourRows : Services :=
  { Services.native {} "" with
    load := fun _ => pure ⟨["x", "y"], [[.nat 1, .string "a"], [.nat 2, .string "a"],
      [.nat 3, .string "b"], [.nat 4, .string "b"]]⟩ }

/-- The first program fails at its last step, with a model and metrics in the context and a message for every step
before. -/
theorem failedAt?_trainAndClean :
    ∃ steps, ({} : Dialect).compile trainAndClean = .ok steps ∧
      let r := Run.ofSteps {} fourRows steps Files.empty
      r.failedAt? = some 4 ∧ r.context.model.isSome = true ∧ r.context.metrics.isEmpty = false ∧
        r.context.log.length = 4 := by
  refine ⟨_, rfl, ?_⟩
  decide +kernel

/-- Both are accepted, train and evaluate alike, and fail at their last step, each with the line of its own. -/
theorem equal_content_runs_alike_of_later :
    trainAndClean.agrees trainAndCleanLater = true ∧
      ∃ steps steps', ({} : Dialect).compile trainAndClean = .ok steps ∧
        ({} : Dialect).compile trainAndCleanLater = .ok steps' ∧ List.Forall₂ Step.Alike steps steps' ∧
          let r := Run.ofSteps {} fourRows steps Files.empty
          let r' := Run.ofSteps {} fourRows steps' Files.empty
          (r.failedAt? = some 4 ∧ r.context.model.isSome = true ∧ r.context.metrics.isEmpty = false ∧
            r.context.log.length = 4) ∧
            r'.failedAt? = some 4 ∧ r'.context = r.context ∧ r'.files = r.files ∧
              Option.Rel Error.Alike r.error r'.error ∧
              List.Forall₂ StepReport.Alike r.reports r'.reports := by
  have hagree : trainAndClean.agrees trainAndCleanLater = true := by decide +kernel
  rcases failedAt?_trainAndClean with ⟨steps, hsteps, hrun⟩
  rcases equal_content_runs_alike {} _ _ hagree with ⟨haccepted, hruns⟩
  rcases haccepted.1 ⟨steps, hsteps⟩ with ⟨steps', hsteps'⟩
  rcases hruns steps steps' hsteps hsteps' with ⟨halike, hsame⟩
  rcases hsame fourRows Files.empty with ⟨_, hplace, hcontext, hfiles, herror, hreports⟩
  exact ⟨hagree, steps, steps', hsteps, hsteps', halike, hrun, hplace.trans hrun.1, hcontext, hfiles,
    herror, hreports⟩

end TableFlow
