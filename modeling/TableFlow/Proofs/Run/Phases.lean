import TableFlow.Proofs.Command.Kinds
import TableFlow.Proofs.Guarded.Scripts
import TableFlow.Proofs.Script.Grammar

/-!
# The phases of a run

A source that cannot be read or checked is refused before anything is run, and the error says in which of these two
phases.  Otherwise the steps are run; they all succeed, or the first one that fails is named in the error, with a cause
that lies in a file, in the layout of data, or in something that is not there.  No step breaks down, since every access
of its computation is in place.

Main results:

- Definition `EndsInPhase`: the three ways in which the run of a source ends.
- Theorem `kind_of_compileSource`: a source is refused with an error of kind `syntax` or `validation`.
- Theorem `errors_keep_to_their_phase`: every run with a valid configuration ends in one of the three ways, and no access
  of the run is out of place.
-/

namespace TableFlow

variable {config : Config} {time source : String} {files : Files}

/-- How the run of a source ends. -/
inductive EndsInPhase (config : Config) (source : String) (files : Files) (r : Run) : Prop where
  /-- The source is refused, and nothing is run. -/
  | refused (e : Error) (hkind : e.kind = "syntax" ∨ e.kind = "validation")
      (hcompile : ({ config } : Dialect).compileSource source = .error e) (hrun : r = Run.rejected e files)
  /-- Every step succeeds. -/
  | completed (steps : List Step) (messages : List String)
      (hcompile : ({ config } : Dialect).compileSource source = .ok steps)
      (hlength : messages.length = steps.length)
      (hreports : r.reports = List.zipWith Step.succeeded steps messages) (herror : r.error = none)
  /-- The steps before the one at place `k` succeed, and that one fails. -/
  | failed (steps : List Step) (k : Nat) (hk : k < steps.length) (messages : List String) (cause : Error)
      (hcompile : ({ config } : Dialect).compileSource source = .ok steps) (hlength : messages.length = k)
      (hreports : r.reports = List.zipWith Step.succeeded (steps.take k) messages ++
        [(steps[k]).failed (.execution (steps[k]).name (steps[k]).line cause)])
      (herror : r.error = some (.execution (steps[k]).name (steps[k]).line cause))
      (hcause : cause.kind = "io" ∨ cause.kind = "schema" ∨ cause.kind = "precondition")

/-- A source is refused where it has no structure, or where a line of it is not acceptable. -/
theorem kind_of_compileSource {e : Error} (h : ({ config } : Dialect).compileSource source = .error e) :
    e.kind = "syntax" ∨ e.kind = "validation" := by
  rcases bind_eq_error.1 h with hparse | ⟨p, _, hcompile⟩
  · obtain ⟨fault, line, rfl⟩ := Script.faulty_ofTokens _ e hparse
    exact Or.inl rfl
  · exact Or.inr (List.mem_singleton.1 (failsAs_compile config p e hcompile))

/-- A step of a program fails because of a file, of the layout of data, or of something that is not there. -/
theorem kind_of_execute (hvalid : config.validate = .ok ()) {s : Step} {todo : Instruction} (hs : s.CarriesOut todo)
    {w w' : Workspace} {e : Error}
    (h : (s.handler.execute (.native config time)).runWith w = (.error (.failed e), w')) :
    e.kind = "io" ∨ e.kind = "schema" ∨ e.kind = "precondition" := by
  rw [hs.handler_eq] at h
  obtain ⟨e', he, hkind⟩ := todo.failsAs_execute hvalid w _ w' h
  cases he
  simpa [Error.causeKinds] using hkind

/-- Every run with a valid configuration ends in one of three ways. -/
theorem endsInPhase (hvalid : config.validate = .ok ()) (time source : String) (files : Files) :
    EndsInPhase config source files (Run.script config time source files) := by
  rw [Run.script, Run.ofSource]
  cases hcompile : ({ config } : Dialect).compileSource source with
  | error e => exact .refused e (kind_of_compileSource hcompile) hcompile rfl
  | ok steps =>
      obtain ⟨p, _, hsteps⟩ := bind_eq_ok.1 hcompile
      have hinstructed := instruction_of_compile hsteps
      obtain ⟨k, messages, w, h⟩ := exists_outcome hinstructed config (.native config time) files
      rcases Nat.lt_or_eq_of_le h.endsAt.le_length with hlt | heq
      · obtain ⟨cause, files', hfails, hreports, herror, _⟩ := h.of_failure hlt
        obtain ⟨todo, hs⟩ := hinstructed steps[k] (List.getElem_mem hlt)
        exact .failed steps k hlt messages cause hcompile h.length_messages hreports herror
          (kind_of_execute hvalid hs hfails)
      · obtain ⟨hreports, herror, _⟩ := h.of_all heq
        exact .completed steps messages hcompile (h.length_messages.trans heq) hreports herror

/-- With a valid configuration, the run of any source on any files ends in one of three ways, each with errors of its
own, and it is the run in which every access is guarded: none of them is out of place. -/
theorem errors_keep_to_their_phase (config : Config) (hvalid : config.validate = .ok ()) (time source : String)
    (files : Files) :
    Guarded.script config time source files = .ok (Run.script config time source files) ∧
      EndsInPhase config source files (Run.script config time source files) :=
  ⟨Guarded.script_eq config time source files, endsInPhase hvalid time source files⟩

/-- A script that trains and evaluates on a table of three rows, between which fields are separated by semicolons. -/
theorem errors_keep_to_their_phase_of_training :
    let config : Config := { csvDelimiter := ';', defaultTrees := 1 }
    let source := "load data.csv\nsplit 50/50 --target kind\ntrain knn --k 9\nevaluate\nclean mean"
    let files : Files := ⟨[(["data.csv"], .file (Text.bytes "size;kind\n1;a\n2;b\n3;a\n"))]⟩
    config.validate = .ok () ∧
      Guarded.script config "" source files = .ok (Run.script config "" source files) ∧
        EndsInPhase config source files (Run.script config "" source files) :=
  ⟨rfl, errors_keep_to_their_phase _ rfl "" _ _⟩

end TableFlow
