import TableFlow.Proofs.Action
import TableFlow.Proofs.Checks
import TableFlow.Run.Step

/-!
# Instructions

A checked script line says one of eleven things to do.  An `Instruction` is what it says, with its words read,
and every handler that a bundled command makes is the handler of an instruction; so what holds of instructions
holds of the steps of every program.

Main results:

- Theorem `instruction_of_build`: a handler of a bundled command is the handler of an instruction of its name.
- Theorem `instruction_of_compile`: so is the handler of each step of a compiled program.
- Theorem `Instruction.atomic_execute`: an instruction that fails leaves the context alone.
-/

namespace TableFlow

/-- What a script line says to do. -/
inductive Instruction where
  | load (path : String)
  | clean (way : Cleaning)
  | encode (way : Encoding) (columns : List String)
  | scale (way : Scaling) (columns exclude : List String)
  | drop (columns : List String)
  | select (columns : List String)
  | split (how : Splitting)
  | train (how : Training)
  | evaluate
  | exportTable (path : String)
  | save (path : String)

namespace Instruction

/-- The command word. -/
def name : Instruction → String
  | .load _ => "load"
  | .clean _ => "clean"
  | .encode .. => "encode"
  | .scale .. => "scale"
  | .drop _ => "drop"
  | .select _ => "select"
  | .split _ => "split"
  | .train _ => "train"
  | .evaluate => "evaluate"
  | .exportTable _ => "export"
  | .save _ => "save"

/-- What the instruction does in a context. -/
def act (services : Services) (context : Context) : Instruction → StepM String
  | .load path => Storage.load path services
  | .clean way => way.run context
  | .encode way columns => way.run columns context
  | .scale way columns exclude => way.run columns exclude context
  | .drop columns => Columns.drop columns context
  | .select columns => Columns.select columns context
  | .split how => how.run context
  | .train how => how.run services context
  | .evaluate => Evaluation.run services context
  | .exportTable path => Storage.exportTable path services context
  | .save path => Storage.save path services context

/-- The handler that carries the instruction out. -/
def handler (i : Instruction) : Handler :=
  ⟨i.name, fun services context => i.act services context⟩

end Instruction

/-! ## Bundled commands make instructions -/

section

variable {i : CommandInput} {h : Handler}

/-- The handler of a command that takes a path. -/
theorem handler_of_path {name : String} {act : String → Services → Context → StepM String}
    (hbuild : (Storage.pathSpec name act).build i = .ok h) : ∃ path, h = ⟨name, act path⟩ := by
  obtain ⟨path, _, hpure⟩ := bind_eq_ok.1 hbuild
  cases hpure
  exact ⟨path, rfl⟩

theorem handler_of_clean (hbuild : Cleaning.spec.build i = .ok h) :
    ∃ way, h = (Instruction.clean way).handler := by
  simp only [Cleaning.spec] at hbuild
  split at hbuild
  · next way _ =>
      cases hbuild
      exact ⟨way, rfl⟩
  · cases hbuild

theorem handler_of_encode (hbuild : Encoding.spec.build i = .ok h) :
    ∃ way, h = (Instruction.encode way (columnList i.args)).handler := by
  simp only [Encoding.spec] at hbuild
  split at hbuild
  · cases hbuild
    exact ⟨.label, rfl⟩
  · split at hbuild
    · next way _ =>
        cases hbuild
        exact ⟨way, rfl⟩
    · cases hbuild

theorem handler_of_scale (hbuild : Scaling.spec.build i = .ok h) :
    ∃ way exclude, h = (Instruction.scale way (columnList i.args.tail) exclude).handler := by
  simp only [Scaling.spec] at hbuild
  split at hbuild
  · cases hbuild
  · next way _ =>
      cases hbuild
      exact ⟨way, _, rfl⟩

theorem handler_of_drop (hbuild : Columns.dropSpec.build i = .ok h) :
    ∃ columns, h = (Instruction.drop columns).handler := by
  obtain ⟨columns, _, hpure⟩ := bind_eq_ok.1 hbuild
  cases hpure
  exact ⟨columns, rfl⟩

theorem handler_of_select (hbuild : Columns.selectSpec.build i = .ok h) :
    ∃ columns, h = (Instruction.select columns).handler := by
  obtain ⟨columns, _, hpure⟩ := bind_eq_ok.1 hbuild
  cases hpure
  exact ⟨columns, rfl⟩

theorem handler_of_split (hbuild : Splitting.spec.build i = .ok h) :
    ∃ how, h = (Instruction.split how).handler := by
  simp only [Splitting.spec] at hbuild
  split at hbuild
  · obtain ⟨fraction, _, hrest⟩ := bind_eq_ok.1 hbuild
    obtain ⟨seed, _, hpure⟩ := bind_eq_ok.1 hrest
    cases hpure
    exact ⟨_, rfl⟩
  · cases hbuild

theorem handler_of_train (hbuild : Training.spec.build i = .ok h) :
    ∃ how, h = (Instruction.train how).handler := by
  obtain ⟨how, _, hpure⟩ := bind_eq_ok.1 hbuild
  cases hpure
  exact ⟨how, rfl⟩

/-- A handler that a bundled command makes is the handler of an instruction, which has the command's name. -/
theorem instruction_of_build {s : CommandSpec} (hs : s ∈ Registry.bundled.specs)
    (hbuild : s.build i = .ok h) : ∃ todo : Instruction, h = todo.handler ∧ todo.name = s.name := by
  simp only [Registry.bundled, List.mem_cons, List.not_mem_nil, or_false] at hs
  rcases hs with rfl | rfl | rfl | rfl | rfl | rfl | rfl | rfl | rfl | rfl | rfl
  · obtain ⟨path, rfl⟩ := handler_of_path hbuild
    exact ⟨.load path, rfl, rfl⟩
  · obtain ⟨way, rfl⟩ := handler_of_clean hbuild
    exact ⟨_, rfl, rfl⟩
  · obtain ⟨way, rfl⟩ := handler_of_encode hbuild
    exact ⟨_, rfl, rfl⟩
  · obtain ⟨way, exclude, rfl⟩ := handler_of_scale hbuild
    exact ⟨_, rfl, rfl⟩
  · obtain ⟨columns, rfl⟩ := handler_of_drop hbuild
    exact ⟨_, rfl, rfl⟩
  · obtain ⟨columns, rfl⟩ := handler_of_select hbuild
    exact ⟨_, rfl, rfl⟩
  · obtain ⟨how, rfl⟩ := handler_of_split hbuild
    exact ⟨_, rfl, rfl⟩
  · obtain ⟨how, rfl⟩ := handler_of_train hbuild
    exact ⟨_, rfl, rfl⟩
  · cases hbuild
    exact ⟨.evaluate, rfl, rfl⟩
  · obtain ⟨path, rfl⟩ := handler_of_path hbuild
    exact ⟨.exportTable path, rfl, rfl⟩
  · obtain ⟨path, rfl⟩ := handler_of_path hbuild
    exact ⟨.save path, rfl, rfl⟩

end

/-! ## Compiled steps carry instructions out -/

/-- The command that is found for a node is one of the known ones. -/
theorem mem_of_lookup {d : Dialect} {n : Script.Node} {s : CommandSpec}
    (h : d.lookup n = .ok s) : s ∈ d.registry.specs := by
  unfold Dialect.lookup at h
  split at h
  · next found hget =>
      cases h
      exact List.mem_of_find?_eq_some hget
  · cases h

/-- The step of a node has the name and a handler of a known command, and the line of the node. -/
theorem step_eq_ok {d : Dialect} {n : Script.Node} {s : Step} (h : d.step n = .ok s) :
    ∃ spec ∈ d.registry.specs, ∃ input, spec.build input = .ok s.handler ∧ s.name = spec.name := by
  obtain ⟨spec, hlookup, h⟩ := bind_eq_ok.1 h
  obtain ⟨_, _, h⟩ := bind_eq_ok.1 h
  obtain ⟨_, _, h⟩ := bind_eq_ok.1 h
  obtain ⟨handler, hbuild, hpure⟩ := bind_eq_ok.1 h
  cases hpure
  exact ⟨spec, mem_of_lookup hlookup, _, hbuild, rfl⟩

/-- The step carries the instruction out, under the name of its command. -/
structure Step.CarriesOut (s : Step) (todo : Instruction) : Prop where
  handler_eq : s.handler = todo.handler
  name_eq : s.name = todo.name

/-- The handler of such a step has the name of the step. -/
theorem Step.CarriesOut.handler_name {s : Step} {todo : Instruction} (h : s.CarriesOut todo) :
    s.handler.name = s.name := by
  rw [h.handler_eq, h.name_eq]
  rfl

/-- Each step of a program of bundled commands carries an instruction out. -/
theorem instruction_of_compile {config : Config} {p : Script.Program} {steps : List Step}
    (h : ({ config } : Dialect).compile p = .ok steps) :
    ∀ s ∈ steps, ∃ todo, s.CarriesOut todo := by
  intro s hs
  obtain ⟨n, _, hstep⟩ := exists_of_mem_mapM h hs
  obtain ⟨spec, hspec, input, hbuild, hname⟩ := step_eq_ok hstep
  obtain ⟨todo, hhandler, htodo⟩ := instruction_of_build hspec hbuild
  exact ⟨todo, hhandler, hname.trans htodo.symm⟩

/-! ## Instructions are atomic -/

namespace Instruction

open StepM

variable (services : Services) (context : Context)

theorem atomic_load (path : String) : Atomic (Storage.load path services) := by
  refine Quiet.bind_atomic (Quiet.ofFiles _) fun t => ?_
  refine Sure.atomic (Sure.bind (Sure.change _) fun _ => ?_)
  exact Sure.pure _

theorem atomic_clean (way : Cleaning) : Atomic (way.run context) := by
  refine Quiet.bind_atomic (Quiet.ofExcept _) fun t => ?_
  refine Sure.atomic (Sure.bind (Sure.change _) fun _ => ?_)
  refine Sure.bind (Sure.change _) fun _ => ?_
  exact Sure.pure _

theorem atomic_encode (way : Encoding) (columns : List String) :
    Atomic (way.run columns context) := by
  refine Quiet.bind_atomic (Quiet.ofExcept _) fun t => ?_
  refine Quiet.bind_atomic (Quiet.ofExcept _) fun targets => ?_
  refine Quiet.bind_atomic (Quiet.ofExcept _) fun done => ?_
  refine Sure.atomic (Sure.bind (Sure.change _) fun _ => ?_)
  refine Sure.bind (Sure.change _) fun _ => ?_
  refine Sure.bind (Sure.change _) fun _ => ?_
  refine Sure.bind (Sure.change _) fun _ => ?_
  exact Sure.pure _

theorem atomic_scale (way : Scaling) (columns exclude : List String) :
    Atomic (way.run columns exclude context) := by
  refine Quiet.bind_atomic (Quiet.ofExcept _) fun t => ?_
  refine Quiet.bind_atomic (Quiet.ofExcept _) fun _ => ?_
  refine Quiet.bind_atomic (Quiet.ofExcept _) fun scaled => ?_
  refine Sure.atomic (Sure.bind (Sure.change _) fun _ => ?_)
  refine Sure.bind (Sure.change _) fun _ => ?_
  exact Sure.pure _

theorem atomic_drop (columns : List String) : Atomic (Columns.drop columns context) := by
  refine Quiet.bind_atomic (Quiet.ofExcept _) fun t => ?_
  refine Quiet.bind_atomic (Quiet.ofExcept _) fun reduced => ?_
  refine Sure.atomic (Sure.bind (Sure.change _) fun _ => ?_)
  refine Sure.bind (Sure.change _) fun _ => ?_
  refine Sure.bind (Sure.change _) fun _ => ?_
  exact Sure.pure _

theorem atomic_select (columns : List String) : Atomic (Columns.select columns context) := by
  refine Quiet.bind_atomic (Quiet.ofExcept _) fun t => ?_
  refine Quiet.bind_atomic (Quiet.ofExcept _) fun reduced => ?_
  refine Sure.atomic (Sure.bind (Sure.change _) fun _ => ?_)
  refine Sure.bind (Sure.change _) fun _ => ?_
  refine Sure.bind (Sure.change _) fun _ => ?_
  exact Sure.pure _

theorem atomic_split (how : Splitting) : Atomic (how.run context) := by
  refine Quiet.bind_atomic (Quiet.ofExcept _) fun t => ?_
  refine Quiet.bind_atomic (Quiet.ofExcept _) fun _ => ?_
  refine Sure.atomic (Sure.bind (Sure.change _) fun _ => ?_)
  refine Sure.bind (Sure.change _) fun _ => ?_
  refine Sure.bind (Sure.change _) fun _ => ?_
  exact Sure.pure _

theorem atomic_train (how : Training) : Atomic (how.run services context) := by
  refine Quiet.bind_atomic (Quiet.ofExcept _) fun parts => ?_
  refine Quiet.bind_atomic (Quiet.ofExcept _) fun target => ?_
  refine Quiet.bind_atomic (Quiet.ofExcept _) fun model => ?_
  refine Sure.atomic (Sure.bind (Sure.change _) fun _ => ?_)
  refine Sure.bind (Sure.change _) fun _ => ?_
  refine Sure.bind (Sure.change _) fun _ => ?_
  exact Sure.pure _

theorem atomic_evaluate : Atomic (Evaluation.run services context) := by
  refine Quiet.bind_atomic (Quiet.ofExcept _) fun model => ?_
  refine Quiet.bind_atomic (Quiet.ofExcept _) fun parts => ?_
  refine Quiet.bind_atomic (Quiet.ofExcept _) fun metrics => ?_
  refine Sure.atomic (Sure.bind (Sure.change _) fun _ => ?_)
  exact Sure.pure _

theorem atomic_export (path : String) : Atomic (Storage.exportTable path services context) := by
  refine Quiet.bind_atomic (Quiet.ofExcept _) fun t => ?_
  refine Quiet.bind_atomic (Quiet.ofFiles _) fun _ => ?_
  exact Sure.atomic (Sure.pure _)

theorem atomic_save (path : String) : Atomic (Storage.save path services context) := by
  refine Quiet.bind_atomic (Quiet.ofExcept _) fun model => ?_
  refine Quiet.bind_atomic (Quiet.ofFiles _) fun _ => ?_
  exact Sure.atomic (Sure.pure _)

/-- An instruction that fails, fails with an error and leaves the context alone. -/
theorem atomic_execute (todo : Instruction) : Atomic (todo.handler.execute services) := by
  intro w b w' h
  have hact : (todo.act services w.context).runWith w = (.error b, w') := h
  cases todo with
  | load path => exact atomic_load services path w b w' hact
  | clean way => exact atomic_clean w.context way w b w' hact
  | encode way columns => exact atomic_encode w.context way columns w b w' hact
  | scale way columns exclude => exact atomic_scale w.context way columns exclude w b w' hact
  | drop columns => exact atomic_drop w.context columns w b w' hact
  | select columns => exact atomic_select w.context columns w b w' hact
  | split how => exact atomic_split w.context how w b w' hact
  | train how => exact atomic_train services w.context how w b w' hact
  | evaluate => exact atomic_evaluate services w.context w b w' hact
  | exportTable path => exact atomic_export services w.context path w b w' hact
  | save path => exact atomic_save services w.context path w b w' hact

end Instruction
end TableFlow
