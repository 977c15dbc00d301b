import TableFlow.Proofs.Guarded.Instructions
import TableFlow.Proofs.Guarded.Words
import TableFlow.Proofs.Run.Failure

/-!
# Guarded scripts

A script is read, checked and run with every access guarded.  A command asks for its arguments at their places, which
are there because they have been counted before; the words of the script are found by the places of its characters.

Main results:

- Theorem `instruction_eq`: a line whose arguments have been counted says the same with guarded accesses.
- Theorem `plans_eq`: so does every line of a script, and its errors are the same.
- Theorem `script_eq`: running a script breaks down nowhere, before the run or in any step of it.
-/

namespace TableFlow
namespace Guarded

open Script (Node Program)

/-! ## Lines -/

/-- What the line of a command says to do. -/
def instruction (i : CommandInput) : (command : String) → Guarded Instruction
  | "load" => do
    let path ← lift i.path
    pure (.load path)
  | "clean" => do
    let name ← element i.args 0
    match Cleaning.ofName? name with
    | some way => pure (.clean way)
    | none =>
      lift (.error (i.error (s!"unknown strategy '{name}' " ++
        "(expected one of: missing, mean, median, mode, duplicates)")))
  | "encode" => do
    let columns := columnList i.args
    match i.option? "method" with
    | none => pure (.encode .label columns)
    | some name =>
      match Encoding.ofName? name with
      | some way => pure (.encode way columns)
      | none => lift (.error (i.error s!"unknown method '{name}' (expected label or onehot)"))
  | "scale" => do
    let name ← element i.args 0
    match Scaling.ofName? name with
    | some way => do
      let rest ← back i.args 1
      pure (.scale way (columnList rest) (columnList (i.option? "exclude").toList))
    | none => lift (.error (i.error s!"unknown method '{name}' (expected standard or minmax)"))
  | "drop" => do
    let columns ← lift i.columns
    pure (.drop columns)
  | "select" => do
    let columns ← lift i.columns
    pure (.select columns)
  | "split" => do
    let ratio ← element i.args 0
    match Ratio.parse ratio with
    | .ok fraction => do
      let seed ← lift (i.natural "seed")
      pure (.split ⟨fraction, i.option? "target", seed⟩)
    | .error fault => lift (.error (i.error (fault.message ratio)))
  | "train" => do
    let name ← element i.args 0
    let how ← lift (Training.ofInput { i with args := name :: i.args.tail })
    pure (.train how)
  | "evaluate" => pure .evaluate
  | "export" => do
    let path ← lift i.path
    pure (.exportTable path)
  | "save" => do
    let path ← lift i.path
    pure (.save path)
  | _ => crash "unknown command"

/-- A checked script line with what it says to do. -/
structure Plan where
  name : String
  args : List String
  options : Options
  line : Nat
  todo : Instruction

/-- The step of a plan, with a handler for what is to be done. -/
def Plan.step (handlerOf : Instruction → Handler) (p : Plan) : Step :=
  ⟨p.name, p.args, p.options, p.line, handlerOf p.todo⟩

/-- Check a node of a program. -/
def plan (config : Config) (n : Node) : Guarded Plan := do
  let s ← lift (({ config } : Dialect).lookup n)
  let written : CommandInput := ⟨s.name, n.args, n.options, config, n.line⟩
  lift (s.checkArity written)
  lift (Dialect.checkOptions config.strictOptions s written n.options.pairs)
  let options := n.options.filter fun key => (s.option? key).isSome
  let todo ← instruction { written with options } s.name
  pure ⟨s.name, n.args, options, n.line, todo⟩

/-- Read and check a script. -/
def plans (config : Config) (source : String) : Guarded (List Plan) := do
  let tokens ← tokenize source
  let program ← lift (Program.ofTokens tokens)
  program.nodes.mapM (plan config)

/-- Run a script with the commands and services of the library. -/
def script (config : Config) (time source : String) (files : Files) : Guarded Run :=
  match plans config source with
  | .ok found =>
    .ok (Run.ofSteps config (.native config time) (found.map (Plan.step (handler config time))) files)
  | .error (.failed e) => .ok (Run.rejected e files)
  | .error (.crashed detail) => .error (.crashed detail)

/-! ## Arguments are there -/

section

variable {s : CommandSpec} {i : CommandInput}

/-- Arguments that have been counted are as many as the command needs. -/
theorem minArgs_le (h : s.checkArity i = .ok ()) : s.minArgs ≤ i.args.length := by
  unfold CommandSpec.checkArity at h
  simp only at h
  split at h
  · cases h
  · next hmany => exact Nat.le_of_not_lt hmany

/-- The first argument is at the first place, if there is one. -/
theorem element_args (h : 1 ≤ i.args.length) : element i.args 0 = .ok i.firstArg := by
  rw [element_eq h, CommandInput.firstArg, List.headD_eq_head?_getD, List.head?_eq_getElem?,
    List.getElem?_eq_getElem h]
  rfl

/-- The first argument in front of the others gives the arguments back. -/
theorem with_firstArg (h : 1 ≤ i.args.length) : { i with args := i.firstArg :: i.args.tail } = i := by
  obtain ⟨command, args, options, config, line⟩ := i
  cases args with
  | nil => exact absurd h (Nat.not_succ_le_zero 0)
  | cons first rest => rfl

/-- What follows a computation that accesses nothing, seen through a function of the result. -/
theorem map_bind_lift {α β γ : Type} {x : Except Error α} {f : α → Guarded β} {g : α → Except Error γ} {F : β → γ}
    (h : ∀ a, x = .ok a → (f a).map F = lift (g a)) : (lift x >>= f).map F = lift (x >>= g) := by
  cases x with
  | ok a => exact h a rfl
  | error e => rfl

/-- A computation that is the same seen through a function of its result has the same results and errors. -/
theorem map_eq_lift {α β : Type} {x : Guarded α} {y : Except Error β} {F : α → β} (h : x.map F = lift y) :
    (∃ a, x = .ok a ∧ y = .ok (F a)) ∨ ∃ e, x = .error (.failed e) ∧ y = .error e := by
  cases x with
  | ok a =>
      cases y with
      | ok b =>
          cases h
          exact Or.inl ⟨a, rfl, rfl⟩
      | error e => cases h
  | error b =>
      cases y with
      | ok c => cases h
      | error e =>
          cases h
          exact Or.inr ⟨e, rfl, rfl⟩

/-- What follows a computation that is the same seen through a function of its result. -/
theorem map_bind_map {α β γ δ : Type} {x : Guarded α} {y : Except Error β} {f : α → Guarded γ}
    {g : β → Except Error δ} {F : α → β} {G : γ → δ} (hx : x.map F = lift y)
    (h : ∀ a, (f a).map G = lift (g (F a))) : (x >>= f).map G = lift (y >>= g) := by
  rcases map_eq_lift hx with ⟨a, rfl, rfl⟩ | ⟨e, rfl, rfl⟩
  · exact h a
  · rfl

/-- A line whose arguments have been counted says the same with guarded accesses. -/
theorem instruction_eq (hs : s ∈ Registry.bundled.specs) (hargs : s.minArgs ≤ i.args.length) :
    (instruction i s.name).map Instruction.handler = lift (s.build i) := by
  simp only [Registry.bundled, List.mem_cons, List.not_mem_nil, or_false] at hs
  rcases hs with rfl | rfl | rfl | rfl | rfl | rfl | rfl | rfl | rfl | rfl | rfl
  · show (instruction i "load").map _ = _
    rw [instruction]
    exact map_bind_lift fun path _ => rfl
  · show (instruction i "clean").map _ = _
    rw [instruction, bind_ok (element_args hargs)]
    simp only [Cleaning.spec]
    cases Cleaning.ofName? i.firstArg <;> rfl
  · show (instruction i "encode").map _ = _
    simp only [instruction, Encoding.spec]
    cases i.option? "method" with
    | none => rfl
    | some name =>
        simp only
        cases Encoding.ofName? name <;> rfl
  · show (instruction i "scale").map _ = _
    have hrest : back i.args 1 = .ok i.args.tail := by
      rw [← List.drop_one]
      exact back_eq hargs
    rw [instruction, bind_ok (element_args hargs)]
    simp only [Scaling.spec, bind_ok hrest]
    cases Scaling.ofName? i.firstArg <;> rfl
  · show (instruction i "drop").map _ = _
    rw [instruction]
    exact map_bind_lift fun columns _ => rfl
  · show (instruction i "select").map _ = _
    rw [instruction]
    exact map_bind_lift fun columns _ => rfl
  · show (instruction i "split").map _ = _
    rw [instruction, bind_ok (element_args hargs)]
    simp only [Splitting.spec]
    cases Ratio.parse i.firstArg with
    | error fault => rfl
    | ok fraction => exact map_bind_lift fun seed _ => rfl
  · show (instruction i "train").map _ = _
    rw [instruction, bind_ok (element_args hargs), with_firstArg hargs]
    exact map_bind_lift fun how _ => rfl
  · show (instruction i "evaluate").map _ = _
    rw [instruction]
    rfl
  · show (instruction i "export").map _ = _
    rw [instruction]
    exact map_bind_lift fun path _ => rfl
  · show (instruction i "save").map _ = _
    rw [instruction]
    exact map_bind_lift fun path _ => rfl

end

/-! ## Scripts -/

/-- A node of a program is checked in the same way. -/
theorem plan_eq (config : Config) (n : Node) :
    (plan config n).map (Plan.step Instruction.handler) = lift (({ config } : Dialect).step n) := by
  refine map_bind_lift fun s hlookup => map_bind_lift fun _ harity => map_bind_lift fun _ _ => ?_
  have hargs := minArgs_le harity
  exact map_bind_map (instruction_eq (mem_of_lookup hlookup) hargs) fun todo => rfl

/-- A loop whose steps are the same, seen through a function of their results. -/
theorem map_mapM_lift {α β γ : Type} {f : α → Guarded β} {g : α → Except Error γ} {F : β → γ}
    (h : ∀ a, (f a).map F = lift (g a)) (items : List α) :
    (items.mapM f).map (List.map F) = lift (items.mapM g) := by
  induction items with
  | nil => rfl
  | cons a items ih =>
      rw [List.mapM_cons, List.mapM_cons]
      exact map_bind_map (h a) fun b => map_bind_map ih fun rest => rfl

/-- A script is read and checked in the same way. -/
theorem plans_eq (config : Config) (source : String) :
    (plans config source).map (List.map (Plan.step Instruction.handler)) =
      lift (({ config } : Dialect).compileSource source) := by
  rw [plans, bind_ok (tokenize_eq source)]
  exact map_bind_lift fun program _ => map_mapM_lift (plan_eq config) program.nodes

/-! ## Runs -/

section

variable {config : Config} {time : String} {r : Run}

/-- In a sound context, a step breaks down nowhere. -/
theorem advance_eq (hr : r.context.Sound) (p : Plan) :
    r.advance (.native config time) (p.step (handler config time)) =
      r.advance (.native config time) (p.step Instruction.handler) := by
  have hrun : ((handler config time p.todo).execute (.native config time)).runWith r.toWorkspace =
      (p.todo.handler.execute (.native config time)).runWith r.toWorkspace := by
    show (act config time r.context p.todo).runWith r.toWorkspace =
      (p.todo.act (.native config time) r.context).runWith r.toWorkspace
    rw [act_eq hr]
  simp only [Run.advance, Handler.runWith_perform, Plan.step, hrun]
  rfl

/-- A step that succeeds leaves a sound context. -/
theorem sound_advance (hr : r.context.Sound) (p : Plan)
    (h : (r.advance (.native config time) (p.step Instruction.handler)).error = none) :
    (r.advance (.native config time) (p.step Instruction.handler)).context.Sound := by
  simp only [Run.advance, Handler.runWith_perform, Plan.step] at h ⊢
  cases hrun : (p.todo.handler.execute (.native config time)).runWith r.toWorkspace with
  | mk result w =>
      rw [hrun] at h
      cases result with
      | ok message => exact (hr.of_execute hrun).logged _
      | error b => cases b <;> cases h

/-- From a sound context on, no step of a run breaks down. -/
theorem advanceAll_eq (hr : r.context.Sound) (found : List Plan) :
    r.advanceAll (.native config time) (found.map (Plan.step (handler config time))) =
      r.advanceAll (.native config time) (found.map (Plan.step Instruction.handler)) := by
  induction found generalizing r with
  | nil => rfl
  | cons p found ih =>
      rw [List.map_cons, List.map_cons, Run.advanceAll, Run.advanceAll, advance_eq hr p]
      cases herror : (r.advance (.native config time) (p.step Instruction.handler)).error with
      | some e => simp
      | none => simpa [herror] using ih (sound_advance hr p herror)

end

/-- Running a script breaks down nowhere: not while it is read and checked, and in no step of the run. -/
theorem script_eq (config : Config) (time source : String) (files : Files) :
    script config time source files = .ok (Run.script config time source files) := by
  rcases map_eq_lift (plans_eq config source) with ⟨found, hfound, hcompiled⟩ | ⟨e, hfound, hcompiled⟩
  · rw [script, hfound, Run.script, Run.ofSource, hcompiled]
    exact congrArg Except.ok (advanceAll_eq (Context.sound_start config.seed) found)
  · rw [script, hfound, Run.script, Run.ofSource, hcompiled]
    rfl

end Guarded
end TableFlow
