import TableFlow.Proofs.Command.Instruction
import TableFlow.Proofs.Format.DataFile

/-!
# How commands fail

A line that a command refuses is an error of kind `validation`.  An instruction fails because a file cannot be used,
because data does not have the layout, or because something that it needs is not there, and in no other way.

Main results:

- Definition `StepM.FailsAs`: an action fails only with errors of some kinds.
- Theorem `failsAs_build`: a bundled command refuses a line with an error of kind `validation`.
- Theorem `Instruction.failsAs_execute`: an instruction fails with an error of one of the `Error.causeKinds`.
-/

namespace TableFlow

/-! ## Actions -/

namespace StepM

variable {α β : Type} {kinds : List String}

/-- Whenever the action fails, it fails with an error of one of these kinds. -/
def FailsAs (kinds : List String) (action : StepM α) : Prop :=
  ∀ w b w', action.runWith w = (.error b, w') → ∃ e, b = .failed e ∧ e.kind ∈ kinds

theorem FailsAs.ofExcept {x : Except Error α} (h : TableFlow.FailsAs kinds x) : FailsAs kinds (ofExcept x) := by
  intro w b w' hrun
  cases x with
  | ok a => cases hrun
  | error e =>
      cases hrun
      exact ⟨e, rfl, h e rfl⟩

theorem FailsAs.ofFiles {action : FileM α} (h : FileM.FailsAs kinds action) : FailsAs kinds (ofFiles action) := by
  intro w b w' hrun
  obtain ⟨e, rfl, hfiles⟩ := ofFiles_eq_error hrun
  exact ⟨e, rfl, h _ e _ hfiles⟩

theorem FailsAs.bind {x : StepM α} {f : α → StepM β} (hx : FailsAs kinds x) (hf : ∀ a, FailsAs kinds (f a)) :
    FailsAs kinds (x >>= f) := by
  intro w b w' hrun
  rcases bind_runWith_eq_error.1 hrun with hfirst | ⟨a, w₁, _, hrest⟩
  · exact hx w b w' hfirst
  · exact hf a w₁ b w' hrest

theorem Sure.failsAs {action : StepM α} (h : Sure action) : FailsAs kinds action :=
  fun w b w' hrun => (h w b w' hrun).elim

end StepM

/-! ## Lines that are refused -/

theorem CommandInput.failsAs_natural (i : CommandInput) (key : String) : FailsAs ["validation"] (i.natural key) := by
  unfold natural
  split
  · exact .ok _
  · split
    · exact .ok _
    · exact .error (.head _)

theorem CommandInput.failsAs_number (i : CommandInput) (key : String) : FailsAs ["validation"] (i.number key) := by
  unfold number
  split
  · exact .ok _
  · split
    · exact .ok _
    · exact .error (.head _)

theorem CommandInput.failsAs_path (i : CommandInput) : FailsAs ["validation"] i.path := by
  unfold path
  simp only
  split
  · exact .error (.head _)
  · exact .ok _

theorem CommandInput.failsAs_columns (i : CommandInput) : FailsAs ["validation"] i.columns := by
  unfold columns
  simp only
  split
  · exact .error (.head _)
  · exact .ok _

theorem Training.failsAs_readParams (i : CommandInput) : FailsAs ["validation"] (readParams i) := by
  refine (i.failsAs_natural "trees").bind fun trees => (i.failsAs_natural "max_depth").bind fun maxDepth => ?_
  refine (i.failsAs_natural "k").bind fun k => (i.failsAs_natural "iterations").bind fun iterations => ?_
  exact (i.failsAs_number "learning_rate").bind fun rate => (i.failsAs_natural "seed").bind fun seed => .ok _

theorem Training.failsAs_ofInput (i : CommandInput) : FailsAs ["validation"] (ofInput i) := by
  unfold ofInput
  split
  · refine FailsOnly.bind (.ok _) fun algorithm => ?_
    simp only
    split
    · exact .error (.head _)
    · refine (failsAs_readParams i).bind fun params => ?_
      split
      · exact .error (.head _)
      · split
        · exact .error (.head _)
        · exact .ok _
  · exact .error (.head _)

/-- A bundled command refuses a line with an error of kind `validation`. -/
theorem failsAs_build {s : CommandSpec} (hs : s ∈ Registry.bundled.specs) (i : CommandInput) :
    FailsAs ["validation"] (s.build i) := by
  simp only [Registry.bundled, List.mem_cons, List.not_mem_nil, or_false] at hs
  rcases hs with rfl | rfl | rfl | rfl | rfl | rfl | rfl | rfl | rfl | rfl | rfl
  · exact i.failsAs_path.bind fun path => .ok _
  · simp only [Cleaning.spec]
    split
    · exact .ok _
    · exact .error (.head _)
  · simp only [Encoding.spec]
    split
    · exact .ok _
    · split
      · exact .ok _
      · exact .error (.head _)
  · simp only [Scaling.spec]
    split
    · exact .error (.head _)
    · exact .ok _
  · exact i.failsAs_columns.bind fun columns => .ok _
  · exact i.failsAs_columns.bind fun columns => .ok _
  · simp only [Splitting.spec]
    split
    · exact FailsOnly.bind (.ok _) fun fraction => (i.failsAs_natural "seed").bind fun seed => .ok _
    · exact .error (.head _)
  · exact (Training.failsAs_ofInput i).bind fun how => .ok _
  · exact .ok _
  · exact i.failsAs_path.bind fun path => .ok _
  · exact i.failsAs_path.bind fun path => .ok _

theorem CommandSpec.failsAs_checkArity (s : CommandSpec) (i : CommandInput) :
    FailsAs ["validation"] (s.checkArity i) := by
  unfold checkArity
  simp only
  split
  · exact .error (.head _)
  · split
    · exact .ok _
    · split
      · exact .error (.head _)
      · exact .ok _

theorem CommandSpec.failsAs_checkOption (i : CommandInput) (o : OptionSpec) (value : String) :
    FailsAs ["validation"] (checkOption i o value) := by
  unfold checkOption
  split
  · exact .ok _
  · exact .error (.head _)

theorem Dialect.failsAs_checkOptions (strict : Bool) (s : CommandSpec) (i : CommandInput)
    (options : List (String × String)) : FailsAs ["validation"] (checkOptions strict s i options) := by
  induction options with
  | nil => exact .ok _
  | cons option rest ih =>
      unfold checkOptions
      split
      · exact (CommandSpec.failsAs_checkOption _ _ _).bind fun _ => ih
      · split
        · exact .error (.head _)
        · exact ih

theorem Dialect.failsAs_lookup (d : Dialect) (n : Script.Node) : FailsAs ["validation"] (d.lookup n) := by
  unfold lookup
  split
  · exact .ok _
  · exact .error (.head _)

/-- A program of bundled commands is refused with an error of kind `validation`. -/
theorem failsAs_compile (config : Config) (p : Script.Program) :
    FailsAs ["validation"] (({ config } : Dialect).compile p) := by
  refine FailsOnly.mapM (fun n => ?_) _
  intro e he
  rcases bind_eq_error.1 he with hlookup | ⟨s, hlookup, he⟩
  · exact Dialect.failsAs_lookup _ n e hlookup
  · have hs := mem_of_lookup hlookup
    refine FailsOnly.bind (s.failsAs_checkArity _) (fun _ => ?_) e he
    refine (Dialect.failsAs_checkOptions _ _ _ _).bind fun _ => ?_
    exact (failsAs_build hs _).bind fun handler => .ok _

/-! ## Instructions that fail -/

/-- The kinds of errors that make a step fail. -/
def Error.causeKinds : List String := ["io", "schema", "precondition"]

theorem FailsAs.cause {α : Type} {x : Except Error α} (h : FailsAs ["schema"] x) : FailsAs Error.causeKinds x :=
  h.mono (by simp [Error.causeKinds])

namespace Context

variable (c : Context)

theorem failsAs_requireDataset : FailsAs Error.causeKinds c.requireDataset := by
  unfold requireDataset
  split
  · exact .ok _
  · exact .error (.tail _ (.tail _ (.head _)))

theorem failsAs_requireUnsplit (command : String) : FailsAs Error.causeKinds (c.requireUnsplit command) := by
  refine c.failsAs_requireDataset.bind fun t => ?_
  split
  · exact .error (.tail _ (.tail _ (.head _)))
  · exact .ok _

theorem failsAs_requireSplit : FailsAs Error.causeKinds c.requireSplit := by
  unfold requireSplit
  split
  · exact .ok _
  · exact .error (.tail _ (.tail _ (.head _)))

theorem failsAs_requireModel : FailsAs Error.causeKinds c.requireModel := by
  unfold requireModel
  split
  · exact .ok _
  · exact .error (.tail _ (.tail _ (.head _)))

end Context

/-- Encoding a column fails where it is not there, or where new columns take names that are there. -/
theorem Encoding.failsAs_column (way : Encoding) (known : KeyMap (List String)) (p : Progress) (name : String) :
    FailsAs ["schema"] (way.column known p name) := by
  refine (p.table.failsAs_requireColumn name).bind fun i => ?_
  split
  · exact .ok _
  · exact .ok _
  · exact (Table.failsAs_ofRows _ _).bind fun table => .ok _

theorem Encoding.failsAs_targets (t : Table) (columns : List String) : FailsAs ["schema"] (targets t columns) := by
  unfold targets
  split
  · exact .ok _
  · exact (FailsOnly.mapM t.failsAs_requireColumn columns).bind fun _ => .ok _

/-- Scaling a column fails where it is not there or holds categories. -/
theorem Scaling.failsAs_column (way : Scaling) (t : Table) (name : String) :
    FailsAs ["schema"] (way.column t name) := by
  refine (t.failsAs_requireColumn name).bind fun i => ?_
  split
  split
  · exact .error (.head _)
  · exact .ok _

/-- Splitting fails where there are no rows or the target is not there. -/
theorem Splitting.failsAs_check (how : Splitting) (t : Table) : FailsAs Error.causeKinds (how.check t) := by
  unfold check
  split
  · exact .error (.tail _ (.tail _ (.head _)))
  · split
    · next name _ =>
        intro e he
        cases hfound : t.requireColumn name with
        | ok i =>
            rw [hfound] at he
            cases he
        | error e' =>
            rw [hfound] at he
            cases he
            exact (t.failsAs_requireColumn name).cause e hfound
    · exact .ok _

theorem Training.failsAs_requireTarget (how : Training) (c : Context) :
    FailsAs Error.causeKinds (how.requireTarget c) := by
  unfold requireTarget
  split
  · exact .ok _
  · exact .error (.tail _ (.tail _ (.head _)))

namespace Instruction

open StepM

variable {config : Config} {time : String} {c : Context}

theorem failsAs_load (hvalid : config.validate = .ok ()) (path : String) :
    StepM.FailsAs Error.causeKinds (Storage.load path (.native config time)) := by
  have hsub : ["io", "schema"] ⊆ Error.causeKinds := by simp [Error.causeKinds]
  refine .bind (.ofFiles ((DataFile.failsAs_load hvalid path).mono hsub)) fun t => ?_
  exact Sure.failsAs (.bind (.change _) fun _ => .pure _)

theorem failsAs_clean (way : Cleaning) : StepM.FailsAs Error.causeKinds (way.run c) := by
  refine .bind (.ofExcept (c.failsAs_requireUnsplit "clean")) fun t => ?_
  exact Sure.failsAs (.bind (.change _) fun _ => .bind (.change _) fun _ => .pure _)

theorem failsAs_encode (way : Encoding) (columns : List String) :
    StepM.FailsAs Error.causeKinds (way.run columns c) := by
  refine .bind (.ofExcept (c.failsAs_requireUnsplit "encode")) fun t => ?_
  refine .bind (.ofExcept (Encoding.failsAs_targets t columns).cause) fun targets => ?_
  have hcolumns : TableFlow.FailsAs ["schema"] (targets.foldlM (way.column c.encodings) { table := t }) :=
    FailsOnly.foldlM (Encoding.failsAs_column way c.encodings) _ _
  refine .bind (.ofExcept hcolumns.cause) fun done => ?_
  exact Sure.failsAs (.bind (.change _) fun _ => .bind (.change _) fun _ => .bind (.change _) fun _ =>
    .bind (.change _) fun _ => .pure _)

theorem failsAs_scale (way : Scaling) (columns exclude : List String) :
    StepM.FailsAs Error.causeKinds (way.run columns exclude c) := by
  refine .bind (.ofExcept (c.failsAs_requireUnsplit "scale")) fun t => ?_
  have hknown : TableFlow.FailsAs ["schema"] ((columns ++ exclude).mapM t.requireColumn) :=
    FailsOnly.mapM t.failsAs_requireColumn _
  refine .bind (.ofExcept hknown.cause) fun _ => ?_
  have hcolumns : TableFlow.FailsAs ["schema"] ((Scaling.targets c t columns exclude).foldlM way.column t) :=
    FailsOnly.foldlM (Scaling.failsAs_column way) _ _
  refine .bind (.ofExcept hcolumns.cause) fun scaled => ?_
  exact Sure.failsAs (.bind (.change _) fun _ => .bind (.change _) fun _ => .pure _)

theorem failsAs_drop (columns : List String) : StepM.FailsAs Error.causeKinds (Columns.drop columns c) := by
  refine .bind (.ofExcept (c.failsAs_requireUnsplit "drop")) fun t => ?_
  refine .bind (.ofExcept (t.failsAs_dropColumns columns).cause) fun reduced => ?_
  exact Sure.failsAs (.bind (.change _) fun _ => .bind (.change _) fun _ => .bind (.change _) fun _ => .pure _)

theorem failsAs_select (columns : List String) : StepM.FailsAs Error.causeKinds (Columns.select columns c) := by
  refine .bind (.ofExcept (c.failsAs_requireUnsplit "select")) fun t => ?_
  refine .bind (.ofExcept (t.failsAs_selectColumns columns).cause) fun reduced => ?_
  exact Sure.failsAs (.bind (.change _) fun _ => .bind (.change _) fun _ => .bind (.change _) fun _ => .pure _)

theorem failsAs_split (how : Splitting) : StepM.FailsAs Error.causeKinds (how.run c) := by
  refine .bind (.ofExcept c.failsAs_requireDataset) fun t => ?_
  refine .bind (.ofExcept (how.failsAs_check t)) fun _ => ?_
  exact Sure.failsAs (.bind (.change _) fun _ => .bind (.change _) fun _ => .bind (.change _) fun _ => .pure _)

theorem failsAs_train (how : Training) :
    StepM.FailsAs Error.causeKinds (how.run (.native config time) c) := by
  have hsub : ["schema", "precondition"] ⊆ Error.causeKinds := by simp [Error.causeKinds]
  refine .bind (.ofExcept c.failsAs_requireSplit) fun parts => ?_
  refine .bind (.ofExcept (how.failsAs_requireTarget c)) fun target => ?_
  refine .bind (.ofExcept ((Learn.failsAs_train config.defaultTrees _).mono hsub)) fun model => ?_
  exact Sure.failsAs (.bind (.change _) fun _ => .bind (.change _) fun _ => .bind (.change _) fun _ => .pure _)

theorem failsAs_evaluate : StepM.FailsAs Error.causeKinds (Evaluation.run (.native config time) c) := by
  have hsub : ["schema", "precondition"] ⊆ Error.causeKinds := by simp [Error.causeKinds]
  refine .bind (.ofExcept c.failsAs_requireModel) fun model => ?_
  refine .bind (.ofExcept c.failsAs_requireSplit) fun parts => ?_
  refine .bind (.ofExcept ((Learn.failsAs_evaluate model parts.test).mono hsub)) fun metrics => ?_
  exact Sure.failsAs (.bind (.change _) fun _ => .pure _)

theorem failsAs_export (hvalid : config.validate = .ok ()) (path : String) :
    StepM.FailsAs Error.causeKinds (Storage.exportTable path (.native config time) c) := by
  have hsub : ["io"] ⊆ Error.causeKinds := by simp [Error.causeKinds]
  refine .bind (.ofExcept c.failsAs_requireDataset) fun t => ?_
  refine .bind (.ofFiles ((DataFile.failsAs_write hvalid path t).mono hsub)) fun _ => ?_
  exact Sure.failsAs (.pure _)

theorem failsAs_save (path : String) :
    StepM.FailsAs Error.causeKinds (Storage.save path (.native config time) c) := by
  have hsub : ["io"] ⊆ Error.causeKinds := by simp [Error.causeKinds]
  refine .bind (.ofExcept c.failsAs_requireModel) fun model => ?_
  refine .bind (.ofFiles ((FileM.failsAs_save path _).mono hsub)) fun _ => ?_
  exact Sure.failsAs (.pure _)

/-- An instruction fails because a file cannot be used, data does not have the layout, or something is not there. -/
theorem failsAs_execute (hvalid : config.validate = .ok ()) (todo : Instruction) :
    StepM.FailsAs Error.causeKinds (todo.handler.execute (.native config time)) := by
  intro w b w' h
  have hact : (todo.act (.native config time) w.context).runWith w = (.error b, w') := h
  cases todo with
  | load path => exact failsAs_load hvalid path w b w' hact
  | clean way => exact failsAs_clean way w b w' hact
  | encode way columns => exact failsAs_encode way columns w b w' hact
  | scale way columns exclude => exact failsAs_scale way columns exclude w b w' hact
  | drop columns => exact failsAs_drop columns w b w' hact
  | select columns => exact failsAs_select columns w b w' hact
  | split how => exact failsAs_split how w b w' hact
  | train how => exact failsAs_train how w b w' hact
  | evaluate => exact failsAs_evaluate w b w' hact
  | exportTable path => exact failsAs_export hvalid path w b w' hact
  | save path => exact failsAs_save path w b w' hact

end Instruction
end TableFlow
