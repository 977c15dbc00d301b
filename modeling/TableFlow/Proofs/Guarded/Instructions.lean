import TableFlow.Proofs.Guarded.Preparing
import TableFlow.Proofs.Guarded.Reports
import TableFlow.Proofs.Run.Shape

/-!
# Guarded instructions

Each instruction with the accesses of its computation guarded.  Files are read and written item by item, with no
access to a place; everything else relies on the shape of the tables of the context and on a model that fits, and both
are kept by every instruction.

Main results:

- Definition `Context.Sound`: the tables of a context are well-formed and its model fits.
- Theorem `act_eq`: in a sound context, an instruction breaks down nowhere.
- Theorem `Context.Sound.of_execute`: an instruction that succeeds leaves a sound context.
-/

namespace TableFlow

/-- Everything that the accesses of an instruction rely on: tables are well-formed, and the model fits. -/
structure Context.Sound (c : Context) : Prop extends c.Shaped where
  model : ∀ m, c.model = some m → m.Fits

namespace Guarded

open StepM

variable {α β : Type}

/-- A guarded result that depends on no workspace. -/
def perform : Guarded α → StepM α
  | .ok a => pure a
  | .error b => throw b

theorem bind_perform_ok {x : Guarded α} {a : α} (h : x = .ok a) (f : α → StepM β) : (perform x >>= f) = f a := by
  rw [h]
  rfl

/-- What goes on after a computation that accesses nothing. -/
theorem bind_perform_lift {x : Guarded α} {y : Except Error α} {f g : α → StepM β} (h : x = lift y)
    (hrest : ∀ a, y = .ok a → f a = g a) : (perform x >>= f) = (ofExcept y >>= g) := by
  rw [h]
  cases y with
  | ok a => exact hrest a rfl
  | error e => rfl

theorem bind_ofExcept {x : Except Error α} {f g : α → StepM β} (h : ∀ a, x = .ok a → f a = g a) :
    (ofExcept x >>= f) = (ofExcept x >>= g) := by
  cases x with
  | ok a => exact h a rfl
  | error e => rfl

/-- What an instruction does in a context, with the services of the library. -/
def act (config : Config) (time : String) (c : Context) : Instruction → StepM String
  | .clean way => do
    let t ← ofExcept (c.requireUnsplit "clean")
    let cleaned ← perform (clean way t)
    change fun context => { context with dataset := some cleaned.1 }
    change fun context => context.noted s!"clean {way.name}"
    pure cleaned.2
  | .encode way columns => do
    let t ← ofExcept (c.requireUnsplit "encode")
    let targets ← perform (encodeTargets t columns)
    let done ← perform (encodeAll way c.encodings t targets)
    let n := targets.length
    let notes := ", ".intercalate done.notes
    let message :=
      if targets.isEmpty then "Encoded 0 categorical columns"
      else s!"Encoded {n} categorical column(s) with {way.name}: {notes}"
    change fun context => { context with dataset := some done.table }
    change fun context =>
      { context with encodings := context.encodings.filter fun name => !done.retired.contains name }
    change fun context => { context with encodings := context.encodings.insertAll done.recorded }
    change fun context => context.noted s!"encode {way.name}"
    pure message
  | .scale way columns exclude => do
    let t ← ofExcept (c.requireUnsplit "scale")
    let _ ← ofExcept ((columns ++ exclude).mapM t.requireColumn)
    let targets ← perform (scaleTargets c t columns exclude)
    let scaled ← perform (scaleAll way t targets)
    let n := targets.length
    let names := ", ".intercalate targets
    change fun context => { context with dataset := some scaled }
    change fun context => context.noted s!"scale {way.name}"
    pure s!"Scaled {n} column(s) with {way.name}: {names}"
  | .drop columns => do
    let t ← ofExcept (c.requireUnsplit "drop")
    let reduced ← perform (dropColumns t columns)
    let n := columns.length
    let names := ", ".intercalate columns
    change fun context =>
      { context with encodings := context.encodings.filter fun name => !columns.contains name }
    change fun context => { context with dataset := some reduced }
    change fun context => context.noted "drop"
    pure s!"Dropped {n} column(s): {names} ({reduced.columnCount} remaining)"
  | .select columns => do
    let t ← ofExcept (c.requireUnsplit "select")
    let reduced ← perform (selectColumns t columns)
    let n := columns.length
    let names := ", ".intercalate columns
    change fun context =>
      { context with encodings := context.encodings.filter fun name => columns.contains name }
    change fun context => { context with dataset := some reduced }
    change fun context => context.noted "select"
    pure s!"Selected {n} column(s): {names}"
  | .split how => do
    let t ← ofExcept c.requireDataset
    ofExcept (how.check t)
    let parts ← perform (partition t how.trainFraction (how.seed.getD c.seed))
    let note := match how.target with
      | some name => s!" (target: {name})"
      | none => ""
    change fun context => { context with split := some parts }
    change fun context => { context with model := none, metrics := KeyMap.empty }
    change fun context => { context with target := how.target <|> context.target }
    pure s!"Split {t.rowCount} rows into {parts.train.rowCount} train / {parts.test.rowCount} test{note}"
  | .train how => do
    let parts ← ofExcept c.requireSplit
    let target ← ofExcept (how.requireTarget c)
    let model ← perform (train config.defaultTrees
      { table := parts.train
        target
        algorithm := how.algorithm
        params := how.params
        seed := c.seed
        names := c.encodings.get? target })
    let features := model.features.length
    let classes := model.classes.length
    change fun context => { context with target := some target }
    change fun context => { context with model := some model }
    change fun context => { context with metrics := KeyMap.empty }
    pure s!"Trained {model.algorithm} on {model.trainedRows} rows ({features} features, {classes} classes)"
  | .evaluate => do
    let model ← ofExcept c.requireModel
    let parts ← ofExcept c.requireSplit
    let metrics ← perform (evaluate model parts.test)
    let scores := Evaluation.headline metrics
    change fun context => { context with metrics }
    pure s!"Evaluated {model.algorithm} on {parts.test.rowCount} rows: {scores}"
  | .load path => Storage.load path (.native config time)
  | .exportTable path => Storage.exportTable path (.native config time) c
  | .save path => Storage.save path (.native config time) c

/-- The handler that carries an instruction out. -/
def handler (config : Config) (time : String) (todo : Instruction) : Handler :=
  ⟨todo.name, fun _ context => act config time context todo⟩

section

variable {config : Config} {time : String} {c : Context}

/-- In a sound context, an instruction breaks down nowhere. -/
theorem act_eq (hc : c.Sound) (todo : Instruction) :
    act config time c todo = todo.act (.native config time) c := by
  cases todo with
  | load path => rfl
  | exportTable path => rfl
  | save path => rfl
  | clean way =>
      refine bind_ofExcept fun t ht => ?_
      have hwell := hc.dataset t (Instruction.requireUnsplit_eq_ok.1 ht).1
      exact bind_perform_ok (clean_eq hwell way) _
  | encode way columns =>
      refine bind_ofExcept fun t ht => ?_
      have hwell := hc.dataset t (Instruction.requireUnsplit_eq_ok.1 ht).1
      refine bind_perform_lift (encodeTargets_eq hwell columns) fun targets _ => ?_
      exact bind_perform_lift (encodeAll_eq hwell way c.encodings targets) fun done _ => rfl
  | scale way columns exclude =>
      refine bind_ofExcept fun t ht => bind_ofExcept fun _ _ => ?_
      have hwell := hc.dataset t (Instruction.requireUnsplit_eq_ok.1 ht).1
      rw [bind_perform_ok (scaleTargets_eq hwell c columns exclude)]
      exact bind_perform_lift (scaleAll_eq hwell way _) fun scaled _ => rfl
  | drop columns =>
      refine bind_ofExcept fun t ht => ?_
      have hwell := hc.dataset t (Instruction.requireUnsplit_eq_ok.1 ht).1
      exact bind_perform_lift (dropColumns_eq hwell columns) fun reduced _ => rfl
  | select columns =>
      refine bind_ofExcept fun t ht => ?_
      have hwell := hc.dataset t (Instruction.requireUnsplit_eq_ok.1 ht).1
      exact bind_perform_lift (selectColumns_eq hwell columns) fun reduced _ => rfl
  | split how =>
      refine bind_ofExcept fun t ht => bind_ofExcept fun _ _ => ?_
      exact bind_perform_ok (partition_eq t how.trainFraction (how.seed.getD c.seed)) _
  | train how =>
      refine bind_ofExcept fun parts hparts => bind_ofExcept fun target _ => ?_
      have hwell := (hc.split parts (Instruction.requireSplit_eq_ok.1 hparts)).1
      exact bind_perform_lift (train_eq hwell config.defaultTrees) fun model _ => rfl
  | evaluate =>
      refine bind_ofExcept fun model hmodel => bind_ofExcept fun parts hparts => ?_
      have hfits := hc.model model (Instruction.requireModel_eq_ok.1 hmodel)
      have hwell := (hc.split parts (Instruction.requireSplit_eq_ok.1 hparts)).2
      exact bind_perform_lift (evaluate_eq hfits hwell) fun metrics _ => rfl

end

end Guarded

/-! ## Sound contexts -/

theorem Context.sound_start (seed : Nat) : (Context.start seed).Sound := by
  refine ⟨shaped_start seed, ?_⟩
  intro m hm
  cases hm

/-- A message in the log does no harm. -/
theorem Context.Sound.logged {c : Context} (hc : c.Sound) (log : List String) : ({ c with log } : Context).Sound :=
  ⟨⟨hc.dataset, hc.split⟩, hc.model⟩

/-- An instruction that succeeds leaves a sound context. -/
theorem Context.Sound.of_execute {config : Config} {time : String} {todo : Instruction} {w w' : Workspace}
    {message : String} (hc : w.context.Sound)
    (h : (todo.handler.execute (.native config time)).runWith w = (.ok message, w')) : w'.context.Sound := by
  refine ⟨hc.toShaped.of_execute h, ?_⟩
  have heffect := Instruction.effect_of_execute h
  generalize w'.context = c' at heffect
  intro m hm
  cases heffect with
  | train hsplit htarget hmodel =>
      cases hm
      exact Guarded.fits_of_train hmodel
  | load t => cases hm
  | split hdata hcheck => cases hm
  | _ => exact hc.model m hm

end TableFlow
