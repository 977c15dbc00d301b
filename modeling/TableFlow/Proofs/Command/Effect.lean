import TableFlow.Proofs.Command.Instruction

/-!
# What instructions do to the context

An instruction that succeeds changes the context in one way.  The relation `Effect` lists the eleven ways with
everything that the instruction has found and checked, so that no later proof opens an action again.

Main results:

- Theorem `effect_of_execute`: what an instruction that succeeds does to the context.
- Theorem `Effect.log_eq`: no instruction writes to the log.
-/

namespace TableFlow
namespace Instruction

open StepM

/-- How an instruction that succeeds changes the context. -/
inductive Effect (services : Services) (c : Context) : Instruction → Context → Prop where
  | load {path : String} (t : Table) : Effect services c (.load path) (c.replaceDataset t)
  | clean {way : Cleaning} {t : Table} (hdata : c.dataset = some t) (hsplit : c.split = none) :
      Effect services c (.clean way)
        ({ c with dataset := some (way.apply t).1 }.noted s!"clean {way.name}")
  | encode {way : Encoding} {columns targets : List String} {t : Table} {done : Encoding.Progress}
      (hdata : c.dataset = some t) (hsplit : c.split = none)
      (htargets : Encoding.targets t columns = .ok targets)
      (hdone : targets.foldlM (way.column c.encodings) { table := t } = .ok done) :
      Effect services c (.encode way columns)
        ({ c with
          dataset := some done.table
          encodings := (c.encodings.filter fun name => !done.retired.contains name).insertAll
            done.recorded }.noted s!"encode {way.name}")
  | scale {way : Scaling} {columns exclude : List String} {t scaled : Table}
      (hdata : c.dataset = some t) (hsplit : c.split = none)
      (hscaled : (Scaling.targets c t columns exclude).foldlM way.column t = .ok scaled) :
      Effect services c (.scale way columns exclude)
        ({ c with dataset := some scaled }.noted s!"scale {way.name}")
  | drop {columns : List String} {t reduced : Table} (hdata : c.dataset = some t)
      (hsplit : c.split = none) (hreduced : t.dropColumns columns = .ok reduced) :
      Effect services c (.drop columns)
        ({ c with
          dataset := some reduced
          encodings := c.encodings.filter fun name => !columns.contains name }.noted "drop")
  | select {columns : List String} {t reduced : Table} (hdata : c.dataset = some t)
      (hsplit : c.split = none) (hreduced : t.selectColumns columns = .ok reduced) :
      Effect services c (.select columns)
        ({ c with
          dataset := some reduced
          encodings := c.encodings.filter fun name => columns.contains name }.noted "select")
  | split {how : Splitting} {t : Table} (hdata : c.dataset = some t)
      (hcheck : how.check t = .ok ()) :
      Effect services c (.split how)
        { c with
          split := some (Splitting.partition t how.trainFraction (how.seed.getD c.seed))
          model := none
          metrics := KeyMap.empty
          target := how.target <|> c.target }
  | train {how : Training} {parts : Partition} {target : String} {model : Learn.Model}
      (hsplit : c.split = some parts) (htarget : how.requireTarget c = .ok target)
      (hmodel : services.train
        { table := parts.train
          target
          algorithm := how.algorithm
          params := how.params
          seed := c.seed
          names := c.encodings.get? target } = .ok model) :
      Effect services c (.train how)
        { c with target := some target, model := some model, metrics := KeyMap.empty }
  | evaluate {model : Learn.Model} {parts : Partition} {metrics : Learn.Metrics}
      (hmodel : c.model = some model) (hsplit : c.split = some parts)
      (hmetrics : services.evaluate model parts.test = .ok metrics) :
      Effect services c .evaluate { c with metrics }
  | exportTable {path : String} {t : Table} (hdata : c.dataset = some t) :
      Effect services c (.exportTable path) c
  | save {path : String} {model : Learn.Model} (hmodel : c.model = some model) :
      Effect services c (.save path) c

/-! ## What the context has to hold -/

theorem requireDataset_eq_ok {c : Context} {t : Table} :
    c.requireDataset = .ok t ↔ c.dataset = some t := by
  unfold Context.requireDataset
  cases c.dataset <;> simp

theorem requireSplit_eq_ok {c : Context} {parts : Partition} :
    c.requireSplit = .ok parts ↔ c.split = some parts := by
  unfold Context.requireSplit
  cases c.split <;> simp

theorem requireModel_eq_ok {c : Context} {model : Learn.Model} :
    c.requireModel = .ok model ↔ c.model = some model := by
  unfold Context.requireModel
  cases c.model <;> simp

/-- A table that may be changed is there exactly when one is loaded and not split. -/
theorem requireUnsplit_eq_ok {c : Context} {command : String} {t : Table} :
    c.requireUnsplit command = .ok t ↔ c.dataset = some t ∧ c.split = none := by
  unfold Context.requireUnsplit
  rw [bind_eq_ok]
  constructor
  · rintro ⟨found, hfound, h⟩
    cases hsplit : c.split with
    | some parts =>
        rw [hsplit] at h
        cases h
    | none =>
        rw [hsplit] at h
        cases h
        exact ⟨requireDataset_eq_ok.1 hfound, rfl⟩
  · rintro ⟨hdata, hsplit⟩
    refine ⟨t, requireDataset_eq_ok.2 hdata, ?_⟩
    rw [hsplit]
    rfl

/-! ## What instructions do -/

section

variable {services : Services} {w w' : Workspace} {message : String}

theorem effect_load {path : String}
    (h : (Storage.load path services).runWith w = (.ok message, w')) :
    Effect services w.context (.load path) w'.context := by
  obtain ⟨t, w₁, hload, h⟩ := bind_runWith_eq_ok.1 h
  have hcontext : w₁.context = w.context := (ofFiles_runWith hload).1
  cases h
  rw [← hcontext]
  exact .load t

theorem effect_clean {way : Cleaning}
    (h : (way.run w.context).runWith w = (.ok message, w')) :
    Effect services w.context (.clean way) w'.context := by
  obtain ⟨t, ht, h⟩ := ofExcept_bind_eq_ok.1 h
  obtain ⟨hdata, hsplit⟩ := requireUnsplit_eq_ok.1 ht
  cases h
  exact .clean hdata hsplit

theorem effect_encode {way : Encoding} {columns : List String}
    (h : (way.run columns w.context).runWith w = (.ok message, w')) :
    Effect services w.context (.encode way columns) w'.context := by
  obtain ⟨t, ht, h⟩ := ofExcept_bind_eq_ok.1 h
  obtain ⟨targets, htargets, h⟩ := ofExcept_bind_eq_ok.1 h
  obtain ⟨done, hdone, h⟩ := ofExcept_bind_eq_ok.1 h
  obtain ⟨hdata, hsplit⟩ := requireUnsplit_eq_ok.1 ht
  cases h
  exact .encode hdata hsplit htargets hdone

theorem effect_scale {way : Scaling} {columns exclude : List String}
    (h : (way.run columns exclude w.context).runWith w = (.ok message, w')) :
    Effect services w.context (.scale way columns exclude) w'.context := by
  obtain ⟨t, ht, h⟩ := ofExcept_bind_eq_ok.1 h
  obtain ⟨_, hknown, h⟩ := ofExcept_bind_eq_ok.1 h
  obtain ⟨scaled, hscaled, h⟩ := ofExcept_bind_eq_ok.1 h
  obtain ⟨hdata, hsplit⟩ := requireUnsplit_eq_ok.1 ht
  cases h
  exact .scale hdata hsplit hscaled

theorem effect_drop {columns : List String}
    (h : (Columns.drop columns w.context).runWith w = (.ok message, w')) :
    Effect services w.context (.drop columns) w'.context := by
  obtain ⟨t, ht, h⟩ := ofExcept_bind_eq_ok.1 h
  obtain ⟨reduced, hreduced, h⟩ := ofExcept_bind_eq_ok.1 h
  obtain ⟨hdata, hsplit⟩ := requireUnsplit_eq_ok.1 ht
  cases h
  exact .drop hdata hsplit hreduced

theorem effect_select {columns : List String}
    (h : (Columns.select columns w.context).runWith w = (.ok message, w')) :
    Effect services w.context (.select columns) w'.context := by
  obtain ⟨t, ht, h⟩ := ofExcept_bind_eq_ok.1 h
  obtain ⟨reduced, hreduced, h⟩ := ofExcept_bind_eq_ok.1 h
  obtain ⟨hdata, hsplit⟩ := requireUnsplit_eq_ok.1 ht
  cases h
  exact .select hdata hsplit hreduced

theorem effect_split {how : Splitting}
    (h : (how.run w.context).runWith w = (.ok message, w')) :
    Effect services w.context (.split how) w'.context := by
  obtain ⟨t, ht, h⟩ := ofExcept_bind_eq_ok.1 h
  obtain ⟨_, hcheck, h⟩ := ofExcept_bind_eq_ok.1 h
  have hdata := requireDataset_eq_ok.1 ht
  cases h
  exact .split hdata hcheck

theorem effect_train {how : Training}
    (h : (how.run services w.context).runWith w = (.ok message, w')) :
    Effect services w.context (.train how) w'.context := by
  obtain ⟨parts, hparts, h⟩ := ofExcept_bind_eq_ok.1 h
  obtain ⟨target, htarget, h⟩ := ofExcept_bind_eq_ok.1 h
  obtain ⟨model, hmodel, h⟩ := ofExcept_bind_eq_ok.1 h
  have hsplit := requireSplit_eq_ok.1 hparts
  cases h
  exact .train hsplit htarget hmodel

theorem effect_evaluate
    (h : (Evaluation.run services w.context).runWith w = (.ok message, w')) :
    Effect services w.context .evaluate w'.context := by
  obtain ⟨model, hmodel, h⟩ := ofExcept_bind_eq_ok.1 h
  obtain ⟨parts, hparts, h⟩ := ofExcept_bind_eq_ok.1 h
  obtain ⟨metrics, hmetrics, h⟩ := ofExcept_bind_eq_ok.1 h
  have hmodel := requireModel_eq_ok.1 hmodel
  have hsplit := requireSplit_eq_ok.1 hparts
  cases h
  exact .evaluate hmodel hsplit hmetrics

theorem effect_exportTable {path : String}
    (h : (Storage.exportTable path services w.context).runWith w = (.ok message, w')) :
    Effect services w.context (.exportTable path) w'.context := by
  obtain ⟨t, ht, h⟩ := ofExcept_bind_eq_ok.1 h
  obtain ⟨_, w₂, hwrite, h⟩ := bind_runWith_eq_ok.1 h
  have hcontext : w₂.context = w.context := (ofFiles_runWith hwrite).1
  have hdata := requireDataset_eq_ok.1 ht
  cases h
  rw [hcontext]
  exact .exportTable hdata

theorem effect_save {path : String}
    (h : (Storage.save path services w.context).runWith w = (.ok message, w')) :
    Effect services w.context (.save path) w'.context := by
  obtain ⟨model, hmodel, h⟩ := ofExcept_bind_eq_ok.1 h
  obtain ⟨_, w₂, hwrite, h⟩ := bind_runWith_eq_ok.1 h
  have hcontext : w₂.context = w.context := (ofFiles_runWith hwrite).1
  have hmodel := requireModel_eq_ok.1 hmodel
  cases h
  rw [hcontext]
  exact .save hmodel

/-- To carry an instruction out is to act in the context of the workspace. -/
theorem runWith_execute (todo : Instruction) (services : Services) (w : Workspace) :
    (todo.handler.execute services).runWith w = (todo.act services w.context).runWith w := rfl

/-- What an instruction that succeeds does to the context. -/
theorem effect_of_execute {todo : Instruction}
    (h : (todo.handler.execute services).runWith w = (.ok message, w')) :
    todo.Effect services w.context w'.context := by
  have hact : (todo.act services w.context).runWith w = (.ok message, w') := h
  cases todo with
  | load path => exact effect_load hact
  | clean way => exact effect_clean hact
  | encode way columns => exact effect_encode hact
  | scale way columns exclude => exact effect_scale hact
  | drop columns => exact effect_drop hact
  | select columns => exact effect_select hact
  | split how => exact effect_split hact
  | train how => exact effect_train hact
  | evaluate => exact effect_evaluate hact
  | exportTable path => exact effect_exportTable hact
  | save path => exact effect_save hact

end

/-- No instruction writes to the log. -/
theorem Effect.log_eq {services : Services} {todo : Instruction} {c c' : Context}
    (h : todo.Effect services c c') : c'.log = c.log := by
  cases h <;> rfl

end Instruction
end TableFlow
