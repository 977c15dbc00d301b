import TableFlow.Proofs.Command.Effect
import TableFlow.Proofs.Format.DataFile

/-!
# The shape of the tables of a run

Every table that is read from a file is well-formed, and every instruction makes well-formed tables of well-formed
ones.  So the table of a context and the parts that it is split into are well-formed in every context of a run with
the services of the library.

Main results:

- Definition `Context.Shaped`: the table of a context and its parts are well-formed.
- Theorem `Context.Shaped.of_execute`: an instruction that succeeds keeps it so.
-/

namespace TableFlow

open StepM

variable {config : Config} {t : Table}

/-- The table of a context is well-formed, and so are the parts that it is split into. -/
structure Context.Shaped (c : Context) : Prop where
  dataset : ∀ t, c.dataset = some t → t.WellFormed
  split : ∀ parts, c.split = some parts → parts.train.WellFormed ∧ parts.test.WellFormed

theorem Context.shaped_start (seed : Nat) : (Context.start seed).Shaped := by
  constructor
  · intro t ht
    cases ht
  · intro parts hparts
    cases hparts

/-- A table takes the place of the one of a context that is not split. -/
theorem Context.Shaped.with_dataset {c c' : Context} (hsplit : c.split = none) (hsame : c'.split = c.split)
    (hdata : c'.dataset = some t) (hwell : t.WellFormed) : c'.Shaped := by
  constructor
  · intro u hu
    rw [hdata] at hu
    cases hu
    exact hwell
  · intro parts hparts
    rw [hsame, hsplit] at hparts
    cases hparts

/-- What an instruction does to the context keeps its shape, if what is loaded has it. -/
theorem Context.Shaped.of_effect {services : Services} {todo : Instruction} {c c' : Context} (hc : c.Shaped)
    (heffect : todo.Effect services c c')
    (hload : ∀ path, todo = .load path → ∀ t, c'.dataset = some t → t.WellFormed) : c'.Shaped := by
  cases heffect with
  | load u =>
      exact ⟨hload _ rfl, fun parts hparts => by cases hparts⟩
  | clean hdata hsplit =>
      exact .with_dataset hsplit rfl rfl (wellFormed_clean (hc.dataset _ hdata) _)
  | encode hdata hsplit htargets hdone =>
      exact .with_dataset hsplit rfl rfl (wellFormed_encoded (hc.dataset _ hdata) hdone)
  | scale hdata hsplit hscaled =>
      exact .with_dataset hsplit rfl rfl (wellFormed_scaled (hc.dataset _ hdata) hscaled)
  | drop hdata hsplit hreduced =>
      exact .with_dataset hsplit rfl rfl (Table.wellFormed_dropColumns hreduced)
  | select hdata hsplit hreduced =>
      exact .with_dataset hsplit rfl rfl (Table.wellFormed_selectColumns hreduced)
  | split hdata hcheck =>
      refine ⟨hc.dataset, ?_⟩
      intro parts hparts
      cases hparts
      exact wellFormed_partition (hc.dataset _ hdata) _ _
  | train hsplit htarget hmodel => exact ⟨hc.dataset, hc.split⟩
  | evaluate hmodel hsplit hmetrics => exact ⟨hc.dataset, hc.split⟩
  | exportTable hdata => exact hc
  | save hmodel => exact hc

/-- An instruction that succeeds with the services of the library keeps the shape of the context. -/
theorem Context.Shaped.of_execute {time : String} {todo : Instruction} {w w' : Workspace} {message : String}
    (hc : w.context.Shaped)
    (h : (todo.handler.execute (.native config time)).runWith w = (.ok message, w')) : w'.context.Shaped := by
  refine hc.of_effect (Instruction.effect_of_execute h) ?_
  rintro path rfl u hu
  have hact : (Storage.load path (.native config time)).runWith w = (.ok message, w') := h
  obtain ⟨loaded, w₁, hload, hrest⟩ := bind_runWith_eq_ok.1 hact
  have hfiles : (DataFile.load config path).runWith w.files = (.ok loaded, w₁.files) := ofFiles_eq_ok hload
  cases hrest
  cases hu
  exact DataFile.wellFormed_of_load hfiles

end TableFlow
