import TableFlow.Proofs.Command.Clean
import TableFlow.Proofs.Command.Encode
import TableFlow.Proofs.Command.Scale
import TableFlow.Proofs.Run.Contexts

/-!
# What recorded categories tell

A list of categories is recorded for a column when its cells become codes, so that the list tells what each cell
stands for.  Instructions that replace or drop a column take its record back, but two instructions put other numbers
into a column and leave the record as it is: one that scales the column by name, and one that fills its missing cells
with their average.  So the record tells less than it seems to.  Until a column is scaled by name, its cells are codes
of the list or such averages; after that, they are doubles.  A whole number in it is a code of the list at any time.

Main results:

- Theorem `follows_of_effect`: what an instruction leaves of a column that is recorded after it.
- Theorem `codes_until_overwritten`: recorded columns are there, and hold codes and averages until they are scaled.
- Theorems `not_truthful_after_scale` and `not_truthful_after_average`: a column that is scaled, and one that is filled,
  with numbers that its list says nothing of.
-/

namespace TableFlow

namespace Context

/-- The cells of a column of the table; none if there is no such column. -/
def cellsOf (c : Context) (name : String) : List Cell :=
  match c.dataset with
  | some t => t.cellsOf name
  | none => []

/-- The table has a column of that name. -/
def HasColumn (c : Context) (name : String) : Prop :=
  ∃ t, c.dataset = some t ∧ name ∈ t.columns

/-- Every list that is recorded is that of a column of the table. -/
def Placed (c : Context) : Prop :=
  ∀ name cats, c.encodings.get? name = some cats → c.HasColumn name

/-- Every list that is recorded is that of a column of the table, and the cells of the column are codes of it, doubles,
or missing. -/
def Followed (c : Context) : Prop :=
  ∀ name cats, c.encodings.get? name = some cats →
    c.HasColumn name ∧ ∀ cell ∈ c.cellsOf name, IsCode cats.length cell ∨ Scaling.IsFraction cell

/-- Every list that is recorded is that of a column of the table, and the cells of the column are codes of it. -/
def Truthful (c : Context) : Prop :=
  ∀ name cats, c.encodings.get? name = some cats →
    c.HasColumn name ∧ Coded cats.length (c.cellsOf name)

variable {c : Context} {t : Table} {name : String}

theorem cellsOf_eq (h : c.dataset = some t) : c.cellsOf name = t.cellsOf name := by
  rw [cellsOf, h]

theorem hasColumn_iff (h : c.dataset = some t) : c.HasColumn name ↔ name ∈ t.columns := by
  rw [HasColumn, h]
  simp

end Context

/-- The instruction scales a column by name, and there is something to scale. -/
def Instruction.Rescales (c : Context) (name : String) : Instruction → Prop
  | .scale _ columns _ => name ∈ columns ∧ ∃ value ∈ c.cellsOf name, value.isNull = false
  | _ => False

/-- The instruction fills missing cells of a column with its average, and this is the cell that it fills them with. -/
def Instruction.Averages (c : Context) (name : String) (cell : Cell) : Instruction → Prop
  | .clean way => way.Averages (c.cellsOf name) cell
  | _ => False

/-! ## One instruction -/

/-- What an instruction leaves of a column for which a list is recorded after it: the list was recorded before, and
unless the column is scaled, each of its cells is missing, was there before, or is an average; or the list was recorded
just now, and the cells are codes. -/
inductive Follows (todo : Instruction) (c c' : Context) (name : String) (cats : List String) : Prop
    where
  | kept (hbefore : c.encodings.get? name = some cats) (hcolumn : c'.HasColumn name)
      (hcells : ¬todo.Rescales c name → ∀ cell ∈ c'.cellsOf name,
        cell.isNull = true ∨ cell ∈ c.cellsOf name ∨ todo.Averages c name cell)
  | started (hbefore : c.encodings.get? name = none) (hcolumn : c'.HasColumn name)
      (hcoded : Coded cats.length (c'.cellsOf name))

section

variable {services : Services} {c c' : Context} {t : Table} {name : String} {cats : List String}

/-- A column may stay as it is. -/
theorem Follows.of_same {todo : Instruction} (hbefore : c.encodings.get? name = some cats)
    (hcolumn : c'.HasColumn name) (hcells : c'.cellsOf name = c.cellsOf name) :
    Follows todo c c' name cats := by
  refine .kept hbefore hcolumn ?_
  intro _ cell hcell
  rw [hcells] at hcell
  exact Or.inr (Or.inl hcell)

/-- Cleaning leaves a column its cells, and fills missing ones with an average. -/
theorem follows_clean {way : Cleaning} (hdata : c.dataset = some t)
    (hdata' : c'.dataset = some (way.apply t).1) (hrecorded : c.encodings.get? name = some cats)
    (hcolumn : c.HasColumn name) : Follows (.clean way) c c' name cats := by
  refine .kept hrecorded ?_ ?_
  · rw [Context.hasColumn_iff hdata', Cleaning.columns_clean]
    exact (Context.hasColumn_iff hdata).1 hcolumn
  · intro _ cell hcell
    rw [Context.cellsOf_eq hdata'] at hcell
    rw [Instruction.Averages, Context.cellsOf_eq hdata]
    exact Cleaning.mem_cellsOf_clean hcell

/-- Scaling leaves a recorded column as it is unless the column is named. -/
theorem follows_scale {way : Scaling} {columns exclude : List String} {scaled : Table}
    (hdata : c.dataset = some t) (hdata' : c'.dataset = some scaled)
    (hscaled : (Scaling.targets c t columns exclude).foldlM way.column t = .ok scaled)
    (hrecorded : c.encodings.get? name = some cats) (hcolumn : c.HasColumn name) :
    Follows (.scale way columns exclude) c c' name cats := by
  have hcolumn' : c'.HasColumn name := by
    rw [Context.hasColumn_iff hdata', Scaling.columns_scaled hscaled]
    exact (Context.hasColumn_iff hdata).1 hcolumn
  by_cases htarget : name ∈ Scaling.targets c t columns exclude
  · have hnamed : name ∈ columns :=
      Scaling.mem_columns_of_targets htarget (KeyMap.contains_eq_true_iff.2 ⟨cats, hrecorded⟩)
    refine .kept hrecorded hcolumn' ?_
    intro hsafe cell hcell
    -- Nothing is in the column, or there would be something to scale.
    have hnull : ∀ cell ∈ t.cellsOf name, cell.isNull = true := by
      intro old hold
      by_contra hvalue
      refine hsafe ⟨hnamed, old, ?_, Bool.eq_false_iff.2 hvalue⟩
      rw [Context.cellsOf_eq hdata]
      exact hold
    rw [Context.cellsOf_eq hdata'] at hcell
    exact Or.inl (Scaling.isNull_of_scaled hscaled hnull cell hcell)
  · refine .of_same hrecorded hcolumn' ?_
    rw [Context.cellsOf_eq hdata, Context.cellsOf_eq hdata', Scaling.cellsOf_scaled hscaled htarget]

/-- Labelling keeps the columns that hold codes, and makes codes of the others. -/
theorem follows_label {columns targets : List String} {done : Encoding.Progress}
    (hdata : c.dataset = some t) (hdata' : c'.dataset = some done.table)
    (hdone : targets.foldlM (Encoding.label.column c.encodings) { table := t } = .ok done)
    (hrecorded : (c.encodings.insertAll done.recorded).get? name = some cats)
    (hplaced : c.Placed) : Follows (.encode .label columns) c c' name cats := by
  have hlabelled := Encoding.labelled_of_foldlM hdone
  cases hbefore : c.encodings.get? name with
  | some known =>
      obtain ⟨hkept, hcells⟩ := hlabelled.kept name known hbefore
      rw [hkept] at hrecorded
      cases hrecorded
      refine .of_same hbefore ?_ ?_
      · rw [Context.hasColumn_iff hdata', hlabelled.columns]
        exact (Context.hasColumn_iff hdata).1 (hplaced name cats hbefore)
      · rw [Context.cellsOf_eq hdata, Context.cellsOf_eq hdata', hcells]
  | none =>
      obtain ⟨hmem, hcoded⟩ := hlabelled.coded name cats hbefore hrecorded
      refine .started hbefore ?_ ?_
      · rw [Context.hasColumn_iff hdata', hlabelled.columns]
        exact hmem
      · rw [Context.cellsOf_eq hdata']
        exact hcoded

/-- Making indicators of columns keeps the columns whose lists are not retired. -/
theorem follows_oneHot {columns targets : List String} {done : Encoding.Progress}
    (hdata : c.dataset = some t) (hdata' : c'.dataset = some done.table)
    (hdone : targets.foldlM (Encoding.oneHot.column c.encodings) { table := t } = .ok done)
    (hrecorded : (c.encodings.filter fun name => !done.retired.contains name).get? name = some cats)
    (hplaced : c.Placed) : Follows (.encode .oneHot columns) c c' name cats := by
  have hindicated := Encoding.indicated_of_foldlM hdone
  rw [KeyMap.get?_filter] at hrecorded
  split at hrecorded
  · next hkept =>
      have hmem := (Context.hasColumn_iff hdata).1 (hplaced name cats hrecorded)
      have hknown : (c.encodings.get? name).isSome = true := by
        rw [hrecorded]
        rfl
      obtain ⟨hmem', hcells⟩ := hindicated.kept name hmem hknown (by simpa using hkept)
      refine .of_same hrecorded ((Context.hasColumn_iff hdata').2 hmem') ?_
      rw [Context.cellsOf_eq hdata, Context.cellsOf_eq hdata', hcells]
  · cases hrecorded

/-- Dropping columns keeps the others, and only their lists. -/
theorem follows_drop {columns : List String} {reduced : Table} (hdata : c.dataset = some t)
    (hdata' : c'.dataset = some reduced) (hreduced : t.dropColumns columns = .ok reduced)
    (hrecorded : (c.encodings.filter fun name => !columns.contains name).get? name = some cats)
    (hplaced : c.Placed) : Follows (.drop columns) c c' name cats := by
  rw [KeyMap.get?_filter] at hrecorded
  split at hrecorded
  · next hkept =>
      have hmem := (Context.hasColumn_iff hdata).1 (hplaced name cats hrecorded)
      obtain ⟨hmem', hcells⟩ := Table.cellsOf_dropColumns hreduced name hmem (by simpa using hkept)
      refine .of_same hrecorded ((Context.hasColumn_iff hdata').2 hmem') ?_
      rw [Context.cellsOf_eq hdata, Context.cellsOf_eq hdata', hcells]
  · cases hrecorded

/-- Selecting columns keeps them and only their lists. -/
theorem follows_select {columns : List String} {reduced : Table} (hdata : c.dataset = some t)
    (hdata' : c'.dataset = some reduced) (hreduced : t.selectColumns columns = .ok reduced)
    (hrecorded : (c.encodings.filter fun name => columns.contains name).get? name = some cats) :
    Follows (.select columns) c c' name cats := by
  rw [KeyMap.get?_filter] at hrecorded
  split at hrecorded
  · next hkept =>
      obtain ⟨hcolumns, hcells⟩ := Table.cellsOf_selectColumns hreduced
      have hmem : name ∈ columns := by simpa using hkept
      refine .of_same hrecorded ?_ ?_
      · rw [Context.hasColumn_iff hdata', hcolumns]
        exact hmem
      · rw [Context.cellsOf_eq hdata, Context.cellsOf_eq hdata', hcells name hmem]
  · cases hrecorded

/-- What an instruction leaves of a column for which a list is recorded after it. -/
theorem follows_of_effect {todo : Instruction} (heffect : todo.Effect services c c')
    (hplaced : c.Placed) (hrecorded : c'.encodings.get? name = some cats) :
    Follows todo c c' name cats := by
  have hsame : c'.dataset = c.dataset → c'.encodings = c.encodings → Follows todo c c' name cats := by
    intro hdata hencodings
    rw [hencodings] at hrecorded
    refine .of_same hrecorded ?_ ?_
    · rw [Context.HasColumn, hdata]
      exact hplaced name cats hrecorded
    · rw [Context.cellsOf, Context.cellsOf, hdata]
  cases heffect with
  | load t => cases hrecorded
  | clean hdata hsplit => exact follows_clean hdata rfl hrecorded (hplaced name cats hrecorded)
  | encode hdata hsplit htargets hdone =>
      rename_i way columns targets t done
      cases way with
      | label =>
          have hretired : (c.encodings.filter fun name => !done.retired.contains name) =
              c.encodings := by
            rw [(Encoding.labelled_of_foldlM hdone).retired]
            exact KeyMap.filter_eq_self fun _ => rfl
          have hafter : (c.encodings.insertAll done.recorded).get? name = some cats := by
            rw [← hretired]
            exact hrecorded
          exact follows_label hdata rfl hdone hafter hplaced
      | oneHot =>
          have hafter : (c.encodings.filter fun name => !done.retired.contains name).get? name =
              some cats := by
            rw [← KeyMap.insertAll_nil (KeyMap.filter _ _),
              ← (Encoding.indicated_of_foldlM hdone).recorded]
            exact hrecorded
          exact follows_oneHot hdata rfl hdone hafter hplaced
  | scale hdata hsplit hscaled =>
      exact follows_scale hdata rfl hscaled hrecorded (hplaced name cats hrecorded)
  | drop hdata hsplit hreduced => exact follows_drop hdata rfl hreduced hrecorded hplaced
  | select hdata hsplit hreduced => exact follows_select hdata rfl hreduced hrecorded
  | split hdata hcheck => exact hsame rfl rfl
  | train hsplit htarget hmodel => exact hsame rfl rfl
  | evaluate hmodel hsplit hmetrics => exact hsame rfl rfl
  | exportTable hdata => exact hsame rfl rfl
  | save hmodel => exact hsame rfl rfl

/-- The column is there after the instruction, whatever became of its cells. -/
theorem Follows.hasColumn {todo : Instruction} (h : Follows todo c c' name cats) :
    c'.HasColumn name := by
  cases h with
  | kept _ hcolumn _ => exact hcolumn
  | started _ hcolumn _ => exact hcolumn

/-- Scaling a column by name leaves doubles and missing cells in it. -/
theorem isFraction_of_effect {way : Scaling} {columns exclude : List String}
    (heffect : Instruction.Effect services c (.scale way columns exclude) c')
    (hname : name ∈ columns) : ∀ cell ∈ c'.cellsOf name, Scaling.IsFraction cell := by
  cases heffect with
  | scale hdata hsplit hscaled =>
      exact Scaling.isFraction_of_scaled hscaled (Scaling.mem_targets_of_columns hname)

theorem isFraction_of_rescales {todo : Instruction} (heffect : todo.Effect services c c')
    (hscales : todo.Rescales c name) : ∀ cell ∈ c'.cellsOf name, Scaling.IsFraction cell := by
  cases todo with
  | scale way columns exclude => exact isFraction_of_effect heffect hscales.1
  | _ => exact hscales.elim

/-- An average is a double, or missing if it is not finite. -/
theorem isFraction_of_averages {todo : Instruction} {cell : Cell} (h : todo.Averages c name cell) :
    Scaling.IsFraction cell := by
  cases todo with
  | clean way =>
      obtain ⟨x, _, rfl⟩ := h.average
      exact Scaling.isFraction_float x
  | _ => exact h.elim

/-- An instruction puts nothing but codes, doubles and missing cells into a column with a list. -/
theorem followed_of_effect {todo : Instruction} (heffect : todo.Effect services c c')
    (h : c.Followed) : c'.Followed := by
  intro name cats hrecorded
  have hplaced : c.Placed := fun name cats hbefore => (h name cats hbefore).1
  have hfollows := follows_of_effect heffect hplaced hrecorded
  refine ⟨hfollows.hasColumn, ?_⟩
  intro cell hcell
  cases hfollows with
  | started _ _ hcoded =>
      rcases hcoded cell hcell with hnull | hcode
      · exact Or.inr (Or.inl hnull)
      · exact Or.inl hcode
  | kept hbefore _ hcells =>
      by_cases hscales : todo.Rescales c name
      · exact Or.inr (isFraction_of_rescales heffect hscales cell hcell)
      · rcases hcells hscales cell hcell with hnull | hold | haverage
        · exact Or.inr (Or.inl hnull)
        · exact (h name cats hbefore).2 cell hold
        · exact Or.inr (isFraction_of_averages haverage)

end

/-- A double is no code. -/
theorem not_isCode_of_isFraction {cell : Cell} (h : Scaling.IsFraction cell)
    (hvalue : cell.isNull = false) (n : Nat) : ¬IsCode n cell := by
  rintro ⟨i, _, rfl⟩
  rcases h with hnull | ⟨x, hx⟩
  · cases hnull
  · cases hx

/-! ## All steps -/

section

variable {config : Config} {services : Services} {files : Files} {steps : List Step}
variable {name : String} {cats : List String} {k n : Nat}

/-- In every context of a run, a column for which a list is recorded is there, and holds codes of it, doubles and
missing cells. -/
theorem followed_after (config : Config) (services : Services) (files : Files)
    (hsteps : Instructed steps) (n : Nat) :
    (contextAfter config services files steps n).Followed := by
  refine context_invariant hsteps ?_ ?_ files n
  · intro name cats hrecorded
    cases hrecorded
  · intro todo c c' message hfollowed heffect
    show c'.Followed
    exact followed_of_effect heffect hfollowed

theorem placed_after (config : Config) (services : Services) (files : Files)
    (hsteps : Instructed steps) (n : Nat) :
    (contextAfter config services files steps n).Placed :=
  fun name cats hrecorded => (followed_after config services files hsteps n name cats hrecorded).1

/-- Step `n` of a program is run and succeeds, and it scales a column by name. -/
def RescaledAt (config : Config) (services : Services) (files : Files) (steps : List Step)
    (n : Nat) (name : String) : Prop :=
  ∃ todo, CarriedOutAt config services files steps n todo ∧
    todo.Rescales (contextAfter config services files steps n) name

/-- Step `n` of a program is run and succeeds, and the cell is the average with which it fills gaps of a column. -/
def AveragedAt (config : Config) (services : Services) (files : Files) (steps : List Step)
    (n : Nat) (name : String) (cell : Cell) : Prop :=
  ∃ todo, CarriedOutAt config services files steps n todo ∧
    todo.Averages (contextAfter config services files steps n) name cell

/-- After `n` steps of a program, each cell of a column is missing, or a code of the list, or an average with which one
of the steps from step `k` on has filled gaps of the column. -/
def CodedSince (config : Config) (services : Services) (files : Files) (steps : List Step)
    (k n : Nat) (name : String) (cats : List String) : Prop :=
  ∀ cell ∈ (contextAfter config services files steps n).cellsOf name,
    cell.isNull = true ∨ IsCode cats.length cell ∨
      ∃ m, k ≤ m ∧ m < n ∧ AveragedAt config services files steps m name cell

/-- One more step that does not scale a column leaves codes and averages in it. -/
theorem codedSince_succ (hsteps : Instructed steps) (hkn : k ≤ n)
    (hsafe : ¬RescaledAt config services files steps n name)
    (hcoded : ∀ cats, (contextAfter config services files steps n).encodings.get? name = some cats →
      CodedSince config services files steps k n name cats)
    (hrecorded : (contextAfter config services files steps (n + 1)).encodings.get? name = some cats) :
    CodedSince config services files steps k (n + 1) name cats := by
  -- What was an average before stays one of an earlier step.
  have hearlier : (contextAfter config services files steps n).encodings.get? name = some cats →
      ∀ cell ∈ (contextAfter config services files steps n).cellsOf name,
        cell.isNull = true ∨ IsCode cats.length cell ∨
          ∃ m, k ≤ m ∧ m < n + 1 ∧ AveragedAt config services files steps m name cell := by
    intro hbefore cell hcell
    rcases hcoded cats hbefore cell hcell with hnull | hcode | ⟨m, hkm, hmn, haverage⟩
    · exact Or.inl hnull
    · exact Or.inr (Or.inl hcode)
    · exact Or.inr (Or.inr ⟨m, hkm, Nat.lt_succ_of_lt hmn, haverage⟩)
  intro cell hcell
  rcases contextAfter_succ config services files hsteps n with hsame | ⟨todo, hdone⟩
  · rw [hsame] at hrecorded hcell
    exact hearlier hrecorded cell hcell
  · obtain ⟨c, message, heffect, hcontext⟩ := hdone.effect
    rw [hcontext] at hrecorded hcell
    have hfollows := follows_of_effect heffect (placed_after config services files hsteps n) hrecorded
    cases hfollows with
    | kept hbefore _ hcells =>
        have hkept : ¬todo.Rescales (contextAfter config services files steps n) name :=
          fun hscales => hsafe ⟨todo, hdone, hscales⟩
        rcases hcells hkept cell hcell with hnull | hold | haverage
        · exact Or.inl hnull
        · exact hearlier hbefore cell hold
        · exact Or.inr (Or.inr ⟨n, hkn, Nat.lt_succ_self n, todo, hdone, haverage⟩)
    | started _ _ hstarted =>
        rcases hstarted cell hcell with hnull | hcode
        · exact Or.inl hnull
        · exact Or.inr (Or.inl hcode)

/-- A column that was not recorded after `k` steps, and was not scaled by name since, holds codes and averages once it
is recorded. -/
theorem codedSince_of_unrecorded (hsteps : Instructed steps) (hkn : k ≤ n)
    (hunrecorded : (contextAfter config services files steps k).encodings.get? name = none)
    (hsafe : ∀ m, k ≤ m → m < n → ¬RescaledAt config services files steps m name) :
    ∀ cats, (contextAfter config services files steps n).encodings.get? name = some cats →
      CodedSince config services files steps k n name cats := by
  induction hkn with
  | refl =>
      intro cats hrecorded
      rw [hunrecorded] at hrecorded
      cases hrecorded
  | step hle ih =>
      rename_i m
      intro cats hrecorded
      refine codedSince_succ hsteps hle (hsafe m hle (Nat.lt_succ_self m)) ?_ hrecorded
      exact ih fun l hkl hlm => hsafe l hkl (Nat.lt_succ_of_lt hlm)

end

/-- In every context of a run, a column for which a list is recorded is there, and its cells are codes of the list,
doubles, or missing.  If it has not been scaled by name since a context without a list for it, each of its cells is
missing, or a code of the list, or the average with which a step since then has filled gaps of the column.  What scales
a column by name leaves doubles and missing cells in it. -/
theorem codes_until_overwritten (config : Config) (services : Services) (files : Files)
    (p : Script.Program) (steps : List Step)
    (hcompile : ({ config } : Dialect).compile p = .ok steps) :
    (∀ n name cats,
      (contextAfter config services files steps n).encodings.get? name = some cats →
      (contextAfter config services files steps n).HasColumn name ∧
        (∀ cell ∈ (contextAfter config services files steps n).cellsOf name,
          IsCode cats.length cell ∨ Scaling.IsFraction cell) ∧
        ∀ k ≤ n, (contextAfter config services files steps k).encodings.get? name = none →
          (∀ m, k ≤ m → m < n → ¬RescaledAt config services files steps m name) →
          CodedSince config services files steps k n name cats) ∧
      ∀ n way columns exclude,
        CarriedOutAt config services files steps n (.scale way columns exclude) →
        ∀ name ∈ columns, ∀ cell ∈ (contextAfter config services files steps (n + 1)).cellsOf name,
          Scaling.IsFraction cell := by
  have hsteps : Instructed steps := instruction_of_compile hcompile
  constructor
  · intro n name cats hrecorded
    obtain ⟨hcolumn, hcells⟩ := followed_after config services files hsteps n name cats hrecorded
    refine ⟨hcolumn, hcells, ?_⟩
    intro k hkn hunrecorded hsafe
    exact codedSince_of_unrecorded hsteps hkn hunrecorded hsafe cats hrecorded
  · intro n way columns exclude hdone name hname
    obtain ⟨c, message, heffect, hcontext⟩ := hdone.effect
    have hfraction := isFraction_of_effect heffect hname
    rw [hcontext]
    exact hfraction

/-! ## A column that is encoded and then scaled -/

/-- A program that encodes a column and then scales it by name. -/
def encodeAndScale : Script.Program :=
  ⟨[⟨"load", ["d.csv"], Options.empty, 1⟩, ⟨"encode", ["c"], Options.empty, 2⟩,
    ⟨"scale", ["minmax", "c"], Options.empty, 3⟩]⟩

/-- The steps of that program. -/
def encodeAndScaleSteps : List Step :=
  [⟨"load", ["d.csv"], Options.empty, 1, (Instruction.load "d.csv").handler⟩,
    ⟨"encode", ["c"], Options.empty, 2, (Instruction.encode .label ["c"]).handler⟩,
    ⟨"scale", ["minmax", "c"], Options.empty, 3, (Instruction.scale .minMax ["c"] []).handler⟩]

theorem compile_encodeAndScale :
    ({} : Dialect).compile encodeAndScale = .ok encodeAndScaleSteps := rfl

/-- Services that load a column of three categories from every path. -/
def threeCategories : Services :=
  { Services.native {} "" with
    load := fun _ => pure ⟨["c"], [[.string "blue"], [.string "green"], [.string "red"]]⟩ }

/-- The contexts of that program with these services. -/
def encodeAndScaleAfter (n : Nat) : Context :=
  contextAfter {} threeCategories Files.empty encodeAndScaleSteps n

/-- Scaling the codes of three categories leaves a value. -/
theorem exists_value_of_rescaled :
    ∃ cell ∈ Scaling.minMax.rescaled [.nat 0, .nat 1, .nat 2], cell.isNull = false := by
  have hstats : ColumnStats.ofCells [.nat 0, .nat 1, .nat 2] = .ofSorted [0.0, 1.0, 2.0] 0 :=
    ColumnStats.ofCells_eq_ofSorted rfl (by decide +kernel)
  refine ⟨_, List.mem_map_of_mem (List.mem_cons_of_mem _ List.mem_cons_self), ?_⟩
  rw [hstats]
  decide +kernel

/-- After it is scaled, its list is still recorded, and the column holds no codes of it. -/
theorem not_truthful_after_scale :
    ({} : Dialect).compile encodeAndScale = .ok encodeAndScaleSteps ∧
      ¬(encodeAndScaleAfter 3).Truthful := by
  refine ⟨compile_encodeAndScale, ?_⟩
  intro htruthful
  have hrecorded : (encodeAndScaleAfter 3).encodings.get? "c" = some ["blue", "green", "red"] := rfl
  have hcoded := (htruthful "c" _ hrecorded).2
  have hdone : CarriedOutAt {} threeCategories Files.empty encodeAndScaleSteps 2
      (.scale .minMax ["c"] []) := ⟨⟨by decide, rfl, rfl⟩, rfl⟩
  obtain ⟨c, message, heffect, hcontext⟩ := hdone.effect
  rw [encodeAndScaleAfter, hcontext] at hcoded
  have hbefore : (contextAfter {} threeCategories Files.empty encodeAndScaleSteps 2).dataset =
      some ⟨["c"], [[.nat 0], [.nat 1], [.nat 2]]⟩ := rfl
  cases heffect with
  | scale hdata hsplit hscaled =>
      rename_i t scaled
      rw [hbefore] at hdata
      cases hdata
      obtain ⟨first, hfirst, hrest⟩ := foldlM_cons_eq_ok.1 hscaled
      obtain rfl : first = scaled := Except.ok.inj hrest
      have hrescales := Scaling.rescales_of_column hfirst
      obtain ⟨cell, hcell, hvalue⟩ := exists_value_of_rescaled
      have hmem : cell ∈ first.cellsOf "c" := by
        rw [hrescales.cells]
        exact hcell
      rcases hcoded cell hmem with hnull | hcode
      · rw [hvalue] at hnull
        cases hnull
      · exact not_isCode_of_isFraction (hrescales.isFraction cell hmem) hvalue _ hcode

/-! ## A column that is encoded and then filled -/

/-- A program that encodes a column and then fills missing cells with the mean. -/
def encodeAndAverage : Script.Program :=
  ⟨[⟨"load", ["d.csv"], Options.empty, 1⟩, ⟨"encode", ["c"], Options.empty, 2⟩,
    ⟨"clean", ["mean"], Options.empty, 3⟩]⟩

/-- The steps of that program. -/
def encodeAndAverageSteps : List Step :=
  [⟨"load", ["d.csv"], Options.empty, 1, (Instruction.load "d.csv").handler⟩,
    ⟨"encode", ["c"], Options.empty, 2, (Instruction.encode .label ["c"]).handler⟩,
    ⟨"clean", ["mean"], Options.empty, 3, (Instruction.clean .mean).handler⟩]

theorem compile_encodeAndAverage :
    ({} : Dialect).compile encodeAndAverage = .ok encodeAndAverageSteps := rfl

/-- Services that load a column of two categories with a gap from every path. -/
def twoCategories : Services :=
  { Services.native {} "" with load := fun _ => pure ⟨["c"], [[.string "a"], [.string "b"], [.null]]⟩ }

/-- The contexts of that program with these services. -/
def encodeAndAverageAfter (n : Nat) : Context :=
  contextAfter {} twoCategories Files.empty encodeAndAverageSteps n

/-- The gap is filled with a half, the mean of the two codes. -/
theorem dataset_encodeAndAverage :
    (encodeAndAverageAfter 3).dataset =
      some ⟨["c"], [[.nat 0], [.nat 1], [.number (.float 0.5)]]⟩ := by
  have hstats : ColumnStats.ofCells [.nat 0, .nat 1, .null] = .ofSorted [0.0, 1.0] 1 :=
    ColumnStats.ofCells_eq_ofSorted rfl (by decide +kernel)
  have hfill : Cleaning.mean.fillFor [.nat 0, .nat 1, .null] = some (.number (.float 0.5)) := by
    have hmean : (ColumnStats.ofSorted [0.0, 1.0] 1).mean = 0.5 := by decide +kernel
    show some (Json.float (ColumnStats.ofCells [.nat 0, .nat 1, .null]).mean) = _
    rw [hstats, hmean]
    rfl
  show some (Table.mk ["c"] ([[.nat 0], [.nat 1], [.null]].map (Cleaning.fillRow
    [Cleaning.mean.fillFor [.nat 0, .nat 1, .null]]))) = _
  rw [hfill]
  rfl

/-- After its gap is filled, the column holds codes of its two categories and the average of them; and of codes of three
categories, scaling by name leaves doubles. -/
theorem codes_beside_average :
    (encodeAndAverageAfter 3).encodings.get? "c" = some ["a", "b"] ∧
      (encodeAndAverageAfter 3).HasColumn "c" ∧
      (∀ cell ∈ (encodeAndAverageAfter 3).cellsOf "c", IsCode 2 cell ∨ Scaling.IsFraction cell) ∧
      CodedSince {} twoCategories Files.empty encodeAndAverageSteps 1 3 "c" ["a", "b"] ∧
      ∀ cell ∈ (encodeAndScaleAfter 3).cellsOf "c", Scaling.IsFraction cell := by
  have hrecorded : (encodeAndAverageAfter 3).encodings.get? "c" = some ["a", "b"] := rfl
  have hunrecorded : (encodeAndAverageAfter 1).encodings.get? "c" = none := rfl
  have hresult := (codes_until_overwritten {} twoCategories Files.empty encodeAndAverage
    encodeAndAverageSteps compile_encodeAndAverage).1 3 "c" _ hrecorded
  have hscaled := (codes_until_overwritten {} threeCategories Files.empty encodeAndScale
    encodeAndScaleSteps compile_encodeAndScale).2 2 .minMax ["c"] [] ⟨⟨by decide, rfl, rfl⟩, rfl⟩
  refine ⟨hrecorded, hresult.1, hresult.2.1, hresult.2.2 1 (by decide) hunrecorded ?_, hscaled "c" (by decide)⟩
  rintro m hlower hupper ⟨todo, hdone, hscales⟩
  obtain ⟨hm, hs⟩ := hdone.carriesOut
  -- Neither of the two steps is one that scales.
  have hname : "scale" ≠ todo.name := by
    rw [← hs.name_eq]
    match m with
    | 1 => exact (by decide : "scale" ≠ "encode")
    | 2 => exact (by decide : "scale" ≠ "clean")
  cases todo with
  | scale way columns exclude => exact hname rfl
  | _ => exact hscales

/-- Its list is recorded all the same, and a half is no code of it. -/
theorem not_truthful_after_average :
    ({} : Dialect).compile encodeAndAverage = .ok encodeAndAverageSteps ∧
      ¬(encodeAndAverageAfter 3).Truthful := by
  refine ⟨compile_encodeAndAverage, ?_⟩
  intro htruthful
  have hcoded := (htruthful "c" ["a", "b"] rfl).2
  rw [Context.cellsOf_eq dataset_encodeAndAverage] at hcoded
  rcases hcoded (.number (.float 0.5)) (by simp [Table.cellsOf, Table.column, Table.columnIndex?]) with
    hnull | hcode
  · cases hnull
  · exact not_isCode_of_isFraction (Or.inr ⟨0.5, rfl⟩) rfl _ hcode

end TableFlow
