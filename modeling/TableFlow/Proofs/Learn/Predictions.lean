import TableFlow.Proofs.Guarded.Reports

/-!
# Predictions of a trained model

A model that was trained on anything at all tells one of its classes of every row that has as many numbers as the model
has features.  Nothing is known about the numbers, neither of the row nor of the classifier: scores may be infinite or
not numbers, and then the first class stands.  So a prediction always has a name, and the counts of an evaluation have a
place for it.

Main results:

- Theorem `Boosted.stages_fit`: boosted trees have at least one stage and at most as many as there are rounds.
- Definition `Model.NamesClasses`: predictions are classes of the model, and whatever looks them up finds them.
- Theorem `predictions_name_classes`: this holds of every model that is trained, and bounds the stages of boosted trees.
-/

namespace TableFlow

open Learn

namespace Learn

/-! ## Stages of boosted trees -/

namespace Boosted

variable {s : Settings}

/-- A round ends the fitting with one stage, or with none unless it is the first, or it adds a stage. -/
theorem stagesFrom_succ_cases (s : Settings) (rounds : Nat) (first : Bool) (weights : List Float)
    (g : Random.Generator) :
    (∃ stage, stagesFrom s (rounds + 1) first weights g = [stage]) ∨
      (first = false ∧ stagesFrom s (rounds + 1) first weights g = []) ∨
      ∃ stage weights' g',
        stagesFrom s (rounds + 1) first weights g = stage :: stagesFrom s rounds false weights' g' := by
  simp only [stagesFrom]
  split
  · exact Or.inl ⟨_, rfl⟩
  · split
    · cases first with
      | true => exact Or.inl ⟨_, rfl⟩
      | false => exact Or.inr (Or.inl ⟨rfl, rfl⟩)
    · exact Or.inr (Or.inr ⟨_, _, _, rfl⟩)

/-- Each round adds one stage at most. -/
theorem length_stagesFrom_le (rounds : Nat) (first : Bool) (weights : List Float) (g : Random.Generator) :
    (stagesFrom s rounds first weights g).length ≤ rounds := by
  induction rounds generalizing first weights g with
  | zero => exact Nat.le_refl 0
  | succ rounds ih =>
      rcases stagesFrom_succ_cases s rounds first weights g with
        ⟨stage, hone⟩ | ⟨_, hnone⟩ | ⟨stage, weights', g', hmore⟩
      · rw [hone]
        exact Nat.succ_le_succ (Nat.zero_le rounds)
      · rw [hnone]
        exact Nat.zero_le _
      · rw [hmore]
        exact Nat.succ_le_succ (ih false weights' g')

/-- The first round adds a stage, however bad it is. -/
theorem stagesFrom_first_ne_nil (rounds : Nat) (weights : List Float) (g : Random.Generator) :
    stagesFrom s (rounds + 1) true weights g ≠ [] := by
  rcases stagesFrom_succ_cases s rounds true weights g with ⟨stage, hone⟩ | ⟨hfirst, _⟩ | ⟨stage, weights', g', hmore⟩
  · simp [hone]
  · cases hfirst
  · simp [hmore]

/-- Boosted trees have at least one stage, and at most as many as there are rounds. -/
theorem stages_fit (classes rounds maxDepth : Nat) (learningRate : Float) (seed : Nat) (samples : List Sample) :
    1 ≤ (fit classes rounds maxDepth learningRate seed samples).stages.length ∧
      (fit classes rounds maxDepth learningRate seed samples).stages.length ≤ max rounds 1 := by
  refine ⟨?_, length_stagesFrom_le _ _ _ _⟩
  obtain ⟨more, hmore⟩ := Nat.exists_eq_succ_of_ne_zero (Nat.ne_of_gt (Nat.le_max_right rounds 1))
  rw [fit, hmore]
  exact List.length_pos_iff.2 (stagesFrom_first_ne_nil more _ _)

end Boosted

/-- Only boosting makes boosted trees. -/
theorem exists_fit_of_boosted {defaultTrees classes seed : Nat} {algorithm : Algorithm} {p : Params}
    {samples : List Sample} {b : Boosted}
    (h : fitClassifier defaultTrees classes seed algorithm p samples = .boosted b) :
    b = Boosted.fit classes (p.trees.getD 50) (p.maxDepth.getD 2) (p.learningRate.getD 1.0) seed samples := by
  cases algorithm with
  | boosting => exact (Classifier.boosted.inj h).symm
  | _ => cases h

/-- Boosted trees that were trained have as many stages as their parameters allow. -/
theorem stages_of_train {defaultTrees : Nat} {r : Request} {m : Model} (h : train defaultTrees r = .ok m)
    {b : Boosted} (hb : m.classifier = .boosted b) :
    1 ≤ b.stages.length ∧ b.stages.length ≤ max (r.params.trees.getD 50) 1 := by
  obtain ⟨features, matrix, keys, _, _, _, rfl⟩ := Guarded.prepared_of_train h
  rw [Guarded.modelOf, Guarded.classifierOf] at hb
  split at hb
  · cases hb
  · rw [exists_fit_of_boosted hb]
    exact Boosted.stages_fit ..

end Learn

namespace Guarded

/-- The names of the classes of rows. -/
def predictLabels (m : Model) (rows : List Features) : Guarded (List String) := do
  let predicted ← rows.mapM fun row => predictClass row m.classifier
  predicted.mapM fun k => element m.classes k

variable {m : Model} {rows : List Features}

theorem predictLabels_eq (hm : m.Fits) (hrows : ∀ row ∈ rows, row.size = m.features.length) :
    predictLabels m rows = .ok (rows.map m.predictLabel) := by
  have hnames : ∀ k ∈ rows.map m.predict, element m.classes k = .ok (m.classes.getD k "") := by
    intro k hk
    obtain ⟨row, hrow, rfl⟩ := List.mem_map.1 hk
    apply element_eq_getD
    rw [hm.length_classes]
    exact predict_lt hm (hrows row hrow)
  rw [predictLabels, bind_ok (mapM_predictClass hm hrows), mapM_eq hnames, List.map_map]
  rfl

end Guarded

namespace Learn

/-- Predictions are classes of the model: they have a key and a name, and labelling rows, counting them and scoring the
model reach beyond no list. -/
structure Model.NamesClasses (m : Model) : Prop where
  lt_classKeys : ∀ row : Features, row.size = m.features.length → m.predict row < m.classKeys.length
  lt_classes : ∀ row : Features, row.size = m.features.length → m.predict row < m.classes.length
  labels_eq : ∀ rows : List Features, (∀ row ∈ rows, row.size = m.features.length) →
    Guarded.predictLabels m rows = .ok (rows.map m.predictLabel)
  report_eq : ∀ rows : List Features, (∀ row ∈ rows, row.size = m.features.length) → ∀ cells : List Cell,
    Guarded.compute (cells.map fun cell => (Cell.key? cell).bind m.classIndex?) (rows.map m.predict) m.classes =
      .ok (Report.compute (cells.map fun cell => (Cell.key? cell).bind m.classIndex?) (rows.map m.predict) m.classes)
  evaluate_eq : ∀ test : Table, test.WellFormed → Guarded.evaluate m test = Guarded.lift (evaluate m test)

/-- Every model that is trained predicts its classes and nothing else; boosted trees have a stage to do so, and no more
stages than rounds. -/
theorem predictions_name_classes {defaultTrees : Nat} {r : Request} {m : Model} (h : train defaultTrees r = .ok m) :
    m.NamesClasses ∧ ∀ b, m.classifier = .boosted b →
      1 ≤ b.stages.length ∧ b.stages.length ≤ max (r.params.trees.getD 50) 1 := by
  have hm := Guarded.fits_of_train h
  refine ⟨⟨fun row hrow => Guarded.predict_lt hm hrow, fun row hrow => ?_, fun rows hrows => ?_, ?_, ?_⟩, ?_⟩
  · rw [hm.length_classes]
    exact Guarded.predict_lt hm hrow
  · exact Guarded.predictLabels_eq hm hrows
  · intro rows hrows cells
    exact Guarded.compute_eq (Guarded.within_of_fits hm hrows cells)
  · intro test hwell
    exact Guarded.evaluate_eq hm hwell
  · intro b hb
    exact stages_of_train h hb

/-- Three classes of rows with huge numbers, and a learning rate that is not a number. -/
def boundlessRequest : Request where
  table := ⟨["x", "z", "y"], [[.number (.float 1.7e308), .nat 0, .string "a"],
    [.number (.float (-1.7e308)), .nat 1, .string "b"], [.nat 0, .nat 1, .string "c"], [.nat 0, .nat 1, .string "a"]]⟩
  target := "y"
  algorithm := .boosting
  params := { trees := some 0, learningRate := some (0.0 / 0.0) }
  seed := 42
  names := none

theorem predictions_name_classes_of_boundlessRequest :
    ∃ m, train 100 boundlessRequest = .ok m ∧ m.NamesClasses ∧
      ∃ b, m.classifier = .boosted b ∧ b.stages.length = 1 := by
  have hboosted : (train 100 boundlessRequest).toOption.any
      (fun m => match m.classifier with | .boosted _ => true | _ => false) = true := by decide +kernel
  cases htrain : train 100 boundlessRequest with
  | error e =>
      rw [htrain] at hboosted
      cases hboosted
  | ok m =>
      obtain ⟨hnames, hstages⟩ := predictions_name_classes htrain
      refine ⟨m, rfl, hnames, ?_⟩
      rw [htrain] at hboosted
      cases hclassifier : m.classifier with
      | boosted b => exact ⟨b, rfl, Nat.le_antisymm (hstages b hclassifier).2 (hstages b hclassifier).1⟩
      | _ => simp [Except.toOption, hclassifier] at hboosted

end Learn
end TableFlow
