import TableFlow.Learn.Report
import TableFlow.Proofs.Checks

/-!
# Kinds of errors

A check fails as one of some kinds if every error that it can fail with is of one of them.  What is asked of a table
fails only with errors of kind `schema`; training and scoring also fail, with `precondition`, where there are no rows.

Main results:

- Definition `FailsAs`: a check fails only with errors of some kinds.
- Theorems `failsAs_selectColumns` and `failsAs_dropColumns`: reshaping a table fails as `schema`.
- Theorems `failsAs_train` and `failsAs_evaluate`: training and scoring fail as `schema` or `precondition`.
-/

namespace TableFlow

variable {α : Type} {kinds : List String} {x : Except Error α}

/-- Whenever the check fails, the error is of one of these kinds. -/
def FailsAs (kinds : List String) (x : Except Error α) : Prop :=
  FailsOnly (fun e => e.kind ∈ kinds) x

theorem FailsAs.mono {more : List String} (h : FailsAs kinds x) (hsub : kinds ⊆ more) : FailsAs more x :=
  fun e he => hsub (h e he)

/-! ## Tables -/

namespace Table

theorem failsAs_requireColumn (t : Table) (name : String) : FailsAs ["schema"] (t.requireColumn name) := by
  unfold requireColumn
  split
  · exact .ok _
  · exact .error (List.mem_singleton.2 rfl)

theorem kind_of_misfit? {width number : Nat} {rows : List (List Cell)} {e : Error}
    (h : misfit? width number rows = some e) : e.kind = "schema" := by
  induction rows generalizing number with
  | nil => cases h
  | cons row rows ih =>
      rw [misfit?] at h
      split at h
      · exact ih h
      · cases h
        rfl

theorem failsAs_ofRows (columns : List String) (rows : List (List Cell)) :
    FailsAs ["schema"] (ofRows columns rows) := by
  unfold ofRows
  split
  · exact .error (List.mem_singleton.2 rfl)
  · split
    · next e hmisfit => exact .error (List.mem_singleton.2 (kind_of_misfit? hmisfit))
    · exact .ok _

theorem failsAs_selectColumns (t : Table) (names : List String) : FailsAs ["schema"] (t.selectColumns names) :=
  (FailsOnly.mapM t.failsAs_requireColumn names).bind fun _ => failsAs_ofRows _ _

theorem failsAs_dropColumns (t : Table) (names : List String) : FailsAs ["schema"] (t.dropColumns names) :=
  (FailsOnly.mapM t.failsAs_requireColumn names).bind fun _ => t.failsAs_selectColumns _

end Table

/-! ## Training and scoring -/

namespace Learn

theorem failsAs_featureColumns (t : Table) (target : String) : FailsAs ["schema"] (featureColumns t target) := by
  refine (t.failsAs_requireColumn target).bind fun _ => FailsOnly.bind (.mapM ?_ _) fun features => ?_
  · rintro ⟨name, i⟩
    simp only
    cases t.columnKind i with
    | numeric => exact .ok _
    | categorical => exact .error (List.mem_singleton.2 rfl)
    | empty => exact .error (List.mem_singleton.2 rfl)
  · split
    · exact .error (List.mem_singleton.2 rfl)
    · exact .ok _

theorem failsAs_featureValue (name : String) (rowNumber : Nat) (cell : Cell) :
    FailsAs ["schema"] (featureValue name rowNumber cell) := by
  unfold featureValue
  split
  · exact .ok _
  · exact .ok _
  · exact .error (List.mem_singleton.2 rfl)
  · exact .error (List.mem_singleton.2 rfl)

theorem failsAs_featureMatrix (t : Table) (columns : List String) :
    FailsAs ["schema"] (featureMatrix t columns) := by
  refine (FailsOnly.mapM t.failsAs_requireColumn columns).bind fun places => .mapM ?_ _
  rintro ⟨row, i⟩
  exact (FailsOnly.mapM (fun column => failsAs_featureValue _ _ _) _).bind fun values => .ok _

theorem failsAs_labelKeys (target : String) (cells : List Cell) : FailsAs ["schema"] (labelKeys target cells) := by
  refine FailsOnly.mapM ?_ _
  rintro ⟨cell, i⟩
  simp only
  split
  · exact .ok _
  · exact .error (List.mem_singleton.2 rfl)

/-- Training fails where the table has no rows, or does not have the layout. -/
theorem failsAs_train (defaultTrees : Nat) (r : Request) :
    FailsAs ["schema", "precondition"] (train defaultTrees r) := by
  have hsub : ["schema"] ⊆ ["schema", "precondition"] := by simp
  unfold train
  split
  · exact .error (.tail _ (.head _))
  · refine .bind ((failsAs_featureColumns r.table r.target).mono hsub) fun features => ?_
    refine .bind ((failsAs_featureMatrix r.table features).mono hsub) fun matrix => ?_
    refine .bind ((r.table.failsAs_requireColumn r.target).mono hsub) fun target => ?_
    exact .bind ((failsAs_labelKeys r.target _).mono hsub) fun keys => .ok _

/-- Scoring fails where the table has no rows, or does not have the layout. -/
theorem failsAs_evaluate (m : Model) (test : Table) : FailsAs ["schema", "precondition"] (evaluate m test) := by
  have hsub : ["schema"] ⊆ ["schema", "precondition"] := by simp
  unfold evaluate
  split
  · exact .error (.tail _ (.head _))
  · refine .bind ((failsAs_featureMatrix test m.features).mono hsub) fun features => ?_
    exact .bind ((test.failsAs_requireColumn m.target).mono hsub) fun target => .ok _

end Learn
end TableFlow
