import TableFlow.Proofs.Command.Effect
import TableFlow.Proofs.Random.Bounds
import TableFlow.Proofs.Table.Columns

/-!
# How rows are dealt

A step that splits a table puts its rows in a random order, which depends on their number and on the seed alone, and
cuts that order in two.  So each row goes to one of the two parts, once; and another share of the same rows moves the
cut and nothing else.

Main results:

- Definition `Partition.Deals`: the rows of both parts are those of a table in an order of their places.
- Theorem `Splitting.deals_partition`: both parts of a table are dealt in the random order of its places.
- Theorem `Partition.Deals.prefix_or_prefix`: of two parts that are dealt in one order, one begins the other.
- Theorem `split_deals_rows`: a step that splits a table with rows succeeds, deals the rows once each, and deals those
  of every other table with as many rows in the same order.
-/

namespace TableFlow

/-! ## Parts of a table -/

/-- The parts have the columns of the table, and its rows in this order of their places, those for training first. -/
structure Partition.Deals (p : Partition) (t : Table) (order : List Nat) : Prop where
  train_columns : p.train.columns = t.columns
  test_columns : p.test.columns = t.columns
  rows : (p.train.rows ++ p.test.rows).map some = order.map fun i => t.rows[i]?

/-- Of two parts of a table for training that are dealt in one order, one begins the other. -/
theorem Partition.Deals.prefix_or_prefix {p q : Partition} {t : Table} {order : List Nat} (hp : p.Deals t order)
    (hq : q.Deals t order) : p.train.rows <+: q.train.rows ∨ q.train.rows <+: p.train.rows := by
  have hsame : p.train.rows ++ p.test.rows = q.train.rows ++ q.test.rows := by
    apply List.map_injective_iff.2 fun a b => Option.some.inj
    rw [hp.rows, hq.rows]
  have hfirst : p.train.rows <+: p.train.rows ++ p.test.rows := List.prefix_append _ _
  have hsecond : q.train.rows <+: p.train.rows ++ p.test.rows := by
    rw [hsame]
    exact List.prefix_append _ _
  exact List.prefix_or_prefix_of_prefix hfirst hsecond

namespace Table

variable {t : Table}

theorem rows_takeRows (t : Table) (places : List Nat) :
    (t.takeRows places).rows = places.filterMap fun i => t.rows[i]? := by
  simp [takeRows]

/-- Taking some rows and then others is taking all of them. -/
theorem rows_takeRows_append (t : Table) (places others : List Nat) :
    (t.takeRows places).rows ++ (t.takeRows others).rows = (t.takeRows (places ++ others)).rows := by
  simp [rows_takeRows]

/-- At each place of a table a row is taken. -/
theorem map_some_takeRows {places : List Nat} (h : ∀ i ∈ places, i < t.rowCount) :
    (t.takeRows places).rows.map some = places.map fun i => t.rows[i]? := by
  rw [rows_takeRows]
  induction places with
  | nil => rfl
  | cons i places ih =>
      have hi : i < t.rows.length := h i (by simp)
      have hrest := ih fun j hj => h j (by simp [hj])
      simp only [List.filterMap_cons, List.getElem?_eq_getElem hi, List.map_cons, hrest]

end Table

namespace Splitting

/-- Both parts of a table are dealt in the random order of its places, wherever the order is cut. -/
theorem deals_partition (t : Table) (fraction : Float) (seed : Nat) :
    (partition t fraction seed).Deals t (Random.permutation t.rowCount seed) where
  train_columns := rfl
  test_columns := rfl
  rows := by
    have hplaces : ∀ i ∈ Random.permutation t.rowCount seed, i < t.rowCount := fun i => Random.lt_of_mem_permutation
    rw [← Table.map_some_takeRows hplaces, partition, Table.rows_takeRows_append, List.take_append_drop]

/-- A table can be split if it has rows and the target. -/
theorem check_eq_ok {s : Splitting} {t : Table} (hrows : t.rows ≠ [])
    (htarget : ∀ name, s.target = some name → name ∈ t.columns) : s.check t = .ok () := by
  rw [check, if_neg (by simpa using hrows)]
  cases hname : s.target with
  | none => rfl
  | some name =>
      obtain ⟨i, hi⟩ := Table.exists_columnIndex? (htarget name hname)
      simp [Table.requireColumn_eq_ok_iff.2 hi, Except.map]

/-- A table that can be split is split. -/
theorem exists_runWith_run {how : Splitting} {w : Workspace} {t : Table} (hdata : w.context.dataset = some t)
    (hcheck : how.check t = .ok ()) :
    ∃ message w', (how.run w.context).runWith w = (.ok message, w') ∧
      w'.context.split = some (partition t how.trainFraction (how.seed.getD w.context.seed)) := by
  have hrequired := Instruction.requireDataset_eq_ok.2 hdata
  unfold Splitting.run
  simp only [StepM.runWith_bind, hrequired, hcheck, StepM.runWith_ofExcept_ok, StepM.runWith_change,
    StepM.runWith_pure]
  exact ⟨_, _, rfl, rfl⟩

end Splitting

/-! ## Steps that split a table -/

/-- What a step that splits a table leaves is dealt in the random order for the number of rows and the seed. -/
theorem deals_of_execute {services : Services} {how : Splitting} {w w' : Workspace} {message : String} {t : Table}
    {parts : Partition} (hdata : w.context.dataset = some t)
    (h : ((Instruction.split how).handler.execute services).runWith w = (.ok message, w'))
    (hparts : w'.context.split = some parts) :
    parts.Deals t (Random.permutation t.rowCount (how.seed.getD w.context.seed)) := by
  have heffect := Instruction.effect_of_execute h
  generalize w'.context = c' at heffect hparts
  cases heffect with
  | split hfound _ =>
      obtain rfl := Option.some.inj (hdata.symm.trans hfound)
      obtain rfl := Option.some.inj hparts
      exact Splitting.deals_partition _ _ _

/-- A step that splits a table with rows succeeds, with every share, every seed and every target that the table has.
Both parts have the columns of the table, and their rows are its rows in an order that has each place once.  In the same
order the rows of every table with as many rows are dealt under the same seed; and if it is the same table, then of the
two parts for training one begins the other. -/
theorem split_deals_rows (services : Services) (how : Splitting) (w : Workspace) (t : Table)
    (hdata : w.context.dataset = some t) (hrows : t.rows ≠ [])
    (htarget : ∀ name, how.target = some name → name ∈ t.columns) :
    ∃ message w' parts order,
      ((Instruction.split how).handler.execute services).runWith w = (.ok message, w') ∧
      w'.context.split = some parts ∧ order.Perm (List.range t.rowCount) ∧ parts.Deals t order ∧
      ∀ (other : Splitting) (v v' : Workspace) (u : Table) (told : String) (others : Partition),
        v.context.dataset = some u → u.rowCount = t.rowCount →
        other.seed.getD v.context.seed = how.seed.getD w.context.seed →
        ((Instruction.split other).handler.execute services).runWith v = (.ok told, v') →
        v'.context.split = some others → others.Deals u order ∧
          (u = t → parts.train.rows <+: others.train.rows ∨ others.train.rows <+: parts.train.rows) := by
  obtain ⟨message, w', hrun, hparts⟩ := Splitting.exists_runWith_run hdata (Splitting.check_eq_ok hrows htarget)
  have hexecute : ((Instruction.split how).handler.execute services).runWith w = (.ok message, w') := by
    rw [Instruction.runWith_execute]
    exact hrun
  have hdeals := deals_of_execute hdata hexecute hparts
  refine ⟨message, w', _, _, hexecute, hparts, Random.permutation_perm _ _, hdeals, ?_⟩
  intro other v v' u told others hfound hcount hseed hrun' hparts'
  have hother := deals_of_execute hfound hrun' hparts'
  rw [hcount, hseed] at hother
  refine ⟨hother, ?_⟩
  rintro rfl
  exact hdeals.prefix_or_prefix hother

/-- A table of five rows. -/
def fiveRows : Table :=
  ⟨["x", "y"], [[.nat 1, .string "a"], [.nat 2, .null], [.nat 1, .string "a"], [.nat 4, .string "b"], [.null, .null]]⟩

/-- Splitting that table deals its five rows, of which two are alike. -/
theorem split_deals_fiveRows :
    ∃ message w' parts,
      ((Instruction.split ⟨0.6, some "y", none⟩).handler.execute (.native {} "")).runWith
          ⟨{ dataset := some fiveRows, seed := 42 }, Files.empty⟩ = (.ok message, w') ∧
        w'.context.split = some parts ∧ parts.test.columns = ["x", "y"] ∧
        (parts.train.rows ++ parts.test.rows).length = 5 := by
  obtain ⟨message, w', parts, order, hrun, hparts, hperm, hdeals, _⟩ :=
    split_deals_rows (.native {} "") ⟨0.6, some "y", none⟩ ⟨{ dataset := some fiveRows, seed := 42 }, Files.empty⟩
      fiveRows rfl (by decide) (by
        rintro _ ⟨⟩
        decide)
  refine ⟨message, w', parts, hrun, hparts, hdeals.test_columns, ?_⟩
  have hlength := congrArg List.length hdeals.rows
  rw [List.length_map, List.length_map, hperm.length_eq] at hlength
  exact hlength

end TableFlow
