import Mathlib.Data.List.Induction
import TableFlow.Proofs.Command.Effect
import TableFlow.Proofs.Json.RoundTrip

/-!
# Rows that repeat an earlier one

A row is known again by its text.  The text of a row is read back as the row, so that rows with one text are one row,
and what is kept is each row at the first place where it stands.  A row with a missing cell stays one wherever it
stands; so it makes no difference whether repeated rows go before or after the rows with missing cells.

Main results:

- Definition `Cell.Scalar`: a cell with no further cells in it.
- Theorem `Cleaning.eq_of_rowText_eq`: rows of such cells that have one text are one row.
- Definition `KeepsFirsts`: rows are kept where they stand for the first time.
- Theorem `Cleaning.keepsFirsts_firstRows`: these are kept if rows are told apart by their texts.
- Theorem `Cleaning.dropDuplicates_dropMissing`: the two ways to drop rows commute.
- Theorem `duplicates_keep_first_rows`: what a step that drops repeated rows leaves, alone and with others.
-/

namespace TableFlow

/-! ## Texts of rows -/

/-- A cell with no further cells in it. -/
inductive Cell.Scalar : Cell → Prop where
  | missing : Scalar .null
  | flag (b : Bool) : Scalar (.bool b)
  | number (n : Number) (valid : n.Valid) : Scalar (.number n)
  | text (s : String) : Scalar (.string s)

theorem Cell.Scalar.readable {cell : Cell} (h : cell.Scalar) (depth : Nat) : cell.Readable depth := by
  cases h with
  | missing => simp [Json.Readable]
  | flag b => simp [Json.Readable]
  | number n valid => simpa [Json.Readable] using valid
  | text s => simp [Json.Readable]

namespace Cleaning

variable {row row' : List Cell}

/-- Rows that have one text are one row, because the text is read back as the row. -/
theorem eq_of_rowText_eq (hrow : ∀ cell ∈ row, cell.Scalar) (hrow' : ∀ cell ∈ row', cell.Scalar)
    (h : rowText row = rowText row') : row = row' := by
  have hread : ∀ r : List Cell, (∀ cell ∈ r, cell.Scalar) →
      Json.parseChars? (Json.array r).compactChars = some (.array r) := by
    intro r hr
    apply Json.parseChars?_compactChars
    exact Json.readableItems_iff.2 fun cell hcell => (hr cell hcell).readable _
  have hchars : (Json.array row).compactChars = (Json.array row').compactChars := String.ofList_injective h
  have hsame := hread row hrow
  rw [hchars, hread row' hrow'] at hsame
  exact (Json.array.inj (Option.some.inj hsame)).symm

end Cleaning

/-! ## First occurrences -/

/-- A value stands at this place of a list and at no earlier one. -/
def FirstAt {α : Type} (items : List α) (i : Nat) : Prop :=
  i < items.length ∧ ∀ j < i, items[j]? ≠ items[i]?

/-- Rows are kept at exactly the places where they stand for the first time, in their order. -/
def KeepsFirsts (rows kept : List (List Cell)) : Prop :=
  ∃ places : List Nat, places.Pairwise (· < ·) ∧ (∀ i, i ∈ places ↔ FirstAt rows i) ∧
    kept.map some = places.map fun i => rows[i]?

/-- One more value at the end stands there for the first time if it is a new one. -/
theorem firstAt_concat {α : Type} {items : List α} {item : α} {i : Nat} :
    FirstAt (items ++ [item]) i ↔ FirstAt items i ∨ i = items.length ∧ item ∉ items := by
  unfold FirstAt
  rw [List.length_append, List.length_singleton]
  rcases Nat.lt_trichotomy i items.length with hlt | rfl | hgt
  · have hbefore : ∀ j ≤ i, (items ++ [item])[j]? = items[j]? := fun j hj =>
      List.getElem?_append_left (by omega)
    have hne : i ≠ items.length := hlt.ne
    simp only [hbefore i le_rfl, hne, false_and, or_false]
    constructor
    · rintro ⟨_, hnew⟩
      exact ⟨hlt, fun j hj => hbefore j hj.le ▸ hnew j hj⟩
    · rintro ⟨_, hnew⟩
      exact ⟨by omega, fun j hj => (hbefore j hj.le).symm ▸ hnew j hj⟩
  · have hlast : (items ++ [item])[items.length]? = some item := List.getElem?_concat_length
    simp only [hlast, lt_irrefl, false_and, true_and, false_or, Nat.lt_succ_self]
    constructor
    · intro hnew hmem
      obtain ⟨j, hj, hitem⟩ := List.mem_iff_getElem.1 hmem
      apply hnew j hj
      rw [List.getElem?_append_left hj, List.getElem?_eq_getElem hj, hitem]
    · intro hnew j hj hitem
      rw [List.getElem?_append_left hj] at hitem
      exact hnew (List.mem_of_getElem? hitem)
  · constructor
    · rintro ⟨hi, _⟩
      omega
    · rintro (⟨hi, _⟩ | ⟨hi, _⟩)
      · omega
      · omega

namespace Cleaning

variable {seen : List String} {rows : List (List Cell)}

/-- A row with a text that has been seen is left out. -/
theorem firstRows_cons_of_mem {row : List Cell} (h : rowText row ∈ seen) :
    firstRows seen (row :: rows) = firstRows seen rows :=
  if_pos (List.contains_iff_mem.2 h)

/-- A row with a new text is kept, and its text has been seen then. -/
theorem firstRows_cons_of_not_mem {row : List Cell} (h : rowText row ∉ seen) :
    firstRows seen (row :: rows) = row :: firstRows (rowText row :: seen) rows :=
  if_neg fun hcontains => h (List.contains_iff_mem.1 hcontains)

/-- One more row at the end is kept if its text is a new one. -/
theorem firstRows_concat (seen : List String) (rows : List (List Cell)) (row : List Cell) :
    firstRows seen (rows ++ [row]) =
      firstRows seen rows ++ if rowText row ∈ seen ++ rows.map rowText then [] else [row] := by
  induction rows generalizing seen with
  | nil => simp [firstRows]
  | cons first rows ih =>
      rw [List.cons_append]
      by_cases hknown : rowText first ∈ seen
      · have hsame : rowText row ∈ seen ++ (first :: rows).map rowText ↔ rowText row ∈ seen ++ rows.map rowText := by
          simp only [List.map_cons, List.mem_append, List.mem_cons]
          constructor
          · rintro (h | h | h)
            · exact Or.inl h
            · exact Or.inl (h ▸ hknown)
            · exact Or.inr h
          · rintro (h | h)
            · exact Or.inl h
            · exact Or.inr (Or.inr h)
        rw [firstRows_cons_of_mem hknown, firstRows_cons_of_mem hknown, ih]
        simp only [hsame]
      · have hsame : rowText row ∈ seen ++ (first :: rows).map rowText ↔
            rowText row ∈ rowText first :: seen ++ rows.map rowText := by
          simp only [List.map_cons, List.cons_append, List.mem_append, List.mem_cons]
          exact or_left_comm
        rw [firstRows_cons_of_not_mem hknown, firstRows_cons_of_not_mem hknown, ih]
        simp only [hsame, List.cons_append]

/-- Rows that their texts tell apart are kept where they stand for the first time. -/
theorem keepsFirsts_firstRows (h : ∀ row ∈ rows, ∀ row' ∈ rows, rowText row = rowText row' → row = row') :
    KeepsFirsts rows (firstRows [] rows) := by
  induction rows using List.reverseRecOn with
  | nil => exact ⟨[], List.Pairwise.nil, by simp [FirstAt], rfl⟩
  | append_singleton rows row ih =>
      -- The last row is a new place if it is a new row, and its text says whether it is.
      obtain ⟨places, hascending, hplaces, hkept⟩ := ih fun a ha b hb =>
        h a (List.mem_append_left _ ha) b (List.mem_append_left _ hb)
      have hbelow : ∀ i ∈ places, i < rows.length := fun i hi => ((hplaces i).1 hi).1
      have hmap : (places.map fun i => (rows ++ [row])[i]?) = places.map fun i => rows[i]? :=
        List.map_congr_left fun i hi => List.getElem?_append_left (hbelow i hi)
      have htext : rowText row ∈ rows.map rowText ↔ row ∈ rows := by
        constructor
        · intro hmem
          obtain ⟨other, hother, hsame⟩ := List.mem_map.1 hmem
          have heq := h other (List.mem_append_left _ hother) row (by simp) hsame
          exact heq ▸ hother
        · exact List.mem_map_of_mem
      rw [firstRows_concat, List.nil_append]
      by_cases hknown : row ∈ rows
      · rw [if_pos (htext.2 hknown), List.append_nil]
        refine ⟨places, hascending, ?_, hkept.trans hmap.symm⟩
        intro i
        simp [hplaces, firstAt_concat, hknown]
      · rw [if_neg (mt htext.1 hknown)]
        refine ⟨places ++ [rows.length], ?_, ?_, ?_⟩
        · rw [List.pairwise_append]
          refine ⟨hascending, List.pairwise_singleton _ _, ?_⟩
          intro i hi j hj
          rw [List.mem_singleton.1 hj]
          exact hbelow i hi
        · intro i
          simp [hplaces, firstAt_concat, hknown]
        · rw [List.map_append, List.map_append, hkept, hmap]
          simp

/-! ## Dropping rows twice -/

/-- Rows with different texts, none of which has been seen, are all kept. -/
theorem firstRows_of_nodup (hnodup : (rows.map rowText).Nodup) (hnew : ∀ row ∈ rows, rowText row ∉ seen) :
    firstRows seen rows = rows := by
  induction rows generalizing seen with
  | nil => rfl
  | cons row rows ih =>
      obtain ⟨hrow, hrows⟩ := List.nodup_cons.1 hnodup
      rw [firstRows_cons_of_not_mem (hnew row List.mem_cons_self), ih hrows]
      intro other hother hmem
      rcases List.mem_cons.1 hmem with heq | hmem
      · exact hrow (heq ▸ List.mem_map_of_mem hother)
      · exact hnew other (List.mem_cons_of_mem _ hother) hmem

/-- The rows that are kept have different texts, none of which was seen before. -/
theorem nodup_firstRows (seen : List String) (rows : List (List Cell)) :
    ((firstRows seen rows).map rowText).Nodup ∧ ∀ row ∈ firstRows seen rows, rowText row ∉ seen := by
  induction rows generalizing seen with
  | nil => simp [firstRows]
  | cons row rows ih =>
      by_cases hknown : rowText row ∈ seen
      · rw [firstRows_cons_of_mem hknown]
        exact ih seen
      · obtain ⟨hnodup, hnew⟩ := ih (rowText row :: seen)
        simp only [firstRows_cons_of_not_mem hknown, List.map_cons, List.nodup_cons, List.mem_cons, forall_eq_or_imp]
        refine ⟨⟨?_, hnodup⟩, hknown, ?_⟩
        · intro hmem
          obtain ⟨other, hother, hsame⟩ := List.mem_map.1 hmem
          exact hnew other hother (hsame ▸ List.mem_cons_self)
        · intro other hother hmem
          exact hnew other hother (List.mem_cons_of_mem _ hmem)

/-- Dropping repeated rows once more changes nothing. -/
theorem dropDuplicates_dropDuplicates (t : Table) : dropDuplicates (dropDuplicates t) = dropDuplicates t := by
  have hrows : firstRows [] (firstRows [] t.rows) = firstRows [] t.rows :=
    firstRows_of_nodup (nodup_firstRows [] t.rows).1 fun _ _ => List.not_mem_nil
  rw [dropDuplicates, dropDuplicates, hrows]

/-- A choice among rows may be made before or after repeated rows are dropped.  Before, fewer rows have been seen; but
those that are chosen have been seen alike. -/
theorem firstRows_filter (p : List Cell → Bool) {seen seen' : List String}
    (h : ∀ row ∈ rows, ∀ row' ∈ rows, rowText row = rowText row' → row = row')
    (hseen : ∀ row ∈ rows, p row = true → (rowText row ∈ seen ↔ rowText row ∈ seen')) :
    firstRows seen (rows.filter p) = (firstRows seen' rows).filter p := by
  induction rows generalizing seen seen' with
  | nil => rfl
  | cons row rows ih =>
      have hrows : ∀ a ∈ rows, ∀ b ∈ rows, rowText a = rowText b → a = b := fun a ha b hb =>
        h a (List.mem_cons_of_mem _ ha) b (List.mem_cons_of_mem _ hb)
      have hseenRows : ∀ a ∈ rows, p a = true → (rowText a ∈ seen ↔ rowText a ∈ seen') := fun a ha =>
        hseen a (List.mem_cons_of_mem _ ha)
      by_cases hp : p row = true
      · have hrow := hseen row List.mem_cons_self hp
        rw [List.filter_cons_of_pos hp]
        by_cases hknown : rowText row ∈ seen
        · rw [firstRows_cons_of_mem hknown, firstRows_cons_of_mem (hrow.1 hknown)]
          exact ih hrows hseenRows
        · rw [firstRows_cons_of_not_mem hknown, firstRows_cons_of_not_mem (mt hrow.2 hknown),
            List.filter_cons_of_pos hp, ih hrows]
          intro a ha hpa
          rw [List.mem_cons, List.mem_cons, hseenRows a ha hpa]
      · rw [List.filter_cons_of_neg hp]
        by_cases hknown : rowText row ∈ seen'
        · rw [firstRows_cons_of_mem hknown]
          exact ih hrows hseenRows
        · rw [firstRows_cons_of_not_mem hknown, List.filter_cons_of_neg hp]
          apply ih hrows
          intro a ha hpa
          rw [List.mem_cons, hseenRows a ha hpa]
          -- A chosen row cannot have the text of the one that is not chosen.
          have hne : rowText a ≠ rowText row := by
            intro hsame
            have heq := h a (List.mem_cons_of_mem _ ha) row List.mem_cons_self hsame
            exact hp (heq ▸ hpa)
          simp [hne]

/-- Repeated rows may be dropped before or after the rows with missing cells. -/
theorem dropDuplicates_dropMissing {t : Table} (h : ∀ row ∈ t.rows, ∀ cell ∈ row, cell.Scalar) :
    dropDuplicates (dropMissing t) = dropMissing (dropDuplicates t) := by
  have hrows : firstRows [] (t.rows.filter fun row => row.all fun cell => !cell.isNull) =
      (firstRows [] t.rows).filter fun row => row.all fun cell => !cell.isNull :=
    firstRows_filter _ (fun row hrow row' hrow' => eq_of_rowText_eq (h row hrow) (h row' hrow')) fun _ _ _ => Iff.rfl
  rw [dropDuplicates, dropMissing, dropMissing, dropDuplicates, hrows]

end Cleaning

/-! ## Steps that drop rows -/

/-- A workspace after a table has been cleaned. -/
def Workspace.cleaned (w : Workspace) (way : Cleaning) (t : Table) : Workspace :=
  { w with context := { w.context with
      dataset := some t
      transforms := w.context.transforms ++ ["clean " ++ way.name] } }

/-- A step that cleans the table of a workspace succeeds, leaves this table in its place, and changes nothing else but
the list of transforms. -/
def Cleaning.LeavesTable (way : Cleaning) (services : Services) (w : Workspace) (t : Table) : Prop :=
  ∃ message, ((Instruction.clean way).handler.execute services).runWith w = (.ok message, w.cleaned way t)

/-- A step that cleans succeeds on a table that is not split. -/
theorem Cleaning.leavesTable_apply (way : Cleaning) (services : Services) {w : Workspace} {t : Table}
    (hdata : w.context.dataset = some t) (hsplit : w.context.split = none) :
    way.LeavesTable services w (way.apply t).1 := by
  have hrequired : w.context.requireUnsplit "clean" = .ok t := Instruction.requireUnsplit_eq_ok.2 ⟨hdata, hsplit⟩
  exact ⟨(way.apply t).2, StepM.ofExcept_bind_eq_ok.2 ⟨t, hrequired, rfl⟩⟩

/-- A step that drops repeated rows succeeds on every table of scalars that is not split, and keeps the rows where they
stand for the first time.  Once more it changes nothing, and with a step that drops the rows with missing cells it
leaves the same table in either order. -/
theorem duplicates_keep_first_rows (services : Services) (w : Workspace) (t : Table)
    (hdata : w.context.dataset = some t) (hsplit : w.context.split = none)
    (hcells : ∀ row ∈ t.rows, ∀ cell ∈ row, cell.Scalar) :
    ∃ kept full both : Table,
      Cleaning.duplicates.LeavesTable services w kept ∧ kept.columns = t.columns ∧ KeepsFirsts t.rows kept.rows ∧
      Cleaning.duplicates.LeavesTable services (w.cleaned .duplicates kept) kept ∧
      Cleaning.missing.LeavesTable services w full ∧
      Cleaning.duplicates.LeavesTable services (w.cleaned .missing full) both ∧
      Cleaning.missing.LeavesTable services (w.cleaned .duplicates kept) both := by
  have hfirsts := Cleaning.keepsFirsts_firstRows fun row hrow row' hrow' =>
    Cleaning.eq_of_rowText_eq (hcells row hrow) (hcells row' hrow')
  have hclean : ∀ (way : Cleaning) (v : Workspace) (u : Table), v.context.dataset = some u →
      v.context.split = none → way.LeavesTable services v (way.apply u).1 := fun way _ _ =>
    way.leavesTable_apply services
  refine ⟨Cleaning.dropDuplicates t, Cleaning.dropMissing t, Cleaning.dropMissing (Cleaning.dropDuplicates t),
    hclean .duplicates w t hdata hsplit, rfl, hfirsts, ?_, hclean .missing w t hdata hsplit, ?_,
    hclean .missing (w.cleaned .duplicates _) _ rfl hsplit⟩
  · have hagain := hclean .duplicates (w.cleaned .duplicates (Cleaning.dropDuplicates t)) _ rfl hsplit
    rw [Cleaning.apply, Cleaning.dropDuplicates_dropDuplicates] at hagain
    exact hagain
  · have hboth := hclean .duplicates (w.cleaned .missing (Cleaning.dropMissing t)) _ rfl hsplit
    rw [Cleaning.apply, Cleaning.dropDuplicates_dropMissing hcells] at hboth
    exact hboth

/-- A table in which numbers are told apart by how they are written, texts by their characters, and of which one row
is repeated. -/
def repeatingTable : Table :=
  ⟨["x", "c"], [[.nat 1, .string "a,b"], [.number (.float 1.0), .string "a,b"], [.nat 1, .string "a\",\"b"],
    [.number (.float 0.0), .null], [.nat 1, .string "a,b"], [.number (.float (-0.0)), .null]]⟩

/-- Of that table all rows but the repeated one are kept. -/
theorem duplicates_keep_first_rows_of_repeatingTable :
    ∃ kept : Table,
      Cleaning.duplicates.LeavesTable (.native {} "") ⟨{ dataset := some repeatingTable }, Files.empty⟩ kept ∧
      KeepsFirsts repeatingTable.rows kept.rows ∧
      ¬FirstAt repeatingTable.rows 4 ∧ ∀ i, i ≠ 4 → i < 6 → FirstAt repeatingTable.rows i := by
  have hcells : ∀ row ∈ repeatingTable.rows, ∀ cell ∈ row, cell.Scalar := by
    simp only [repeatingTable, List.mem_cons, List.not_mem_nil, or_false, forall_eq_or_imp, forall_eq]
    exact ⟨⟨.number _ rfl, .text _⟩, ⟨.number _ rfl, .text _⟩, ⟨.number _ rfl, .text _⟩, ⟨.number _ rfl, .missing⟩,
      ⟨.number _ rfl, .text _⟩, .number _ rfl, .missing⟩
  obtain ⟨kept, _, _, hrun, _, hfirsts, _⟩ :=
    duplicates_keep_first_rows (.native {} "") ⟨{ dataset := some repeatingTable }, Files.empty⟩ repeatingTable rfl rfl
      hcells
  refine ⟨kept, hrun, hfirsts, ?_, ?_⟩
  · rintro ⟨_, hnew⟩
    exact hnew 0 (by decide) rfl
  · have htexts : ∀ i < 6, i ≠ 4 → ∀ j < i, (repeatingTable.rows.map Cleaning.rowText)[j]? ≠
        (repeatingTable.rows.map Cleaning.rowText)[i]? := by decide +kernel
    intro i hi hlt
    refine ⟨hlt, fun j hj hsame => htexts i hlt hi j hj ?_⟩
    rw [List.getElem?_map, List.getElem?_map, hsame]

end TableFlow
