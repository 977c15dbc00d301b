import Mathlib.Data.List.Forall2
import Mathlib.Data.List.Induction
import TableFlow.Proofs.Command.Effect
import TableFlow.Proofs.Command.Encode
import TableFlow.Proofs.Table.Cells

/-!
# How columns are labelled

Labelling a column puts codes in the place of its cells and records its categories, so that each code still tells the
key of the cell that it stands for.  A column that is recorded is left alone, and after a step every column of the step
is recorded: the same step changes nothing when it is taken again.

Main results:

- Definition `LabelledWith`: the cells of a column have become codes of its categories.
- Definition `Encoding.Labels`: what labelling some columns makes of a table and of what is recorded.
- Theorem `Encoding.labels_of_foldlM`: labelling columns one after another does that.
- Theorem `Encoding.exists_relabelled`: labelling columns that are recorded changes nothing.
- Theorem `labelling_is_lossless`: a step that labels columns does that, and may be taken again without effect.
-/

namespace TableFlow

/-! ## Codes of one column -/

/-- A code that tells the key of a cell: the place of the key among the categories; a missing cell stays missing. -/
inductive CodeFor (cats : List String) : Cell → Cell → Prop where
  | missing : CodeFor cats .null .null
  | value {cell : Cell} {key : String} {i : Nat} (hkey : Cell.key? cell = some key) (hplace : cats[i]? = some key) :
      CodeFor cats cell (.nat i)

/-- The cells of a column have become codes, and the categories are the keys of the cells in ascending order. -/
structure LabelledWith (cats : List String) (cells codes : List Cell) : Prop where
  ascending : cats.Pairwise (· < ·)
  mem_iff : ∀ key, key ∈ cats ↔ ∃ cell ∈ cells, Cell.key? cell = some key
  codes : List.Forall₂ (CodeFor cats) cells codes

theorem Cell.key?_eq_none {cell : Cell} (h : Cell.key? cell = none) : cell = .null := by
  cases cell with
  | null => rfl
  | _ => cases h

namespace Encoding

variable {t t' : Table} {known : KeyMap (List String)} {p : Progress} {name : String}

theorem pairwise_categories (cells : List Cell) : (categories cells).Pairwise (· < ·) :=
  (ascending_sortKeys _).map_fst

/-- The categories are the keys of the cells. -/
theorem mem_categories_iff {cells : List Cell} {key : String} :
    key ∈ categories cells ↔ ∃ cell ∈ cells, Cell.key? cell = some key := by
  rw [categories, mem_map_fst_sortKeys, List.map_map]
  simp [Function.comp_def]

theorem codeFor_codeCell {cats : List String} {cell : Cell} (h : ∀ key, Cell.key? cell = some key → key ∈ cats) :
    CodeFor cats cell (codeCell cats cell) := by
  unfold codeCell
  cases hkey : Cell.key? cell with
  | none =>
      rw [Cell.key?_eq_none hkey]
      exact .missing
  | some key =>
      have hplace : cats[cats.idxOf key]? = some key := List.getElem?_idxOf (h key hkey)
      exact .value hkey hplace

/-- Replacing the cells of a column by their codes labels them. -/
theorem labelledWith_codeCell (cells : List Cell) :
    LabelledWith (categories cells) cells (cells.map (codeCell (categories cells))) where
  ascending := pairwise_categories cells
  mem_iff := fun _ => mem_categories_iff
  codes := by
    rw [List.forall₂_map_right_iff, List.forall₂_same]
    intro cell hcell
    exact codeFor_codeCell fun key hkey => mem_categories hcell hkey

/-! ## Labelling columns one after another -/

/-- What labelling some columns makes of a table and of what is recorded.  Those that were not recorded are labelled
with the categories that are recorded then; the records and the cells of all other columns stay. -/
structure Labels (targets : List String) (t t' : Table) (known known' : KeyMap (List String)) : Prop where
  columns : t'.columns = t.columns
  widths : t'.rows.map List.length = t.rows.map List.length
  labelled : ∀ name ∈ targets, known.get? name = none →
    ∃ cats, known'.get? name = some cats ∧ LabelledWith cats (t.cellsOf name) (t'.cellsOf name)
  recorded : ∀ name, (name ∈ targets → (known.get? name).isSome = true) → known'.get? name = known.get? name
  cells : ∀ name, (name ∈ targets → (known.get? name).isSome = true) → t'.cellsOf name = t.cellsOf name

theorem Labels.nil (t : Table) (known : KeyMap (List String)) : Labels [] t t known known where
  columns := rfl
  widths := rfl
  labelled := fun _ hname => absurd hname List.not_mem_nil
  recorded := fun _ _ => rfl
  cells := fun _ _ => rfl

section

variable {targets : List String} {known' : KeyMap (List String)} {i : Nat}

/-- Every column that is labelled is recorded then. -/
theorem Labels.isSome (h : Labels targets t t' known known') (hname : name ∈ targets) :
    (known'.get? name).isSome = true := by
  cases hknown : known.get? name with
  | none =>
      obtain ⟨cats, hcats, _⟩ := h.labelled name hname hknown
      rw [hcats]
      rfl
  | some cats =>
      have hsome : (known.get? name).isSome = true := by
        rw [hknown]
        rfl
      rw [h.recorded name fun _ => hsome]
      exact hsome

/-- A column that is recorded may be labelled without effect. -/
theorem Labels.concat_recorded (h : Labels targets t t' known known') (hknown : (known.get? name).isSome = true) :
    Labels (targets ++ [name]) t t' known known' := by
  refine ⟨h.columns, h.widths, ?_, ?_, ?_⟩
  · intro other hother hnone
    have hne : other ≠ name := by
      rintro rfl
      rw [hnone] at hknown
      cases hknown
    have hin : other ∈ targets := by simpa [hne] using hother
    exact h.labelled other hin hnone
  · intro other hother
    exact h.recorded other fun hin => hother (List.mem_append_left _ hin)
  · intro other hother
    exact h.cells other fun hin => hother (List.mem_append_left _ hin)

/-- Labelling one more column that is not recorded. -/
theorem Labels.concat_new (h : Labels targets t t' known known') (hname : name ∉ targets)
    (hnew : known.get? name = none) (hindex : t'.columnIndex? name = some i) :
    Labels (targets ++ [name]) t (labelColumn t' i (categories (t'.column i))) known
      (known'.insert name (categories (t'.column i))) := by
  have hbefore : t'.column i = t.cellsOf name := by
    rw [← Table.cellsOf_eq hindex]
    exact h.cells name fun hin => absurd hin hname
  have hkept : ∀ other, (other ∈ targets ++ [name] → (known.get? other).isSome = true) → other ≠ name := by
    rintro other hother rfl
    simp [hnew] at hother
  refine ⟨h.columns, ?_, ?_, ?_, ?_⟩
  · rw [labelColumn, Table.widths_mapColumn, h.widths]
  · intro other hother hnone
    rw [KeyMap.get?_insert]
    by_cases hne : other = name
    · subst hne
      refine ⟨_, if_pos rfl, ?_⟩
      rw [labelColumn, Table.cellsOf_mapColumn hindex rfl, Table.cellsOf_eq hindex, hbefore]
      exact labelledWith_codeCell _
    · have hin : other ∈ targets := by simpa [hne] using hother
      rw [if_neg hne, cellsOf_labelColumn_of_ne hindex hne]
      exact h.labelled other hin hnone
  · intro other hother
    rw [KeyMap.get?_insert, if_neg (hkept other hother)]
    exact h.recorded other fun hin => hother (List.mem_append_left _ hin)
  · intro other hother
    rw [cellsOf_labelColumn_of_ne hindex (hkept other hother)]
    exact h.cells other fun hin => hother (List.mem_append_left _ hin)

end

/-- Labelling distinct columns one after another labels each with the categories that it has in the table. -/
theorem labels_of_foldlM {targets : List String} (hnodup : targets.Nodup)
    (h : targets.foldlM (Encoding.label.column known) { table := t } = .ok p) :
    Labels targets t p.table known (known.insertAll p.recorded) := by
  -- The last column is labelled in a table in which all others are labelled already.
  induction targets using List.reverseRecOn generalizing p with
  | nil =>
      cases h
      exact Labels.nil t known
  | append_singleton targets name ih =>
      rw [List.foldlM_append] at h
      obtain ⟨q, hq, hlast⟩ := bind_eq_ok.1 h
      obtain ⟨q', hstep, hnil⟩ := foldlM_cons_eq_ok.1 hlast
      cases hnil
      obtain ⟨htargets, _, hdisjoint⟩ := List.nodup_append.1 hnodup
      have hname : name ∉ targets := fun hin => hdisjoint name hin name (List.mem_singleton_self name) rfl
      have hlabels := ih htargets hq
      obtain ⟨i, hindex, _, ⟨hknown, htable, hrecorded⟩ | ⟨hnew, htable, hrecorded⟩⟩ := label_eq_ok hstep
      · rw [htable, hrecorded]
        exact hlabels.concat_recorded hknown
      · rw [htable, hrecorded, KeyMap.insertAll_concat]
        exact hlabels.concat_new hname hnew hindex

/-- Labelling columns that are recorded changes nothing. -/
theorem exists_relabelled {targets : List String} (hcolumns : ∀ name ∈ targets, name ∈ p.table.columns)
    (hknown : ∀ name ∈ targets, (known.get? name).isSome = true) :
    ∃ q, targets.foldlM (Encoding.label.column known) p = .ok q ∧ q.table = p.table ∧ q.recorded = p.recorded ∧
      q.retired = p.retired := by
  induction targets generalizing p with
  | nil => exact ⟨p, rfl, rfl, rfl, rfl⟩
  | cons name targets ih =>
      obtain ⟨i, hindex⟩ := Table.exists_columnIndex? (hcolumns name List.mem_cons_self)
      obtain ⟨names, hnames⟩ := Option.isSome_iff_exists.1 (hknown name List.mem_cons_self)
      have hstep : ∃ q, Encoding.label.column known p name = .ok q ∧ q.table = p.table ∧ q.recorded = p.recorded ∧
          q.retired = p.retired := by
        unfold Encoding.column
        rw [Table.requireColumn_eq_ok_iff.2 hindex, hnames]
        exact ⟨_, rfl, rfl, rfl, rfl⟩
      obtain ⟨q, hq, htable, hrecorded, hretired⟩ := hstep
      obtain ⟨q', hq', htable', hrecorded', hretired'⟩ := ih (p := q)
        (fun other hother => htable ▸ hcolumns other (List.mem_cons_of_mem _ hother))
        (fun other hother => hknown other (List.mem_cons_of_mem _ hother))
      exact ⟨q', foldlM_cons_eq_ok.2 ⟨q, hq, hq'⟩, htable'.trans htable, hrecorded'.trans hrecorded,
        hretired'.trans hretired⟩

end Encoding

/-! ## Which columns are labelled -/

/-- Adding names once keeps names distinct. -/
theorem nodup_foldl_addOnce {names seen : List String} (hseen : seen.Nodup) : (names.foldl addOnce seen).Nodup := by
  induction names generalizing seen with
  | nil => exact hseen
  | cons name names ih =>
      apply ih
      unfold addOnce
      split
      · exact hseen
      · next hnew =>
          rw [List.nodup_append]
          refine ⟨hseen, List.nodup_singleton name, ?_⟩
          rintro other hother _ hname rfl
          rw [List.mem_singleton.1 hname] at hother
          exact hnew (List.contains_iff_mem.2 hother)

/-- A list of columns that is written down has each name once. -/
theorem nodup_columnList (words : List String) : (columnList words).Nodup :=
  nodup_foldl_addOnce List.nodup_nil

namespace Encoding

variable {t t' : Table} {columns targets : List String} {known known' : KeyMap (List String)}

/-- The columns to encode are those that are named, which are there, or all that hold categories. -/
theorem targets_eq_ok (h : Encoding.targets t columns = .ok targets) :
    (columns = [] ∧ targets = t.categoricalColumns) ∨
      (columns ≠ [] ∧ targets = columns ∧ ∀ name ∈ columns, name ∈ t.columns) := by
  unfold Encoding.targets at h
  split at h
  · next hempty =>
      cases h
      exact Or.inl ⟨List.isEmpty_iff.1 hempty, rfl⟩
  · next hnonempty =>
      obtain ⟨places, hplaces, hpure⟩ := bind_eq_ok.1 h
      cases hpure
      exact Or.inr ⟨fun hnil => hnonempty (List.isEmpty_iff.2 hnil), rfl,
        Table.exists_places_iff.1 ⟨places, hplaces⟩⟩

/-- Of distinct columns each is encoded once. -/
theorem nodup_targets (hwell : t.WellFormed) (hcolumns : columns.Nodup)
    (h : Encoding.targets t columns = .ok targets) : targets.Nodup := by
  rcases targets_eq_ok h with ⟨_, rfl⟩ | ⟨_, rfl, _⟩
  · exact Table.nodup_columnsOfKind hwell.nodup
  · exact hcolumns

/-- Once columns are labelled, no others are selected the same way: a column that was not labelled is as it was. -/
theorem Labels.exists_targets (h : Labels targets t t' known known') (hwell : t.WellFormed)
    (htargets : Encoding.targets t columns = .ok targets) :
    ∃ again, Encoding.targets t' columns = .ok again ∧ ∀ name ∈ again, name ∈ targets ∧ name ∈ t'.columns := by
  rcases targets_eq_ok htargets with ⟨rfl, rfl⟩ | ⟨hcolumns, rfl, hpresent⟩
  · refine ⟨t'.categoricalColumns, rfl, ?_⟩
    intro name hname
    obtain ⟨hmem, hkind⟩ := (Table.mem_columnsOfKind_iff (h.columns ▸ hwell.nodup)).1 hname
    refine ⟨?_, hmem⟩
    by_contra hother
    rw [h.cells name fun hin => absurd hin hother] at hkind
    exact hother ((Table.mem_columnsOfKind_iff hwell.nodup).2 ⟨h.columns ▸ hmem, hkind⟩)
  · refine ⟨targets, ?_, ?_⟩
    · have hnonempty : ¬targets.isEmpty = true := by simpa using hcolumns
      rw [← htargets, Encoding.targets, Encoding.targets, if_neg hnonempty, if_neg hnonempty,
        Table.requireColumn_congr h.columns]
    · intro name hname
      rw [h.columns]
      exact ⟨hname, hpresent name hname⟩

end Encoding

/-! ## Steps that encode columns -/

namespace Encoding

variable {services : Services} {way : Encoding} {w w' : Workspace} {message : String}
variable {t : Table} {columns targets : List String} {done : Progress}

/-- What a step that encodes columns has done. -/
theorem encoded_of_execute (hdata : w.context.dataset = some t)
    (h : ((Instruction.encode way columns).handler.execute services).runWith w = (.ok message, w')) :
    ∃ targets done, Encoding.targets t columns = .ok targets ∧
      targets.foldlM (way.column w.context.encodings) { table := t } = .ok done ∧
      w'.context.dataset = some done.table ∧ w'.context.split = none ∧
      w'.context.encodings =
        (w.context.encodings.filter fun name => !done.retired.contains name).insertAll done.recorded := by
  have heffect := Instruction.effect_of_execute h
  generalize w'.context = c' at heffect
  cases heffect with
  | encode hfound hsplit htargets hdone =>
      obtain rfl := Option.some.inj (hdata.symm.trans hfound)
      exact ⟨_, _, htargets, hdone, rfl, hsplit, rfl⟩

/-- A step that encodes columns succeeds if each of them can be encoded in its turn. -/
theorem exists_execute (services : Services) (hdata : w.context.dataset = some t) (hsplit : w.context.split = none)
    (htargets : Encoding.targets t columns = .ok targets)
    (hdone : targets.foldlM (way.column w.context.encodings) { table := t } = .ok done) :
    ∃ message w', ((Instruction.encode way columns).handler.execute services).runWith w = (.ok message, w') ∧
      w'.context.dataset = some done.table ∧ w'.context.encodings =
        (w.context.encodings.filter fun name => !done.retired.contains name).insertAll done.recorded := by
  have hrequired : w.context.requireUnsplit "encode" = .ok t := Instruction.requireUnsplit_eq_ok.2 ⟨hdata, hsplit⟩
  rw [Instruction.runWith_execute]
  show ∃ message w', (way.run columns w.context).runWith w = (.ok message, w') ∧ _
  unfold Encoding.run
  simp only [StepM.runWith_bind, hrequired, htargets, hdone, StepM.runWith_ofExcept_ok, StepM.runWith_change,
    StepM.runWith_pure]
  exact ⟨_, _, rfl, rfl, rfl⟩

/-- Labelling retires no record, so that what is recorded is what was and the new records. -/
theorem filter_retired {known : KeyMap (List String)} (h : done.retired = []) :
    (known.filter fun name => !done.retired.contains name) = known := by
  rw [h]
  exact KeyMap.filter_eq_self fun _ => rfl

end Encoding

/-- A step names distinct columns, or none and then labels all that hold categories.  If it succeeds, it labels those
without a record with their keys, one code for each cell, and leaves the other columns and records alone; and the same
step succeeds again and changes neither the table nor the records. -/
theorem labelling_is_lossless (services : Services) :
    (∀ words, (columnList words).Nodup) ∧
      ∀ (columns : List String) (w w' : Workspace) (message : String) (t : Table),
        columns.Nodup → w.context.dataset = some t → t.WellFormed →
        ((Instruction.encode .label columns).handler.execute services).runWith w = (.ok message, w') →
        ∃ targets t', Encoding.targets t columns = .ok targets ∧ w'.context.dataset = some t' ∧
          Encoding.Labels targets t t' w.context.encodings w'.context.encodings ∧
          ∃ again w'',
            ((Instruction.encode .label columns).handler.execute services).runWith w' = (.ok again, w'') ∧
            w''.context.dataset = some t' ∧ w''.context.encodings = w'.context.encodings := by
  refine ⟨nodup_columnList, ?_⟩
  intro columns w w' message t hcolumns hdata hwell hrun
  obtain ⟨targets, done, htargets, hdone, hdata', hsplit', hencodings⟩ := Encoding.encoded_of_execute hdata hrun
  have hlabels := Encoding.labels_of_foldlM (Encoding.nodup_targets hwell hcolumns htargets) hdone
  rw [Encoding.filter_retired (Encoding.labelled_of_foldlM hdone).retired] at hencodings
  rw [← hencodings] at hlabels
  obtain ⟨selected, hselected, hin⟩ := hlabels.exists_targets hwell htargets
  -- Whatever is selected the second time was labelled the first time, or is recorded since longer.
  obtain ⟨done', hdone', htable, hrecorded, hretired⟩ :=
    Encoding.exists_relabelled (p := { table := done.table }) (fun name hname => (hin name hname).2)
      (fun name hname => hlabels.isSome (hin name hname).1)
  obtain ⟨again, w'', hrun', hdata'', hencodings'⟩ :=
    Encoding.exists_execute services hdata' hsplit' hselected hdone'
  refine ⟨targets, done.table, htargets, hdata', hlabels, again, w'', hrun', ?_, ?_⟩
  · rw [hdata'', htable]
  · rw [hencodings', Encoding.filter_retired hretired, hrecorded]
    rfl

/-- A table with a column of texts, truth values, numbers and a gap. -/
def mixedTable : Table :=
  ⟨["x", "c"], [[.nat 5, .string "red"], [.nat 6, .bool true], [.nat 7, .null], [.nat 8, .nat 10],
    [.nat 9, .string "blue"], [.null, .string "red"]]⟩

/-- Labelling that table gives each key of its second column a code and keeps the first column, once and twice. -/
theorem labelling_mixedTable :
    ∃ message w' t' cats,
      ((Instruction.encode .label []).handler.execute (.native {} "")).runWith
          ⟨{ dataset := some mixedTable }, Files.empty⟩ = (.ok message, w') ∧
        w'.context.dataset = some t' ∧ t'.cellsOf "x" = mixedTable.cellsOf "x" ∧
        w'.context.encodings.get? "c" = some cats ∧ "10" ∈ cats ∧
        LabelledWith cats (mixedTable.cellsOf "c") (t'.cellsOf "c") ∧
        ∃ again w'', ((Instruction.encode .label []).handler.execute (.native {} "")).runWith w' = (.ok again, w'') ∧
          w''.context.dataset = some t' := by
  obtain ⟨message, w', hrun⟩ : ∃ message w', ((Instruction.encode .label []).handler.execute (.native {} "")).runWith
      ⟨{ dataset := some mixedTable }, Files.empty⟩ = (.ok message, w') := ⟨_, _, rfl⟩
  have hwell : mixedTable.WellFormed := ⟨by decide, by decide⟩
  obtain ⟨targets, t', htargets, hdata, hlabels, again, w'', hrun', hdata', _⟩ :=
    (labelling_is_lossless (.native {} "")).2 [] _ w' message mixedTable List.nodup_nil rfl hwell hrun
  have hselected : Encoding.targets mixedTable [] = .ok ["c"] := rfl
  rw [hselected] at htargets
  cases htargets
  obtain ⟨cats, hcats, hlabelled⟩ := hlabels.labelled "c" List.mem_cons_self rfl
  have hcell : (mixedTable.cellsOf "c")[3]? = some (.nat 10) := rfl
  have hkey : Cell.key? (.nat 10) = some "10" := by decide +kernel
  refine ⟨message, w', t', cats, hrun, hdata, ?_, hcats, ?_, hlabelled, again, w'', hrun', hdata'⟩
  · exact hlabels.cells "x" fun hx => absurd hx (by decide)
  · exact (hlabelled.mem_iff "10").2 ⟨.nat 10, List.mem_of_getElem? hcell, hkey⟩

end TableFlow
