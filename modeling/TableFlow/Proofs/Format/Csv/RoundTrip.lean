import TableFlow.Proofs.Decimal.Numeral
import TableFlow.Proofs.Format.Csv.Record
import TableFlow.Proofs.Json.Scalar
import TableFlow.Proofs.Table.Columns
import TableFlow.Proofs.Text.Blank
import TableFlow.Proofs.Text.Utf8

/-!
# Delimited tables are read back

What reading delimited text can give is a normal form of tables: trimmed names, of which one is not empty, and cells
that are missing, finite numbers, or trimmed texts that could not be read as one of the others.  On tables of this
form writing and reading cancel, whatever the texts hold.  Only a byte order mark in front of the first name would
be lost.

Main results:

- Inductive type `PlainCell`: the cells that reading delimited text gives.
- Structure `Plain`: the tables that it gives.
- Theorem `plain_of_readTable`: every table that was read has this form.
- Theorem `readTable_writeTable`: a table of this form is read back.
- Theorem `writing_then_reading`: both facts together, for every delimiter.
-/

namespace TableFlow
namespace Csv

open Text

/-! ## The normal form -/

/-- The cells that reading delimited text gives. -/
inductive PlainCell (config : Config) : Cell → Prop where
  | missing : PlainCell config .null
  | number (x : Float) (finite : Decimal.isFinite x = true) : PlainCell config (.number (.float x))
  | text (s : String) (trimmed : trim s = s) (present : config.isMissing s = false)
      (notNumber : Decimal.readFinite? s = none) : PlainCell config (.string s)

/-- The tables that reading delimited text gives. -/
structure Plain (config : Config) (t : Table) : Prop where
  wellFormed : t.WellFormed
  /-- Names have no blanks around them. -/
  trimmed : ∀ name ∈ t.columns, trim name = name
  /-- Some name is not empty. -/
  named : ∃ name ∈ t.columns, name ≠ ""
  cells : ∀ row ∈ t.rows, ∀ c ∈ row, PlainCell config c

/-! ## What reading gives -/

/-- Every field becomes a cell of the normal form. -/
theorem plainCell_cell (config : Config) (field : String) : PlainCell config (cell config field) := by
  unfold cell
  split
  · exact .missing
  · rename_i hpresent
    split
    · rename_i x hx
      exact .number x (Option.mem_filter_iff.1 hx).2
    · rename_i hnumber
      refine .text _ (trim_trim field) ?_ hnumber
      rw [Config.isMissing, trim_trim]
      exact Bool.not_eq_true _ ▸ hpresent

/-- The texts of fields are trimmed. -/
theorem trim_of_mem_fieldTexts {n : Nat} {fields : List Bytes} {texts : List String}
    (h : fieldTexts n fields = .ok texts) : ∀ text ∈ texts, trim text = text := by
  induction fields generalizing n texts with
  | nil =>
    cases h
    simp
  | cons bytes fields ih =>
    rw [fieldTexts] at h
    split at h
    · cases h
    · rename_i s _
      split at h
      · cases h
      · rename_i more hmore
        cases h
        intro text htext
        rcases List.mem_cons.1 htext with rfl | htext
        · rw [trim, String.toList_ofList, trimChars_trimChars]
        · exact ih hmore text htext

/-- There are as many texts as fields. -/
theorem length_of_fieldTexts {n : Nat} {fields : List Bytes} {texts : List String}
    (h : fieldTexts n fields = .ok texts) : texts.length = fields.length := by
  induction fields generalizing n texts with
  | nil =>
    cases h
    rfl
  | cons bytes fields ih =>
    rw [fieldTexts] at h
    split at h
    · cases h
    · split at h
      · cases h
      · rename_i more hmore
        cases h
        rw [List.length_cons, List.length_cons, ih hmore]

/-- Rows that were read have one cell of the normal form for each column. -/
theorem plain_of_rows {config : Config} {width : Nat} {fault : Option FileFault} {number : Nat}
    {records : List RawRecord} {cells : List (List Cell)} (h : rows config width fault number records = .ok cells) :
    ∀ row ∈ cells, row.length = width ∧ ∀ c ∈ row, PlainCell config c := by
  induction records generalizing number cells with
  | nil =>
    cases fault with
    | none =>
      cases h
      simp
    | some fault => cases h
  | cons r records ih =>
    rw [rows] at h
    split at h
    · cases h
    · rename_i first hfirst
      split at h
      · cases h
      · rename_i more hmore
        cases h
        intro row hrow
        rcases List.mem_cons.1 hrow with rfl | hrow
        · rw [Csv.row] at hfirst
          split at hfirst
          · rename_i hwidth
            split at hfirst
            · rename_i texts htexts
              cases hfirst
              refine ⟨by rw [List.length_map, length_of_fieldTexts htexts, hwidth], fun c hc => ?_⟩
              obtain ⟨text, -, rfl⟩ := List.mem_map.1 hc
              exact plainCell_cell config text
            · cases hfirst
          · cases hfirst
        · exact ih hmore row hrow

/-- The header of a table that was read, and its rows. -/
theorem readTable_eq_ok {config : Config} {delimiter : UInt8} {stream : Stream} {t : Table}
    (h : readTable config delimiter stream = .ok t) :
    ∃ first rest, records delimiter stream.fault.isNone stream.bytes = first :: rest ∧
      header first = .ok t.columns ∧ (t.columns.all fun name => name == "") = false ∧ t.columns.Nodup ∧
      rows config t.columns.length stream.fault 1 rest = .ok t.rows := by
  unfold readTable at h
  split at h
  · split at h <;> cases h
  · rename_i first rest hrecords
    obtain ⟨columns, hheader, h⟩ := bind_eq_ok.1 h
    split at h
    · cases h
    · rename_i hnamed
      obtain ⟨empty, hempty, h⟩ := bind_eq_ok.1 h
      obtain ⟨cells, hcells, h⟩ := bind_eq_ok.1 h
      obtain ⟨rfl, hnodup⟩ := Table.ofRows_eq_ok hempty
      cases h
      exact ⟨first, rest, hrecords, hheader, Bool.not_eq_true _ ▸ hnamed, hnodup, hcells⟩

/-- Every table that was read has the normal form. -/
theorem plain_of_readTable {config : Config} {delimiter : UInt8} {stream : Stream} {t : Table}
    (h : readTable config delimiter stream = .ok t) : Plain config t := by
  obtain ⟨first, rest, -, hheader, hnamed, hnodup, hrows⟩ := readTable_eq_ok h
  have hcells := plain_of_rows hrows
  refine ⟨⟨hnodup, fun row hrow => (hcells row hrow).1⟩, ?_, ?_, fun row hrow => (hcells row hrow).2⟩
  · unfold header at hheader
    split at hheader
    · rename_i names hnames
      cases hheader
      exact trim_of_mem_fieldTexts hnames
    · cases hheader
  · simpa using hnamed

/-! ## Fields of written cells -/

/-- The texts of encoded fields are the fields, trimmed. -/
theorem fieldTexts_bytes (n : Nat) (texts : List String) :
    fieldTexts n (texts.map bytes) = .ok (texts.map trim) := by
  induction texts generalizing n with
  | nil => rfl
  | cons text texts ih =>
    have hdecode : decode (bytes text) = .ok text.toList := decode_encode text.toList
    simp only [List.map_cons, fieldTexts, hdecode, ih, trim]

theorem not_blank_of_isDigit {c : Char} (h : isDigit c = true) : isBlank c = false := by
  have hlow : 48 ≤ c.toNat := of_decide_eq_true (Bool.and_eq_true_iff.1 h).1
  have hhigh : c.toNat ≤ 57 := of_decide_eq_true (Bool.and_eq_true_iff.1 h).2
  simp only [isBlank, Bool.or_eq_false_iff, Bool.and_eq_false_iff, decide_eq_false_iff_not, beq_eq_false_iff_ne]
  omega

/-- A finite number is written without blanks. -/
theorem not_blank_of_mem_number {n : Number} (h : n.Valid) {c : Char} (hc : c ∈ n.chars) : isBlank c = false := by
  rcases Json.mem_number_chars h hc with hdigit | hmark
  · exact not_blank_of_isDigit hdigit
  · simp only [List.mem_cons, List.not_mem_nil, or_false] at hmark
    rcases hmark with rfl | rfl | rfl | rfl <;> decide

/-- The markers for missing values that are used unless a configuration has others. -/
theorem defaultMarkers_first : ∀ marker ∈ ({} : Config).missingMarkers,
    (marker.toList.head?.all fun c => !isDigit c && c != '-') = true := by
  decide

/-- A cell of the normal form is what the reader makes of its text. -/
theorem cell_fieldText {config : Config} (hmarkers : config.missingMarkers = ({} : Config).missingMarkers)
    {c : Cell} (h : PlainCell config c) : cell config (trim c.fieldText) = c := by
  cases h with
  | missing =>
    have hmissing : config.isMissing (trim "") = true := by
      rw [Config.isMissing, hmarkers]
      decide
    simp only [Cell.fieldText, cell, hmissing, if_true]
  | number x hfinite =>
    have hvalid : (Number.float x).Valid := hfinite
    have hblank : ∀ c ∈ Decimal.Layout.stored.chars x, isBlank c = false := fun c hc =>
      not_blank_of_mem_number hvalid hc
    obtain ⟨first, rest, hchars, hfirst⟩ := Json.number_chars_cons hvalid
    have htext : Cell.fieldText (.number (.float x)) = String.ofList (Decimal.Layout.stored.chars x) := rfl
    have htrim : trim (String.ofList (Decimal.Layout.stored.chars x)) =
        String.ofList (Decimal.Layout.stored.chars x) := by
      rw [trim, String.toList_ofList, trimChars_eq_self hblank]
    have hpresent : config.isMissing (String.ofList (Decimal.Layout.stored.chars x)) = false := by
      rw [Config.isMissing, htrim, hmarkers, List.contains_eq_mem, decide_eq_false_iff_not]
      intro hmem
      have hhead := defaultMarkers_first _ hmem
      rw [String.toList_ofList, show Decimal.Layout.stored.chars x = first :: rest from hchars] at hhead
      rcases hfirst with hdigit | rfl
      · simp [hdigit] at hhead
      · simp at hhead
    have hread : Decimal.readFinite? (String.ofList (Decimal.Layout.stored.chars x)) = some x := by
      rw [Decimal.readFinite?, Decimal.read?, String.toList_ofList,
        Decimal.readChars?_chars (Or.inr rfl) hfinite]
      simp [hfinite]
    rw [htext, htrim, cell, hpresent, htrim, hread]
    rfl
  | text s htrimmed hpresent hnumber =>
    simp only [Cell.fieldText, htrimmed, cell, hpresent, hnumber]
    rfl

/-! ## Rows and tables -/

/-- The bytes of the fields of a row. -/
def rowFields (row : List Cell) : List Bytes :=
  row.map fun c => bytes c.fieldText

/-- A record with the fields of a row is that row. -/
theorem row_of_fields {config : Config} (hmarkers : config.missingMarkers = ({} : Config).missingMarkers)
    {width : Nat} {cells : List Cell} (hwidth : cells.length = width) (h : ∀ c ∈ cells, PlainCell config c)
    {r : RawRecord} (hr : r.fields = rowFields cells) : row config width r = .ok cells := by
  have hfields : r.fields = (cells.map Cell.fieldText).map bytes := by
    rw [hr, rowFields, List.map_map]
    rfl
  have hcells : ((cells.map Cell.fieldText).map trim).map (cell config) = cells := by
    rw [List.map_map, List.map_map]
    exact (List.map_congr_left fun c hc => cell_fieldText hmarkers (h c hc)).trans (List.map_id cells)
  rw [row, hfields, List.length_map, List.length_map, if_pos hwidth, fieldTexts_bytes]
  simp only [hcells]

/-- Records with the fields of rows are these rows. -/
theorem rows_of_fields {config : Config} (hmarkers : config.missingMarkers = ({} : Config).missingMarkers)
    {width : Nat} {cells : List (List Cell)} (hwidth : ∀ row ∈ cells, row.length = width)
    (h : ∀ row ∈ cells, ∀ c ∈ row, PlainCell config c) {records : List RawRecord}
    (hrecords : records.map RawRecord.fields = cells.map rowFields) (number : Nat) :
    rows config width none number records = .ok cells := by
  induction cells generalizing records number with
  | nil =>
    obtain rfl : records = [] := by simpa using hrecords
    rfl
  | cons first cells ih =>
    obtain ⟨r, records, rfl, hfirst, hmore⟩ := List.map_eq_cons_iff.1 hrecords
    have hrow := row_of_fields hmarkers (hwidth first List.mem_cons_self) (h first List.mem_cons_self) hfirst
    have hrows := ih (fun row hrow => hwidth row (List.mem_cons_of_mem _ hrow))
      (fun row hrow => h row (List.mem_cons_of_mem _ hrow)) hmore (number + 1)
    rw [rows, hrow, hrows]

/-! ## The byte order mark -/

/-- The bytes do not start with a byte order mark. -/
def NoMark (b : Bytes) : Prop :=
  ∀ rest, b ≠ 0xEF :: 0xBB :: 0xBF :: rest

theorem records_of_noMark {delimiter : UInt8} {whole : Bool} {b : Bytes} (h : NoMark b) :
    records delimiter whole b = recordsFrom delimiter whole (.before 0 1) b := by
  unfold records
  split
  · exact absurd rfl (h _)
  · rfl

/-- Only the byte order mark is encoded as one. -/
theorem eq_of_utf8EncodeChar {c : Char} {rest rest' : Bytes}
    (h : String.utf8EncodeChar c ++ rest = 0xEF :: 0xBB :: 0xBF :: rest') : c = '\uFEFF' := by
  have hvalid := toNat_bounds c
  have hval : c.val.toNat = c.toNat := rfl
  have hbyte : ∀ n < 256, ∀ b : UInt8, UInt8.ofNat n = b → n = b.toNat := by
    rintro n hn b rfl
    exact (toNat_byte hn).symm
  suffices hnat : c.toNat = 0xFEFF from Char.toNat_inj.1 hnat
  simp only [String.utf8EncodeChar, hval] at h
  generalize c.toNat = n at *
  split at h
  · have h1 := hbyte n (by omega) _ (List.cons.inj h).1
    simp only [UInt8.reduceToNat] at h1
    omega
  · split at h
    · have h1 := hbyte _ (by omega) _ (List.cons.inj h).1
      simp only [UInt8.reduceToNat] at h1
      omega
    · split at h
      · obtain ⟨h1, h⟩ := List.cons.inj h
        obtain ⟨h2, h⟩ := List.cons.inj h
        have h1 := hbyte _ (by omega) _ h1
        have h2 := hbyte _ (by omega) _ h2
        have h3 := hbyte _ (by omega) _ (List.cons.inj h).1
        simp only [UInt8.reduceToNat] at h1 h2 h3
        omega
      · have h1 := hbyte _ (by omega) _ (List.cons.inj h).1
        simp only [UInt8.reduceToNat] at h1
        omega

/-- A written field starts with a byte order mark only if its text does. -/
theorem noMark_writeField {delimiter : UInt8} {name : String} (h : name.toList.head? ≠ some '\uFEFF')
    {b : UInt8} (hb : b.toNat < 128) (rest : Bytes) :
    NoMark (writeField delimiter (bytes name) ++ b :: rest) := by
  intro rest' heq
  unfold writeField at heq
  split at heq
  · rw [quoteField] at heq
    exact absurd (List.cons.inj heq).1 (by decide)
  · rw [bytes] at heq
    cases hname : name.toList with
    | nil =>
      rw [hname] at heq
      obtain ⟨rfl, -⟩ := List.cons.inj heq
      exact absurd hb (by decide)
    | cons c more =>
      rw [hname, encode, List.flatMap_cons, List.append_assoc] at heq
      exact h (by rw [hname, eq_of_utf8EncodeChar heq]; rfl)

/-- A written record starts with a byte order mark only if its first field does. -/
theorem noMark_writeRecord {delimiter : UInt8} (hascii : delimiter.toNat < 128) {name : String}
    (h : name.toList.head? ≠ some '\uFEFF') (more : List String) (rest : Bytes) :
    NoMark (writeRecord delimiter ((name :: more).map bytes) ++ rest) := by
  by_cases hempty : (name :: more).map bytes = [[]]
  · rw [hempty]
    intro rest' heq
    exact absurd (List.cons.inj heq).1 (by decide)
  · rw [writeRecord_eq (by simp) hempty]
    cases more with
    | nil =>
      rw [List.map_singleton, List.map_singleton, List.intercalate_singleton, List.append_assoc]
      exact noMark_writeField h (by decide) rest
    | cons next more =>
      simp only [List.map_cons, List.intercalate_cons_cons, List.append_assoc, List.singleton_append]
      exact noMark_writeField h hascii _

/-! ## Writing, then reading -/

/-- The bytes of the names of the columns and of the rows are the records of a table. -/
theorem writeTable_eq (delimiter : UInt8) (t : Table) :
    writeTable delimiter t =
      ((t.columns.map bytes) :: t.rows.map rowFields).flatMap (writeRecord delimiter) := by
  rw [writeTable, List.flatMap_cons, List.flatMap_map]
  rfl

/-- A table of the normal form is read back. -/
theorem readTable_writeTable {config : Config} (hmarkers : config.missingMarkers = ({} : Config).missingMarkers)
    {delimiter : UInt8} (hd : Delimits delimiter) (hascii : delimiter.toNat < 128) {t : Table}
    (h : Plain config t) (hmark : ∀ name, t.columns.head? = some name → name.toList.head? ≠ some '\uFEFF') :
    readTable config delimiter ⟨writeTable delimiter t, none⟩ = .ok t := by
  obtain ⟨columns, cells⟩ := t
  obtain ⟨name, hname, hnonempty⟩ := h.named
  have hcolumns : columns ≠ [] := List.ne_nil_of_mem hname
  obtain ⟨first, more, rfl⟩ := List.exists_cons_of_ne_nil hcolumns
  -- the records of the text are the names and the rows
  have hnoMark : NoMark (writeTable delimiter ⟨first :: more, cells⟩) :=
    noMark_writeRecord hascii (hmark first rfl) more _
  have hne : ∀ fields ∈ ((first :: more).map bytes) :: cells.map rowFields, fields ≠ [] := by
    intro fields hfields
    rcases List.mem_cons.1 hfields with rfl | hfields
    · simp
    · obtain ⟨row, hrow, rfl⟩ := List.mem_map.1 hfields
      have hwidth := h.wellFormed.width row hrow
      rintro hnil
      rw [rowFields, List.map_eq_nil_iff] at hnil
      rw [hnil] at hwidth
      cases hwidth
  have hrecords := map_fields_recordsFrom hd hne 0 1 true
  rw [← writeTable_eq delimiter ⟨first :: more, cells⟩, ← records_of_noMark hnoMark] at hrecords
  obtain ⟨r, records', hread, hheader, hrows⟩ := List.map_eq_cons_iff.1 hrecords
  -- the first gives the names, the others the rows
  have htrimmed : (first :: more).map trim = first :: more :=
    (List.map_congr_left h.trimmed).trans (List.map_id _)
  have hheaderOk : header r = .ok (first :: more) := by
    rw [header, hheader, fieldTexts_bytes, htrimmed]
  have hnamed : ¬((first :: more).all fun name => name == "") = true := by
    rw [List.all_eq_true]
    exact fun hall => hnonempty (beq_iff_eq.1 (hall name hname))
  have hempty : Table.ofRows (first :: more) [] = .ok ⟨first :: more, []⟩ :=
    Table.ofRows_eq_ok_iff.2 ⟨rfl, h.wellFormed.nodup, by simp⟩
  have hrowsOk := rows_of_fields hmarkers h.wellFormed.width h.cells hrows 1
  simp only [readTable, Option.isNone_none, hread, hheaderOk]
  simp only [bind, Except.bind, hnamed, hempty, hrowsOk]
  rfl

/-- With the usual markers and a delimiter of ASCII, writing is undone by reading on the tables of the normal form
whose first name has no byte order mark, and every table that was read has the normal form. -/
theorem writing_then_reading {config : Config} (hmarkers : config.missingMarkers = ({} : Config).missingMarkers)
    {delimiter : UInt8} (hascii : delimiter < 128) (hquote : delimiter ≠ 34) (hreturn : delimiter ≠ 13)
    (hnewline : delimiter ≠ 10) :
    (∀ t, Plain config t → (∀ name, t.columns.head? = some name → name.toList.head? ≠ some '\uFEFF') →
      readTable config delimiter ⟨writeTable delimiter t, none⟩ = .ok t) ∧
    ∀ stream t, readTable config delimiter stream = .ok t → Plain config t := by
  have hd : Delimits delimiter :=
    ⟨hquote, by simp [isLineEnd, hreturn, hnewline]⟩
  exact ⟨fun t h hmark => readTable_writeTable hmarkers hd (UInt8.lt_iff_toNat_lt.1 hascii) h hmark,
    fun stream t h => plain_of_readTable h⟩

/-- A table with everything that needs care: delimiters, quotes and line ends in names and texts, a text that looks
like a number, numbers that are written with an exponent, and the negative zero. -/
def trickyTable : Table :=
  ⟨["a;b", "", "say \"c\""],
    [[.string "inf", .number (.float (Float.ofBits 0x7FE1CCF385EBC8A0)), .null],
      [.null, .number (.float (Float.ofBits 0x8000000000000000)), .string "one\ntwo;\"three\""]]⟩

theorem plain_trickyTable : Plain {} trickyTable := by
  refine ⟨⟨by decide, by decide⟩, by decide, ⟨"a;b", by decide, by decide⟩, ?_⟩
  intro row hrow c hc
  simp only [trickyTable, List.mem_cons, List.not_mem_nil, or_false] at hrow
  rcases hrow with rfl | rfl
  · simp only [List.mem_cons, List.not_mem_nil, or_false] at hc
    rcases hc with rfl | rfl | rfl
    · exact .text "inf" (by decide) (by decide) rfl
    · exact .number _ (by decide)
    · exact .missing
  · simp only [List.mem_cons, List.not_mem_nil, or_false] at hc
    rcases hc with rfl | rfl | rfl
    · exact .missing
    · exact .number _ (by decide)
    · exact .text _ (by decide) (by decide) rfl

theorem trickyTable_read_back : readTable {} 59 ⟨writeTable 59 trickyTable, none⟩ = .ok trickyTable :=
  (writing_then_reading rfl (by decide) (by decide) (by decide) (by decide)).1 trickyTable plain_trickyTable
    (by simp [trickyTable])

end Csv
end TableFlow
