import TableFlow.Format.Records
import TableFlow.Proofs.Json.RoundTrip
import TableFlow.Proofs.KeyMap
import TableFlow.Proofs.Table.Columns
import TableFlow.Proofs.Text.Blank
import TableFlow.Proofs.Text.Lines
import TableFlow.Proofs.Text.Utf8

/-!
# Tables as JSON objects are read back

A row is written as an object, and an object keeps its members in the order of their keys.  So a table that is
written and read back has the same rows with the same cells, under columns that stand in the order of their names.
The lines of objects and the array of objects agree on this, because a value on one line holds no line end.

Main results:

- Theorem `printable_compactChars`: a value on one line holds no line end.
- Theorem `byteLines_encode`: the bytes of a text are cut where the text is.
- Theorems `readLines_objects` and `readArray_objects`: what is read from either layout is the table of its objects.
- Theorem `keysAfter_of_same`: the columns of objects with the same keys are these keys.
- Theorem `cellsOf_arranged`: a table whose rows are read from objects has the cells that were written.
- Theorem `written_records_read_back`: both layouts give the table back, with its columns in order.
-/

namespace TableFlow

open Text

namespace Json

/-! ## Values on one line -/

/-- No character is a control character. -/
def Printable (s : List Char) : Prop :=
  ∀ c ∈ s, 32 ≤ c.toNat

theorem Printable.append {s t : List Char} (hs : Printable s) (ht : Printable t) : Printable (s ++ t) := by
  intro c hc
  rcases List.mem_append.1 hc with hc | hc
  · exact hs c hc
  · exact ht c hc

theorem Printable.cons {c : Char} {s : List Char} (hc : 32 ≤ c.toNat) (hs : Printable s) : Printable (c :: s) :=
  List.forall_mem_cons.2 ⟨hc, hs⟩

/-- Without control characters a text stands on a line by itself. -/
theorem Printable.closed {s : List Char} (h : Printable s) : Closed s := by
  refine ⟨fun hmem => ?_, fun hlast => ?_⟩
  · exact absurd (h _ hmem) (by decide)
  · exact absurd (h _ (List.mem_of_getLast? hlast)) (by decide)

theorem printable_hexDigit : ∀ n < 16, 32 ≤ (hexDigit n).toNat := by
  decide

/-- Control characters are escaped. -/
theorem printable_escapeChar (c : Char) : Printable (escapeChar c) := by
  unfold escapeChar
  split
  · simp [Printable]
  · simp [Printable]
  · simp [Printable]
  · simp [Printable]
  · simp [Printable]
  · simp [Printable]
  · simp [Printable]
  · split
    · rename_i hcontrol
      have hhigh := printable_hexDigit (c.toNat / 16) (by omega)
      have hlow := printable_hexDigit (c.toNat % 16) (by omega)
      simp [Printable, hhigh, hlow]
    · rename_i hplain
      simpa [Printable] using hplain

theorem printable_stringChars (s : String) : Printable (stringChars s) := by
  have hbody : Printable (s.toList.flatMap escapeChar) := by
    intro c hc
    obtain ⟨d, -, hd⟩ := List.mem_flatMap.1 hc
    exact printable_escapeChar d c hd
  exact (hbody.cons (by decide)).append (by simp [Printable])

theorem printable_number {n : Number} (h : n.Valid) : Printable n.chars := by
  intro c hc
  rcases mem_number_chars h hc with hdigit | hmark
  · have hlow : 48 ≤ c.toNat := of_decide_eq_true (Bool.and_eq_true_iff.1 hdigit).1
    omega
  · simp only [List.mem_cons, List.not_mem_nil, or_false] at hmark
    rcases hmark with rfl | rfl | rfl | rfl <;> decide

mutual

/-- A value on one line holds no line end, nor any other control character. -/
theorem printable_compactChars : ∀ {depth : Nat} {j : Json}, j.Readable depth → Printable j.compactChars
  | _, .null, _ => by simp [Printable, compactChars]
  | _, .bool true, _ => by simp [Printable, compactChars]
  | _, .bool false, _ => by simp [Printable, compactChars]
  | 0, .number _, h => printable_number h
  | _ + 1, .number _, h => printable_number h
  | _, .string s, _ => printable_stringChars s
  | _, .array [], _ => by simp [Printable, compactChars]
  | _ + 1, .array (item :: rest), h =>
    ((printable_compactChars (show item.Readable _ from h.1)).cons (by decide)).append
      (printable_compactItems (show ReadableItems _ rest from h.2))
  | _, .object [], _ => by simp [Printable, compactChars]
  | _ + 1, .object ((key, value) :: rest), h => by
    have hvalue := printable_compactChars (show value.Readable _ from h.1)
    have hrest := printable_compactMembers (show ReadableMembers _ rest from h.2)
    rw [compactChars]
    exact ((printable_stringChars key).cons (by decide)).append (hvalue.cons (by decide)) |>.append hrest

theorem printable_compactItems : ∀ {depth : Nat} {items : List Json}, ReadableItems depth items →
    Printable (compactItems items)
  | _, [], _ => by simp [Printable, compactItems]
  | _, _ :: _, h =>
    ((printable_compactChars h.1).cons (by decide)).append (printable_compactItems h.2)

theorem printable_compactMembers : ∀ {depth : Nat} {members : List (String × Json)},
    ReadableMembers depth members → Printable (compactMembers members)
  | _, [], _ => by simp [Printable, compactMembers]
  | _, (key, value) :: rest, h => by
    have hvalue := printable_compactChars (show value.Readable _ from h.1)
    have hrest := printable_compactMembers (show ReadableMembers _ rest from h.2)
    rw [compactMembers]
    exact ((printable_stringChars key).cons (by decide)).append (hvalue.cons (by decide)) |>.append hrest

end

end Json

namespace Records

/-! ## Lines -/

/-- Bytes that neither end a line nor begin the end of one belong to the line that follows them. -/
theorem byteLines_append {front rest : Bytes} (hne : front ≠ []) (hend : 10 ∉ front)
    (hreturn : 13 ∉ front ∨ ∀ more, rest ≠ 10 :: more) :
    byteLines (front ++ rest) =
      match byteLines rest with
      | [] => [front]
      | line :: more => (front ++ line) :: more := by
  induction front with
  | nil => exact absurd rfl hne
  | cons b front ih =>
    obtain ⟨hb, hfront⟩ := not_or.1 (mt List.mem_cons.2 hend)
    -- The byte is no carriage return in front of a newline, whether another of these bytes follows it or not.
    have hplain : ∀ more, b = 13 → front ++ rest ≠ 10 :: more := by
      rintro more rfl heq
      cases front with
      | nil => exact (hreturn.resolve_left (by simp)) more heq
      | cons d front =>
        rw [List.cons_append, List.cons.injEq] at heq
        exact hfront (by simp [heq.1])
    rw [List.cons_append, byteLines]
    · cases front with
      | nil => rw [List.nil_append]; rfl
      | cons d front =>
        have hreturn' : 13 ∉ d :: front ∨ ∀ more, rest ≠ 10 :: more :=
          hreturn.imp_left fun h hmem => h (List.mem_cons_of_mem _ hmem)
        rw [ih (by simp) hfront hreturn']
        cases byteLines rest <;> rfl
    · exact Ne.symm hb
    · exact hplain

/-- Only a newline is encoded as one. -/
theorem newline_of_encode_eq {s : List Char} {more : Bytes} (h : encode s = 10 :: more) :
    ∃ rest, s = '\n' :: rest := by
  cases s with
  | nil => cases h
  | cons c rest =>
    obtain ⟨b, bytes, hbytes⟩ := List.exists_cons_of_ne_nil (String.utf8EncodeChar_ne_nil (c := c))
    have hb : b = 10 := by
      rw [encode_cons, hbytes, List.cons_append] at h
      exact (List.cons.inj h).1
    have hc : c = '\n' := eq_of_mem_utf8EncodeChar (by decide) (by rw [hbytes, hb]; exact List.mem_cons_self)
    exact ⟨rest, by rw [hc]⟩

/-- The bytes of a text are cut where the text is. -/
theorem byteLines_encode (s : List Char) : byteLines (encode s) = (lines s).map encode := by
  have hplain : ∀ c rest, c ≠ '\n' → (∀ more, c = '\r' → rest ≠ '\n' :: more) →
      byteLines (encode rest) = (lines rest).map encode →
      byteLines (encode (c :: rest)) = (lines (c :: rest)).map encode := by
    intro c rest hc hcr ih
    have hend : 10 ∉ String.utf8EncodeChar c := fun h => hc (eq_of_mem_utf8EncodeChar (by decide) h)
    have hreturn : 13 ∉ String.utf8EncodeChar c ∨ ∀ more, encode rest ≠ 10 :: more := by
      by_cases hc' : c = '\r'
      · right
        intro more hmore
        obtain ⟨rest', hrest⟩ := newline_of_encode_eq hmore
        exact hcr rest' hc' hrest
      · exact Or.inl fun h => hc' (eq_of_mem_utf8EncodeChar (by decide) h)
    rw [encode_cons, byteLines_append String.utf8EncodeChar_ne_nil hend hreturn, ih, lines]
    · cases lines rest with
      | nil => simp [encode]
      | cons line more => simp [encode_cons]
    · exact hc
    · exact hcr
  induction s using lines.induct with
  | case1 => rfl
  | case2 rest ih =>
    rw [lines, List.map_cons, ← ih]
    rfl
  | case3 rest ih =>
    rw [lines, List.map_cons, ← ih]
    rfl
  | case4 c rest hc hcr hrest ih => exact hplain c rest hc hcr ih
  | case5 c rest hc hcr first more hrest ih => exact hplain c rest hc hcr ih

/-! ## Cells and objects -/

/-- The cells that reading objects can give. -/
inductive PlainCell (config : Config) : Cell → Prop where
  | missing : PlainCell config .null
  | flag (b : Bool) : PlainCell config (.bool b)
  | number (n : Number) (valid : n.Valid) : PlainCell config (.number n)
  | text (s : String) (present : config.isMissing s = false) : PlainCell config (.string s)

/-- The tables that can be read back: they have a row, and each cell is one that reading can give. -/
structure Plain (config : Config) (t : Table) : Prop where
  wellFormed : t.WellFormed
  /-- Without a row there is no object that names the columns. -/
  rows_ne_nil : t.rows ≠ []
  cells : ∀ row ∈ t.rows, ∀ c ∈ row, PlainCell config c

variable {config : Config} {t : Table} {row : List Cell}

theorem PlainCell.cell_eq {c : Cell} (h : PlainCell config c) : cell config c = c := by
  cases h with
  | missing => rfl
  | flag b => rfl
  | number n valid => rfl
  | text s present => rw [cell, present, if_neg Bool.false_ne_true]

theorem PlainCell.canonical_eq {c : Cell} (h : PlainCell config c) : c.canonical = c := by
  cases h <;> rw [Json.canonical]

theorem PlainCell.readable {c : Cell} (h : PlainCell config c) (depth : Nat) : c.Readable depth := by
  cases h with
  | missing => simp [Json.Readable]
  | flag b => simp [Json.Readable]
  | number n valid => simpa [Json.Readable] using valid
  | text s present => simp [Json.Readable]

/-- The members of the object of a row. -/
def fields (t : Table) (row : List Cell) : Fields :=
  sortKeys (t.columns.zip row)

theorem object_eq (t : Table) (row : List Cell) : object t row = .object (fields t row) := rfl

/-- The value of a member is a cell of the row. -/
theorem mem_of_mem_fields (hkeys : ((t.columns.zip row).map Prod.fst).Nodup) {member : String × Cell}
    (h : member ∈ fields t row) : member.2 ∈ row := by
  have hzip : member ∈ t.columns.zip row := (sortKeys_perm hkeys).mem_iff.1 h
  exact (List.of_mem_zip (a := member.1) (b := member.2) hzip).2

/-- The keys of a row that has one cell for each column are the columns. -/
theorem map_fst_zip (hwidth : row.length = t.columns.length) : (t.columns.zip row).map Prod.fst = t.columns :=
  List.map_fst_zip (Nat.le_of_eq hwidth.symm)

theorem canonicalItems_eq_self {items : List Json} (h : ∀ item ∈ items, item.canonical = item) :
    Json.canonicalItems items = items := by
  induction items with
  | nil => rw [Json.canonicalItems]
  | cons item items ih =>
    rw [Json.canonicalItems, ih fun i hi => h i (List.mem_cons_of_mem _ hi), h item List.mem_cons_self]

theorem canonicalMembers_eq_self {members : Fields} (h : ∀ member ∈ members, member.2.canonical = member.2) :
    Json.canonicalMembers members = members := by
  induction members with
  | nil => rw [Json.canonicalMembers]
  | cons member members ih =>
    obtain ⟨key, value⟩ := member
    rw [Json.canonicalMembers, ih fun m hm => h m (List.mem_cons_of_mem _ hm),
      show value.canonical = value from h (key, value) List.mem_cons_self]

/-- The object of a row of plain cells can be read, and its members stay in order. -/
theorem readable_object (hkeys : ((t.columns.zip row).map Prod.fst).Nodup) (h : ∀ c ∈ row, PlainCell config c)
    (depth : Nat) : (object t row).Readable (depth + 1) := by
  rw [object_eq, Json.Readable, Json.readableMembers_iff]
  exact fun member hmember => (h _ (mem_of_mem_fields hkeys hmember)).readable depth

theorem canonical_object (hkeys : ((t.columns.zip row).map Prod.fst).Nodup) (h : ∀ c ∈ row, PlainCell config c) :
    (object t row).canonical = object t row := by
  have hmembers : Json.canonicalMembers (fields t row) = fields t row :=
    canonicalMembers_eq_self fun member hmember => (h _ (mem_of_mem_fields hkeys hmember)).canonical_eq
  have hsorted : sortKeys (fields t row) = fields t row := sortKeys_of_ascending (ascending_sortKeys _)
  rw [object_eq, Json.canonical, hmembers, hsorted]

theorem Plain.keys_nodup (h : Plain config t) (hrow : row ∈ t.rows) :
    ((t.columns.zip row).map Prod.fst).Nodup := by
  rw [map_fst_zip (h.wellFormed.width row hrow)]
  exact h.wellFormed.nodup

/-! ## Reading objects -/

/-- An object on one line is no blank line. -/
theorem trimChars_object (members : Fields) : (trimChars (Json.object members).compactChars).isEmpty = false := by
  have hbrace : '{' ∈ (Json.object members).compactChars := by
    cases members with
    | nil => simp [Json.compactChars]
    | cons member members =>
      obtain ⟨key, value⟩ := member
      simp [Json.compactChars]
  rw [List.isEmpty_eq_false_iff]
  exact trimChars_ne_nil hbrace (by decide)

/-- The line of an object is read as the object. -/
theorem lineObjects_object {members : Fields} (hreadable : (Json.object members).Readable Json.maxDepth)
    (hcanonical : (Json.object members).canonical = .object members) (number : Nat) (rest : List Bytes) :
    lineObjects number (encode (Json.object members).compactChars :: rest) =
      (lineObjects (number + 1) rest).map (members :: ·) := by
  have hline : lineObject number (Json.object members).compactChars = .ok members := by
    simp only [lineObject, Json.parseChars?_compactChars hreadable, hcanonical]
  simp only [lineObjects, decode_encode, trimChars_object, hline]
  cases lineObjects (number + 1) rest <;> rfl

theorem itemObjects_objects (objects : List Fields) (number : Nat) :
    itemObjects number (objects.map Json.object) = .ok objects := by
  induction objects generalizing number with
  | nil => rfl
  | cons members objects ih =>
    rw [List.map_cons, itemObjects, ih (number + 1)]
    rfl

/-- A text that is an array of objects is read as the table of the objects. -/
theorem readArray_objects {chars : List Char} {objects : List Fields}
    (hparse : Json.parseChars? chars = some (.array (objects.map Json.object)))
    (hcanonical : ∀ members ∈ objects, (Json.object members).canonical = .object members) :
    readArray config ⟨encode chars, none⟩ = toTable config objects := by
  have hitems : Json.canonicalItems (objects.map Json.object) = objects.map Json.object := by
    refine canonicalItems_eq_self fun item hitem => ?_
    obtain ⟨members, hmembers, rfl⟩ := List.mem_map.1 hitem
    exact hcanonical members hmembers
  have hread : (decode? (encode chars)).bind Json.parse? = some (.array (objects.map Json.object)) := by
    simp only [decode?, decode_encode, Option.bind_some, Json.parse?, String.toList_ofList, hparse]
  have harray : (Json.array (objects.map Json.object)).canonical = .array (objects.map Json.object) := by
    rw [Json.canonical, hitems]
  simp only [readArray, hread, harray, itemObjects_objects]
  rfl

/-- Lines without a fault behind them are read as the table of their objects. -/
theorem readLines_objects {chars : List Char} {objects : List Fields}
    (h : lineObjects 1 ((lines chars).map encode) = .ok objects) :
    readLines config ⟨encode chars, none⟩ = toTable config objects := by
  simp only [readLines, wholeLines, Option.isSome_none, Bool.false_and, Bool.false_eq_true, if_false,
    byteLines_encode, h]
  rfl

/-! ## Reading the objects of rows -/

/-- The object of a row stands on a line by itself. -/
theorem closed_object (h : Plain config t) (hrow : row ∈ t.rows) : Closed (object t row).compactChars :=
  (Json.printable_compactChars (readable_object (h.keys_nodup hrow) (h.cells row hrow) 0)).closed

theorem lineObjects_rows (h : Plain config t) {rows : List (List Cell)} (hrows : ∀ row ∈ rows, row ∈ t.rows)
    (number : Nat) :
    lineObjects number (rows.map fun row => encode (object t row).compactChars) = .ok (rows.map (fields t)) := by
  induction rows generalizing number with
  | nil => rfl
  | cons row rows ih =>
    have hrow := hrows row List.mem_cons_self
    have hkeys := h.keys_nodup hrow
    have hreadable : (Json.object (fields t row)).Readable Json.maxDepth :=
      readable_object hkeys (h.cells row hrow) 126
    have hcanonical : (Json.object (fields t row)).canonical = .object (fields t row) :=
      canonical_object hkeys (h.cells row hrow)
    have hmore := ih (fun r hr => hrows r (List.mem_cons_of_mem _ hr)) (number + 1)
    rw [List.map_cons, object_eq, lineObjects_object hreadable hcanonical, hmore]
    rfl

/-- The lines of a table are one for each row. -/
theorem lines_rows (h : Plain config t) {rows : List (List Cell)} (hrows : ∀ row ∈ rows, row ∈ t.rows) :
    lines (rows.flatMap fun row => (object t row).compactChars ++ ['\n']) =
      rows.map fun row => (object t row).compactChars := by
  induction rows with
  | nil => rfl
  | cons row rows ih =>
    have hclosed := closed_object h (hrows row List.mem_cons_self)
    rw [List.flatMap_cons, List.append_assoc, List.singleton_append, lines_closed hclosed,
      ih fun r hr => hrows r (List.mem_cons_of_mem _ hr), List.map_cons]

/-- The lines of a table are read as the objects of its rows. -/
theorem readLines_writeLines (h : Plain config t) :
    readLines config ⟨writeLines t, none⟩ = toTable config (t.rows.map (fields t)) := by
  have hwritten : writeLines t = encode (t.rows.flatMap fun row => (object t row).compactChars ++ ['\n']) := by
    rw [writeLines, encode, List.flatMap_assoc]
    rfl
  rw [hwritten]
  apply readLines_objects
  rw [lines_rows h fun row hrow => hrow, List.map_map]
  exact lineObjects_rows h (fun row hrow => hrow) 1

/-- The array of a table is read as the objects of its rows. -/
theorem readArray_writeArray (h : Plain config t) :
    readArray config ⟨writeArray t, none⟩ = toTable config (t.rows.map (fields t)) := by
  have hobjects : t.rows.map (object t) = (t.rows.map (fields t)).map Json.object := by
    rw [List.map_map]
    rfl
  have hreadable : (Json.array (t.rows.map (object t))).Readable Json.maxDepth := by
    rw [Json.maxDepth, Json.Readable, Json.readableItems_iff]
    intro item hitem
    obtain ⟨row, hrow, rfl⟩ := List.mem_map.1 hitem
    exact readable_object (h.keys_nodup hrow) (h.cells row hrow) 125
  rw [writeArray, bytes, Json.pretty, String.toList_ofList]
  refine readArray_objects (by rw [← hobjects, Json.parseChars?_prettyChars hreadable]) ?_
  intro members hmembers
  obtain ⟨row, hrow, rfl⟩ := List.mem_map.1 hmembers
  exact canonical_object (h.keys_nodup hrow) (h.cells row hrow)

/-! ## Columns -/

/-- The keys of an object that are not known yet are added in their order. -/
theorem keys_of_object {known : List String} {members : Fields} (h : (members.map Prod.fst).Nodup) :
    members.foldl (fun known (key, _) => if known.contains key then known else known ++ [key]) known =
      known ++ (members.map Prod.fst).filter (· ∉ known) := by
  induction members generalizing known with
  | nil => simp
  | cons member members ih =>
    obtain ⟨key, value⟩ := member
    obtain ⟨hkey, hrest⟩ := List.nodup_cons.1 h
    by_cases hknown : key ∈ known
    · have hcontains : known.contains key = true := by simpa using hknown
      simp only [List.foldl_cons, hcontains, if_true, ih hrest]
      simp [hknown]
    · have hcontains : known.contains key = false := by simpa using hknown
      -- The key does not occur again, so that it makes no difference to the others that it is known now.
      have hothers : (members.map Prod.fst).filter (· ∉ known ++ [key]) =
          (members.map Prod.fst).filter (· ∉ known) := by
        refine List.filter_congr fun other hother => ?_
        have hne : other ≠ key := fun e => hkey (e ▸ hother)
        simp [hne]
      simp only [List.foldl_cons, hcontains, Bool.false_eq_true, if_false, ih hrest, hothers]
      simp [hknown]

/-- The columns of objects with the same distinct keys are these keys. -/
theorem keysAfter_of_same {names : List String} (hnames : names.Nodup) {objects : List Fields}
    (hne : objects ≠ []) (h : ∀ members ∈ objects, members.map Prod.fst = names) :
    keysAfter [] objects = names := by
  have hknown : ∀ objects : List Fields, (∀ members ∈ objects, members.map Prod.fst = names) →
      keysAfter names objects = names := by
    intro objects h
    induction objects with
    | nil => rfl
    | cons members objects ih =>
      have hkeys := h members List.mem_cons_self
      have hnothing : names.filter (· ∉ names) = [] := by simp [List.filter_eq_nil_iff]
      rw [keysAfter, keys_of_object (by rwa [hkeys]), hkeys, hnothing, List.append_nil]
      exact ih fun m hm => h m (List.mem_cons_of_mem _ hm)
  obtain ⟨first, rest, rfl⟩ := List.exists_cons_of_ne_nil hne
  have hfirst := h first List.mem_cons_self
  rw [keysAfter, keys_of_object (by rwa [hfirst]), hfirst]
  simpa using hknown rest fun m hm => h m (List.mem_cons_of_mem _ hm)

/-- The names of the columns in their order. -/
def arrangedNames (t : Table) : List String :=
  (sortKeys (t.columns.map fun name => (name, ()))).map Prod.fst

/-- The table with its columns in the order of their names. -/
def arranged (t : Table) : Table :=
  ⟨arrangedNames t, t.rows.map fun row =>
    (arrangedNames t).map fun name => ((t.columns.zip row).lookup name).getD .null⟩

theorem arrangedNames_pairwise (t : Table) : (arrangedNames t).Pairwise (· < ·) :=
  (ascending_sortKeys _).map_fst

theorem arrangedNames_perm (hnodup : t.columns.Nodup) : (arrangedNames t).Perm t.columns := by
  have hkeys : (t.columns.map fun name => (name, ())).map Prod.fst = t.columns := by
    rw [List.map_map]
    exact List.map_id _
  have hsorted := (sortKeys_perm (by rwa [hkeys])).map Prod.fst
  rwa [hkeys] at hsorted

/-- The keys of the object of every row are the names of the columns in order. -/
theorem map_fst_fields (h : t.WellFormed) (hrow : row ∈ t.rows) : (fields t row).map Prod.fst = arrangedNames t := by
  have hzip := map_fst_zip (h.width row hrow)
  have hperm : ((fields t row).map Prod.fst).Perm t.columns := by
    have hsorted := (sortKeys_perm (by rw [hzip]; exact h.nodup)).map Prod.fst
    rwa [hzip] at hsorted
  exact eq_of_perm_of_pairwise_lt (ascending_sortKeys _).map_fst (arrangedNames_pairwise t)
    (hperm.trans (arrangedNames_perm h.nodup).symm)

/-- The cell of a column in the object of a row is the one of the row. -/
theorem lookup_zip (hnodup : t.columns.Nodup) (hwidth : row.length = t.columns.length) {name : String} {i : Nat}
    (h : t.columnIndex? name = some i) : ((t.columns.zip row).lookup name).getD .null = row.getD i .null := by
  obtain ⟨hi, hname, -⟩ := Table.columnIndex?_eq_some_iff.1 h
  have hkeys : ((t.columns.zip row).map Prod.fst).Nodup := by rwa [map_fst_zip hwidth]
  have hmem : (name, row[i]) ∈ t.columns.zip row := by
    rw [← hname, ← List.getElem_zip (h := by rw [List.length_zip]; omega)]
    exact List.getElem_mem _
  rw [(lookup_eq_some_iff_mem hkeys).2 hmem, List.getD_eq_getElem _ _ (by omega)]
  rfl

theorem wellFormed_arranged (h : t.WellFormed) : (arranged t).WellFormed := by
  refine ⟨(arrangedNames_perm h.nodup).nodup_iff.2 h.nodup, fun row hrow => ?_⟩
  obtain ⟨_, -, rfl⟩ := List.mem_map.1 hrow
  exact List.length_map _

/-- A table with its columns in order has the same cells. -/
theorem cellsOf_arranged (h : t.WellFormed) (name : String) : (arranged t).cellsOf name = t.cellsOf name := by
  have hmem : name ∈ (arranged t).columns ↔ name ∈ t.columns := (arrangedNames_perm h.nodup).mem_iff
  by_cases hname : name ∈ t.columns
  · obtain ⟨i, hi⟩ := Table.exists_columnIndex? hname
    obtain ⟨j, hj⟩ := Table.exists_columnIndex? (hmem.2 hname)
    obtain ⟨hlt, hat, -⟩ := Table.columnIndex?_eq_some_iff.1 hj
    rw [Table.cellsOf_eq hj, Table.cellsOf_eq hi, Table.column, Table.column, arranged, List.map_map]
    refine List.map_congr_left fun row hrow => ?_
    have hnames : (arrangedNames t)[j]? = some name := List.getElem?_eq_some_iff.2 ⟨hlt, hat⟩
    rw [Function.comp_apply, List.getD_eq_getElem?_getD, List.getElem?_map, hnames, Option.map_some,
      Option.getD_some]
    exact lookup_zip h.nodup (h.width row hrow) hi
  · have hnone : ∀ t' : Table, name ∉ t'.columns → t'.cellsOf name = [] := by
      intro t' hnot
      unfold Table.cellsOf
      split
      · rename_i hfound
        exact absurd (Table.mem_of_columnIndex? hfound) hnot
      · rfl
    rw [hnone t hname, hnone _ (mt hmem.1 hname)]

/-! ## Writing, then reading -/

/-- The objects of the rows make the table with its columns in order. -/
theorem toTable_rows (h : Plain config t) : toTable config (t.rows.map (fields t)) = .ok (arranged t) := by
  have hnodup := (arrangedNames_perm h.wellFormed.nodup).nodup_iff.2 h.wellFormed.nodup
  have hcolumns : keysAfter [] (t.rows.map (fields t)) = arrangedNames t := by
    refine keysAfter_of_same hnodup (by simpa using h.rows_ne_nil) fun members hmembers => ?_
    obtain ⟨row, hrow, rfl⟩ := List.mem_map.1 hmembers
    exact map_fst_fields h.wellFormed hrow
  have hrows : (t.rows.map (fields t)).map (row config (arrangedNames t)) = (arranged t).rows := by
    rw [List.map_map]
    refine List.map_congr_left fun row hrow => List.map_congr_left fun name _ => ?_
    have hkeys := h.keys_nodup hrow
    rw [fields, lookup_sortKeys hkeys]
    cases hfound : (t.columns.zip row).lookup name with
    | none => rfl
    | some c =>
      have hc : c ∈ row := (List.of_mem_zip (mem_of_lookup_eq hfound)).2
      exact (h.cells row hrow c hc).cell_eq
  rw [toTable, hcolumns, hrows]
  exact Table.ofRows_eq_ok_iff.2 ⟨rfl, wellFormed_arranged h.wellFormed⟩

/-- Both layouts of a table are read back as one table: its columns are those that were written, in the byte order of
their names, and every column has its cells, row by row. -/
theorem written_records_read_back (h : Plain config t) :
    ∃ t', readLines config ⟨writeLines t, none⟩ = .ok t' ∧ readArray config ⟨writeArray t, none⟩ = .ok t' ∧
      t'.WellFormed ∧ t'.columns.Perm t.columns ∧ t'.columns.Pairwise (fun a b => bytes a < bytes b) ∧
      t'.rows.length = t.rows.length ∧ ∀ name, t'.cellsOf name = t.cellsOf name := by
  refine ⟨arranged t, (readLines_writeLines h).trans (toTable_rows h),
    (readArray_writeArray h).trans (toTable_rows h), wellFormed_arranged h.wellFormed,
    arrangedNames_perm h.wellFormed.nodup, ?_, List.length_map _, cellsOf_arranged h.wellFormed⟩
  exact (arrangedNames_pairwise t).imp bytes_lt_bytes

/-- A table whose columns are out of order, with everything that needs care: quotes, line ends and letters of several
bytes in names and texts, blanks around a text, the greatest whole number, and the negative zero. -/
def unorderedTable : Table :=
  ⟨["\u20ac", "say \"b\"\n", "a\\c"],
    [[.string " \r\n\t", .number (.int 18446744073709551615), .null],
      [.bool false, .number (.float (Float.ofBits 0x8000000000000000)), .number (.int (-7))]]⟩

theorem plain_unorderedTable : Plain { missingMarkers := ["?"] } unorderedTable := by
  refine ⟨⟨by decide, by decide⟩, by simp [unorderedTable], ?_⟩
  intro row hrow c hc
  simp only [unorderedTable, List.mem_cons, List.not_mem_nil, or_false] at hrow
  rcases hrow with rfl | rfl
  · simp only [List.mem_cons, List.not_mem_nil, or_false] at hc
    rcases hc with rfl | rfl | rfl
    · exact .text _ (by decide)
    · exact .number _ (by simp [Number.Valid, Number.fits, wordBound, signBound])
    · exact .missing
  · simp only [List.mem_cons, List.not_mem_nil, or_false] at hc
    rcases hc with rfl | rfl | rfl
    · exact .flag false
    · exact .number _ (show Decimal.isFinite _ = true by decide)
    · exact .number _ (by simp [Number.Valid, Number.fits, wordBound, signBound])

theorem unorderedTable_read_back :
    ∃ t', readLines { missingMarkers := ["?"] } ⟨writeLines unorderedTable, none⟩ = .ok t' ∧
      readArray { missingMarkers := ["?"] } ⟨writeArray unorderedTable, none⟩ = .ok t' ∧
      t'.WellFormed ∧ t'.columns.Perm unorderedTable.columns ∧
      t'.columns.Pairwise (fun a b => bytes a < bytes b) ∧ t'.rows.length = 2 ∧
      ∀ name, t'.cellsOf name = unorderedTable.cellsOf name :=
  written_records_read_back plain_unorderedTable

end Records
end TableFlow
