import TableFlow.Format.Csv

/-!
# Written records are read back

Byte by byte the reader takes a written record apart into the fields it was made of.  A field stands between quotes
if it holds a delimiter, a quote or a line end, and quotes in it are doubled; so the reader is outside of quotes
exactly at the ends of fields.  One case is special: a record of one empty field would be an empty line, which
the reader skips, and is written as two quotes.

Main results:

- Definition `Reads`: some bytes lead from one state of the reader to another without ending a record.
- Theorem `exists_reads_field`: reading a written field.
- Theorem `exists_reads_fields`: reading the fields of a record with the delimiters between them.
- Theorem `map_fields_recordsFrom`: reading written records gives their fields.
-/

namespace TableFlow
namespace Csv

/-- A delimiter that cannot be taken for a quote or a line end. -/
structure Delimits (delimiter : UInt8) : Prop where
  not_quote : delimiter ≠ quoteByte
  not_lineEnd : isLineEnd delimiter = false

/-- Reading these bytes leads from one state to another and ends no record. -/
def Reads (delimiter : UInt8) (c : Cursor) (bytes : Bytes) (c' : Cursor) : Prop :=
  ∀ whole rest, recordsFrom delimiter whole c (bytes ++ rest) = recordsFrom delimiter whole c' rest

namespace Reads

variable {delimiter : UInt8} {c c' c'' : Cursor} {front back : Bytes}

theorem nil : Reads delimiter c [] c := fun _ _ => rfl

theorem append (h : Reads delimiter c front c') (h' : Reads delimiter c' back c'') :
    Reads delimiter c (front ++ back) c'' := by
  intro whole rest
  rw [List.append_assoc, h, h']

/-- A byte that ends no record. -/
theorem byte {b : UInt8} (h : step delimiter c b = (none, c')) : Reads delimiter c [b] c' := by
  intro whole rest
  rw [List.singleton_append, recordsFrom, h]

theorem cons {b : UInt8} (h : step delimiter c b = (none, c')) (h' : Reads delimiter c' back c'') :
    Reads delimiter c (b :: back) c'' :=
  (byte h).append h'

end Reads

section Steps

variable {delimiter : UInt8} (hd : Delimits delimiter) {c : Cursor} {b : UInt8}

/-- The reader stands where a field begins. -/
def Cursor.Begins (c : Cursor) : Prop :=
  (c.place = .recordStart ∨ c.place = .fieldStart) ∧ c.field = []

/-- The reader stands where the field that is being read may end. -/
def Cursor.MayEnd (c : Cursor) : Prop :=
  c.place ≠ .quoted

theorem isLineEnd_quoteByte : isLineEnd quoteByte = false := by decide

/-- A byte without a meaning of its own belongs to the field. -/
theorem step_bare (hplace : c.place ≠ .quoted ∧ c.place ≠ .quoteSeen)
    (hb : (b == delimiter || b == quoteByte || isLineEnd b) = false) :
    step delimiter c b = (none, (c.advance b).keep b) := by
  simp only [Bool.or_eq_false_iff, beq_eq_false_iff_ne] at hb
  obtain ⟨⟨hdelimiter, hquote⟩, hline⟩ := hb
  cases hc : c.place with
  | quoted => exact absurd hc hplace.1
  | quoteSeen => exact absurd hc hplace.2
  | recordStart | fieldStart | plain => simp [step, Cursor.advance, hc, hdelimiter, hquote, hline]

/-- A quote in front of a field opens it. -/
theorem step_open (h : c.Begins) :
    step delimiter c quoteByte = (none, { c.advance quoteByte with place := .quoted }) := by
  rcases h.1 with hc | hc <;> simp [step, Cursor.advance, hc, isLineEnd_quoteByte]

include hd in
/-- A delimiter ends a field. -/
theorem step_delimiter (h : c.MayEnd) : step delimiter c delimiter = (none, (c.advance delimiter).endField) := by
  have hquote := hd.not_quote
  have hline := hd.not_lineEnd
  cases hc : c.place with
  | quoted => exact absurd hc h
  | recordStart => simp [step, Cursor.advance, hc, hquote, hline]
  | fieldStart => simp [step, Cursor.advance, hc, hquote]
  | plain => simp [step, Cursor.advance, hc]
  | quoteSeen => simp [step, Cursor.advance, hc, hquote]

include hd in
/-- A line end ends the record. -/
theorem step_lineEnd (h : c.MayEnd) (hstart : c.place ≠ .recordStart) :
    step delimiter c 10 = (some (c.advance 10).record, .before (c.advance 10).offset (c.advance 10).line) := by
  have hne : (10 : UInt8) ≠ delimiter := by
    rintro rfl
    exact absurd hd.not_lineEnd (by decide)
  have hquote : (10 : UInt8) ≠ quoteByte := by decide
  have hline : isLineEnd 10 = true := by decide
  cases hc : c.place with
  | quoted => exact absurd hc h
  | recordStart => exact absurd hc hstart
  | fieldStart => simp [step, Cursor.advance, hc, hne, hquote, hline]
  | plain => simp [step, Cursor.advance, hc, hne, hline]
  | quoteSeen => simp [step, Cursor.advance, hc, hne, hquote, hline]

end Steps

section Fields

variable {delimiter : UInt8}

/-- Reading bytes without a meaning of their own collects them. -/
theorem exists_reads_bare {field : Bytes} (h : needsQuotes delimiter field = false) {c : Cursor}
    (hplace : c.place ≠ .quoted ∧ c.place ≠ .quoteSeen) :
    ∃ c', Reads delimiter c field c' ∧ c'.field = field.reverse ++ c.field ∧ c'.fields = c.fields ∧
      (c'.place = .plain ∨ field = [] ∧ c'.place = c.place) := by
  induction field generalizing c with
  | nil => exact ⟨c, .nil, rfl, rfl, Or.inr ⟨rfl, rfl⟩⟩
  | cons b field ih =>
    rw [needsQuotes, List.any_cons, Bool.or_eq_false_iff] at h
    have hkept : ((c.advance b).keep b).place ≠ .quoted ∧ ((c.advance b).keep b).place ≠ .quoteSeen := by
      simp [Cursor.keep]
    obtain ⟨c', hreads, hfield, hfields, hend⟩ := ih h.2 hkept
    refine ⟨c', .cons (step_bare hplace h.1) hreads, ?_, hfields, Or.inl ?_⟩
    · rw [hfield]
      simp [Cursor.keep, Cursor.advance]
    · rcases hend with hplain | ⟨-, hsame⟩
      · exact hplain
      · exact hsame

/-- Reading the content of a quoted field collects it, with one quote for two. -/
theorem exists_reads_content (delimiter : UInt8) (field : Bytes) {c : Cursor} (hplace : c.place = .quoted) :
    ∃ c', Reads delimiter c
        (field.flatMap fun b => if b = quoteByte then [quoteByte, quoteByte] else [b]) c' ∧
      c'.field = field.reverse ++ c.field ∧ c'.fields = c.fields ∧ c'.place = .quoted := by
  induction field generalizing c with
  | nil => exact ⟨c, .nil, rfl, rfl, hplace⟩
  | cons b field ih =>
    rw [List.flatMap_cons]
    by_cases hb : b = quoteByte
    · obtain ⟨c', hreads, hfield, hfields, hend⟩ :=
        ih (c := (({ c.advance quoteByte with place := .quoteSeen } : Cursor).advance quoteByte).keepQuoted quoteByte) rfl
      have hseen : step delimiter c quoteByte = (none, { c.advance quoteByte with place := .quoteSeen }) := by
        simp [step, Cursor.advance, hplace]
      rw [if_pos hb]
      refine ⟨c', .append (.cons hseen (.byte ?_)) hreads, ?_, hfields, hend⟩
      · simp [step, Cursor.advance]
      · rw [hfield, hb]
        simp [Cursor.keepQuoted, Cursor.advance]
    · obtain ⟨c', hreads, hfield, hfields, hend⟩ := ih (c := (c.advance b).keepQuoted b) rfl
      rw [if_neg hb]
      refine ⟨c', .cons ?_ hreads, ?_, hfields, hend⟩
      · simp [step, Cursor.advance, hplace, hb]
      · rw [hfield]
        simp [Cursor.keepQuoted, Cursor.advance]

/-- Reading a field between quotes collects it. -/
theorem exists_reads_quoteField (delimiter : UInt8) (field : Bytes) {c : Cursor} (h : c.Begins) :
    ∃ c', Reads delimiter c (quoteField field) c' ∧ c'.field = field.reverse ∧ c'.fields = c.fields ∧
      c'.place = .quoteSeen := by
  obtain ⟨c', hreads, hfield, hfields, hend⟩ :=
    exists_reads_content delimiter field (c := { c.advance quoteByte with place := .quoted }) rfl
  have hclose : step delimiter c' quoteByte = (none, { c'.advance quoteByte with place := .quoteSeen }) := by
    simp [step, Cursor.advance, hend]
  refine ⟨_, .append (.cons (step_open h) hreads) (.byte hclose), ?_, hfields, rfl⟩
  simpa [Cursor.advance, h.2] using hfield

/-- Reading a written field collects it; only an empty field outside of quotes leaves the reader in place. -/
theorem exists_reads_field (delimiter : UInt8) (field : Bytes) {c : Cursor} (h : c.Begins) :
    ∃ c', Reads delimiter c (writeField delimiter field) c' ∧ c'.field = field.reverse ∧ c'.fields = c.fields ∧
      c'.MayEnd ∧ (c'.place = .recordStart → field = [] ∧ c.place = .recordStart) := by
  unfold writeField
  split
  · obtain ⟨c', hreads, hfield, hfields, hend⟩ := exists_reads_quoteField delimiter field h
    exact ⟨c', hreads, hfield, hfields, by simp [Cursor.MayEnd, hend], by simp [hend]⟩
  · rename_i hbare
    have hplace : c.place ≠ .quoted ∧ c.place ≠ .quoteSeen := by
      rcases h.1 with hc | hc <;> simp [hc]
    obtain ⟨c', hreads, hfield, hfields, hend⟩ := exists_reads_bare (Bool.not_eq_true _ ▸ hbare) hplace
    rw [h.2, List.append_nil] at hfield
    refine ⟨c', hreads, hfield, hfields, ?_, ?_⟩
    · rcases hend with hplain | ⟨-, hsame⟩
      · simp [Cursor.MayEnd, hplain]
      · simpa [Cursor.MayEnd, hsame] using hplace.1
    · intro hstart
      rcases hend with hplain | ⟨hempty, hsame⟩
      · rw [hplain] at hstart
        cases hstart
      · exact ⟨hempty, hsame ▸ hstart⟩

variable (hd : Delimits delimiter)

include hd in
/-- Reading the fields of a record with delimiters between them collects all fields. -/
theorem exists_reads_fields (field : Bytes) (more : List Bytes) {c : Cursor} (h : c.Begins) :
    ∃ c', Reads delimiter c ([delimiter].intercalate ((field :: more).map (writeField delimiter))) c' ∧
      c'.field.reverse :: c'.fields = (field :: more).reverse ++ c.fields ∧
      c'.MayEnd ∧ (c'.place = .recordStart → field :: more = [[]] ∧ c.place = .recordStart) := by
  induction more generalizing field c with
  | nil =>
    obtain ⟨c', hreads, hfield, hfields, hend, hstart⟩ := exists_reads_field delimiter field h
    refine ⟨c', ?_, ?_, hend, fun hplace => ?_⟩
    · rw [List.map_singleton, List.intercalate_singleton]
      exact hreads
    · rw [hfield, hfields, List.reverse_reverse]
      rfl
    · obtain ⟨rfl, hc⟩ := hstart hplace
      exact ⟨rfl, hc⟩
  | cons next more ih =>
    obtain ⟨c₁, hreads₁, hfield₁, hfields₁, hend₁, -⟩ := exists_reads_field delimiter field h
    obtain ⟨c', hreads, hall, hend, hstart⟩ := ih next (c := (c₁.advance delimiter).endField) ⟨Or.inr rfl, rfl⟩
    refine ⟨c', ?_, ?_, hend, ?_⟩
    · rw [List.map_cons, List.map_cons, List.intercalate_cons_cons]
      exact (hreads₁.append (.byte (step_delimiter hd hend₁))).append hreads
    · rw [hall]
      simp [Cursor.endField, Cursor.advance, hfield₁, hfields₁]
    · intro hplace
      exact absurd (hstart hplace).2 (by simp [Cursor.endField])

/-- A record that is not a single empty field is written field by field. -/
theorem writeRecord_eq {fields : List Bytes} (hne : fields ≠ []) (hempty : fields ≠ [[]]) :
    writeRecord delimiter fields = [delimiter].intercalate (fields.map (writeField delimiter)) ++ [10] := by
  unfold writeRecord
  split
  · exact absurd rfl hne
  · exact absurd rfl hempty
  · rfl

include hd in
/-- Reading a written record ends it with the fields that it was made of. -/
theorem recordsFrom_writeRecord {fields : List Bytes} (hne : fields ≠ []) (offset line : Nat) (whole : Bool)
    (rest : Bytes) : ∃ r offset' line', r.fields = fields ∧
      recordsFrom delimiter whole (.before offset line) (writeRecord delimiter fields ++ rest) =
        r :: recordsFrom delimiter whole (.before offset' line') rest := by
  have hbegins : (Cursor.before offset line).Begins := ⟨Or.inl rfl, rfl⟩
  have hends : ∀ {c : Cursor}, c.MayEnd → c.place ≠ .recordStart →
      recordsFrom delimiter whole c (10 :: rest) = (c.advance 10).record ::
        recordsFrom delimiter whole (.before (c.advance 10).offset (c.advance 10).line) rest := by
    intro c hend hstart
    rw [recordsFrom, step_lineEnd hd hend hstart]
  by_cases hempty : fields = [[]]
  · subst hempty
    obtain ⟨c, hreads, hfield, hfields, hplace⟩ := exists_reads_quoteField delimiter [] hbegins
    refine ⟨(c.advance 10).record, (c.advance 10).offset, (c.advance 10).line, ?_, ?_⟩
    · simp [Cursor.record, Cursor.advance, hfield, hfields, Cursor.before]
    · rw [← hends (by simp [Cursor.MayEnd, hplace]) (by simp [hplace])]
      exact hreads whole (10 :: rest)
  · obtain ⟨field, more, rfl⟩ := List.exists_cons_of_ne_nil hne
    obtain ⟨c, hreads, hall, hend, hstart⟩ := exists_reads_fields hd field more hbegins
    refine ⟨(c.advance 10).record, (c.advance 10).offset, (c.advance 10).line, ?_, ?_⟩
    · have hfields : (c.advance 10).record.fields = (c.field.reverse :: c.fields).reverse := rfl
      rw [hfields, hall]
      simp [Cursor.before]
    · rw [← hends hend fun h => hempty (hstart h).1, ← hreads whole (10 :: rest), writeRecord_eq hne hempty,
        List.append_assoc]
      rfl

include hd in
/-- Reading written records gives their fields. -/
theorem map_fields_recordsFrom {records : List (List Bytes)} (hne : ∀ fields ∈ records, fields ≠ [])
    (offset line : Nat) (whole : Bool) :
    (recordsFrom delimiter whole (.before offset line) (records.flatMap (writeRecord delimiter))).map
      RawRecord.fields = records := by
  induction records generalizing offset line with
  | nil => simp [recordsFrom, Cursor.before]
  | cons fields records ih =>
    obtain ⟨r, offset', line', hfields, hread⟩ :=
      recordsFrom_writeRecord hd (hne fields List.mem_cons_self) offset line whole
        (records.flatMap (writeRecord delimiter))
    rw [List.flatMap_cons, hread, List.map_cons, hfields,
      ih (fun fields h => hne fields (List.mem_cons_of_mem _ h))]

end Fields

end Csv
end TableFlow
