import Mathlib.Data.List.Forall2
import TableFlow.Proofs.Format.Records

/-!
# Tables gathered from objects

Objects need not have the same keys.  The table that is read from them has a row for each object and a column for
every key that occurs, and a cell holds what its object has for the key of its column, which may be nothing.  Lines of
objects, with blank lines anywhere between them, and an array of the objects are read as the same table.

Main results:

- Definition `Json.Ordered`: the objects in a value, however deep, have their members in key order.
- Definition `Gathers`: the table holds the objects.
- Theorem `columns_gathered`: the keys stand in the order in which they appear first.
- Theorem `lineObjects_of_holds`: lines are read as the objects that they hold.
- Theorem `objects_gathered`: both layouts of objects are read as the table that holds them.
-/

namespace TableFlow

open Text

namespace Json

/-! ## Values in key order -/

mutual

/-- Every object in the value has its members in the order of their keys, each key once. -/
def Ordered : Json → Prop
  | .array items => OrderedItems items
  | .object members => Ascending members ∧ OrderedMembers members
  | .null => True
  | .bool _ => True
  | .number _ => True
  | .string _ => True

/-- Every item is in order. -/
def OrderedItems : List Json → Prop
  | [] => True
  | item :: rest => Ordered item ∧ OrderedItems rest

/-- The value of every member is in order. -/
def OrderedMembers : List (String × Json) → Prop
  | [] => True
  | (_, value) :: rest => Ordered value ∧ OrderedMembers rest

end

mutual

/-- A value in order is in canonical form. -/
theorem canonical_of_ordered : ∀ {j : Json}, j.Ordered → j.canonical = j
  | .null, _ => by rw [canonical]
  | .bool _, _ => by rw [canonical]
  | .number _, _ => by rw [canonical]
  | .string _, _ => by rw [canonical]
  | .array _, h => by rw [canonical, canonicalItems_of_ordered h]
  | .object _, h => by rw [canonical, canonicalMembers_of_ordered h.2, sortKeys_of_ascending h.1]

theorem canonicalItems_of_ordered : ∀ {items : List Json}, OrderedItems items → canonicalItems items = items
  | [], _ => by rw [canonicalItems]
  | _ :: _, h => by rw [canonicalItems, canonical_of_ordered h.1, canonicalItems_of_ordered h.2]

theorem canonicalMembers_of_ordered : ∀ {members : List (String × Json)}, OrderedMembers members →
    canonicalMembers members = members
  | [], _ => by rw [canonicalMembers]
  | (_, value) :: _, h => by
    rw [canonicalMembers, canonicalMembers_of_ordered h.2, canonical_of_ordered (show value.Ordered from h.1)]

end

end Json

namespace Records

/-! ## Objects and their lines -/

/-- An object as it is held: everything in it is in key order, its numbers are such that JSON has them, and its values
are nested no deeper than this. -/
structure IsObject (depth : Nat) (fields : Fields) : Prop where
  ordered : (Json.object fields).Ordered
  readable : Json.ReadableMembers depth fields

/-- The lines hold the objects, one on a line and in this order, and are blank otherwise. -/
inductive Holds : List (List Char) → List Fields → Prop where
  | nil : Holds [] []
  | blank {line : List Char} {ls : List (List Char)} {objects : List Fields} (no_newline : '\n' ∉ line)
      (blank : ∀ c ∈ line, isBlank c = true) (rest : Holds ls objects) : Holds (line :: ls) objects
  | object {ls : List (List Char)} {objects : List Fields} (fields : Fields) (rest : Holds ls objects) :
      Holds ((Json.object fields).compactChars :: ls) (fields :: objects)

variable {config : Config} {depth : Nat} {fields : Fields} {objects : List Fields}

theorem IsObject.canonical (h : IsObject depth fields) : (Json.object fields).canonical = .object fields :=
  Json.canonical_of_ordered h.ordered

theorem IsObject.ascending (h : IsObject depth fields) : Ascending fields :=
  h.ordered.1

/-- An object whose values are nested so deep can be read where one level more is left. -/
theorem IsObject.readable_object (h : IsObject depth fields) {deeper : Nat} (hdeeper : depth ≤ deeper) :
    (Json.object fields).Readable (deeper + 1) :=
  h.readable.mono hdeeper

theorem IsObject.closed (h : IsObject depth fields) : Closed (Json.object fields).compactChars :=
  (Json.printable_compactChars (h.readable_object (Nat.le_refl depth))).closed

/-- A blank line holds no object. -/
theorem lineObjects_blank {line : List Char} (h : ∀ c ∈ line, isBlank c = true) (number : Nat)
    (rest : List Bytes) : lineObjects number (encode line :: rest) = lineObjects (number + 1) rest := by
  simp only [lineObjects, decode_encode, trimChars_eq_nil h]
  rfl

/-- An object is spelled by some characters. -/
theorem compactChars_object_ne_nil (fields : Fields) : (Json.object fields).compactChars ≠ [] := by
  intro hnil
  have hblank := trimChars_object fields
  rw [hnil] at hblank
  cases hblank

/-- Lines are read as the objects that they hold. -/
theorem lineObjects_of_holds (hdepth : depth ≤ 126) {ls : List (List Char)} (h : Holds ls objects)
    (hobjects : ∀ fields ∈ objects, IsObject depth fields) (number : Nat) :
    lineObjects number ((lines (['\n'].intercalate ls)).map encode) = .ok objects := by
  induction h generalizing number with
  | nil => rfl
  | @blank line ls objects hnewline hblank rest ih =>
    by_cases hempty : line = [] ∧ ls = []
    · obtain ⟨rfl, rfl⟩ := hempty
      exact ih hobjects number
    · have hne : line ≠ [] ∨ ls ≠ [] := by rwa [← not_and_or]
      obtain ⟨cut, hcut, -, hlines⟩ := exists_lines_intercalate hnewline ls hne
      rw [hlines, List.map_cons, lineObjects_blank fun c hc => hblank c (hcut.subset hc)]
      exact ih hobjects (number + 1)
  | @object ls objects fields rest ih =>
    obtain ⟨hfields, hrest⟩ := List.forall_mem_cons.1 hobjects
    have hclosed := hfields.closed
    obtain ⟨cut, -, hwhole, hlines⟩ :=
      exists_lines_intercalate hclosed.no_newline ls (Or.inl (compactChars_object_ne_nil fields))
    rw [hlines, hwhole hclosed.no_return, List.map_cons,
      lineObjects_object (hfields.readable_object hdepth) hfields.canonical, ih hrest (number + 1)]
    rfl

/-! ## Columns -/

/-- The number of objects in front of the first one that has the key. -/
def firstWith (objects : List Fields) (key : String) : Nat :=
  objects.findIdx fun fields => (fields.map Prod.fst).contains key

/-- The key appears earlier than the other: in an earlier object, or in the same object with bytes that are less. -/
def Earlier (objects : List Fields) (key other : String) : Prop :=
  firstWith objects key < firstWith objects other ∨
    firstWith objects key = firstWith objects other ∧ bytes key < bytes other

section

variable {first : Fields} {rest : List Fields} {key : String}

theorem firstWith_of_mem (h : key ∈ first.map Prod.fst) : firstWith (first :: rest) key = 0 := by
  have hcontains : (first.map Prod.fst).contains key = true := by rwa [List.contains_iff_mem]
  rw [firstWith, List.findIdx_cons, hcontains]
  rfl

theorem firstWith_of_not_mem (h : key ∉ first.map Prod.fst) :
    firstWith (first :: rest) key = firstWith rest key + 1 := by
  have hcontains : (first.map Prod.fst).contains key = false := by
    rwa [← Bool.not_eq_true, List.contains_iff_mem]
  rw [firstWith, List.findIdx_cons, hcontains]
  rfl

end

/-- The keys of objects that are not known stand behind the known ones, in the order in which they appear first. -/
theorem exists_keysAfter (h : ∀ fields ∈ objects, Ascending fields) (known : List String) :
    ∃ new, keysAfter known objects = known ++ new ∧
      (∀ key, key ∈ new ↔ key ∉ known ∧ ∃ fields ∈ objects, key ∈ fields.map Prod.fst) ∧
      new.Pairwise (Earlier objects) := by
  induction objects generalizing known with
  | nil => exact ⟨[], by simp [keysAfter], by simp, .nil⟩
  | cons first rest ih =>
    obtain ⟨hfirst, hrest⟩ := List.forall_mem_cons.1 h
    have hnodup : (first.map Prod.fst).Nodup := nodup_of_pairwise_lt hfirst.map_fst
    let added := (first.map Prod.fst).filter (· ∉ known)
    obtain ⟨later, hlater, hmem, hpairwise⟩ := ih hrest (known ++ added)
    have hadded : ∀ key, key ∈ added ↔ key ∈ first.map Prod.fst ∧ key ∉ known := by
      intro key
      rw [List.mem_filter, decide_eq_true_iff]
    -- What is new in the first object is found there, and what is new behind it is not.
    have hhere : ∀ key ∈ added, firstWith (first :: rest) key = 0 :=
      fun key hkey => firstWith_of_mem ((hadded key).1 hkey).1
    have hthere : ∀ key ∈ later, firstWith (first :: rest) key = firstWith rest key + 1 := by
      intro key hkey
      obtain ⟨hknown, hadded'⟩ := not_or.1 (mt List.mem_append.2 ((hmem key).1 hkey).1)
      exact firstWith_of_not_mem fun hfound => hadded' ((hadded key).2 ⟨hfound, hknown⟩)
    refine ⟨added ++ later, ?_, ?_, List.pairwise_append.2 ⟨?_, ?_, ?_⟩⟩
    · rw [keysAfter, keys_of_object hnodup, hlater, List.append_assoc]
    · intro key
      simp only [List.mem_append, hmem, hadded, List.mem_cons, exists_eq_or_imp]
      tauto
    · refine (hfirst.map_fst.filter _).imp_of_mem ?_
      intro key other hkey hother hlt
      exact Or.inr ⟨(hhere key hkey).trans (hhere other hother).symm, bytes_lt_bytes hlt⟩
    · refine hpairwise.imp_of_mem ?_
      intro key other hkey hother hearlier
      rw [Earlier, hthere key hkey, hthere other hother]
      exact hearlier.imp Nat.succ_lt_succ (And.imp_left (congrArg (· + 1)))
    · intro key hkey other hother
      rw [Earlier, hhere key hkey, hthere other hother]
      exact Or.inl (Nat.succ_pos _)

/-- The columns are the keys of the objects, in the order in which they appear first. -/
theorem columns_gathered (h : ∀ fields ∈ objects, Ascending fields) :
    (∀ key, key ∈ keysAfter [] objects ↔ ∃ fields ∈ objects, key ∈ fields.map Prod.fst) ∧
      (keysAfter [] objects).Pairwise (Earlier objects) := by
  obtain ⟨new, hnew, hmem, hpairwise⟩ := exists_keysAfter h []
  rw [hnew, List.nil_append]
  exact ⟨fun key => by rw [hmem]; simp, hpairwise⟩

theorem Earlier.ne {key other : String} (h : Earlier objects key other) : key ≠ other := by
  rintro rfl
  rcases h with hlt | ⟨-, hlt⟩
  · exact Nat.lt_irrefl _ hlt
  · exact List.lt_irrefl _ hlt

/-! ## Cells -/

/-- The cell that a value becomes which an object has for a key, or that it becomes if there is no such value. -/
inductive Becomes (config : Config) : Option Json → Cell → Prop where
  | absent : Becomes config none .null
  | marker (s : String) (missing : trim s ∈ config.missingMarkers) : Becomes config (some (.string s)) .null
  | text (s : String) (present : trim s ∉ config.missingMarkers) : Becomes config (some (.string s)) (.string s)
  | array (items : List Json) : Becomes config (some (.array items)) (.string (Json.array items).compact)
  | object (members : Fields) : Becomes config (some (.object members)) (.string (Json.object members).compact)
  | null : Becomes config (some .null) .null
  | bool (b : Bool) : Becomes config (some (.bool b)) (.bool b)
  | number (n : Number) : Becomes config (some (.number n)) (.number n)

theorem becomes_cell (config : Config) (value : Option Json) :
    Becomes config value (cell config (value.getD .null)) := by
  cases value with
  | none => exact .absent
  | some value =>
    cases value with
    | string s =>
      by_cases h : trim s ∈ config.missingMarkers
      · have hmissing : config.isMissing s = true := by rwa [Config.isMissing, List.contains_iff_mem]
        simpa [cell, hmissing] using Becomes.marker s h
      · have hpresent : config.isMissing s = false := by
          rwa [Config.isMissing, ← Bool.not_eq_true, List.contains_iff_mem]
        simpa [cell, hpresent] using Becomes.text s h
    | null => exact .null
    | bool b => exact .bool b
    | number n => exact .number n
    | array items => exact .array items
    | object members => exact .object members

/-! ## Tables -/

/-- The table holds the objects. -/
structure Gathers (config : Config) (objects : List Fields) (t : Table) : Prop where
  /-- The columns are the keys of the objects. -/
  columns : ∀ key, key ∈ t.columns ↔ ∃ fields ∈ objects, key ∈ fields.map Prod.fst
  /-- Each key is a column once. -/
  nodup : t.columns.Nodup
  /-- The columns stand in the order in which the keys appear first. -/
  ordered : t.columns.Pairwise (Earlier objects)
  /-- There is one row for each object, in their order, and in it one cell for each column, which is what the object
  has for the column. -/
  rows : objects.Forall₂ (fun fields row =>
    t.columns.Forall₂ (fun key c => Becomes config (fields.lookup key) c) row) t.rows

/-- The table of objects can be made, and holds them. -/
theorem toTable_gathers (config : Config) (h : ∀ fields ∈ objects, Ascending fields) :
    ∃ t, toTable config objects = .ok t ∧ Gathers config objects t := by
  obtain ⟨hcolumns, hordered⟩ := columns_gathered h
  have hnodup : (keysAfter [] objects).Nodup := hordered.imp Earlier.ne
  refine ⟨⟨keysAfter [] objects, objects.map (row config (keysAfter [] objects))⟩, ?_, ?_⟩
  · refine Table.ofRows_eq_ok_iff.2 ⟨rfl, hnodup, ?_⟩
    intro cells hcells
    obtain ⟨fields, -, rfl⟩ := List.mem_map.1 hcells
    exact List.length_map _
  · refine ⟨hcolumns, hnodup, hordered, ?_⟩
    rw [List.forall₂_map_right_iff, List.forall₂_same]
    intro fields _
    rw [row, List.forall₂_map_right_iff, List.forall₂_same]
    intro key _
    exact becomes_cell config (fields.lookup key)

/-- Objects that are nested no deeper than can be read are read as the table that holds them, whatever keys each of
them has: from lines with one object each and blank lines anywhere between, and from the array of the objects, whether
it is written on one line or over several. -/
theorem objects_gathered (config : Config) (hdepth : depth ≤ 125)
    (hobjects : ∀ fields ∈ objects, IsObject depth fields) {ls : List (List Char)} (hlines : Holds ls objects) :
    ∃ t, readLines config ⟨encode (['\n'].intercalate ls), none⟩ = .ok t ∧
      readArray config ⟨encode (Json.array (objects.map Json.object)).compactChars, none⟩ = .ok t ∧
      readArray config ⟨encode ((Json.array (objects.map Json.object)).prettyChars 0), none⟩ = .ok t ∧
      Gathers config objects t := by
  have hcanonical : ∀ fields ∈ objects, (Json.object fields).canonical = .object fields :=
    fun fields hfields => (hobjects fields hfields).canonical
  have hreadable : (Json.array (objects.map Json.object)).Readable Json.maxDepth := by
    rw [Json.maxDepth, Json.Readable, Json.readableItems_iff, List.forall_mem_map]
    exact fun fields hfields => (hobjects fields hfields).readable_object hdepth
  obtain ⟨t, htable, hgathers⟩ := toTable_gathers config fun fields hfields => (hobjects fields hfields).ascending
  refine ⟨t, ?_, ?_, ?_, hgathers⟩
  · rw [readLines_objects (lineObjects_of_holds (Nat.le_succ_of_le hdepth) hlines hobjects 1), htable]
  · rw [readArray_objects (Json.parseChars?_compactChars hreadable) hcanonical, htable]
  · rw [readArray_objects (Json.parseChars?_prettyChars hreadable) hcanonical, htable]

/-- Objects with everything that needs care: a marker between blanks, a key that comes late but is the least, nested
values, a null, and no key at all. -/
def mixedObjects : List Fields :=
  [[("a", .string " NA\t"), ("b", .number (.int (-1)))], [],
    [("\"0\"", .array [.object [("k", .null), ("\u20ac", .bool true)]]), ("b", .string "\r\n"), ("c", .null)]]

/-- The lines of the objects, and blank lines with blanks of several kinds. -/
def mixedLines : List (List Char) :=
  mixedObjects.flatMap fun fields => [['\u00a0', ' ', '\r'], (Json.object fields).compactChars, []]

theorem isObject_of_mem_mixedObjects : ∀ fields ∈ mixedObjects, IsObject 2 fields := by
  have hkeys : ∀ fields ∈ mixedObjects, (fields.map Prod.fst).Pairwise (· < ·) := by decide
  have hnested : ["k", "\u20ac"].Pairwise (· < ·) := by decide
  intro fields hfields
  refine ⟨⟨List.pairwise_map.1 (hkeys fields hfields), ?_⟩, ?_⟩
  · simp only [mixedObjects, List.mem_cons, List.not_mem_nil, or_false] at hfields
    rcases hfields with rfl | rfl | rfl
    · simp [Json.OrderedMembers, Json.Ordered]
    · simp [Json.OrderedMembers]
    · have hinner : Ascending [("k", Json.null), ("\u20ac", .bool true)] := List.pairwise_map.1 hnested
      simp [Json.OrderedMembers, Json.OrderedItems, Json.Ordered, hinner]
  · simp only [mixedObjects, List.mem_cons, List.not_mem_nil, or_false] at hfields
    rcases hfields with rfl | rfl | rfl
    · simp [Json.ReadableMembers, Json.Readable, Number.Valid, Number.fits, wordBound, signBound]
    · simp [Json.ReadableMembers]
    · simp [Json.ReadableMembers, Json.ReadableItems, Json.Readable]

/-- Blank lines around each object make lines that hold the objects. -/
theorem holds_mixedLines : Holds mixedLines mixedObjects := by
  have hblank : ∀ c ∈ ['\u00a0', ' ', '\r'], isBlank c = true := by
    intro c hc
    simp only [List.mem_cons, List.not_mem_nil, or_false] at hc
    rcases hc with rfl | rfl | rfl <;> rfl
  rw [mixedLines]
  generalize mixedObjects = objects
  induction objects with
  | nil => exact .nil
  | cons fields objects ih =>
    rw [List.flatMap_cons]
    exact .blank (by decide) hblank (.object fields (.blank (by simp) (by simp) ih))

/-- Both layouts of these objects are read as the table that holds them. -/
theorem mixedObjects_gathered :
    ∃ t, readLines {} ⟨encode (['\n'].intercalate mixedLines), none⟩ = .ok t ∧
      readArray {} ⟨encode (Json.array (mixedObjects.map Json.object)).compactChars, none⟩ = .ok t ∧
      readArray {} ⟨encode ((Json.array (mixedObjects.map Json.object)).prettyChars 0), none⟩ = .ok t ∧
      Gathers {} mixedObjects t :=
  objects_gathered {} (by decide) isObject_of_mem_mixedObjects holds_mixedLines

/-- The keys of the first object come first, and the keys of each object in key order. -/
example : keysAfter [] mixedObjects = ["a", "b", "\"0\"", "c"] := by decide

end Records
end TableFlow
