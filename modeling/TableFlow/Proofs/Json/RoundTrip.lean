import TableFlow.Proofs.Json.Scalar

/-!
# Written JSON is read back

The two layouts of a value differ only in the blanks between its tokens.  A style says where blanks stand; both
layouts are one printer with a style each, and the reader gives back every value that was written in a style made
of blanks, up to the depth that it accepts.

Main results:

- Definition `Style.chars`: a value in a style.
- Theorems `compactChars_eq` and `prettyChars_eq`: the two layouts are styles.
- Definition `Readable`: the values that the reader accepts at a depth.
- Theorem `reads`: a value in a style is read back from the front of a text.
- Theorems `parseChars?_compactChars` and `parseChars?_prettyChars`: written values are read back.
-/

namespace TableFlow
namespace Json

open Text

/-! ## Styles -/

/-- The blanks between the tokens of a value. -/
structure Style where
  /-- After an opening bracket or a comma, and before a closing bracket, by level. -/
  gap : Nat → List Char
  /-- After a colon. -/
  colon : List Char

/-- No blanks. -/
def Style.compact : Style := ⟨fun _ => [], []⟩

/-- A new line for every item, and a blank after each colon. -/
def Style.pretty : Style := ⟨newLine, [' ']⟩

/-- The blanks of a style are blanks of JSON. -/
structure Style.Blank (style : Style) : Prop where
  gap : ∀ level, ∀ c ∈ style.gap level, isSpace c = true
  colon : ∀ c ∈ style.colon, isSpace c = true

mutual

/-- A value in a style. -/
def Style.chars (style : Style) (level : Nat) : Json → List Char
  | .null => ['n', 'u', 'l', 'l']
  | .bool true => ['t', 'r', 'u', 'e']
  | .bool false => ['f', 'a', 'l', 's', 'e']
  | .number n => n.chars
  | .string s => stringChars s
  | .array [] => ['[', ']']
  | .array (item :: rest) =>
    '[' :: style.gap (level + 1) ++ style.chars (level + 1) item ++ style.items level rest
  | .object [] => ['{', '}']
  | .object ((key, value) :: rest) =>
    '{' :: style.gap (level + 1) ++ stringChars key ++ ':' :: style.colon ++
      style.chars (level + 1) value ++ style.members level rest

/-- The items after the first, and the end of the array. -/
def Style.items (style : Style) (level : Nat) : List Json → List Char
  | [] => style.gap level ++ [']']
  | item :: rest =>
    ',' :: style.gap (level + 1) ++ style.chars (level + 1) item ++ style.items level rest

/-- The members after the first, and the end of the object. -/
def Style.members (style : Style) (level : Nat) : List (String × Json) → List Char
  | [] => style.gap level ++ ['}']
  | (key, value) :: rest =>
    ',' :: style.gap (level + 1) ++ stringChars key ++ ':' :: style.colon ++
      style.chars (level + 1) value ++ style.members level rest

end

mutual

/-- The layout on one line is the style without blanks. -/
theorem compactChars_eq (level : Nat) : ∀ j : Json, j.compactChars = Style.compact.chars level j
  | .null => rfl
  | .bool true => rfl
  | .bool false => rfl
  | .number n => rfl
  | .string s => rfl
  | .array [] => rfl
  | .array (item :: rest) => by
    rw [compactChars, Style.chars, compactChars_eq (level + 1) item, compactItems_eq level rest]
    rfl
  | .object [] => rfl
  | .object ((key, value) :: rest) => by
    rw [compactChars, Style.chars, compactChars_eq (level + 1) value, compactMembers_eq level rest]
    simp [Style.compact]

theorem compactItems_eq (level : Nat) : ∀ items, compactItems items = Style.compact.items level items
  | [] => rfl
  | item :: rest => by
    rw [compactItems, Style.items, compactChars_eq (level + 1) item, compactItems_eq level rest]
    rfl

theorem compactMembers_eq (level : Nat) : ∀ members, compactMembers members = Style.compact.members level members
  | [] => rfl
  | (key, value) :: rest => by
    rw [compactMembers, Style.members, compactChars_eq (level + 1) value, compactMembers_eq level rest]
    simp [Style.compact]

end

mutual

/-- The layout over several lines is the style with a new line for every item. -/
theorem prettyChars_eq (level : Nat) : ∀ j : Json, j.prettyChars level = Style.pretty.chars level j
  | .null => rfl
  | .bool true => rfl
  | .bool false => rfl
  | .number n => rfl
  | .string s => rfl
  | .array [] => rfl
  | .array (item :: rest) => by
    rw [prettyChars, Style.chars, prettyChars_eq (level + 1) item, prettyItems_eq level rest]
    rfl
  | .object [] => rfl
  | .object ((key, value) :: rest) => by
    rw [prettyChars, Style.chars, prettyChars_eq (level + 1) value, prettyMembers_eq level rest]
    simp [Style.pretty]

theorem prettyItems_eq (level : Nat) : ∀ items, prettyItems level items = Style.pretty.items level items
  | [] => rfl
  | item :: rest => by
    rw [prettyItems, Style.items, prettyChars_eq (level + 1) item, prettyItems_eq level rest]
    rfl

theorem prettyMembers_eq (level : Nat) :
    ∀ members, prettyMembers level members = Style.pretty.members level members
  | [] => rfl
  | (key, value) :: rest => by
    rw [prettyMembers, Style.members, prettyChars_eq (level + 1) value, prettyMembers_eq level rest]
    simp [Style.pretty]

end

theorem Style.blank_compact : Style.compact.Blank where
  gap := by simp [Style.compact]
  colon := by simp [Style.compact]

theorem Style.blank_pretty : Style.pretty.Blank := by
  refine ⟨fun level c hc => ?_, fun c hc => ?_⟩
  · rcases List.mem_cons.1 hc with rfl | hc
    · decide
    · rw [List.eq_of_mem_replicate hc]
      decide
  · rw [List.mem_singleton.1 hc]
    decide

/-! ## Values that can be read -/

mutual

/-- The reader accepts the value when this many levels of nesting are left. -/
def Readable : (depth : Nat) → Json → Prop
  | _, .null => True
  | _, .bool _ => True
  | _, .number n => n.Valid
  | _, .string _ => True
  | 0, .array _ => False
  | depth + 1, .array items => ReadableItems depth items
  | 0, .object _ => False
  | depth + 1, .object members => ReadableMembers depth members

/-- The reader accepts every item. -/
def ReadableItems (depth : Nat) : List Json → Prop
  | [] => True
  | item :: rest => Readable depth item ∧ ReadableItems depth rest

/-- The reader accepts the value of every member. -/
def ReadableMembers (depth : Nat) : List (String × Json) → Prop
  | [] => True
  | (_, value) :: rest => Readable depth value ∧ ReadableMembers depth rest

end

theorem readableItems_iff {depth : Nat} {items : List Json} :
    ReadableItems depth items ↔ ∀ item ∈ items, Readable depth item := by
  induction items with
  | nil => simp [ReadableItems]
  | cons item rest ih => rw [ReadableItems, ih, List.forall_mem_cons]

theorem readableMembers_iff {depth : Nat} {members : List (String × Json)} :
    ReadableMembers depth members ↔ ∀ member ∈ members, Readable depth member.2 := by
  induction members with
  | nil => simp [ReadableMembers]
  | cons member rest ih =>
    obtain ⟨key, value⟩ := member
    rw [ReadableMembers, ih, List.forall_mem_cons]

mutual

/-- What the reader accepts is accepted when more levels are left. -/
theorem Readable.mono : ∀ {depth deeper : Nat} {j : Json}, depth ≤ deeper → j.Readable depth → j.Readable deeper
  | _, _, .null, _, _ => by simp [Readable]
  | _, _, .bool _, _, _ => by simp [Readable]
  | _, _, .number _, _, h => by simpa [Readable] using h
  | _, _, .string _, _, _ => by simp [Readable]
  | _ + 1, _ + 1, .array _, hle, h => ReadableItems.mono (Nat.le_of_succ_le_succ hle) h
  | _ + 1, _ + 1, .object _, hle, h => ReadableMembers.mono (Nat.le_of_succ_le_succ hle) h

theorem ReadableItems.mono : ∀ {depth deeper : Nat} {items : List Json}, depth ≤ deeper →
    ReadableItems depth items → ReadableItems deeper items
  | _, _, [], _, _ => by simp [ReadableItems]
  | _, _, _ :: _, hle, h => ⟨Readable.mono hle h.1, ReadableItems.mono hle h.2⟩

theorem ReadableMembers.mono : ∀ {depth deeper : Nat} {members : List (String × Json)}, depth ≤ deeper →
    ReadableMembers depth members → ReadableMembers deeper members
  | _, _, [], _, _ => by simp [ReadableMembers]
  | _, _, (_, _) :: _, hle, h => ⟨Readable.mono hle h.1, ReadableMembers.mono hle h.2⟩

end

/-! ## Blanks -/

/-- Blanks in front are skipped. -/
theorem skip_blanks {blanks : List Char} (h : ∀ c ∈ blanks, isSpace c = true) (rest : List Char) :
    skip (blanks ++ rest) = skip rest :=
  List.dropWhile_append_of_pos h

theorem skip_cons {c : Char} (h : isSpace c = false) (rest : List Char) : skip (c :: rest) = c :: rest := by
  simp [skip, h]

theorem skip_skip (s : List Char) : skip (skip s) = skip s :=
  List.dropWhile_idempotent isSpace s

/-- Reading a value starts after the blanks. -/
theorem value?_skip (fuel depth : Nat) (s : List Char) : value? fuel depth (skip s) = value? fuel depth s := by
  cases fuel with
  | zero => rw [value?, value?]
  | succ fuel => rw [value?, value?, skip_skip]

theorem value?_blanks {blanks : List Char} (h : ∀ c ∈ blanks, isSpace c = true) (fuel depth : Nat)
    (rest : List Char) : value? fuel depth (blanks ++ rest) = value? fuel depth rest := by
  rw [← value?_skip, skip_blanks h, value?_skip]

/-- A blank or a comma or a bracket ends a number. -/
theorem endsNumber_cons {c : Char} (h : isSpace c = true ∨ c ∈ [',', ']', '}']) (rest : List Char) :
    EndsNumber (c :: rest) := by
  rintro d more heq
  obtain ⟨rfl, -⟩ := List.cons.inj heq
  simp only [isSpace, Bool.or_eq_true, beq_iff_eq, List.mem_cons, List.not_mem_nil, or_false] at h
  rcases h with ((((rfl | rfl) | rfl) | rfl) | rfl | rfl | rfl) <;> decide

theorem endsNumber_append {blanks : List Char} (h : ∀ c ∈ blanks, isSpace c = true) {rest : List Char}
    (hrest : EndsNumber rest) : EndsNumber (blanks ++ rest) := by
  cases blanks with
  | nil => exact hrest
  | cons c blanks => exact endsNumber_cons (Or.inl (h c List.mem_cons_self)) _

/-! ## Reading -/

variable {style : Style}

/-- A value in the style is read back from the front of a text. -/
def Reads (style : Style) (j : Json) : Prop :=
  ∀ level depth fuel rest, j.Readable depth → EndsNumber rest → 2 * (style.chars level j).length ≤ fuel →
    value? fuel depth (style.chars level j ++ rest) = some (j, rest)

theorem endsNumber_items (hs : style.Blank) (level : Nat) (items : List Json) (rest : List Char) :
    EndsNumber (style.items level items ++ rest) := by
  cases items with
  | nil =>
    rw [Style.items, List.append_assoc]
    exact endsNumber_append (hs.gap level) (endsNumber_cons (Or.inr (by simp)) _)
  | cons item items => exact endsNumber_cons (Or.inr (by simp)) _

theorem endsNumber_members (hs : style.Blank) (level : Nat) (members : List (String × Json)) (rest : List Char) :
    EndsNumber (style.members level members ++ rest) := by
  cases members with
  | nil =>
    rw [Style.members, List.append_assoc]
    exact endsNumber_append (hs.gap level) (endsNumber_cons (Or.inr (by simp)) _)
  | cons member members => exact endsNumber_cons (Or.inr (by simp)) _

/-- A digit or a minus sign starts nothing but a number. -/
theorem number_first {c : Char} (h : isDigit c = true ∨ c = '-') :
    isSpace c = false ∧ c ∉ ['"', '[', '{', 'n', 't', 'f', ']'] := by
  rcases h with h | rfl
  · constructor
    · rw [← Bool.not_eq_true]
      intro hspace
      simp only [isSpace, Bool.or_eq_true, beq_iff_eq] at hspace
      rcases hspace with ((rfl | rfl) | rfl) | rfl <;> exact absurd h (by decide)
    · simp only [List.mem_cons, List.not_mem_nil, or_false]
      rintro (rfl | rfl | rfl | rfl | rfl | rfl | rfl) <;> exact absurd h (by decide)
  · decide

/-- A value starts with neither a blank nor a closing bracket. -/
theorem chars_cons (style : Style) (level : Nat) {depth : Nat} {j : Json} (h : j.Readable depth) :
    ∃ c rest, style.chars level j = c :: rest ∧ isSpace c = false ∧ c ≠ ']' := by
  cases j with
  | null => exact ⟨_, _, rfl, by decide, by decide⟩
  | bool b => cases b <;> exact ⟨_, _, rfl, by decide, by decide⟩
  | number n =>
    obtain ⟨c, rest, heq, hc⟩ := number_chars_cons (show n.Valid by cases depth <;> exact h)
    have hfirst := number_first hc
    refine ⟨c, rest, heq, hfirst.1, fun hbracket => hfirst.2 ?_⟩
    simp [hbracket]
  | string s => exact ⟨_, _, rfl, by decide, by decide⟩
  | array items => cases items <;> exact ⟨_, _, rfl, by decide, by decide⟩
  | object members =>
    cases members with
    | nil => exact ⟨_, _, rfl, by decide, by decide⟩
    | cons member members =>
      obtain ⟨key, value⟩ := member
      exact ⟨_, _, rfl, by decide, by decide⟩

/-- The number in front of a text is read. -/
theorem value?_number {n : Number} (h : n.Valid) (fuel depth : Nat) {rest : List Char} (hrest : EndsNumber rest) :
    value? (fuel + 1) depth (n.chars ++ rest) = some (.number n, rest) := by
  have hread := number?_chars h hrest
  obtain ⟨c, more, heq, hc⟩ := number_chars_cons h
  obtain ⟨hspace, hfirst⟩ := number_first hc
  simp only [List.mem_cons, List.not_mem_nil, or_false, not_or] at hfirst
  obtain ⟨hquote, hbracket, hbrace, hn, ht, hf, -⟩ := hfirst
  rw [heq, List.cons_append] at hread ⊢
  rw [value?.eq_def]
  simp only [skip_cons hspace]
  split
  · exact absurd (List.cons.inj ‹_›).1 hquote
  · exact absurd (List.cons.inj ‹_›).1 hbracket
  · exact absurd (List.cons.inj ‹_›).1 hbrace
  · exact absurd (List.cons.inj ‹_›).1 hn
  · exact absurd (List.cons.inj ‹_›).1 ht
  · exact absurd (List.cons.inj ‹_›).1 hf
  · rw [hread]
    rfl

/-- The text in front of a text is read. -/
theorem value?_string (s : String) (fuel depth : Nat) (rest : List Char) :
    value? (fuel + 1) depth (stringChars s ++ rest) = some (.string s, rest) := by
  have hquote : stringChars s ++ rest = '"' :: (s.toList.flatMap escapeChar ++ '"' :: rest) := by
    simp [stringChars]
  rw [hquote, value?.eq_def]
  simp only [skip_cons (c := '"') (by decide), stringBody?_escaped, Option.map_some, String.ofList_toList]

theorem items?_blanks {blanks : List Char} (h : ∀ c ∈ blanks, isSpace c = true) (fuel depth : Nat)
    (rest : List Char) : items? fuel depth (blanks ++ rest) = items? fuel depth rest := by
  cases fuel with
  | zero => rw [items?, items?]
  | succ fuel => rw [items?, items?, value?_blanks h]

theorem members?_blanks {blanks : List Char} (h : ∀ c ∈ blanks, isSpace c = true) (fuel depth : Nat)
    (rest : List Char) : members? fuel depth (blanks ++ rest) = members? fuel depth rest := by
  cases fuel with
  | zero => rw [members?, members?]
  | succ fuel => rw [members?, members?, skip_blanks h]

/-- What stands after an item: the end of the array, or a comma and the next item. -/
theorem skip_items_nil (hs : style.Blank) (level : Nat) (rest : List Char) :
    skip (style.items level [] ++ rest) = ']' :: rest := by
  rw [Style.items, List.append_assoc, skip_blanks (hs.gap level), List.singleton_append, skip_cons (by decide)]

theorem skip_items_cons (level : Nat) (next : Json) (items : List Json) (rest : List Char) :
    skip (style.items level (next :: items) ++ rest) =
      ',' :: (style.gap (level + 1) ++ (style.chars (level + 1) next ++ (style.items level items ++ rest))) := by
  simp only [Style.items, List.cons_append, List.append_assoc]
  exact skip_cons (by decide) _

/-- A member of an object and what stands after it. -/
def memberChars (style : Style) (level : Nat) (key : String) (value : Json) (members : List (String × Json))
    (rest : List Char) : List Char :=
  '"' :: (key.toList.flatMap escapeChar ++ '"' :: (':' :: (style.colon ++ (style.chars (level + 1) value ++
    (style.members level members ++ rest)))))

/-- What stands after a member: the end of the object, or a comma and the next member. -/
theorem skip_members_nil (hs : style.Blank) (level : Nat) (rest : List Char) :
    skip (style.members level [] ++ rest) = '}' :: rest := by
  rw [Style.members, List.append_assoc, skip_blanks (hs.gap level), List.singleton_append, skip_cons (by decide)]

theorem skip_members_cons (level : Nat) (key : String) (value : Json) (members : List (String × Json))
    (rest : List Char) :
    skip (style.members level ((key, value) :: members) ++ rest) =
      ',' :: (style.gap (level + 1) ++ memberChars style level key value members rest) := by
  simp only [Style.members, memberChars, stringChars, List.cons_append, List.append_assoc, List.nil_append]
  exact skip_cons (by decide) _

/-- The items of an array are read back, if each of them is. -/
theorem items?_chars (hs : style.Blank) {depth : Nat} (level : Nat) {items : List Json}
    (hitems : ∀ item ∈ items, Reads style item ∧ item.Readable depth) {first : Json}
    (hfirst : Reads style first ∧ first.Readable depth) (fuel : Nat)
    (hfuel : 2 * ((style.chars (level + 1) first).length + (style.items level items).length) ≤ fuel)
    (rest : List Char) :
    items? fuel depth (style.chars (level + 1) first ++ (style.items level items ++ rest)) =
      some (first :: items, rest) := by
  induction items generalizing first fuel with
  | nil =>
    simp only [Style.items, List.length_append, List.length_singleton] at hfuel
    obtain ⟨fuel, rfl⟩ := Nat.exists_eq_succ_of_ne_zero (show fuel ≠ 0 by omega)
    have hread := hfirst.1 (level + 1) depth fuel _ hfirst.2 (endsNumber_items hs level [] rest) (by omega)
    rw [items?.eq_def]
    simp only [hread, skip_items_nil hs]
  | cons next items ih =>
    simp only [Style.items, List.cons_append, List.length_append, List.length_cons] at hfuel
    obtain ⟨fuel, rfl⟩ := Nat.exists_eq_succ_of_ne_zero (show fuel ≠ 0 by omega)
    have hread := hfirst.1 (level + 1) depth fuel _ hfirst.2 (endsNumber_items hs level (next :: items) rest)
      (by omega)
    have hmore := ih (fun item h => hitems item (List.mem_cons_of_mem _ h))
      (hitems next List.mem_cons_self) fuel (by omega)
    rw [items?.eq_def]
    simp only [hread, skip_items_cons, items?_blanks (hs.gap (level + 1)), hmore, Option.map_some]

/-- The members of an object are read back, if the value of each of them is. -/
theorem members?_chars (hs : style.Blank) {depth : Nat} (level : Nat) {members : List (String × Json)}
    (hmembers : ∀ member ∈ members, Reads style member.2 ∧ member.2.Readable depth) (key : String) {value : Json}
    (hvalue : Reads style value ∧ value.Readable depth) (fuel : Nat)
    (hfuel : 2 * ((style.chars (level + 1) value).length + (style.members level members).length) ≤ fuel)
    (rest : List Char) :
    members? fuel depth (memberChars style level key value members rest) =
      some ((key, value) :: members, rest) := by
  have hquote : isSpace '"' = false := by decide
  have hcolon : isSpace ':' = false := by decide
  induction members generalizing key value fuel with
  | nil =>
    simp only [Style.members, List.length_append, List.length_singleton] at hfuel
    obtain ⟨fuel, rfl⟩ := Nat.exists_eq_succ_of_ne_zero (show fuel ≠ 0 by omega)
    have hread := hvalue.1 (level + 1) depth fuel _ hvalue.2 (endsNumber_members hs level [] rest) (by omega)
    rw [members?.eq_def, memberChars]
    simp only [skip_cons hquote, stringBody?_escaped, skip_cons hcolon, value?_blanks hs.colon, hread,
      skip_members_nil hs, String.ofList_toList]
  | cons next members ih =>
    obtain ⟨nextKey, next⟩ := next
    simp only [Style.members, List.cons_append, List.length_append, List.length_cons] at hfuel
    obtain ⟨fuel, rfl⟩ := Nat.exists_eq_succ_of_ne_zero (show fuel ≠ 0 by omega)
    have hread := hvalue.1 (level + 1) depth fuel _ hvalue.2
      (endsNumber_members hs level ((nextKey, next) :: members) rest) (by omega)
    have hnext : Reads style next ∧ next.Readable depth := hmembers (nextKey, next) List.mem_cons_self
    have hmore := ih (fun member h => hmembers member (List.mem_cons_of_mem _ h)) nextKey hnext fuel (by omega)
    rw [members?.eq_def, memberChars]
    simp only [skip_cons hquote, stringBody?_escaped, skip_cons hcolon, value?_blanks hs.colon, hread,
      skip_members_cons, members?_blanks (hs.gap (level + 1)), hmore, Option.map_some, String.ofList_toList]

/-- An array is read back, if each of its items is. -/
theorem reads_array (hs : style.Blank) {items : List Json} (h : ∀ item ∈ items, Reads style item) :
    Reads style (.array items) := by
  intro level depth fuel rest hdepth hrest hfuel
  obtain ⟨depth, rfl⟩ : ∃ d, depth = d + 1 := by
    cases depth with
    | zero => exact absurd hdepth (by simp [Readable])
    | succ d => exact ⟨d, rfl⟩
  rw [Readable, readableItems_iff] at hdepth
  have hopen : isSpace '[' = false := by decide
  cases items with
  | nil =>
    obtain ⟨fuel, rfl⟩ := Nat.exists_eq_succ_of_ne_zero (show fuel ≠ 0 by simp [Style.chars] at hfuel; omega)
    rw [value?.eq_def]
    simp only [Style.chars, List.cons_append, List.nil_append, skip_cons hopen,
      skip_cons (c := ']') (by decide)]
  | cons first items =>
    simp only [Style.chars, List.cons_append, List.length_append, List.length_cons] at hfuel
    obtain ⟨fuel, rfl⟩ := Nat.exists_eq_succ_of_ne_zero (show fuel ≠ 0 by omega)
    have hread := items?_chars hs level
      (fun item hitem => ⟨h item (List.mem_cons_of_mem _ hitem), hdepth item (List.mem_cons_of_mem _ hitem)⟩)
      ⟨h first List.mem_cons_self, hdepth first List.mem_cons_self⟩ fuel (by omega) rest
    obtain ⟨c, more, heq, hspace, hbracket⟩ := chars_cons style (level + 1) (hdepth first List.mem_cons_self)
    rw [heq, List.cons_append] at hread
    rw [value?.eq_def]
    simp only [Style.chars, List.cons_append, List.append_assoc, skip_cons hopen, skip_blanks (hs.gap (level + 1)),
      heq, skip_cons hspace]
    split
    · rename_i hclose
      exact absurd (List.cons.inj hclose).1 hbracket
    · rw [hread]
      rfl

/-- An object is read back, if the value of each member is. -/
theorem reads_object (hs : style.Blank) {members : List (String × Json)}
    (h : ∀ member ∈ members, Reads style member.2) : Reads style (.object members) := by
  intro level depth fuel rest hdepth hrest hfuel
  obtain ⟨depth, rfl⟩ : ∃ d, depth = d + 1 := by
    cases depth with
    | zero => exact absurd hdepth (by simp [Readable])
    | succ d => exact ⟨d, rfl⟩
  rw [Readable, readableMembers_iff] at hdepth
  have hopen : isSpace '{' = false := by decide
  cases members with
  | nil =>
    obtain ⟨fuel, rfl⟩ := Nat.exists_eq_succ_of_ne_zero (show fuel ≠ 0 by simp [Style.chars] at hfuel; omega)
    rw [value?.eq_def]
    simp only [Style.chars, List.cons_append, List.nil_append, skip_cons hopen,
      skip_cons (c := '}') (by decide)]
  | cons first members =>
    obtain ⟨key, value⟩ := first
    simp only [Style.chars, List.cons_append, List.length_append, List.length_cons] at hfuel
    obtain ⟨fuel, rfl⟩ := Nat.exists_eq_succ_of_ne_zero (show fuel ≠ 0 by omega)
    have hvalue : Reads style value ∧ value.Readable depth :=
      ⟨h (key, value) List.mem_cons_self, hdepth (key, value) List.mem_cons_self⟩
    have hread := members?_chars hs level
      (fun member hm => ⟨h member (List.mem_cons_of_mem _ hm), hdepth member (List.mem_cons_of_mem _ hm)⟩)
      key hvalue fuel (by omega) rest
    have hchars : style.chars level (.object ((key, value) :: members)) ++ rest =
        '{' :: (style.gap (level + 1) ++ memberChars style level key value members rest) := by
      simp [Style.chars, memberChars, stringChars]
    rw [hchars, value?.eq_def]
    simp only [skip_cons hopen, skip_blanks (hs.gap (level + 1))]
    rw [memberChars] at hread ⊢
    rw [skip_cons (by decide)]
    split
    · rename_i hclose
      exact absurd (List.cons.inj hclose).1 (by decide)
    · rw [hread]
      rfl

mutual

/-- A value in a style is read back from the front of a text. -/
theorem reads (hs : style.Blank) : ∀ j : Json, Reads style j
  | .null => by
    intro level depth fuel rest _ _ hfuel
    obtain ⟨fuel, rfl⟩ := Nat.exists_eq_succ_of_ne_zero (show fuel ≠ 0 by simp [Style.chars] at hfuel; omega)
    rw [value?.eq_def]
    simp [Style.chars, skip, isSpace, word?]
  | .bool true => by
    intro level depth fuel rest _ _ hfuel
    obtain ⟨fuel, rfl⟩ := Nat.exists_eq_succ_of_ne_zero (show fuel ≠ 0 by simp [Style.chars] at hfuel; omega)
    rw [value?.eq_def]
    simp [Style.chars, skip, isSpace, word?]
  | .bool false => by
    intro level depth fuel rest _ _ hfuel
    obtain ⟨fuel, rfl⟩ := Nat.exists_eq_succ_of_ne_zero (show fuel ≠ 0 by simp [Style.chars] at hfuel; omega)
    rw [value?.eq_def]
    simp [Style.chars, skip, isSpace, word?]
  | .number n => by
    intro level depth fuel rest hvalid hrest hfuel
    have hn : n.Valid := by cases depth <;> exact hvalid
    obtain ⟨c, more, heq, -⟩ := number_chars_cons hn
    obtain ⟨fuel, rfl⟩ := Nat.exists_eq_succ_of_ne_zero (show fuel ≠ 0 by
      simp only [Style.chars, heq, List.length_cons] at hfuel
      omega)
    exact value?_number hn fuel depth hrest
  | .string s => by
    intro level depth fuel rest _ _ hfuel
    obtain ⟨fuel, rfl⟩ := Nat.exists_eq_succ_of_ne_zero (show fuel ≠ 0 by
      simp only [Style.chars, stringChars, List.length_append, List.length_cons] at hfuel
      omega)
    exact value?_string s fuel depth rest
  | .array items => reads_array hs (readsItems hs items)
  | .object members => reads_object hs (readsMembers hs members)

theorem readsItems (hs : style.Blank) : ∀ items : List Json, ∀ item ∈ items, Reads style item
  | [] => by simp
  | first :: items => by
    intro item h
    rcases List.mem_cons.1 h with heq | h
    · rw [heq]
      exact reads hs first
    · exact readsItems hs items item h

theorem readsMembers (hs : style.Blank) :
    ∀ members : List (String × Json), ∀ member ∈ members, Reads style member.2
  | [] => by simp
  | (key, value) :: members => by
    intro member h
    rcases List.mem_cons.1 h with heq | h
    · rw [heq]
      exact reads hs value
    · exact readsMembers hs members member h

end

/-! ## Whole texts -/

/-- A text that is a value in a style is read as that value. -/
theorem parseChars?_chars (hs : style.Blank) (level : Nat) {j : Json} (h : j.Readable maxDepth) :
    parseChars? (style.chars level j) = some j := by
  have hread := reads hs j level maxDepth (2 * (style.chars level j).length + 2) [] h endsNumber_nil (by omega)
  rw [List.append_nil] at hread
  rw [parseChars?, hread]
  rfl

/-- A value on one line is read back. -/
theorem parseChars?_compactChars {j : Json} (h : j.Readable maxDepth) : parseChars? j.compactChars = some j := by
  rw [compactChars_eq 0 j]
  exact parseChars?_chars Style.blank_compact 0 h

/-- A value over several lines is read back. -/
theorem parseChars?_prettyChars {j : Json} (h : j.Readable maxDepth) :
    parseChars? (j.prettyChars 0) = some j := by
  rw [prettyChars_eq 0 j]
  exact parseChars?_chars Style.blank_pretty 0 h

end Json
end TableFlow
