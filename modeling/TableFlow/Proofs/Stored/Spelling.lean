import TableFlow.Proofs.Json.RoundTrip
import TableFlow.Stored.JsonText

/-!
# The documents that JSON texts spell

The grammar of JSON says which texts spell a document, without saying how a text is read: what stands between
quotes, how numbers are built, commas between items, blanks around every value.  Values may nest as deep as they
like, and nothing is asked of a text or a number but its spelling.  Every text of the grammar is read, as the document
that it spells, and every value that is written in a style made of blanks is a text of the grammar.

Main results:

- Inductive `Spells`: the texts that spell a document.
- Theorem `ofJsonText?_of_spells`: a text is read as the document that it spells.
- Theorem `spells_chars`: a written value spells the document that it is.
-/

namespace TableFlow
namespace Document

open Json

/-! ## The grammar -/

/-- Blanks of JSON, or nothing. -/
def Blanks (s : List Char) : Prop :=
  ∀ c ∈ s, isSpace c = true

/-- What may stand between two quotes. -/
inductive IsBody : List Char → Prop
  | nil : IsBody []
  | plain {c : Char} {body : List Char} (hquote : c ≠ '"') (hback : c ≠ '\\') (hcontrol : ¬c.toNat < 32)
      (h : IsBody body) : IsBody (c :: body)
  | letter {c plain : Char} {body : List Char} (hletter : escape? c = some plain) (h : IsBody body) :
      IsBody ('\\' :: c :: body)
  | unit {a b c d : Char} {n : Nat} {body : List Char} (hunit : unit? a b c d = some n) (h : IsBody body) :
      IsBody ('\\' :: 'u' :: a :: b :: c :: d :: body)

/-- The characters are a text between quotes, with blanks around it. -/
def SpellsText (d : Document) (s : List Char) : Prop :=
  ∃ before body after, Blanks before ∧ IsBody body ∧ Blanks after ∧ d = textOf body ∧
    s = before ++ '"' :: (body ++ '"' :: after)

/-- A member of a record, and the characters before and after its colon. -/
structure SpelledMember where
  key : Document
  keyChars : List Char
  value : Document
  valueChars : List Char

/-- The member that is spelled. -/
def SpelledMember.member (m : SpelledMember) : Document × Document :=
  (m.key, m.value)

/-- The characters of a member. -/
def SpelledMember.chars (m : SpelledMember) : List Char :=
  m.keyChars ++ ':' :: m.valueChars

/-- The characters spell the document.  Items and members stand between commas; there may be blanks around each value. -/
inductive Spells : Document → List Char → Prop
  | null : Spells .null ['n', 'u', 'l', 'l']
  | flagTrue : Spells (.flag true) ['t', 'r', 'u', 'e']
  | flagFalse : Spells (.flag false) ['f', 'a', 'l', 's', 'e']
  | text {body : List Char} (h : IsBody body) : Spells (textOf body) ('"' :: body ++ ['"'])
  | number {t : NumberText} {s : List Char} (h : t.Spells s) : Spells (numberOf t) s
  | listNil {blanks : List Char} (h : Blanks blanks) : Spells (.list []) ('[' :: blanks ++ [']'])
  | list {parts : List (Document × List Char)} (hne : parts ≠ []) (h : ∀ part ∈ parts, Spells part.1 part.2) :
      Spells (.list (parts.map Prod.fst)) ('[' :: [','].intercalate (parts.map Prod.snd) ++ [']'])
  | recordNil {blanks : List Char} (h : Blanks blanks) : Spells (.record []) ('{' :: blanks ++ ['}'])
  | record {parts : List SpelledMember} (hne : parts ≠ []) (hkeys : ∀ part ∈ parts, SpellsText part.key part.keyChars)
      (h : ∀ part ∈ parts, Spells part.value part.valueChars) :
      Spells (.record (parts.map SpelledMember.member))
        ('{' :: [','].intercalate (parts.map SpelledMember.chars) ++ ['}'])
  | padded {d : Document} {before s after : List Char} (hbefore : Blanks before) (h : Spells d s)
      (hafter : Blanks after) : Spells d (before ++ s ++ after)

/-! ## Reading texts -/

/-- What stands between two quotes is read whole. -/
theorem body?_append {body : List Char} (h : IsBody body) (rest : List Char) :
    body? (body ++ '"' :: rest) = some (body, rest) := by
  induction h with
  | nil => rfl
  | @plain c body hquote hback hcontrol _ ih =>
    simp [body?, hback, hcontrol, ih]
  | @letter c plain body hletter _ ih =>
    have hu : c ≠ 'u' := by
      rintro rfl
      cases hletter
    simp [body?, hu, hletter, ih]
  | @unit a b c d n body hunit _ ih =>
    simp [body?, hunit, ih]

theorem jsonString?_append {body : List Char} (h : IsBody body) (rest : List Char) :
    jsonString? (body ++ '"' :: rest) = some (textOf body, rest) := by
  rw [jsonString?, body?_append h, Option.map_some]

/-- A number is read up to where it ends. -/
theorem jsonNumber?_append {t : NumberText} {s rest : List Char} (h : t.Spells s) (hrest : EndsNumber rest) :
    jsonNumber? (s ++ rest) = some (numberOf t, rest) := by
  rw [jsonNumber?, numberText?_append h hrest, Option.map_some]

/-! ## Reading values -/

/-- Blanks in front of a value are skipped. -/
theorem jsonValue?_blanks {blanks : List Char} (h : Blanks blanks) (fuel : Nat) (rest : List Char) :
    jsonValue? fuel (blanks ++ rest) = jsonValue? fuel rest := by
  cases fuel with
  | zero => rw [jsonValue?, jsonValue?]
  | succ fuel => rw [jsonValue?, jsonValue?, skip_blanks h]

/-- The number in front of a text is read. -/
theorem jsonValue?_number {t : NumberText} {s rest : List Char} (h : t.Spells s) (hrest : EndsNumber rest)
    (fuel : Nat) : jsonValue? (fuel + 1) (s ++ rest) = some (numberOf t, rest) := by
  have hread := jsonNumber?_append h hrest
  obtain ⟨c, more, rfl, hc⟩ := h.cons
  obtain ⟨hspace, hfirst⟩ := number_first hc
  simp only [List.mem_cons, List.not_mem_nil, or_false, not_or] at hfirst
  obtain ⟨hquote, hbracket, hbrace, hn, ht, hf, -⟩ := hfirst
  rw [List.cons_append] at hread ⊢
  rw [jsonValue?.eq_def]
  simp only [skip_cons hspace]
  split
  · exact absurd (List.cons.inj ‹_›).1 hquote
  · exact absurd (List.cons.inj ‹_›).1 hbracket
  · exact absurd (List.cons.inj ‹_›).1 hbrace
  · exact absurd (List.cons.inj ‹_›).1 hn
  · exact absurd (List.cons.inj ‹_›).1 ht
  · exact absurd (List.cons.inj ‹_›).1 hf
  · exact hread

/-- A text that spells a document starts, after its blanks, with what is no closing bracket. -/
theorem Spells.skip_cons {d : Document} {s : List Char} (h : Spells d s) (rest : List Char) :
    ∃ c more, skip (s ++ rest) = c :: more ∧ c ≠ ']' := by
  induction h generalizing rest with
  | null | flagTrue | flagFalse | text | listNil | list | recordNil | record => exact ⟨_, _, rfl, by decide⟩
  | number h =>
    obtain ⟨c, more, rfl, hc⟩ := h.cons
    obtain ⟨hspace, hfirst⟩ := number_first hc
    refine ⟨c, more ++ rest, Json.skip_cons hspace _, ?_⟩
    rintro rfl
    exact hfirst (by simp)
  | padded hbefore _ _ ih =>
    rw [List.append_assoc, List.append_assoc, skip_blanks hbefore]
    exact ih _

/-- The document is read from the front of a text, with or without the blanks behind it.  No more than two calls are
made for each of its characters. -/
def ReadsBack (d : Document) (s : List Char) : Prop :=
  ∀ fuel rest, EndsNumber rest → 2 * s.length ≤ fuel →
    ∃ after, jsonValue? (fuel + 1) (s ++ rest) = some (d, after) ∧ skip after = skip rest

/-- An item is read, and then the items after the comma. -/
theorem jsonItems?_comma {d : Document} {s : List Char} {fuel : Nat} (h : ReadsBack d s) (hfuel : 2 * s.length ≤ fuel)
    (rest : List Char) :
    jsonItems? (fuel + 2) (s ++ ',' :: rest) =
      (jsonItems? (fuel + 1) rest).map fun (items, after) => (d :: items, after) := by
  obtain ⟨after, hread, hafter⟩ := h fuel (',' :: rest) (endsNumber_cons (Or.inr (by simp)) _) hfuel
  rw [Json.skip_cons (by decide)] at hafter
  rw [jsonItems?]
  simp only [hread, hafter]

/-- The last item is read. -/
theorem jsonItems?_last {d : Document} {s : List Char} {fuel : Nat} (h : ReadsBack d s) (hfuel : 2 * s.length ≤ fuel)
    (rest : List Char) : jsonItems? (fuel + 2) (s ++ ']' :: rest) = some ([d], rest) := by
  obtain ⟨after, hread, hafter⟩ := h fuel (']' :: rest) (endsNumber_cons (Or.inr (by simp)) _) hfuel
  rw [Json.skip_cons (by decide)] at hafter
  rw [jsonItems?]
  simp only [hread, hafter]

/-- The items of a list are read up to its end, if each of them is. -/
theorem jsonItems?_intercalate {parts : List (Document × List Char)} (hne : parts ≠ [])
    (h : ∀ part ∈ parts, ReadsBack part.1 part.2) (fuel : Nat)
    (hfuel : 2 * ([','].intercalate (parts.map Prod.snd)).length + 2 ≤ fuel) (rest : List Char) :
    jsonItems? fuel ([','].intercalate (parts.map Prod.snd) ++ ']' :: rest) = some (parts.map Prod.fst, rest) := by
  induction parts generalizing fuel with
  | nil => exact absurd rfl hne
  | cons part parts ih =>
    obtain ⟨fuel, rfl⟩ := Nat.exists_eq_add_of_le' (show 2 ≤ fuel by omega)
    have hpart := h part List.mem_cons_self
    cases parts with
    | nil =>
      simp only [List.map_cons, List.map_nil, List.intercalate_singleton] at hfuel ⊢
      exact jsonItems?_last hpart (by omega) rest
    | cons next parts =>
      have hmore := ih (by simp) (fun p hp => h p (List.mem_cons_of_mem _ hp)) (fuel + 1)
      simp only [List.map_cons, List.intercalate_cons_cons, List.append_assoc, List.cons_append, List.nil_append,
        List.length_append, List.length_cons] at hfuel hmore ⊢
      rw [jsonItems?_comma hpart (by omega), hmore (by omega), Option.map_some]

/-- A member starts with its name and comes to its value after the colon. -/
theorem SpellsText.skip_chars {m : SpelledMember} (h : SpellsText m.key m.keyChars) :
    ∃ body after, IsBody body ∧ m.key = textOf body ∧ ∀ tail,
      skip (m.chars ++ tail) = '"' :: (body ++ '"' :: (after ++ ':' :: (m.valueChars ++ tail))) ∧
        skip (after ++ ':' :: (m.valueChars ++ tail)) = ':' :: (m.valueChars ++ tail) := by
  obtain ⟨before, body, after, hbefore, hbody, hafter, hkey, hchars⟩ := h
  refine ⟨body, after, hbody, hkey, fun tail => ⟨?_, ?_⟩⟩
  · simp only [SpelledMember.chars, hchars, List.append_assoc, List.cons_append]
    rw [skip_blanks hbefore, Json.skip_cons (by decide)]
  · rw [skip_blanks hafter, Json.skip_cons (by decide)]

/-- A member is read, and then the members after the comma. -/
theorem jsonMembers?_comma {m : SpelledMember} {fuel : Nat} (hkey : SpellsText m.key m.keyChars)
    (h : ReadsBack m.value m.valueChars) (hfuel : 2 * m.valueChars.length ≤ fuel) (rest : List Char) :
    jsonMembers? (fuel + 2) (m.chars ++ ',' :: rest) =
      (jsonMembers? (fuel + 1) rest).map fun (members, after) => (m.member :: members, after) := by
  obtain ⟨body, after, hbody, hname, hskip⟩ := hkey.skip_chars
  obtain ⟨hstart, hcolon⟩ := hskip (',' :: rest)
  obtain ⟨left, hread, hleft⟩ := h fuel (',' :: rest) (endsNumber_cons (Or.inr (by simp)) _) hfuel
  rw [Json.skip_cons (by decide)] at hleft
  rw [jsonMembers?, SpelledMember.member, hname]
  simp only [hstart, jsonString?_append hbody, hcolon, hread, hleft]

/-- The last member is read. -/
theorem jsonMembers?_last {m : SpelledMember} {fuel : Nat} (hkey : SpellsText m.key m.keyChars)
    (h : ReadsBack m.value m.valueChars) (hfuel : 2 * m.valueChars.length ≤ fuel) (rest : List Char) :
    jsonMembers? (fuel + 2) (m.chars ++ '}' :: rest) = some ([m.member], rest) := by
  obtain ⟨body, after, hbody, hname, hskip⟩ := hkey.skip_chars
  obtain ⟨hstart, hcolon⟩ := hskip ('}' :: rest)
  obtain ⟨left, hread, hleft⟩ := h fuel ('}' :: rest) (endsNumber_cons (Or.inr (by simp)) _) hfuel
  rw [Json.skip_cons (by decide)] at hleft
  rw [jsonMembers?, SpelledMember.member, hname]
  simp only [hstart, jsonString?_append hbody, hcolon, hread, hleft]

/-- The members of a record are read up to its end, if the value of each of them is. -/
theorem jsonMembers?_intercalate {parts : List SpelledMember} (hne : parts ≠ [])
    (hkeys : ∀ part ∈ parts, SpellsText part.key part.keyChars)
    (h : ∀ part ∈ parts, ReadsBack part.value part.valueChars) (fuel : Nat)
    (hfuel : 2 * ([','].intercalate (parts.map SpelledMember.chars)).length + 2 ≤ fuel) (rest : List Char) :
    jsonMembers? fuel ([','].intercalate (parts.map SpelledMember.chars) ++ '}' :: rest) =
      some (parts.map SpelledMember.member, rest) := by
  induction parts generalizing fuel with
  | nil => exact absurd rfl hne
  | cons part parts ih =>
    obtain ⟨fuel, rfl⟩ := Nat.exists_eq_add_of_le' (show 2 ≤ fuel by omega)
    have hkey := hkeys part List.mem_cons_self
    have hpart := h part List.mem_cons_self
    have hlength : part.valueChars.length ≤ part.chars.length := by
      rw [SpelledMember.chars, List.length_append, List.length_cons]
      omega
    cases parts with
    | nil =>
      simp only [List.map_cons, List.map_nil, List.intercalate_singleton] at hfuel ⊢
      exact jsonMembers?_last hkey hpart (by omega) rest
    | cons next parts =>
      have hmore := ih (by simp) (fun p hp => hkeys p (List.mem_cons_of_mem _ hp))
        (fun p hp => h p (List.mem_cons_of_mem _ hp)) (fuel + 1)
      simp only [List.map_cons, List.intercalate_cons_cons, List.append_assoc, List.cons_append, List.nil_append,
        List.length_append, List.length_cons] at hfuel hmore ⊢
      rw [jsonMembers?_comma hkey hpart (by omega), hmore (by omega), Option.map_some]

/-- What stands between commas starts with the first of it. -/
theorem exists_intercalate_cons (first : List Char) (others : List (List Char)) :
    ∃ tail, [','].intercalate (first :: others) = first ++ tail := by
  cases others with
  | nil => exact ⟨[], by simp⟩
  | cons next others => exact ⟨_, by rw [List.intercalate_cons_cons, List.append_assoc]⟩

/-- A list is read, if each of its items is. -/
theorem readsBack_list {parts : List (Document × List Char)} (hne : parts ≠ [])
    (hparts : ∀ part ∈ parts, Spells part.1 part.2) (h : ∀ part ∈ parts, ReadsBack part.1 part.2) :
    ReadsBack (.list (parts.map Prod.fst)) ('[' :: [','].intercalate (parts.map Prod.snd) ++ [']']) := by
  intro fuel rest _ hfuel
  simp only [List.length_append, List.length_cons, List.length_nil] at hfuel
  have hread := jsonItems?_intercalate hne h fuel (by omega) rest
  have hstart : ∃ c more, skip ([','].intercalate (parts.map Prod.snd) ++ ']' :: rest) = c :: more ∧ c ≠ ']' := by
    obtain ⟨first, parts, rfl⟩ := List.exists_cons_of_ne_nil hne
    obtain ⟨tail, htail⟩ := exists_intercalate_cons first.2 (parts.map Prod.snd)
    rw [List.map_cons, htail, List.append_assoc]
    exact (hparts first List.mem_cons_self).skip_cons _
  obtain ⟨c, more, hskip, hc⟩ := hstart
  refine ⟨rest, ?_, rfl⟩
  rw [jsonValue?]
  simp only [List.cons_append, List.append_assoc, List.nil_append, Json.skip_cons (show isSpace '[' = false by decide)]
  simp [hread, hskip, hc]

/-- A record is read, if the value of each member is. -/
theorem readsBack_record {parts : List SpelledMember} (hne : parts ≠ [])
    (hkeys : ∀ part ∈ parts, SpellsText part.key part.keyChars)
    (h : ∀ part ∈ parts, ReadsBack part.value part.valueChars) :
    ReadsBack (.record (parts.map SpelledMember.member))
      ('{' :: [','].intercalate (parts.map SpelledMember.chars) ++ ['}']) := by
  intro fuel rest _ hfuel
  simp only [List.length_append, List.length_cons, List.length_nil] at hfuel
  have hread := jsonMembers?_intercalate hne hkeys h fuel (by omega) rest
  have hstart : ∃ more, skip ([','].intercalate (parts.map SpelledMember.chars) ++ '}' :: rest) = '"' :: more := by
    obtain ⟨first, parts, rfl⟩ := List.exists_cons_of_ne_nil hne
    obtain ⟨tail, htail⟩ := exists_intercalate_cons first.chars (parts.map SpelledMember.chars)
    obtain ⟨body, after, -, -, hfirst⟩ := (hkeys first List.mem_cons_self).skip_chars
    rw [List.map_cons, htail, List.append_assoc]
    exact ⟨_, (hfirst _).1⟩
  obtain ⟨more, hskip⟩ := hstart
  refine ⟨rest, ?_, rfl⟩
  rw [jsonValue?]
  simp only [List.cons_append, List.append_assoc, List.nil_append, Json.skip_cons (show isSpace '{' = false by decide)]
  simp [hread, hskip]

/-- A document is read from every text that spells it. -/
theorem Spells.readsBack {d : Document} {s : List Char} (h : Spells d s) : ReadsBack d s := by
  induction h with
  | null | flagTrue | flagFalse =>
    intro fuel rest _ _
    exact ⟨rest, by simp [jsonValue?, skip, isSpace, word?], rfl⟩
  | text h =>
    intro fuel rest _ _
    refine ⟨rest, ?_, rfl⟩
    rw [jsonValue?]
    simp only [List.cons_append, List.append_assoc, List.nil_append,
      Json.skip_cons (show isSpace '"' = false by decide), jsonString?_append h]
  | number h =>
    intro fuel rest hrest _
    exact ⟨rest, jsonValue?_number h hrest fuel, rfl⟩
  | listNil h =>
    intro fuel rest _ _
    refine ⟨rest, ?_, rfl⟩
    rw [jsonValue?]
    simp only [List.cons_append, List.append_assoc, List.nil_append,
      Json.skip_cons (show isSpace '[' = false by decide), skip_blanks h,
      Json.skip_cons (show isSpace ']' = false by decide)]
  | list hne hparts ih => exact readsBack_list hne hparts ih
  | recordNil h =>
    intro fuel rest _ _
    refine ⟨rest, ?_, rfl⟩
    rw [jsonValue?]
    simp only [List.cons_append, List.append_assoc, List.nil_append,
      Json.skip_cons (show isSpace '{' = false by decide), skip_blanks h,
      Json.skip_cons (show isSpace '}' = false by decide)]
  | record hne hkeys _ ih => exact readsBack_record hne hkeys ih
  | @padded d before s after hbefore _ hafter ih =>
    intro fuel rest hrest hfuel
    simp only [List.length_append] at hfuel
    obtain ⟨left, hread, hleft⟩ := ih fuel (after ++ rest) (endsNumber_append hafter hrest) (by omega)
    refine ⟨left, ?_, ?_⟩
    · rw [List.append_assoc, List.append_assoc, jsonValue?_blanks hbefore]
      exact hread
    · rw [hleft, skip_blanks hafter]

/-- A text is read as the document that it spells. -/
theorem ofJsonText?_of_spells {d : Document} {text : String} (h : Spells d text.toList) :
    ofJsonText? text = some d := by
  obtain ⟨left, hread, hleft⟩ :=
    h.readsBack (2 * text.toList.length + 1) [] endsNumber_nil (by omega)
  rw [List.append_nil] at hread
  rw [ofJsonText?, ofJsonChars?, hread]
  simp only [hleft]
  rfl

/-! ## Items and members one after another -/

/-- The characters spell the items of a list, with commas between them. -/
def SpellsItems (items : List Document) (s : List Char) : Prop :=
  ∃ parts : List (Document × List Char), parts ≠ [] ∧ (∀ part ∈ parts, Spells part.1 part.2) ∧
    items = parts.map Prod.fst ∧ s = [','].intercalate (parts.map Prod.snd)

/-- The characters spell the members of a record, with commas between them. -/
def SpellsMembers (members : List (Document × Document)) (s : List Char) : Prop :=
  ∃ parts : List SpelledMember, parts ≠ [] ∧ (∀ part ∈ parts, SpellsText part.key part.keyChars) ∧
    (∀ part ∈ parts, Spells part.value part.valueChars) ∧ members = parts.map SpelledMember.member ∧
    s = [','].intercalate (parts.map SpelledMember.chars)

variable {d key value : Document} {s t keyChars valueChars : List Char} {items : List Document}
  {members : List (Document × Document)}

theorem SpellsItems.one (h : Spells d s) : SpellsItems [d] s :=
  ⟨[(d, s)], by simp, by simpa using h, rfl, by simp⟩

theorem SpellsItems.cons (h : Spells d s) (hitems : SpellsItems items t) : SpellsItems (d :: items) (s ++ ',' :: t) := by
  obtain ⟨parts, hne, hparts, rfl, rfl⟩ := hitems
  obtain ⟨next, parts, rfl⟩ := List.exists_cons_of_ne_nil hne
  refine ⟨(d, s) :: next :: parts, by simp, ?_, rfl, by simp⟩
  intro part hpart
  rcases List.mem_cons.1 hpart with rfl | hpart
  · exact h
  · exact hparts part hpart

theorem SpellsItems.list (h : SpellsItems items s) : Spells (.list items) ('[' :: s ++ [']']) := by
  obtain ⟨parts, hne, hparts, rfl, rfl⟩ := h
  exact .list hne hparts

theorem SpellsMembers.one (hkey : SpellsText key keyChars) (h : Spells value valueChars) :
    SpellsMembers [(key, value)] (keyChars ++ ':' :: valueChars) :=
  ⟨[⟨key, keyChars, value, valueChars⟩], by simp, by simpa using hkey, by simpa using h, rfl,
    by simp [SpelledMember.chars]⟩

theorem SpellsMembers.cons (hkey : SpellsText key keyChars) (h : Spells value valueChars)
    (hmembers : SpellsMembers members t) :
    SpellsMembers ((key, value) :: members) (keyChars ++ ':' :: valueChars ++ ',' :: t) := by
  obtain ⟨parts, hne, hkeys, hparts, rfl, rfl⟩ := hmembers
  obtain ⟨next, parts, rfl⟩ := List.exists_cons_of_ne_nil hne
  refine ⟨⟨key, keyChars, value, valueChars⟩ :: next :: parts, by simp, ?_, ?_, rfl, by simp [SpelledMember.chars]⟩
  · intro part hpart
    rcases List.mem_cons.1 hpart with rfl | hpart
    · exact hkey
    · exact hkeys part hpart
  · intro part hpart
    rcases List.mem_cons.1 hpart with rfl | hpart
    · exact h
    · exact hparts part hpart

theorem SpellsMembers.record (h : SpellsMembers members s) : Spells (.record members) ('{' :: s ++ ['}']) := by
  obtain ⟨parts, hne, hkeys, hparts, rfl, rfl⟩ := h
  exact .record hne hkeys hparts

/-! ## Written values -/

theorem blanks_nil : Blanks [] := by simp [Blanks]

/-- A character of a text is written as it may stand between quotes. -/
theorem isBody_escapeChar (c : Char) {body : List Char} (h : IsBody body) : IsBody (escapeChar c ++ body) := by
  unfold escapeChar
  split
  · exact .letter rfl h
  · exact .letter rfl h
  · exact .letter rfl h
  · exact .letter rfl h
  · exact .letter rfl h
  · exact .letter rfl h
  · exact .letter rfl h
  · rename_i hquote hback _ _ _ _ _
    split
    · rename_i hcontrol
      exact .unit (unit?_of_lt hcontrol) h
    · rename_i hcontrol
      exact .plain hquote hback hcontrol h

/-- A written text may stand between quotes. -/
theorem isBody_escaped (s : List Char) : IsBody (s.flatMap escapeChar) := by
  induction s with
  | nil => exact .nil
  | cons c s ih => exact isBody_escapeChar c ih

/-- What is written between the quotes spells the text. -/
theorem textOf_escaped (s : String) : textOf (s.toList.flatMap escapeChar) = .text s := by
  rw [textOf, stringBody?_escaped]
  simp only [String.ofList_toList]

theorem spells_stringChars (s : String) : Spells (.text s) (stringChars s) := by
  rw [← textOf_escaped s]
  exact .text (isBody_escaped s.toList)

/-- A written name, with blanks in front of it, spells the name. -/
theorem spellsText_stringChars {blanks : List Char} (h : Blanks blanks) (s : String) :
    SpellsText (.text s) (blanks ++ stringChars s) :=
  ⟨blanks, _, [], h, isBody_escaped s.toList, blanks_nil, (textOf_escaped s).symm, by simp [stringChars]⟩

/-- A written number spells the number. -/
theorem spells_numberChars {n : Number} (h : n.Valid) : Spells (.number n) n.chars := by
  obtain ⟨t, ht, hvalue⟩ := exists_spells_chars h
  have hnumber : numberOf t = .number n := by rw [numberOf, hvalue]
  rw [← hnumber]
  exact .number ht

variable {style : Style}

/-- Written items spell what each of them spells. -/
theorem spellsItems_chars (hs : style.Blank) (level : Nat) {first : Json} {items : List Json}
    (hfirst : Spells (ofJson first) (style.chars (level + 1) first))
    (h : ∀ item ∈ items, Spells (ofJson item) (style.chars (level + 1) item)) :
    ∃ s, SpellsItems (ofJsonItems (first :: items)) s ∧
      style.gap (level + 1) ++ style.chars (level + 1) first ++ style.items level items = s ++ [']'] := by
  have hgap : ∀ after, Blanks after →
      Spells (ofJson first) (style.gap (level + 1) ++ style.chars (level + 1) first ++ after) :=
    fun after hafter => .padded (hs.gap (level + 1)) hfirst hafter
  induction items generalizing first with
  | nil => exact ⟨_, .one (hgap _ (hs.gap level)), by simp [Style.items]⟩
  | cons next items ih =>
    have hnext := h next List.mem_cons_self
    obtain ⟨s, hitems, hchars⟩ := ih hnext (fun item hitem => h item (List.mem_cons_of_mem _ hitem))
      (fun after hafter => .padded (hs.gap (level + 1)) hnext hafter)
    refine ⟨_, .cons (hgap [] blanks_nil) hitems, ?_⟩
    simp only [List.append_assoc] at hchars
    simp [Style.items, hchars]

/-- Written members spell what each of them spells. -/
theorem spellsMembers_chars (hs : style.Blank) (level : Nat) (key : String) {value : Json}
    {members : List (String × Json)} (hvalue : Spells (ofJson value) (style.chars (level + 1) value))
    (h : ∀ member ∈ members, Spells (ofJson member.2) (style.chars (level + 1) member.2)) :
    ∃ s, SpellsMembers (ofJsonMembers ((key, value) :: members)) s ∧
      style.gap (level + 1) ++ stringChars key ++ ':' :: style.colon ++ style.chars (level + 1) value ++
        style.members level members = s ++ ['}'] := by
  have hkey := fun key => spellsText_stringChars (hs.gap (level + 1)) key
  induction members generalizing key value with
  | nil =>
    refine ⟨_, .one (hkey key) (.padded hs.colon hvalue (hs.gap level)), ?_⟩
    simp [Style.members]
  | cons next members ih =>
    obtain ⟨nextKey, next⟩ := next
    obtain ⟨s, hmembers, hchars⟩ := ih nextKey (h (nextKey, next) List.mem_cons_self)
      (fun member hmember => h member (List.mem_cons_of_mem _ hmember))
    refine ⟨_, .cons (hkey key) (.padded hs.colon hvalue blanks_nil) hmembers, ?_⟩
    simp only [List.append_assoc, List.cons_append] at hchars
    simp [Style.members, hchars]

mutual

/-- A value that is written in a style made of blanks spells the document that it is. -/
theorem spells_chars (hs : style.Blank) :
    ∀ {depth : Nat} (j : Json) (level : Nat), j.Readable depth → Spells (ofJson j) (style.chars level j)
  | _, .null, _, _ => .null
  | _, .bool true, _, _ => .flagTrue
  | _, .bool false, _, _ => .flagFalse
  | depth, .number n, _, h => spells_numberChars (by cases depth <;> exact h)
  | _, .string s, _, _ => spells_stringChars s
  | _ + 1, .array [], _, _ => .listNil blanks_nil
  | _ + 1, .array (first :: items), level, h => by
    have hitems := spells_chars_items hs (first :: items) (level + 1) h
    obtain ⟨s, hspells, hchars⟩ := spellsItems_chars hs level (hitems first List.mem_cons_self)
      (fun item hitem => hitems item (List.mem_cons_of_mem _ hitem))
    simp only [Style.chars, List.cons_append, hchars]
    exact hspells.list
  | _ + 1, .object [], _, _ => .recordNil blanks_nil
  | _ + 1, .object ((key, value) :: members), level, h => by
    have hmembers := spells_chars_members hs ((key, value) :: members) (level + 1) h
    obtain ⟨s, hspells, hchars⟩ := spellsMembers_chars hs level key (hmembers _ List.mem_cons_self)
      (fun member hmember => hmembers member (List.mem_cons_of_mem _ hmember))
    simp only [List.append_assoc, List.cons_append] at hchars
    simp only [Style.chars, List.append_assoc, List.cons_append, hchars]
    exact hspells.record

theorem spells_chars_items (hs : style.Blank) :
    ∀ {depth : Nat} (items : List Json) (level : Nat), ReadableItems depth items →
      ∀ item ∈ items, Spells (ofJson item) (style.chars level item)
  | _, [], _, _ => by simp
  | _, first :: items, level, h => by
    intro item hitem
    rcases List.mem_cons.1 hitem with heq | hitem
    · rw [heq]
      exact spells_chars hs first level h.1
    · exact spells_chars_items hs items level h.2 item hitem

theorem spells_chars_members (hs : style.Blank) :
    ∀ {depth : Nat} (members : List (String × Json)) (level : Nat), ReadableMembers depth members →
      ∀ member ∈ members, Spells (ofJson member.2) (style.chars level member.2)
  | _, [], _, _ => by simp
  | _, (key, value) :: members, level, h => by
    intro member hmember
    rcases List.mem_cons.1 hmember with heq | hmember
    · rw [heq]
      exact spells_chars hs value level h.1
    · exact spells_chars_members hs members level h.2 member hmember

end

/-! ## Written documents -/

theorem ofJsonItems_eq (items : List Json) : ofJsonItems items = items.map ofJson := by
  induction items with
  | nil => rfl
  | cons item items ih => rw [ofJsonItems, ih, List.map_cons]

theorem toJsonItems_eq (items : List Document) : toJsonItems items = items.map toJson := by
  induction items with
  | nil => rfl
  | cons item items ih => rw [toJsonItems, ih, List.map_cons]

theorem ofJson_object (members : List (String × Json)) :
    ofJson (.object members) = named (members.map fun (name, value) => (name, ofJson value)) := by
  rw [ofJson, named, List.map_map]
  induction members with
  | nil => rfl
  | cons member members ih =>
    obtain ⟨name, value⟩ := member
    simp only [ofJsonMembers, Document.record.inj ih]
    rfl

theorem toJson_named (members : List (String × Document)) :
    (named members).toJson = .object (members.map fun (name, value) => (name, value.toJson)) := by
  rw [named, toJson]
  induction members with
  | nil => rfl
  | cons member members ih =>
    obtain ⟨name, value⟩ := member
    simp only [List.map_cons, toJsonMembers, Json.object.inj ih]

/-- JSON holds the document at some depth of nesting: it can be read, and nothing of it is lost. -/
structure Held (depth : Nat) (d : Document) : Prop where
  readable : d.toJson.Readable depth
  same : ofJson d.toJson = d

theorem held_text (depth : Nat) (s : String) : Held depth (.text s) where
  readable := by cases depth <;> trivial
  same := rfl

theorem held_nat (depth : Nat) {n : Nat} (h : n < wordBound) : Held depth (nat n) where
  readable := by
    have hvalid : Number.Valid (.int n) := by
      simp only [Number.Valid, Number.fits, Bool.and_eq_true, decide_eq_true_eq]
      omega
    cases depth <;> exact hvalid
  same := rfl

theorem Held.list {depth : Nat} {items : List Document} (h : ∀ item ∈ items, Held depth item) :
    Held (depth + 1) (.list items) where
  readable := by
    rw [toJson, Readable, readableItems_iff, toJsonItems_eq, List.forall_mem_map]
    exact fun item hitem => (h item hitem).readable
  same := by
    rw [toJson, ofJson, toJsonItems_eq, ofJsonItems_eq, List.map_map, List.map_congr_left (g := id), List.map_id]
    exact fun item hitem => (h item hitem).same

theorem Held.named {depth : Nat} {members : List (String × Document)} (h : ∀ member ∈ members, Held depth member.2) :
    Held (depth + 1) (.named members) where
  readable := by
    rw [toJson_named, Readable, readableMembers_iff, List.forall_mem_map]
    exact fun member hmember => (h member hmember).readable
  same := by
    rw [toJson_named, ofJson_object, List.map_map, List.map_congr_left (g := id), List.map_id]
    intro member hmember
    exact Prod.ext rfl (h member hmember).same

/-- A document that JSON holds is spelled by what is written for it. -/
theorem Held.spells {depth : Nat} {d : Document} (h : Held depth d) : Spells d d.jsonText.toList := by
  have hspells := spells_chars Style.blank_pretty d.toJson 0 h.readable
  rw [h.same, ← prettyChars_eq] at hspells
  rwa [jsonText, pretty, String.toList_ofList]

end Document
end TableFlow
