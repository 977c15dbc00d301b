import TableFlow.Proofs.Command.Imputation

/-!
# The most frequent value of a column

The cells of a column are counted by their keys, and the tally remembers of each key the first cell that has it.  The
counts are then gone through in the order of the keys, and only a higher one takes the place of the best so far.  So a
column is filled with a value whose key occurs most often, of such keys the smallest, and of the cells with that key the
one in the earliest row.

Main results:

- Definition `Cleaning.MostFrequentKey`: no key occurs more often in a column, and no smaller one as often.
- Definition `Cleaning.FirstWithKey`: the cell in the earliest row that has a key.
- Theorem `Cleaning.tallied_foldl`: a tally holds the count and the first cell of each key.
- Theorem `Cleaning.leads_foldl`: going through candidates finds the first of those that count most.
- Theorem `mode_is_most_frequent`: what a column is filled with.
-/

namespace TableFlow

namespace Cleaning

variable {cells seen : List Cell} {cell value : Cell} {tally : Tally} {key : String}

/-! ## Keys that occur most often -/

/-- The cell has a key. -/
def hasKey (key : String) (cell : Cell) : Bool :=
  Cell.key? cell = some key

/-- How many of the cells have a key. -/
def occurrences (key : String) (cells : List Cell) : Nat :=
  cells.countP (hasKey key)

/-- A key of the cells that no other key outnumbers; the keys that occur as often are greater. -/
structure MostFrequentKey (cells : List Cell) (key : String) : Prop where
  occurs : ∃ cell ∈ cells, Cell.key? cell = some key
  most : ∀ other, occurrences other cells ≤ occurrences key cells
  least : ∀ other, occurrences other cells = occurrences key cells → key ≤ other

/-- The cell that has a key in the earliest row. -/
def FirstWithKey (cells : List Cell) (key : String) (value : Cell) : Prop :=
  ∃ row : Nat, cells[row]? = some value ∧ Cell.key? value = some key ∧
    ∀ earlier < row, ∀ cell, cells[earlier]? = some cell → Cell.key? cell ≠ some key

theorem hasKey_eq_true_iff : hasKey key cell = true ↔ Cell.key? cell = some key :=
  decide_eq_true_iff

/-- A key occurs if some cell has it. -/
theorem occurrences_pos_iff : 0 < occurrences key cells ↔ ∃ cell ∈ cells, Cell.key? cell = some key := by
  simp only [occurrences, List.countP_pos_iff, hasKey_eq_true_iff]

/-- There is one most frequent key at most. -/
theorem MostFrequentKey.eq {other : String} (h : MostFrequentKey cells key) (hother : MostFrequentKey cells other) :
    key = other := by
  have hcounts : occurrences key cells = occurrences other cells :=
    Nat.le_antisymm (hother.most key) (h.most other)
  exact String.le_antisymm (h.least other hcounts.symm) (hother.least key hcounts)

/-- There is one first cell at most. -/
theorem FirstWithKey.eq {other : Cell} (h : FirstWithKey cells key value) (hother : FirstWithKey cells key other) :
    value = other := by
  obtain ⟨row, hvalue, hkey, hearlier⟩ := h
  obtain ⟨row', hvalue', hkey', hearlier'⟩ := hother
  rcases Nat.lt_trichotomy row row' with hlt | rfl | hgt
  · exact absurd hkey (hearlier' row hlt value hvalue)
  · exact Option.some.inj (hvalue.symm.trans hvalue')
  · exact absurd hkey' (hearlier row' hgt other hvalue')

/-- What a search for a key finds is the first cell that has it. -/
theorem firstWithKey_of_find? (h : cells.find? (hasKey key) = some value) : FirstWithKey cells key value := by
  obtain ⟨hkey, row, hrow, hvalue, hearlier⟩ := List.find?_eq_some_iff_getElem.1 h
  refine ⟨row, List.getElem?_eq_some_iff.2 ⟨hrow, hvalue⟩, hasKey_eq_true_iff.1 hkey, ?_⟩
  intro earlier hlt cell hcell hsame
  obtain ⟨hplace, rfl⟩ := List.getElem?_eq_some_iff.1 hcell
  have hnot := hearlier earlier hlt
  rw [hasKey_eq_true_iff.2 hsame] at hnot
  cases hnot

/-! ## Counting -/

/-- The tally holds, for each key of the cells, how often it occurs and the first cell that has it. -/
def Tallied (tally : Tally) (cells : List Cell) : Prop :=
  ∀ key, tally.get? key = (cells.find? (hasKey key)).map fun first => (occurrences key cells, first)

/-- A key that is found occurs. -/
theorem occurrences_eq_zero (h : cells.find? (hasKey key) = none) : occurrences key cells = 0 := by
  apply List.countP_eq_zero.2
  intro cell hcell
  exact List.find?_eq_none.1 h cell hcell

/-- One more cell is counted. -/
theorem Tallied.countCell (h : Tallied tally seen) (cell : Cell) :
    Tallied (Cleaning.countCell tally cell) (seen ++ [cell]) := by
  intro other
  have hadded : occurrences other (seen ++ [cell]) = occurrences other seen + if hasKey other cell then 1 else 0 := by
    simp [occurrences, List.countP_append, List.countP_cons]
  rw [hadded, List.find?_append]
  cases hcell : Cell.key? cell with
  | none =>
      have hno : hasKey other cell = false := by simp [hasKey, hcell]
      simp [Cleaning.countCell, hcell, hno, h other]
  | some key =>
      have hstep : (Cleaning.countCell tally cell).get? other = if other = key then
          some (occurrences key seen + 1, (seen.find? (hasKey key)).getD cell) else tally.get? other := by
        have hkey := h key
        unfold Cleaning.countCell
        cases hfound : seen.find? (hasKey key) with
        | none =>
            rw [hfound] at hkey
            simp [hcell, hkey, KeyMap.get?_insert, occurrences_eq_zero hfound]
        | some first =>
            rw [hfound] at hkey
            simp [hcell, hkey, KeyMap.get?_insert]
      rw [hstep]
      by_cases hother : other = key
      · subst hother
        have hyes : hasKey other cell = true := hasKey_eq_true_iff.2 hcell
        cases seen.find? (hasKey other) with
        | none => simp [hyes]
        | some first => simp [hyes]
      · have hno : hasKey other cell = false := by
          simp [hasKey, hcell, Ne.symm hother]
        simp [hother, hno, h other]

/-- Counting cells one after another tallies them. -/
theorem tallied_foldl (cells : List Cell) (h : Tallied tally seen) :
    Tallied (cells.foldl Cleaning.countCell tally) (seen ++ cells) := by
  induction cells generalizing tally seen with
  | nil => simpa using h
  | cons cell cells ih => simpa using ih (h.countCell cell)

/-! ## Going through the counts -/

/-- The candidate counts more than those before it, and no less than those after it. -/
def Leads (candidates : List (Nat × Cell)) (best : Nat × Cell) : Prop :=
  ∃ before after, candidates = before ++ best :: after ∧
    (∀ c ∈ before, c.1 < best.1) ∧ ∀ c ∈ after, c.1 ≤ best.1

variable {candidates rest : List (Nat × Cell)} {best next : Nat × Cell}

theorem Leads.le (h : Leads candidates best) : ∀ c ∈ candidates, c.1 ≤ best.1 := by
  obtain ⟨before, after, rfl, hbefore, hafter⟩ := h
  intro c hc
  rcases List.mem_append.1 hc with hc | hc
  · exact Nat.le_of_lt (hbefore c hc)
  · rcases List.mem_cons.1 hc with rfl | hc
    · exact Nat.le_refl _
    · exact hafter c hc

/-- The better of the best candidate so far and the next one leads them all. -/
theorem Leads.moreFrequent (h : Leads candidates best) (next : Nat × Cell) :
    ∃ better, Cleaning.moreFrequent (some best) next = some better ∧ Leads (candidates ++ [next]) better := by
  by_cases hnext : best.1 < next.1
  · refine ⟨next, by simp [Cleaning.moreFrequent, hnext], candidates, [], rfl, ?_, by simp⟩
    intro c hc
    exact Nat.lt_of_le_of_lt (h.le c hc) hnext
  · obtain ⟨before, after, rfl, hbefore, hafter⟩ := h
    refine ⟨best, by simp [Cleaning.moreFrequent, hnext], before, after ++ [next], by simp, hbefore, ?_⟩
    intro c hc
    rcases List.mem_append.1 hc with hc | hc
    · exact hafter c hc
    · rw [List.mem_singleton.1 hc]
      exact Nat.le_of_not_lt hnext

/-- Going on from a candidate that leads finds one that leads them all. -/
theorem Leads.foldl (h : Leads candidates best) (rest : List (Nat × Cell)) :
    ∃ better, rest.foldl Cleaning.moreFrequent (some best) = some better ∧ Leads (candidates ++ rest) better := by
  induction rest generalizing candidates best with
  | nil => exact ⟨best, rfl, by simpa using h⟩
  | cons next rest ih =>
      obtain ⟨better, hstep, hbetter⟩ := h.moreFrequent next
      rw [List.foldl_cons, hstep]
      simpa using ih hbetter

/-- Going through candidates finds the first of those that count most. -/
theorem leads_foldl (h : candidates.foldl moreFrequent none = some best) : Leads candidates best := by
  cases candidates with
  | nil => cases h
  | cons first candidates =>
      have hfirst : Leads [first] first := ⟨[], [], rfl, by simp, by simp⟩
      obtain ⟨better, hfold, hbetter⟩ := hfirst.foldl candidates
      have hsame : some better = some best := hfold.symm.trans h
      rwa [← Option.some.inj hsame]

/-! ## The most frequent value -/

/-- The entries of a tally are the keys that occur, with their counts and their first cells. -/
theorem Tallied.mem_entries_iff {n : Nat} (h : Tallied tally cells) :
    (key, n, value) ∈ tally.entries ↔ cells.find? (hasKey key) = some value ∧ n = occurrences key cells := by
  rw [KeyMap.mem_entries_iff, h key]
  constructor
  · intro hfound
    obtain ⟨first, hfirst, hsame⟩ := Option.map_eq_some_iff.1 hfound
    obtain ⟨rfl, rfl⟩ := Prod.mk.inj hsame
    exact ⟨hfirst, rfl⟩
  · rintro ⟨hfirst, rfl⟩
    rw [hfirst, Option.map_some]

/-- Where an entry leads the entries of a tally, every other key occurs less often, or no more often and is greater. -/
theorem Tallied.occurrences_cases {n : Nat} {front back : List (String × Nat × Cell)} (h : Tallied tally cells)
    (hentries : tally.entries = front ++ (key, n, value) :: back) (hfront : ∀ entry ∈ front, entry.2.1 < n)
    (hback : ∀ entry ∈ back, entry.2.1 ≤ n) (hpos : 0 < n) (other : String) :
    occurrences other cells < n ∨ (occurrences other cells ≤ n ∧ key ≤ other) := by
  cases hfound : cells.find? (hasKey other) with
  | none =>
      left
      rwa [occurrences_eq_zero hfound]
  | some cell =>
      have hascending := tally.ascending
      have hmem : (other, occurrences other cells, cell) ∈ tally.entries := h.mem_entries_iff.2 ⟨hfound, rfl⟩
      rw [hentries] at hascending hmem
      have hgreater := (List.pairwise_cons.1 (List.pairwise_append.1 hascending).2.1).1
      rcases List.mem_append.1 hmem with hmem | hmem
      · exact Or.inl (hfront _ hmem)
      · right
        rcases List.mem_cons.1 hmem with hsame | hmem
        · obtain ⟨rfl, hcount⟩ := Prod.mk.inj hsame
          exact ⟨Nat.le_of_eq (Prod.mk.inj hcount).1, String.le_refl _⟩
        · exact ⟨hback _ hmem, String.not_lt.1 (String.lt_asymm (hgreater _ hmem))⟩

/-- The most frequent value of a column has its most frequent key, and is the first cell that has it. -/
theorem mostFrequentKey_of_modeOf (h : modeOf cells = some value) :
    ∃ key, MostFrequentKey cells key ∧ FirstWithKey cells key value := by
  have hempty : Tallied KeyMap.empty [] := fun _ => rfl
  have htally : Tallied (cells.foldl countCell KeyMap.empty) cells := tallied_foldl cells hempty
  obtain ⟨best, hbest, rfl⟩ := Option.map_eq_some_iff.1 h
  obtain ⟨before, after, hsplit, hbefore, hafter⟩ := leads_foldl hbest
  obtain ⟨front, back, hentries, rfl, hback⟩ := List.map_eq_append_iff.1 hsplit
  obtain ⟨⟨key, n, first⟩, back, rfl, rfl, rfl⟩ := List.map_eq_cons_iff.1 hback
  have hmem : (key, n, first) ∈ (cells.foldl countCell KeyMap.empty).entries := by
    simp [hentries]
  obtain ⟨hfirst, rfl⟩ := htally.mem_entries_iff.1 hmem
  have hoccurs : ∃ cell ∈ cells, Cell.key? cell = some key :=
    ⟨first, List.mem_of_find?_eq_some hfirst, hasKey_eq_true_iff.1 (List.find?_some hfirst)⟩
  have hothers := htally.occurrences_cases hentries
    (fun entry hentry => hbefore _ (List.mem_map_of_mem hentry))
    (fun entry hentry => hafter _ (List.mem_map_of_mem hentry)) (occurrences_pos_iff.2 hoccurs)
  refine ⟨key, ⟨hoccurs, ?_, ?_⟩, firstWithKey_of_find? hfirst⟩
  · intro other
    rcases hothers other with hless | ⟨hle, -⟩
    · exact Nat.le_of_lt hless
    · exact hle
  · intro other hequal
    rcases hothers other with hless | ⟨-, hle⟩
    · exact absurd hequal (Nat.ne_of_lt hless)
    · exact hle

theorem modeOf_eq_none_iff : modeOf cells = none ↔ ∀ cell ∈ cells, cell.isNull = true := by
  constructor
  · intro hnone cell hcell
    by_contra hvalue
    obtain ⟨value, hmode⟩ := exists_modeOf ⟨cell, hcell, by simpa using hvalue⟩
    rw [hnone] at hmode
    cases hmode
  · intro hmissing
    cases hmode : modeOf cells with
    | none => rfl
    | some value =>
        obtain ⟨hvalue, hnull⟩ := mem_of_modeOf hmode
        rw [hmissing value hvalue] at hnull
        cases hnull

/-- A way that takes the mode of every column fills a column with it. -/
theorem fillFor_mode (cells : List Cell) : Cleaning.mode.fillFor cells = modeOf cells := by
  by_cases hvalues : ∃ cell ∈ cells, cell.isNull = false
  · have hmode : Cleaning.mode.average? cells = none := by
      unfold average?
      cases ColumnKind.ofCells cells <;> rfl
    rw [fillFor_eq hvalues, hmode]
  · have hmissing : ∀ cell ∈ cells, cell.isNull = true := by simpa using hvalues
    rw [fillFor_eq_none hmissing, modeOf_eq_none_iff.2 hmissing]

end Cleaning

/-- A column has no mode if and only if all its cells are missing.  Otherwise its mode is the cell, in the earliest row,
that has the most frequent key of the column: no key occurs more often, and the keys that occur as often are greater.
This is what the gaps of the column are filled with. -/
theorem mode_is_most_frequent (t : Table) (place : Nat) :
    (Cleaning.modeOf (t.column place) = none ↔ ∀ cell ∈ t.column place, cell.isNull = true) ∧
      (∀ value, Cleaning.modeOf (t.column place) = some value ↔
        ∃ key, Cleaning.MostFrequentKey (t.column place) key ∧
          Cleaning.FirstWithKey (t.column place) key value) ∧
      Cleaning.mode.fillFor (t.column place) = Cleaning.modeOf (t.column place) := by
  refine ⟨Cleaning.modeOf_eq_none_iff, ?_, Cleaning.fillFor_mode _⟩
  intro value
  constructor
  · exact Cleaning.mostFrequentKey_of_modeOf
  · rintro ⟨key, hkey, hvalue⟩
    obtain ⟨cell, hcell, hhas⟩ := hkey.occurs
    obtain ⟨found, hfound⟩ := Cleaning.exists_modeOf ⟨cell, hcell, Cleaning.isNull_of_key? hhas⟩
    obtain ⟨key', hkey', hfirst⟩ := Cleaning.mostFrequentKey_of_modeOf hfound
    obtain rfl := hkey.eq hkey'
    rw [hfound, hvalue.eq hfirst]

/-- The text `1` and the number one have one key, and the first of the two cells is the mode. -/
example : Cleaning.modeOf [.string "b", .nat 1, .null, .string "1", .string "b"] = some (.nat 1) := by
  rfl

end TableFlow
