import TableFlow.KeyMap

/-!
# Lookup in maps

What a map gives for a key after pairs have been put in or taken out.

Main results:

- Theorem `KeyMap.get?_insert`: a key that was given a value has it, and every other key keeps its own.
- Theorem `KeyMap.get?_filter`: a key that passes the test keeps its value, and every other key loses it.
- Theorem `mem_map_fst_sortKeys`: the keys of a sorted list are those of the list.
- Theorems `sortKeys_perm` and `ascending_sortKeys`: pairs with distinct keys are the same pairs when sorted, in
  ascending order.
- Theorem `lookup_sortKeys`: sorting pairs with distinct keys changes no lookup.
- Theorem `KeyMap.entries_ofList_perm`: a map of pairs with distinct keys holds these pairs.
-/

namespace TableFlow

variable {α : Type}

/-- The first pair of a list gives its value for its key. -/
theorem lookup_cons_eq (key k : String) (v : α) (pairs : List (String × α)) :
    ((k, v) :: pairs).lookup key = if key = k then some v else pairs.lookup key := by
  by_cases h : key = k
  · simp [h]
  · have hbeq : (key == k) = false := beq_eq_false_iff_ne.2 h
    simp [List.lookup_cons, hbeq, h]

/-- What is found in a list is in it. -/
theorem mem_of_lookup_eq {key : String} {value : α} {pairs : List (String × α)}
    (h : pairs.lookup key = some value) : (key, value) ∈ pairs := by
  induction pairs with
  | nil => cases h
  | cons pair pairs ih =>
      obtain ⟨k, v⟩ := pair
      rw [lookup_cons_eq] at h
      split at h
      · next hk =>
          cases h
          simp [hk]
      · exact List.mem_cons_of_mem _ (ih h)

/-- What is found in a list with ascending keys after a pair has been put in. -/
theorem lookup_insertKey (key other : String) (value : α) (pairs : List (String × α)) :
    (insertKey key value pairs).lookup other =
      if other = key then some value else pairs.lookup other := by
  induction pairs with
  | nil => exact lookup_cons_eq other key value []
  | cons pair pairs ih =>
      obtain ⟨k, v⟩ := pair
      rw [insertKey]
      split
      · next hlt =>
          have hk : k ≠ key := fun e => String.lt_irrefl key (e ▸ hlt)
          rw [lookup_cons_eq, lookup_cons_eq, ih]
          by_cases h : other = k
          · have hother : other ≠ key := fun e => hk (h.symm.trans e)
            rw [if_pos h, if_pos h, if_neg hother]
          · rw [if_neg h, if_neg h]
      · split
        · next _ hk =>
            rw [lookup_cons_eq, lookup_cons_eq, hk]
            by_cases h : other = key
            · rw [if_pos h, if_pos h]
            · rw [if_neg h, if_neg h, if_neg h]
        · rw [lookup_cons_eq]

/-- The keys of a list after a pair has been put in are its keys and that of the pair. -/
theorem mem_map_fst_insertKey {key other : String} {value : α} {pairs : List (String × α)} :
    other ∈ (insertKey key value pairs).map Prod.fst ↔ other = key ∨ other ∈ pairs.map Prod.fst := by
  induction pairs with
  | nil => simp [insertKey]
  | cons pair pairs ih =>
      obtain ⟨k, v⟩ := pair
      rw [insertKey]
      split
      · rw [List.map_cons, List.map_cons, List.mem_cons, List.mem_cons, ih]
        exact or_left_comm
      · split
        · next _ hk => simp [hk]
        · simp

/-- The keys of a sorted list are those of the list. -/
theorem mem_map_fst_sortKeys {key : String} {pairs : List (String × α)} :
    key ∈ (sortKeys pairs).map Prod.fst ↔ key ∈ pairs.map Prod.fst := by
  have hfold : ∀ sorted : List (String × α),
      key ∈ (pairs.foldl (fun sorted pair => insertKey pair.1 pair.2 sorted) sorted).map Prod.fst ↔
        key ∈ sorted.map Prod.fst ∨ key ∈ pairs.map Prod.fst := by
    induction pairs with
    | nil => simp
    | cons pair pairs ih =>
        intro sorted
        rw [List.foldl_cons, ih, mem_map_fst_insertKey, List.map_cons, List.mem_cons, or_assoc,
          or_left_comm]
  refine (hfold []).trans ?_
  simp

/-! ## Pairs with distinct keys -/

/-- What is in a list with distinct keys is found there. -/
theorem lookup_eq_some_iff_mem {key : String} {value : α} {pairs : List (String × α)}
    (h : (pairs.map Prod.fst).Nodup) : pairs.lookup key = some value ↔ (key, value) ∈ pairs := by
  refine ⟨mem_of_lookup_eq, fun hmem => ?_⟩
  induction pairs with
  | nil => cases hmem
  | cons pair pairs ih =>
      obtain ⟨k, v⟩ := pair
      obtain ⟨hk, hrest⟩ := List.nodup_cons.1 h
      rw [lookup_cons_eq]
      rcases List.mem_cons.1 hmem with heq | hin
      · cases heq
        rw [if_pos rfl]
      · have hne : key ≠ k := by
          rintro rfl
          exact hk (List.mem_map.2 ⟨_, hin, rfl⟩)
        rw [if_neg hne, ih hrest hin]

/-- The order of pairs with distinct keys does not matter for lookups. -/
theorem lookup_eq_of_perm {pairs others : List (String × α)} (hperm : pairs.Perm others)
    (h : (pairs.map Prod.fst).Nodup) (key : String) : pairs.lookup key = others.lookup key := by
  have hothers : (others.map Prod.fst).Nodup := (hperm.map Prod.fst).nodup_iff.1 h
  ext value
  rw [lookup_eq_some_iff_mem h, lookup_eq_some_iff_mem hothers, hperm.mem_iff]

/-- A pair with a new key is put in beside the others. -/
theorem insertKey_perm {key : String} {value : α} {pairs : List (String × α)}
    (h : key ∉ pairs.map Prod.fst) : (insertKey key value pairs).Perm ((key, value) :: pairs) := by
  induction pairs with
  | nil => exact List.Perm.refl _
  | cons pair pairs ih =>
      obtain ⟨k, v⟩ := pair
      rw [List.map_cons, List.mem_cons, not_or] at h
      rw [insertKey, if_neg (Ne.symm h.1)]
      split
      · exact ((ih h.2).cons _).trans (List.Perm.swap _ _ _)
      · exact List.Perm.refl _

/-- Pairs with distinct keys are the same pairs when sorted. -/
theorem sortKeys_perm {pairs : List (String × α)} (h : (pairs.map Prod.fst).Nodup) :
    (sortKeys pairs).Perm pairs := by
  have hfold : ∀ sorted : List (String × α), ((sorted ++ pairs).map Prod.fst).Nodup →
      (pairs.foldl (fun sorted pair => insertKey pair.1 pair.2 sorted) sorted).Perm (sorted ++ pairs) := by
    clear h
    induction pairs with
    | nil => simp
    | cons pair pairs ih =>
        intro sorted hnodup
        have hnext : (sorted ++ pair :: pairs).Perm (pair :: (sorted ++ pairs)) := List.perm_middle
        have hkeys := (hnext.map Prod.fst).nodup_iff.1 hnodup
        have hnew : pair.1 ∉ sorted.map Prod.fst := by
          intro hmem
          refine (List.nodup_cons.1 hkeys).1 ?_
          rw [List.map_append]
          exact List.mem_append_left _ hmem
        have hinsert : (insertKey pair.1 pair.2 sorted ++ pairs).Perm (pair :: (sorted ++ pairs)) :=
          (insertKey_perm hnew).append_right pairs
        exact (ih _ ((hinsert.map Prod.fst).nodup_iff.2 hkeys)).trans (hinsert.trans hnext.symm)
  exact hfold [] h

/-- Sorted pairs are in ascending order. -/
theorem ascending_sortKeys (pairs : List (String × α)) : Ascending (sortKeys pairs) := by
  have hfold : ∀ sorted : List (String × α), Ascending sorted →
      Ascending (pairs.foldl (fun sorted pair => insertKey pair.1 pair.2 sorted) sorted) := by
    induction pairs with
    | nil => exact fun _ h => h
    | cons pair pairs ih => exact fun sorted h => ih _ (h.insertKey pair.1 pair.2)
  exact hfold [] List.Pairwise.nil

theorem Ascending.map_fst {pairs : List (String × α)} (h : Ascending pairs) :
    (pairs.map Prod.fst).Pairwise (· < ·) :=
  List.pairwise_map.2 h

/-- Names in ascending order are distinct. -/
theorem nodup_of_pairwise_lt {names : List String} (h : names.Pairwise (· < ·)) : names.Nodup :=
  List.Pairwise.imp (fun {a b} (hlt : a < b) (heq : a = b) => String.lt_irrefl b (heq ▸ hlt)) h

/-- The same names in ascending order are the same list. -/
theorem eq_of_perm_of_pairwise_lt {names others : List String} (hnames : names.Pairwise (· < ·))
    (hothers : others.Pairwise (· < ·)) (h : names.Perm others) : names = others := by
  refine h.eq_of_pairwise ?_ hnames hothers
  intro a b _ _ hab hba
  exact absurd (String.lt_trans hab hba) (String.lt_irrefl a)

/-- Pairs in ascending order stay where they are. -/
theorem sortKeys_of_ascending {pairs : List (String × α)} (h : Ascending pairs) : sortKeys pairs = pairs := by
  refine (sortKeys_perm (nodup_of_pairwise_lt h.map_fst)).eq_of_pairwise ?_ (ascending_sortKeys pairs) h
  intro a b _ _ hab hba
  exact absurd (String.lt_trans hab hba) (String.lt_irrefl a.1)

/-- Sorting pairs with distinct keys changes no lookup. -/
theorem lookup_sortKeys {pairs : List (String × α)} (h : (pairs.map Prod.fst).Nodup) (key : String) :
    (sortKeys pairs).lookup key = pairs.lookup key :=
  lookup_eq_of_perm (sortKeys_perm h) (((sortKeys_perm h).map Prod.fst).nodup_iff.2 h) key

/-- Among the pairs whose keys pass a test, such a key has the value that it has among all of them. -/
theorem lookup_filter_fst (keep : String → Bool) (key : String) (pairs : List (String × α)) :
    (pairs.filter fun pair => keep pair.1).lookup key = if keep key then pairs.lookup key else none := by
  induction pairs with
  | nil => simp
  | cons pair pairs ih =>
      obtain ⟨k, v⟩ := pair
      rw [List.filter_cons]
      by_cases hk : key = k
      · subst hk
        cases hkeep : keep key with
        | true => simp only [if_true, lookup_cons_eq]
        | false => simpa [hkeep] using ih
      · cases hkeep : keep k with
        | true => simp only [if_true, lookup_cons_eq, if_neg hk, ih]
        | false => simp only [Bool.false_eq_true, if_false, lookup_cons_eq, if_neg hk, ih]

namespace KeyMap

/-- A key that was given a value has it, and every other key keeps its own. -/
theorem get?_insert (m : KeyMap α) (key other : String) (value : α) :
    (m.insert key value).get? other = if other = key then some value else m.get? other :=
  lookup_insertKey key other value m.entries

/-- The pairs of a map are its keys with their values. -/
theorem mem_entries_iff {m : KeyMap α} {key : String} {value : α} :
    (key, value) ∈ m.entries ↔ m.get? key = some value :=
  (lookup_eq_some_iff_mem (nodup_of_pairwise_lt m.ascending.map_fst)).symm

/-- Maps that give the same for every key are the same. -/
theorem eq_of_get? {a b : KeyMap α} (h : ∀ key, a.get? key = b.get? key) : a = b := by
  have hmem : ∀ pair, pair ∈ a.entries ↔ pair ∈ b.entries := by
    rintro ⟨key, value⟩
    rw [mem_entries_iff, mem_entries_iff, h key]
  have hnodup : ∀ m : KeyMap α, m.entries.Nodup := by
    intro m
    refine List.Pairwise.imp ?_ m.ascending
    rintro p q hlt rfl
    exact String.lt_irrefl p.1 hlt
  have hperm : a.entries.Perm b.entries :=
    (List.perm_ext_iff_of_nodup (hnodup a) (hnodup b)).2 hmem
  refine ext (hperm.eq_of_pairwise ?_ a.ascending b.ascending)
  intro p q _ _ hpq hqp
  exact absurd (String.lt_trans hpq hqp) (String.lt_irrefl p.1)

/-- Two keys may be given their values in either order. -/
theorem insert_comm (m : KeyMap α) {key other : String} (hne : key ≠ other) (value value' : α) :
    (m.insert key value).insert other value' = (m.insert other value').insert key value := by
  apply eq_of_get?
  intro k
  simp only [get?_insert]
  by_cases hk : k = key
  · simp [hk, hne]
  · simp [hk]

theorem entries_insertAll (m : KeyMap α) (pairs : List (String × α)) :
    (m.insertAll pairs).entries = pairs.foldl (fun sorted pair => insertKey pair.1 pair.2 sorted) m.entries := by
  induction pairs generalizing m with
  | nil => rfl
  | cons pair pairs ih => exact ih (m.insert pair.1 pair.2)

/-- The pairs of a map of pairs with distinct keys are these pairs. -/
theorem entries_ofList_perm {pairs : List (String × α)} (h : (pairs.map Prod.fst).Nodup) :
    (ofList pairs).entries.Perm pairs := by
  rw [ofList, entries_insertAll]
  exact sortKeys_perm h

@[simp] theorem insertAll_nil (m : KeyMap α) : m.insertAll [] = m := rfl

/-- Giving one more key a value at the end. -/
theorem insertAll_concat (m : KeyMap α) (pairs : List (String × α)) (key : String) (value : α) :
    m.insertAll (pairs ++ [(key, value)]) = (m.insertAll pairs).insert key value := by
  rw [insertAll, List.foldl_append]
  rfl

/-- A key that passes the test keeps its value, and every other key loses it. -/
theorem get?_filter (m : KeyMap α) (keep : String → Bool) (key : String) :
    (m.filter keep).get? key = if keep key then m.get? key else none :=
  lookup_filter_fst keep key m.entries

/-- A test that every key passes takes nothing out. -/
theorem filter_eq_self {m : KeyMap α} {keep : String → Bool} (h : ∀ key, keep key = true) :
    m.filter keep = m := by
  refine ext (List.filter_eq_self.2 ?_)
  intro pair _
  exact h pair.1

/-- A map contains the keys that have a value. -/
theorem contains_eq_true_iff {m : KeyMap α} {key : String} :
    m.contains key = true ↔ ∃ value, m.get? key = some value := by
  rw [contains, Option.isSome_iff_exists]

end KeyMap
end TableFlow
