/-!
# Maps with text keys in order

Pairs whose keys ascend strictly.  The order of the keys is the order of their code points, so that two maps
with the same content are the same list.
-/

namespace TableFlow

/-- Put a pair into a list with ascending keys; a pair with that key is replaced. -/
def insertKey {α : Type} (key : String) (value : α) : List (String × α) → List (String × α)
  | [] => [(key, value)]
  | (k, v) :: rest =>
    if k < key then (k, v) :: insertKey key value rest
    else if k = key then (key, value) :: rest
    else (key, value) :: (k, v) :: rest

/-- A list of pairs as one with ascending keys; of pairs with one key the last one counts. -/
def sortKeys {α : Type} (pairs : List (String × α)) : List (String × α) :=
  pairs.foldl (fun sorted (key, value) => insertKey key value sorted) []

/-- Keys ascend strictly. -/
def Ascending {α : Type} (pairs : List (String × α)) : Prop :=
  pairs.Pairwise fun a b => a.1 < b.1

/-- What is in the list after putting a pair into it was there before or is that pair. -/
theorem mem_of_mem_insertKey {α : Type} {key : String} {value : α} {pairs : List (String × α)}
    {p : String × α} (h : p ∈ insertKey key value pairs) : p = (key, value) ∨ p ∈ pairs := by
  induction pairs with
  | nil => simpa [insertKey] using h
  | cons q rest ih =>
    obtain ⟨k, v⟩ := q
    simp only [insertKey] at h
    split at h
    · rcases List.mem_cons.1 h with e | hm
      · exact Or.inr (by simp [e])
      · rcases ih hm with e | hr
        · exact Or.inl e
        · exact Or.inr (List.mem_cons_of_mem _ hr)
    · split at h
      · rcases List.mem_cons.1 h with e | hm
        · exact Or.inl e
        · exact Or.inr (List.mem_cons_of_mem _ hm)
      · rcases List.mem_cons.1 h with e | hm
        · exact Or.inl e
        · exact Or.inr hm

/-- Putting a pair in keeps the keys ascending. -/
theorem Ascending.insertKey {α : Type} {pairs : List (String × α)} (h : Ascending pairs)
    (key : String) (value : α) : Ascending (insertKey key value pairs) := by
  induction pairs with
  | nil => simp [Ascending, TableFlow.insertKey]
  | cons q rest ih =>
    obtain ⟨k, v⟩ := q
    obtain ⟨hk, hrest⟩ := List.pairwise_cons.1 h
    simp only [TableFlow.insertKey]
    split
    · rename_i hlt
      refine List.pairwise_cons.2 ⟨fun p hp => ?_, ih hrest⟩
      rcases mem_of_mem_insertKey hp with e | hm
      · rw [e]
        exact hlt
      · exact hk p hm
    · split
      · rename_i e
        subst e
        exact List.pairwise_cons.2 ⟨hk, hrest⟩
      · rename_i hnot hne
        have hlt : key < k := by
          rcases String.le_total k key with hle | hle
          · exact absurd (String.le_antisymm hle (String.not_lt.1 hnot)) hne
          · exact String.not_le.1 fun hc => hne (String.le_antisymm hc hle)
        refine List.pairwise_cons.2 ⟨fun p hp => ?_, h⟩
        rcases List.mem_cons.1 hp with e | hm
        · rw [e]
          exact hlt
        · exact String.lt_trans hlt (hk p hm)

/-- A map from texts to values, in ascending order of its keys. -/
structure KeyMap (α : Type) where
  /-- The pairs in ascending order of their keys. -/
  entries : List (String × α)
  /-- The keys ascend strictly. -/
  ascending : Ascending entries

namespace KeyMap

variable {α : Type}

/-- No pairs. -/
def empty : KeyMap α := ⟨[], List.Pairwise.nil⟩

instance : Inhabited (KeyMap α) := ⟨empty⟩

instance : EmptyCollection (KeyMap α) := ⟨empty⟩

/-- Maps with the same pairs are the same. -/
theorem ext {a b : KeyMap α} (h : a.entries = b.entries) : a = b := by
  cases a; cases b; cases h; rfl

instance [DecidableEq α] : DecidableEq (KeyMap α) := fun a b =>
  decidable_of_iff (a.entries = b.entries) ⟨ext, fun h => h ▸ rfl⟩

/-- Give a key a value. -/
def insert (m : KeyMap α) (key : String) (value : α) : KeyMap α :=
  ⟨insertKey key value m.entries, m.ascending.insertKey key value⟩

/-- The map without the pairs that fail the test. -/
def filter (m : KeyMap α) (keep : String → Bool) : KeyMap α :=
  ⟨m.entries.filter fun pair => keep pair.1, m.ascending.sublist List.filter_sublist⟩

/-- The map without a key. -/
def erase (m : KeyMap α) (key : String) : KeyMap α :=
  m.filter (· != key)

/-- The value of a key. -/
def get? (m : KeyMap α) (key : String) : Option α :=
  m.entries.lookup key

/-- The key has a value. -/
def contains (m : KeyMap α) (key : String) : Bool :=
  (m.get? key).isSome

/-- No key has a value. -/
def isEmpty (m : KeyMap α) : Bool :=
  m.entries.isEmpty

/-- Give keys values, one after another. -/
def insertAll (m : KeyMap α) (pairs : List (String × α)) : KeyMap α :=
  pairs.foldl (fun m (key, value) => m.insert key value) m

/-- The map of a list of pairs; of pairs with one key the last one counts. -/
def ofList (pairs : List (String × α)) : KeyMap α :=
  empty.insertAll pairs

/-- The first map with the pairs of the second put over it. -/
def union (a b : KeyMap α) : KeyMap α :=
  a.insertAll b.entries

end KeyMap
end TableFlow
