/-!
# Options

The `--key value` pairs of a script line.  Keys are distinct and stand in the order of their first
appearance; giving a key again replaces its value and keeps its place.
-/

namespace TableFlow

/-- Give `key` a value: replace the value in place, or add the pair at the end. -/
def assign {α : Type} (key : String) (value : α) : List (String × α) → List (String × α)
  | [] => [(key, value)]
  | (k, v) :: rest => if k = key then (k, value) :: rest else (k, v) :: assign key value rest

/-- Giving a key a value changes the keys only when the key is new. -/
theorem map_fst_assign {α : Type} (key : String) (value : α) (pairs : List (String × α)) :
    (assign key value pairs).map Prod.fst =
      if key ∈ pairs.map Prod.fst then pairs.map Prod.fst else pairs.map Prod.fst ++ [key] := by
  induction pairs with
  | nil => simp [assign]
  | cons pair rest ih =>
    obtain ⟨k, v⟩ := pair
    by_cases h : k = key
    · simp [assign, h]
    · have h' : key ≠ k := fun e => h e.symm
      simp only [assign, h, if_false, List.map_cons, ih, List.mem_cons, h', false_or]
      split <;> simp

/-- Distinct keys stay distinct. -/
theorem nodup_assign {α : Type} (key : String) (value : α) {pairs : List (String × α)}
    (h : (pairs.map Prod.fst).Nodup) : ((assign key value pairs).map Prod.fst).Nodup := by
  rw [map_fst_assign]
  split
  · exact h
  · rename_i hmem
    refine List.nodup_append.2 ⟨h, by simp, ?_⟩
    intro a ha b hb
    simp only [List.mem_singleton] at hb
    subst hb
    intro e
    exact hmem (e ▸ ha)

/-- The options of one script line: pairs with distinct keys, in order of first appearance. -/
structure Options where
  /-- The pairs in order. -/
  pairs : List (String × String)
  /-- No key occurs twice. -/
  nodup : (pairs.map Prod.fst).Nodup
  deriving DecidableEq

namespace Options

/-- No options. -/
def empty : Options := ⟨[], by simp⟩

instance : Inhabited Options := ⟨empty⟩

/-- Give `key` a value. -/
def insert (o : Options) (key value : String) : Options :=
  ⟨assign key value o.pairs, nodup_assign key value o.nodup⟩

/-- The options of a list of pairs, given one after another. -/
def ofList (pairs : List (String × String)) : Options :=
  pairs.foldl (fun o (key, value) => o.insert key value) empty

/-- The value of a key. -/
def get? (o : Options) (key : String) : Option String :=
  o.pairs.lookup key

/-- The options whose key passes the test. -/
def filter (keep : String → Bool) (o : Options) : Options :=
  ⟨o.pairs.filter fun pair => keep pair.1,
   List.Nodup.sublist (List.Sublist.map _ List.filter_sublist) o.nodup⟩

/-- Two sets of options give the same keys the same values, in whatever order. -/
def agrees (a b : Options) : Bool :=
  a.pairs.length == b.pairs.length && a.pairs.all fun (key, value) => b.get? key == some value

@[simp] theorem pairs_empty : empty.pairs = [] := rfl

@[simp] theorem pairs_insert (o : Options) (key value : String) :
    (o.insert key value).pairs = assign key value o.pairs := rfl

@[simp] theorem pairs_filter (keep : String → Bool) (o : Options) :
    (o.filter keep).pairs = o.pairs.filter fun pair => keep pair.1 := rfl

/-- Options with the same pairs are the same. -/
theorem ext {a b : Options} (h : a.pairs = b.pairs) : a = b := by
  cases a; cases b; cases h; rfl

end Options
end TableFlow
