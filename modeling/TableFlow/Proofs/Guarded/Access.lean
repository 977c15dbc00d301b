import TableFlow.Command.Spec
import TableFlow.Proofs.Checks

/-!
# Guarded computations

The definitions of the library give every list an answer at every place, also beyond its end.  A guarded computation
does not: it breaks down where it reaches beyond the end of a list, asks for a key that is not there, takes more
than there is, or draws below zero.  Where each access is in place, it gives the same value as its unguarded
counterpart; the lemmas here say so for single accesses and for the loops around them.

Main results:

- Definitions `element`, `update`, `front`, `back`, `placeOf` and `require`: the guarded accesses.
- Theorems `mapM_eq`, `filter_eq`, `find_eq` and `foldlM_eq`: loops whose steps are in place.
- Theorems `mapM_range` and `mapM_range_zipWith`: loops over the places of lists.
- Theorem `foldl_modify`: what a loop that changes one place at a time makes of each place.
- Theorem `bind_lift`: errors pass through a guarded computation unchanged.
-/

namespace TableFlow

/-- A computation that may fail with an error, and that breaks down where an access is out of place. -/
abbrev Guarded := Except Breakdown

namespace Guarded

variable {α β γ : Type}

/-! ## Accesses -/

/-- Break down. -/
def crash (detail : String) : Guarded α :=
  .error (.crashed (some detail))

/-- Break down unless the condition holds. -/
def require (condition : Prop) [Decidable condition] : Guarded Unit :=
  if condition then .ok () else crash "assertion failed"

/-- The element at a place of a list. -/
def element (items : List α) (i : Nat) : Guarded α :=
  match items[i]? with
  | some a => .ok a
  | none => crash s!"index out of bounds: the len is {items.length} but the index is {i}"

/-- The list with the element at a place changed. -/
def update (items : List α) (i : Nat) (f : α → α) : Guarded (List α) :=
  if i < items.length then .ok (items.modify i f)
  else crash s!"index out of bounds: the len is {items.length} but the index is {i}"

/-- The first elements of a list, which has to have so many. -/
def front (items : List α) (n : Nat) : Guarded (List α) :=
  if n ≤ items.length then .ok (items.take n)
  else crash s!"range end index {n} out of range for slice of length {items.length}"

/-- The elements of a list from a place on, which may be its end. -/
def back (items : List α) (n : Nat) : Guarded (List α) :=
  if n ≤ items.length then .ok (items.drop n)
  else crash s!"range start index {n} out of range for slice of length {items.length}"

/-- The place of a key that a map has to know. -/
def placeOf (keys : List String) (key : String) : Guarded Nat :=
  if key ∈ keys then .ok (keys.idxOf key) else crash "no entry found for key"

/-- The items that pass a guarded test. -/
def filter (test : α → Guarded Bool) : List α → Guarded (List α)
  | [] => .ok []
  | a :: rest => do
    let passes ← test a
    let kept ← filter test rest
    pure (if passes then a :: kept else kept)

/-- The first item that passes a guarded test. -/
def find (test : α → Guarded Bool) : List α → Guarded (Option α)
  | [] => .ok none
  | a :: rest => do
    let passes ← test a
    if passes then pure (some a) else find test rest

/-- Combine the elements at each of the first places of two lists. -/
def zipPlaces (n : Nat) (f : α → β → γ) (xs : List α) (ys : List β) : Guarded (List γ) :=
  (List.range n).mapM fun i => do
    let x ← element xs i
    let y ← element ys i
    pure (f x y)

/-- A computation that accesses nothing. -/
def lift : Except Error α → Guarded α
  | .ok a => .ok a
  | .error e => .error (.failed e)

/-! ## Accesses that are in place -/

theorem require_eq {condition : Prop} [Decidable condition] (h : condition) : require condition = .ok () :=
  if_pos h

theorem element_eq {items : List α} {i : Nat} (h : i < items.length) : element items i = .ok items[i] := by
  rw [element, List.getElem?_eq_getElem h]

/-- An element that is there is the one that a default would stand in for. -/
theorem element_eq_getD {items : List α} {i : Nat} (h : i < items.length) (default : α) :
    element items i = .ok (items.getD i default) := by
  rw [element_eq h, List.getD_eq_getElem?_getD, List.getElem?_eq_getElem h, Option.getD_some]

theorem element_of_getElem? {items : List α} {i : Nat} {a : α} (h : items[i]? = some a) : element items i = .ok a := by
  rw [element, h]

theorem update_eq {items : List α} {i : Nat} (h : i < items.length) (f : α → α) :
    update items i f = .ok (items.modify i f) :=
  if_pos h

/-- What takes the place of an element may be computed beforehand. -/
theorem modify_const {items : List α} {i : Nat} (h : i < items.length) (f : α → α) :
    (items.modify i fun _ => f items[i]) = items.modify i f := by
  refine List.ext_getElem (by simp) fun j _ _ => ?_
  by_cases hj : i = j
  · subst hj
    simp
  · simp [hj]

theorem front_eq {items : List α} {n : Nat} (h : n ≤ items.length) : front items n = .ok (items.take n) :=
  if_pos h

theorem back_eq {items : List α} {n : Nat} (h : n ≤ items.length) : back items n = .ok (items.drop n) :=
  if_pos h

theorem placeOf_eq {keys : List String} {key : String} (h : key ∈ keys) :
    placeOf keys key = .ok (keys.idxOf key) :=
  if_pos h

/-! ## Sequences and loops -/

/-- Errors pass through a guarded computation unchanged. -/
theorem bind_lift {x : Except Error α} {f : α → Guarded β} {g : α → Except Error β}
    (h : ∀ a, x = .ok a → f a = lift (g a)) : (lift x >>= f) = lift (x >>= g) := by
  cases x with
  | error e => rfl
  | ok a => exact h a rfl

/-- A value that was found goes on to the rest. -/
theorem bind_ok {x : Guarded α} {a : α} (h : x = .ok a) (f : α → Guarded β) : (x >>= f) = f a := by
  rw [h]
  rfl

/-- A loop whose steps are in place is the unguarded loop. -/
theorem mapM_eq {f : α → Guarded β} {g : α → β} {items : List α} (h : ∀ a ∈ items, f a = .ok (g a)) :
    items.mapM f = .ok (items.map g) := by
  induction items with
  | nil => rfl
  | cons a items ih =>
      have hrest := ih fun b hb => h b (List.mem_cons_of_mem _ hb)
      rw [List.mapM_cons, h a List.mem_cons_self, hrest]
      rfl

theorem filter_eq {test : α → Guarded Bool} {p : α → Bool} {items : List α}
    (h : ∀ a ∈ items, test a = .ok (p a)) : filter test items = .ok (items.filter p) := by
  induction items with
  | nil => rfl
  | cons a items ih =>
      have hrest := ih fun b hb => h b (List.mem_cons_of_mem _ hb)
      rw [filter, h a List.mem_cons_self, hrest, List.filter_cons]
      rfl

theorem find_eq {test : α → Guarded Bool} {p : α → Bool} {items : List α}
    (h : ∀ a ∈ items, test a = .ok (p a)) : find test items = .ok (items.find? p) := by
  induction items with
  | nil => rfl
  | cons a items ih =>
      have hrest := ih fun b hb => h b (List.mem_cons_of_mem _ hb)
      rw [find, h a List.mem_cons_self, hrest, List.find?_cons]
      cases p a <;> rfl

/-- A loop that threads a value keeps what its steps need. -/
theorem foldlM_eq {P : β → Prop} {f : β → α → Guarded β} {g : β → α → β} {items : List α}
    (hstep : ∀ b, ∀ a ∈ items, P b → f b a = .ok (g b a) ∧ P (g b a)) {b : β} (hb : P b) :
    items.foldlM f b = .ok (items.foldl g b) ∧ P (items.foldl g b) := by
  induction items generalizing b with
  | nil => exact ⟨rfl, hb⟩
  | cons a items ih =>
      obtain ⟨hfirst, hnext⟩ := hstep b a List.mem_cons_self hb
      rw [List.foldlM_cons, hfirst, List.foldl_cons]
      exact ih (fun c x hx => hstep c x (List.mem_cons_of_mem _ hx)) hnext

/-- A loop whose steps may fail, but only with errors. -/
theorem mapM_lift {f : α → Guarded β} {g : α → Except Error β} {items : List α}
    (h : ∀ a ∈ items, f a = lift (g a)) : items.mapM f = lift (items.mapM g) := by
  induction items with
  | nil => rfl
  | cons a items ih =>
      rw [List.mapM_cons, List.mapM_cons, h a List.mem_cons_self, ih fun b hb => h b (List.mem_cons_of_mem _ hb)]
      refine bind_lift fun b _ => bind_lift fun rest _ => rfl

/-- What follows a loop whose steps may fail, but only with errors. -/
theorem bind_mapM_lift {f : α → Guarded β} {g : α → Except Error β} {items : List α}
    {k : List β → Guarded γ} {k' : List β → Except Error γ} (h : ∀ a ∈ items, f a = lift (g a))
    (hrest : ∀ results, items.mapM g = .ok results → k results = lift (k' results)) :
    (items.mapM f >>= k) = lift (items.mapM g >>= k') := by
  rw [mapM_lift h]
  exact bind_lift hrest

/-- A loop that threads a value and whose steps may fail, but only with errors. -/
theorem foldlM_lift {P : β → Prop} {f : β → α → Guarded β} {g : β → α → Except Error β} {items : List α}
    (hstep : ∀ b, ∀ a ∈ items, P b → f b a = lift (g b a))
    (hkeeps : ∀ b, ∀ a ∈ items, ∀ c, P b → g b a = .ok c → P c) {b : β} (hb : P b) :
    items.foldlM f b = lift (items.foldlM g b) := by
  induction items generalizing b with
  | nil => rfl
  | cons a items ih =>
      rw [List.foldlM_cons, List.foldlM_cons, hstep b a List.mem_cons_self hb]
      refine bind_lift fun c hc => ?_
      exact ih (fun d x hx => hstep d x (List.mem_cons_of_mem _ hx))
        (fun d x hx => hkeeps d x (List.mem_cons_of_mem _ hx)) (hkeeps b a List.mem_cons_self c hb hc)

/-! ## Loops over places -/

/-- A loop over places gives a list if each of its steps gives the element there. -/
theorem mapM_range {results : List β} {n : Nat} (hn : results.length = n) {f : Nat → Guarded β}
    (h : ∀ i, ∀ hi : i < results.length, f i = .ok results[i]) : (List.range n).mapM f = .ok results := by
  refine mapM_eq_ok_iff.2 (List.ext_getElem (by simp [hn]) fun i hi _ => ?_)
  have hlt : i < results.length := by simpa [hn] using hi
  simpa using h i hlt

/-- A loop over the places of two lists is a loop over both lists. -/
theorem mapM_range_zipWith {xs : List α} {ys : List β} {n : Nat} (hx : xs.length = n) (hy : ys.length = n)
    {f : Nat → Guarded γ} {g : α → β → γ}
    (h : ∀ i, ∀ hi : i < xs.length, ∀ hj : i < ys.length, f i = .ok (g xs[i] ys[i])) :
    (List.range n).mapM f = .ok (List.zipWith g xs ys) := by
  refine mapM_range (by rw [List.length_zipWith, hx, hy, Nat.min_self]) fun i hi => ?_
  rw [List.length_zipWith, Nat.lt_min] at hi
  rw [List.getElem_zipWith]
  exact h i hi.1 hi.2

theorem zipPlaces_eq {xs : List α} {ys : List β} {n : Nat} (hx : xs.length = n) (hy : ys.length = n)
    (f : α → β → γ) : zipPlaces n f xs ys = .ok (List.zipWith f xs ys) := by
  refine mapM_range_zipWith hx hy fun i hi hj => ?_
  rw [bind_ok (element_eq hi), bind_ok (element_eq hj)]
  rfl

/-- A list that was computed place by place has what was computed at each place. -/
theorem element_map_range {n k : Nat} (hk : k < n) (g : Nat → α) :
    element ((List.range n).map g) k = .ok (g k) := by
  rw [element_eq (by simpa using hk), List.getElem_map, List.getElem_range]

theorem zipPlaces_map_range (n : Nat) (f : α → β → γ) (g : Nat → α) (h : Nat → β) :
    zipPlaces n f ((List.range n).map g) ((List.range n).map h) =
      .ok ((List.range n).map fun k => f (g k) (h k)) := by
  rw [zipPlaces_eq (by simp) (by simp), List.zipWith_map, List.zipWith_self]

/-- A loop over a list with its places. -/
theorem mapM_zipIdx {items : List α} {f : α × Nat → Guarded β} {g : α × Nat → β}
    (h : ∀ i, ∀ hi : i < items.length, f (items[i], i) = .ok (g (items[i], i))) :
    items.zipIdx.mapM f = .ok (items.zipIdx.map g) := by
  refine mapM_eq fun pair hpair => ?_
  obtain ⟨i, hi, rfl⟩ := List.mem_iff_getElem.1 hpair
  have hlt : i < items.length := by simpa using hi
  simpa using h i hlt

/-- The elements at all places of a list are the list. -/
theorem filterMap_getElem?_range (items : List α) :
    (List.range items.length).filterMap (fun i => items[i]?) = items := by
  induction items with
  | nil => rfl
  | cons a items ih =>
      rw [List.length_cons, List.range_succ_eq_map, List.filterMap_cons_some (List.getElem?_cons_zero ..),
        List.filterMap_map]
      exact congrArg (a :: ·) ih

/-- The places of a list that pass a test are those of the elements that pass it. -/
theorem filter_range {items : List α} {test : Nat → Guarded Bool} {p : α → Bool}
    (h : ∀ i, ∀ hi : i < items.length, test i = .ok (p items[i])) :
    ∃ places, filter test (List.range items.length) = .ok places ∧ (∀ i ∈ places, i < items.length) ∧
      places.filterMap (fun i => items[i]?) = items.filter p := by
  have htest : ∀ i ∈ List.range items.length, test i = .ok ((items[i]?.map p).getD false) := by
    intro i hi
    have hlt : i < items.length := List.mem_range.1 hi
    rw [h i hlt, List.getElem?_eq_getElem hlt, Option.map_some, Option.getD_some]
  refine ⟨_, filter_eq htest, fun i hi => List.mem_range.1 (List.mem_filter.1 hi).1, ?_⟩
  have hall : items.filter p = (List.range items.length).filterMap fun i => items[i]?.filter p := by
    rw [← List.filter_filterMap, filterMap_getElem?_range]
  rw [hall, List.filterMap_filter]
  refine congrFun (congrArg List.filterMap (funext fun i => ?_)) _
  cases items[i]? with
  | none => rfl
  | some a => cases hp : p a <;> simp [Option.filter, hp]

/-! ## Loops that change one place at a time -/

/-- A pass over some items, each of which changes one place, makes of each place what the items for it make of it. -/
theorem foldl_modify {σ : Type} (place : σ → Nat) (f : α → σ → α) (items : List σ) (start : List α) :
    (items.foldl (fun totals s => totals.modify (place s) (f · s)) start) =
      start.mapIdx fun k a => (items.filter fun s => place s == k).foldl f a := by
  induction items generalizing start with
  | nil => exact List.ext_getElem (by simp) fun k _ _ => by simp
  | cons s items ih =>
      rw [List.foldl_cons, ih]
      refine List.ext_getElem (by simp) fun k hk _ => ?_
      rw [List.getElem_mapIdx, List.getElem_mapIdx, List.getElem_modify]
      by_cases hplace : place s = k
      · rw [if_pos hplace, List.filter_cons_of_pos (by simpa using hplace), List.foldl_cons]
      · rw [if_neg hplace, List.filter_cons_of_neg (by simpa using hplace)]

/-- A pass from one value at every place. -/
theorem foldl_modify_replicate {σ : Type} (place : σ → Nat) (f : α → σ → α) (items : List σ) (n : Nat)
    (start : α) :
    (items.foldl (fun totals s => totals.modify (place s) (f · s)) (List.replicate n start)) =
      (List.range n).map fun k => (items.filter fun s => place s == k).foldl f start := by
  rw [foldl_modify]
  refine List.ext_getElem (by simp) fun k _ _ => ?_
  simp

/-- Counting items one by one counts them all. -/
theorem foldl_succ (items : List α) (n : Nat) : items.foldl (fun n _ => n + 1) n = n + items.length := by
  induction items generalizing n with
  | nil => rfl
  | cons a items ih =>
      rw [List.foldl_cons, ih, List.length_cons]
      omega

end Guarded
end TableFlow
