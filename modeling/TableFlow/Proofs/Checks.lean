/-!
# Chains of checks

A chain of checks succeeds when each of them does.  These lemmas take a successful chain apart: one link of it,
and the loops that thread a value through a list.  A chain fails only as its links do.
-/

namespace TableFlow

variable {ε α β : Type}

/-- A chain of two computations succeeds when the first one does and the second one does with its result. -/
theorem bind_eq_ok {x : Except ε α} {f : α → Except ε β} {b : β} :
    (x >>= f) = .ok b ↔ ∃ a, x = .ok a ∧ f a = .ok b := by
  cases x with
  | error e =>
      constructor
      · intro h
        cases h
      · rintro ⟨a, ha, _⟩
        cases ha
  | ok a =>
      constructor
      · intro h
        exact ⟨a, rfl, h⟩
      · rintro ⟨a', ha, h⟩
        cases ha
        exact h

/-- A chain of two computations fails when the first one does, or when the second one does with its result. -/
theorem bind_eq_error {x : Except ε α} {f : α → Except ε β} {e : ε} :
    (x >>= f) = .error e ↔ x = .error e ∨ ∃ a, x = .ok a ∧ f a = .error e := by
  cases x with
  | error e' =>
      constructor
      · intro h
        cases h
        exact Or.inl rfl
      · rintro (h | ⟨a, ha, _⟩)
        · cases h
          rfl
        · cases ha
  | ok a =>
      constructor
      · intro h
        exact Or.inr ⟨a, rfl, h⟩
      · rintro (h | ⟨a', ha, h⟩)
        · cases h
        · cases ha
          exact h

/-- A successful loop starts with a successful step. -/
theorem foldlM_cons_eq_ok {f : β → α → Except ε β} {b b' : β} {a : α} {items : List α} :
    (a :: items).foldlM f b = .ok b' ↔ ∃ c, f b a = .ok c ∧ items.foldlM f c = .ok b' := by
  rw [List.foldlM_cons, bind_eq_ok]

/-- What every successful step of a loop preserves, a successful loop preserves. -/
theorem foldlM_invariant {P : β → Prop} {f : β → α → Except ε β} {items : List α}
    (hstep : ∀ b, ∀ a ∈ items, ∀ c, P b → f b a = .ok c → P c) {b b' : β} (hb : P b)
    (h : items.foldlM f b = .ok b') : P b' := by
  induction items generalizing b with
  | nil =>
      rw [List.foldlM_nil] at h
      cases h
      exact hb
  | cons a items ih =>
      obtain ⟨c, hc, hrest⟩ := foldlM_cons_eq_ok.1 h
      have hPc : P c := hstep b a (by simp) c hb hc
      exact ih (fun b x hx => hstep b x (by simp [hx])) hPc hrest

/-- A loop over distinct items may take them in any order, if any two successful steps may be swapped. -/
theorem foldlM_eq_ok_of_perm {f : β → α → Except ε β} {items others : List α}
    (hswap : ∀ x y, x ≠ y → ∀ b c d, f b x = .ok c → f c y = .ok d →
      ∃ c', f b y = .ok c' ∧ f c' x = .ok d)
    (hperm : items.Perm others) (hnodup : items.Nodup) {b b' : β}
    (h : items.foldlM f b = .ok b') : others.foldlM f b = .ok b' := by
  induction hperm generalizing b with
  | nil => exact h
  | cons x hperm ih =>
      obtain ⟨c, hc, hrest⟩ := foldlM_cons_eq_ok.1 h
      exact foldlM_cons_eq_ok.2 ⟨c, hc, ih (List.nodup_cons.1 hnodup).2 hrest⟩
  | swap x y items =>
      obtain ⟨c, hc, hmore⟩ := foldlM_cons_eq_ok.1 h
      obtain ⟨d, hd, hrest⟩ := foldlM_cons_eq_ok.1 hmore
      have hne : y ≠ x := by
        rintro rfl
        simp at hnodup
      obtain ⟨c', hc', hd'⟩ := hswap y x hne b c d hc hd
      exact foldlM_cons_eq_ok.2 ⟨c', hc', foldlM_cons_eq_ok.2 ⟨d, hd', hrest⟩⟩
  | trans hfirst hsecond ihfirst ihsecond =>
      exact ihsecond (hfirst.nodup_iff.1 hnodup) (ihfirst hnodup h)

/-- A list of checks succeeds with the results of the checks. -/
theorem mapM_eq_ok_iff {f : α → Except ε β} {items : List α} {results : List β} :
    items.mapM f = .ok results ↔ items.map f = results.map .ok := by
  induction items generalizing results with
  | nil =>
      rw [List.mapM_nil, List.map_nil]
      constructor
      · intro h
        cases h
        rfl
      · intro h
        rw [List.map_eq_nil_iff.1 h.symm]
        rfl
  | cons a items ih =>
      rw [List.mapM_cons, bind_eq_ok, List.map_cons]
      constructor
      · rintro ⟨first, hfirst, h⟩
        obtain ⟨rest, hrest, hpure⟩ := bind_eq_ok.1 h
        cases hpure
        rw [List.map_cons, hfirst, ih.1 hrest]
      · intro h
        obtain ⟨first, rest, rfl, hfirst, hrest⟩ := List.map_eq_cons_iff.1 h.symm
        exact ⟨first, hfirst.symm, bind_eq_ok.2 ⟨rest, ih.2 hrest.symm, rfl⟩⟩

/-- Every result of a list of checks is the result of one of them. -/
theorem exists_of_mem_mapM {f : α → Except ε β} {items : List α} {results : List β}
    (h : items.mapM f = .ok results) {b : β} (hb : b ∈ results) : ∃ a ∈ items, f a = .ok b := by
  have hmem : (.ok b : Except ε β) ∈ items.map f := by
    rw [mapM_eq_ok_iff.1 h]
    exact List.mem_map_of_mem hb
  exact List.mem_map.1 hmem

/-- Checks that succeed wherever others do succeed with their results. -/
theorem mapM_eq_ok_of_forall {f g : α → Except ε β} {items : List α} {results : List β}
    (hfg : ∀ a b, f a = .ok b → g a = .ok b) (h : items.mapM f = .ok results) : items.mapM g = .ok results := by
  induction items generalizing results with
  | nil => exact h
  | cons a items ih =>
      rw [List.mapM_cons] at h ⊢
      obtain ⟨first, hfirst, h⟩ := bind_eq_ok.1 h
      obtain ⟨rest, hrest, hpure⟩ := bind_eq_ok.1 h
      exact bind_eq_ok.2 ⟨first, hfg a first hfirst, bind_eq_ok.2 ⟨rest, ih hrest, hpure⟩⟩

/-- A list of numbered checks whose results do not depend on the numbers succeeds with the results of the checks.
Only an error tells a number. -/
theorem mapM_zipIdx_eq_ok_iff {f : α × Nat → Except ε β} {g : α → Option β}
    (h : ∀ a n b, f (a, n) = .ok b ↔ g a = some b) {items : List α} {results : List β} :
    items.zipIdx.mapM f = .ok results ↔ items.map g = results.map some := by
  rw [mapM_eq_ok_iff]
  generalize 0 = start
  induction items generalizing start results with
  | nil =>
      simp only [List.zipIdx_nil, List.map_nil, List.nil_eq, List.map_eq_nil_iff]
  | cons a items ih =>
      cases results with
      | nil => simp only [List.zipIdx_cons, List.map_cons, List.map_nil, reduceCtorEq]
      | cons b results =>
          rw [List.zipIdx_cons, List.map_cons, List.map_cons, List.map_cons, List.map_cons, List.cons.injEq,
            List.cons.injEq, h, ih]

/-! ## How chains fail -/

/-- Whenever the check fails, its error is of this sort. -/
def FailsOnly (P : ε → Prop) (x : Except ε α) : Prop :=
  ∀ e, x = .error e → P e

section

variable {P : ε → Prop}

theorem FailsOnly.ok (a : α) : FailsOnly P (.ok a) := by
  intro e h
  cases h

theorem FailsOnly.error {e : ε} (h : P e) : FailsOnly P (.error e : Except ε α) := by
  intro e' he
  cases he
  exact h

/-- One check after another fails only as they do. -/
theorem FailsOnly.bind {x : Except ε α} {f : α → Except ε β} (hx : FailsOnly P x) (hf : ∀ a, FailsOnly P (f a)) :
    FailsOnly P (x >>= f) := by
  intro e h
  rcases bind_eq_error.1 h with hfirst | ⟨a, _, hsecond⟩
  · exact hx e hfirst
  · exact hf a e hsecond

theorem FailsOnly.foldlM {f : β → α → Except ε β} (hf : ∀ b a, FailsOnly P (f b a)) (items : List α) (b : β) :
    FailsOnly P (items.foldlM f b) := by
  induction items generalizing b with
  | nil => exact .ok b
  | cons a items ih =>
      rw [List.foldlM_cons]
      exact (hf b a).bind fun c => ih c

theorem FailsOnly.mapM {f : α → Except ε β} (hf : ∀ a, FailsOnly P (f a)) (items : List α) :
    FailsOnly P (items.mapM f) := by
  induction items with
  | nil => exact .ok []
  | cons a items ih =>
      rw [List.mapM_cons]
      exact (hf a).bind fun b => ih.bind fun rest => .ok _

end

end TableFlow
