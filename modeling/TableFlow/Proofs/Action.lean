import TableFlow.Command.Spec

/-!
# Actions that leave the context alone when they fail

A command reads what it needs, computes, and only then writes to the context.  What it does before may fail but
writes nothing (`Quiet`); what it does after cannot fail (`Sure`); and a quiet action that is followed by a sure
one leaves the context alone whenever it fails (`Atomic`).

Main results:

- Theorem `bind_runWith_eq_ok`: how a sequence of actions succeeds.
- Theorem `Quiet.bind_atomic`: a quiet action followed by atomic ones is atomic.
- Theorem `Sure.atomic`: an action that cannot fail is atomic.
-/

namespace TableFlow
namespace StepM

variable {α β : Type}

/-! ## How actions succeed -/

/-- A sequence succeeds when its first part does and its second part does with the result. -/
theorem bind_runWith_eq_ok {x : StepM α} {f : α → StepM β} {w w' : Workspace} {b : β} :
    (x >>= f).runWith w = (.ok b, w') ↔
      ∃ a w₁, x.runWith w = (.ok a, w₁) ∧ (f a).runWith w₁ = (.ok b, w') := by
  rw [runWith_bind]
  constructor
  · intro h
    split at h
    · next a w₁ hx => exact ⟨a, w₁, hx, h⟩
    · cases h
  · rintro ⟨a, w₁, hx, h⟩
    rw [hx]
    exact h

/-- A sequence fails when its first part does, or when its second part does with the result of the first. -/
theorem bind_runWith_eq_error {x : StepM α} {f : α → StepM β} {w w' : Workspace} {b : Breakdown} :
    (x >>= f).runWith w = (.error b, w') ↔
      x.runWith w = (.error b, w') ∨
        ∃ a w₁, x.runWith w = (.ok a, w₁) ∧ (f a).runWith w₁ = (.error b, w') := by
  rw [runWith_bind]
  constructor
  · intro h
    split at h
    · next a w₁ hx => exact Or.inr ⟨a, w₁, hx, h⟩
    · next b' w₁ hx =>
        cases h
        exact Or.inl hx
  · rintro (hx | ⟨a, w₁, hx, h⟩)
    · rw [hx]
    · rw [hx]
      exact h

/-- A sequence that starts with a result succeeds when the result is no error and the rest does with it. -/
theorem ofExcept_bind_eq_ok {x : Except Error α} {f : α → StepM β} {w w' : Workspace} {b : β} :
    (ofExcept x >>= f).runWith w = (.ok b, w') ↔
      ∃ a, x = .ok a ∧ (f a).runWith w = (.ok b, w') := by
  rw [runWith_bind]
  cases x with
  | error e =>
      constructor
      · intro h
        cases h
      · rintro ⟨a, ha, _⟩
        cases ha
  | ok a =>
      constructor
      · intro h
        exact ⟨a, rfl, h⟩
      · rintro ⟨a', ha, h⟩
        cases ha
        exact h

/-- An action on the files touches no context, and fails only with an error. -/
theorem ofFiles_runWith {action : FileM α} {w w' : Workspace} {r : Except Breakdown α}
    (h : (ofFiles action).runWith w = (r, w')) :
    w'.context = w.context ∧ ∀ b, r = .error b → ∃ e, b = .failed e := by
  rw [runWith_ofFiles] at h
  split at h
  · cases h
    exact ⟨rfl, fun b hb => by cases hb⟩
  · next e files hfailed =>
      cases h
      refine ⟨rfl, ?_⟩
      intro b hb
      cases hb
      exact ⟨e, rfl⟩

/-- An action on the files succeeds as it does on the files of the workspace. -/
theorem ofFiles_eq_ok {action : FileM α} {w w' : Workspace} {a : α}
    (h : (ofFiles action).runWith w = (.ok a, w')) : action.runWith w.files = (.ok a, w'.files) := by
  rw [runWith_ofFiles] at h
  split at h
  · next hrun =>
      cases h
      exact hrun
  · cases h

/-- It fails as it does on them. -/
theorem ofFiles_eq_error {action : FileM α} {w w' : Workspace} {b : Breakdown}
    (h : (ofFiles action).runWith w = (.error b, w')) :
    ∃ e, b = .failed e ∧ action.runWith w.files = (.error e, w'.files) := by
  rw [runWith_ofFiles] at h
  split at h
  · cases h
  · next e files hrun =>
      cases h
      exact ⟨e, rfl, hrun⟩

/-! ## Quiet, sure and atomic actions -/

/-- The action leaves the context alone, and fails only with an error. -/
def Quiet (x : StepM α) : Prop :=
  ∀ w r w', x.runWith w = (r, w') →
    w'.context = w.context ∧ ∀ b, r = .error b → ∃ e, b = .failed e

/-- The action cannot fail. -/
def Sure (x : StepM α) : Prop :=
  ∀ w b w', x.runWith w ≠ (.error b, w')

/-- When the action fails, it fails with an error and leaves the context alone. -/
def Atomic (x : StepM α) : Prop :=
  ∀ w b w', x.runWith w = (.error b, w') → w'.context = w.context ∧ ∃ e, b = .failed e

theorem Quiet.pure (a : α) : Quiet (Pure.pure a) := by
  intro w r w' h
  rw [runWith_pure] at h
  cases h
  exact ⟨rfl, fun b hb => by cases hb⟩

theorem Quiet.fail (e : Error) : Quiet (fail e : StepM α) := by
  intro w r w' h
  rw [runWith_fail] at h
  cases h
  refine ⟨rfl, ?_⟩
  intro b hb
  cases hb
  exact ⟨e, rfl⟩

theorem Quiet.ofExcept (x : Except Error α) : Quiet (ofExcept x) := by
  cases x with
  | ok a => exact Quiet.pure a
  | error e => exact Quiet.fail e

theorem Quiet.ofFiles (action : FileM α) : Quiet (ofFiles action) :=
  fun _ _ _ h => ofFiles_runWith h

theorem Quiet.atomic {x : StepM α} (hx : Quiet x) : Atomic x := by
  intro w b w' h
  have hquiet := hx w _ w' h
  exact ⟨hquiet.1, hquiet.2 b rfl⟩

/-- A quiet action followed by atomic ones is atomic. -/
theorem Quiet.bind_atomic {x : StepM α} {f : α → StepM β} (hx : Quiet x)
    (hf : ∀ a, Atomic (f a)) : Atomic (x >>= f) := by
  intro w b w' h
  rcases bind_runWith_eq_error.1 h with hfirst | ⟨a, w₁, hfirst, hrest⟩
  · exact hx.atomic w b w' hfirst
  · have hcontext := (hx w _ w₁ hfirst).1
    have hfailed := hf a w₁ b w' hrest
    exact ⟨hfailed.1.trans hcontext, hfailed.2⟩

theorem Sure.pure (a : α) : Sure (Pure.pure a) := by
  intro w b w' h
  cases h

theorem Sure.change (f : Context → Context) : Sure (change f) := by
  intro w b w' h
  cases h

/-- Actions that cannot fail, one after another, cannot fail. -/
theorem Sure.bind {x : StepM α} {f : α → StepM β} (hx : Sure x) (hf : ∀ a, Sure (f a)) :
    Sure (x >>= f) := by
  intro w b w' h
  rcases bind_runWith_eq_error.1 h with hfirst | ⟨a, w₁, _, hrest⟩
  · exact hx w b w' hfirst
  · exact hf a w₁ b w' hrest

/-- An action that cannot fail is atomic. -/
theorem Sure.atomic {x : StepM α} (hx : Sure x) : Atomic x :=
  fun w b w' h => (hx w b w' h).elim

end StepM
end TableFlow
