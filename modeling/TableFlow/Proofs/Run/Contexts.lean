import TableFlow.Proofs.Run.Failure

/-!
# The contexts of a run

The context after some steps of a program is what a run of just these steps leaves.  One more step leaves it as it
is, or changes it in the one way that the step's instruction has; so what every instruction keeps holds in every
context of every run.

Main results:

- Definition `contextAfter`: the context after the first steps of a program.
- Theorem `contextAfter_succ`: what one more step makes of it.
- Theorems `contextAfter_invariant` and `context_invariant`: what every step, or every instruction, keeps holds in every
  context of a run.
-/

namespace TableFlow

section

variable {config : Config} {services : Services} {files : Files} {steps : List Step} {n : Nat}

/-- Taking one more step of a program runs it, unless a step before has failed. -/
theorem ofSteps_take_succ (config : Config) (services : Services) (files : Files)
    (hn : n < steps.length) :
    Run.ofSteps config services (steps.take (n + 1)) files =
      if (Run.ofSteps config services (steps.take n) files).error.isSome then
        Run.ofSteps config services (steps.take n) files
      else (Run.ofSteps config services (steps.take n) files).advance services steps[n] := by
  have htake : steps.take (n + 1) = steps.take n ++ [steps[n]] := by
    rw [List.take_add_one, List.getElem?_eq_getElem hn, Option.toList_some]
  have hlast : ∀ r : Run, r.advanceAll services [steps[n]] = r.advance services steps[n] := by
    intro r
    simp [Run.advanceAll]
  rw [Run.ofSteps, htake, Run.advanceAll_append services rfl, hlast]
  rfl

/-- A step either succeeds and changes the context as its instruction does, or fails and leaves it as it is. -/
theorem advance_cases {s : Step} {todo : Instruction} (hs : s.CarriesOut todo) (r : Run) :
    ((r.advance services s).error = none ∧ ∃ c message, todo.Effect services r.context c ∧
        (r.advance services s).context = { c with log := c.log ++ [message] }) ∨
      ((r.advance services s).error.isSome = true ∧
        (r.advance services s).context = r.context) := by
  rcases succeeds_or_fails hs services r.toWorkspace with ⟨message, w, hok⟩ | ⟨e, files', herror⟩
  · left
    rw [advance_of_ok hok]
    rw [hs.handler_eq] at hok
    exact ⟨rfl, w.context, message, Instruction.effect_of_execute hok, rfl⟩
  · right
    rw [advance_of_error hs.handler_name herror]
    exact ⟨rfl, rfl⟩

/-! ## The contexts -/

/-- The context after the first `n` steps of a program; the steps behind one that fails change it no more. -/
def contextAfter (config : Config) (services : Services) (files : Files) (steps : List Step)
    (n : Nat) : Context :=
  (Run.ofSteps config services (steps.take n) files).context

/-- Step `n` of a program carries the instruction out: it is run, and it succeeds. -/
structure CarriedOutAt (config : Config) (services : Services) (files : Files) (steps : List Step)
    (n : Nat) (todo : Instruction) : Prop where
  carriesOut : ∃ hn : n < steps.length, (steps[n]).CarriesOut todo
  succeeds : (Run.ofSteps config services (steps.take (n + 1)) files).error = none

/-- An instruction that is carried out changes the context in its way, and its message goes to the log. -/
theorem CarriedOutAt.effect {todo : Instruction}
    (h : CarriedOutAt config services files steps n todo) :
    ∃ c message, todo.Effect services (contextAfter config services files steps n) c ∧
      contextAfter config services files steps (n + 1) = { c with log := c.log ++ [message] } := by
  obtain ⟨hn, hs⟩ := h.carriesOut
  have hsucceeds := h.succeeds
  have hrun := ofSteps_take_succ config services files hn
  split at hrun
  · next hfailed =>
      rw [← hrun, hsucceeds] at hfailed
      cases hfailed
  · rw [contextAfter, contextAfter, hrun]
    rw [hrun] at hsucceeds
    rcases advance_cases hs _ with ⟨_, heffect⟩ | ⟨hfails, _⟩
    · exact heffect
    · rw [hsucceeds] at hfails
      cases hfails

/-- One more step leaves the context as it is, or carries an instruction out. -/
theorem contextAfter_succ (config : Config) (services : Services) (files : Files)
    (hsteps : Instructed steps) (n : Nat) :
    contextAfter config services files steps (n + 1) =
        contextAfter config services files steps n ∨
      ∃ todo, CarriedOutAt config services files steps n todo := by
  by_cases hn : n < steps.length
  · obtain ⟨todo, hs⟩ := hsteps steps[n] (List.getElem_mem hn)
    have hrun := ofSteps_take_succ config services files hn
    split at hrun
    · left
      rw [contextAfter, hrun, contextAfter]
    · rcases advance_cases hs _ with ⟨hsucceeds, _⟩ | ⟨_, hcontext⟩
      · exact Or.inr ⟨todo, ⟨hn, hs⟩, by rw [hrun, hsucceeds]⟩
      · left
        rw [contextAfter, hrun, hcontext, contextAfter]
  · left
    have hle : steps.length ≤ n := Nat.le_of_not_lt hn
    rw [contextAfter, contextAfter, List.take_of_length_le hle,
      List.take_of_length_le (Nat.le_succ_of_le hle)]

/-- What holds at the start and is kept by every step that succeeds holds after any number of steps of a program. -/
theorem contextAfter_invariant {P : Context → Prop} (hsteps : Instructed steps)
    (hstart : P (Context.start config.seed))
    (hkeeps : ∀ (todo : Instruction) w message w', P w.context →
      (todo.handler.execute services).runWith w = (.ok message, w') → P (w'.logged message).context)
    (files : Files) (n : Nat) : P (contextAfter config services files steps n) := by
  induction n with
  | zero => exact hstart
  | succ n ih =>
      by_cases hn : n < steps.length
      · obtain ⟨todo, hs⟩ := hsteps steps[n] (List.getElem_mem hn)
        rw [contextAfter, ofSteps_take_succ config services files hn]
        split
        · exact ih
        · rcases succeeds_or_fails hs services
              (Run.ofSteps config services (steps.take n) files).toWorkspace with
            ⟨message, w, hok⟩ | ⟨e, files', hfails⟩
          · rw [advance_of_ok hok]
            rw [hs.handler_eq] at hok
            exact hkeeps todo _ message w ih hok
          · rw [advance_of_error hs.handler_name hfails]
            exact ih
      · have hle : steps.length ≤ n := Nat.le_of_not_lt hn
        rw [contextAfter, List.take_of_length_le hle] at ih
        rw [contextAfter, List.take_of_length_le (Nat.le_succ_of_le hle)]
        exact ih

/-- So does what is kept by what every instruction does to a context. -/
theorem context_invariant {P : Context → Prop} (hsteps : Instructed steps)
    (hstart : P (Context.start config.seed))
    (hkeeps : ∀ todo c c' message, P c → Instruction.Effect services c todo c' →
      P { c' with log := c'.log ++ [message] }) (files : Files) (n : Nat) :
    P (contextAfter config services files steps n) := by
  apply contextAfter_invariant hsteps hstart
  intro todo w message w' hw hok
  exact hkeeps todo _ _ message hw (Instruction.effect_of_execute hok)

end

end TableFlow
