import TableFlow.Proofs.Command.Instruction
import TableFlow.Proofs.Learn.Seedless

/-!
# Instructions that bring their own seeds

The seed of a context is read by two instructions.  Splitting takes it unless the line gives a seed; training hands it
to the trainer, which takes it unless the parameters give one, and which uses it for a random forest only.  Nothing
that an instruction does after it has read its context asks for a seed or changes one.

Main results:

- Definition `StepM.IgnoresSeed`: an action does the same to a workspace with another seed, and keeps that seed.
- Theorem `Instruction.ignoresSeed_act`: what an instruction does to a workspace ignores the seed.
- Theorem `Instruction.act_reseed`: an instruction that seeds itself does not read the seed of the context either.
- Theorems `seeding_of_split` and `seeding_of_train`: lines that give a seed are made into such instructions.
-/

namespace TableFlow

open Learn (Algorithm)

/-! ## Another seed -/

/-- The context with another seed. -/
def Context.reseed (seed : Nat) (c : Context) : Context :=
  { c with seed }

/-- The workspace with another seed. -/
def Workspace.reseed (seed : Nat) (w : Workspace) : Workspace :=
  { w with context := w.context.reseed seed }

namespace StepM

variable {α β : Type}

/-- The action does the same to a workspace with another seed, and keeps that seed. -/
def IgnoresSeed (x : StepM α) : Prop :=
  ∀ seed w, x.runWith (w.reseed seed) = ((x.runWith w).1, (x.runWith w).2.reseed seed)

theorem IgnoresSeed.pure (a : α) : IgnoresSeed (Pure.pure a) :=
  fun _ _ => rfl

theorem IgnoresSeed.ofExcept (x : Except Error α) : IgnoresSeed (ofExcept x) := by
  intro seed w
  cases x <;> rfl

/-- Files know no seed. -/
theorem IgnoresSeed.ofFiles (action : FileM α) : IgnoresSeed (ofFiles action) := by
  intro seed w
  have hfiles : (w.reseed seed).files = w.files := rfl
  rw [runWith_ofFiles, runWith_ofFiles, hfiles]
  rcases action.runWith w.files with ⟨_ | _, _⟩ <;> rfl

theorem IgnoresSeed.change {f : Context → Context} (h : ∀ seed c, f (c.reseed seed) = (f c).reseed seed) :
    IgnoresSeed (change f) := by
  intro seed w
  have hcontext : (w.reseed seed).context = w.context.reseed seed := rfl
  rw [runWith_change, runWith_change, hcontext, h seed w.context]
  rfl

theorem IgnoresSeed.bind {x : StepM α} {f : α → StepM β} (hx : IgnoresSeed x) (hf : ∀ a, IgnoresSeed (f a)) :
    IgnoresSeed (x >>= f) := by
  intro seed w
  rw [runWith_bind, runWith_bind, hx seed w]
  rcases x.runWith w with ⟨b | a, w'⟩
  · rfl
  · exact hf a seed w'

end StepM

/-! ## Instructions -/

namespace Instruction

open StepM

/-- The seed of the context makes no difference to the instruction: it uses none, or it brings its own. -/
def SeedsItself : Instruction → Prop
  | .split how => how.seed.isSome = true
  | .train how => how.algorithm ≠ .randomForest ∨ how.params.seed.isSome = true
  | _ => True

/-- Once an instruction has read its context, it asks for no seed and changes none. -/
theorem ignoresSeed_act (todo : Instruction) (services : Services) (c : Context) :
    IgnoresSeed (todo.act services c) := by
  cases todo with
  | load path =>
      refine .bind (.ofFiles _) fun t => ?_
      refine .bind (.change fun _ _ => rfl) fun _ => ?_
      exact .pure _
  | clean way =>
      refine .bind (.ofExcept _) fun t => ?_
      refine .bind (.change fun _ _ => rfl) fun _ => ?_
      refine .bind (.change fun _ _ => rfl) fun _ => ?_
      exact .pure _
  | encode way columns =>
      refine .bind (.ofExcept _) fun t => ?_
      refine .bind (.ofExcept _) fun targets => ?_
      refine .bind (.ofExcept _) fun done => ?_
      refine .bind (.change fun _ _ => rfl) fun _ => ?_
      refine .bind (.change fun _ _ => rfl) fun _ => ?_
      refine .bind (.change fun _ _ => rfl) fun _ => ?_
      refine .bind (.change fun _ _ => rfl) fun _ => ?_
      exact .pure _
  | scale way columns exclude =>
      refine .bind (.ofExcept _) fun t => ?_
      refine .bind (.ofExcept _) fun _ => ?_
      refine .bind (.ofExcept _) fun scaled => ?_
      refine .bind (.change fun _ _ => rfl) fun _ => ?_
      refine .bind (.change fun _ _ => rfl) fun _ => ?_
      exact .pure _
  | drop columns | select columns =>
      refine .bind (.ofExcept _) fun t => ?_
      refine .bind (.ofExcept _) fun reduced => ?_
      refine .bind (.change fun _ _ => rfl) fun _ => ?_
      refine .bind (.change fun _ _ => rfl) fun _ => ?_
      refine .bind (.change fun _ _ => rfl) fun _ => ?_
      exact .pure _
  | split how =>
      refine .bind (.ofExcept _) fun t => ?_
      refine .bind (.ofExcept _) fun _ => ?_
      refine .bind (.change fun _ _ => rfl) fun _ => ?_
      refine .bind (.change fun _ _ => rfl) fun _ => ?_
      refine .bind (.change fun _ _ => rfl) fun _ => ?_
      exact .pure _
  | train how =>
      refine .bind (.ofExcept _) fun parts => ?_
      refine .bind (.ofExcept _) fun target => ?_
      refine .bind (.ofExcept _) fun model => ?_
      refine .bind (.change fun _ _ => rfl) fun _ => ?_
      refine .bind (.change fun _ _ => rfl) fun _ => ?_
      refine .bind (.change fun _ _ => rfl) fun _ => ?_
      exact .pure _
  | evaluate =>
      refine .bind (.ofExcept _) fun model => ?_
      refine .bind (.ofExcept _) fun parts => ?_
      refine .bind (.ofExcept _) fun metrics => ?_
      refine .bind (.change fun _ _ => rfl) fun _ => ?_
      exact .pure _
  | exportTable path =>
      refine .bind (.ofExcept _) fun t => ?_
      exact .bind (.ofFiles _) fun _ => .pure _
  | save path =>
      refine .bind (.ofExcept _) fun model => ?_
      exact .bind (.ofFiles _) fun _ => .pure _

section

variable {services : Services} {todo : Instruction}
variable (htrain : ∀ (r : Learn.Request) seed, r.SeedsItself → services.train { r with seed } = services.train r)

include htrain

/-- An instruction that seeds itself does the same when it reads a context with another seed. -/
theorem act_reseed (htodo : todo.SeedsItself) (seed : Nat) (c : Context) :
    todo.act services (c.reseed seed) = todo.act services c := by
  cases todo with
  | split how =>
      rcases Option.isSome_iff_exists.1 htodo with ⟨given, hgiven⟩
      simp only [act, Splitting.run, hgiven, Option.getD_some]
      rfl
  | train how =>
      have hmodel : ∀ (parts : Partition) target, services.train
          { table := parts.train, target, algorithm := how.algorithm, params := how.params, seed,
            names := c.encodings.get? target } = services.train
          { table := parts.train, target, algorithm := how.algorithm, params := how.params, seed := c.seed,
            names := c.encodings.get? target } :=
        fun parts target => htrain ⟨parts.train, target, how.algorithm, how.params, c.seed, c.encodings.get? target⟩
          seed htodo
      simp only [act, Training.run, Context.reseed, hmodel]
      rfl
  | _ => rfl

/-- So does its handler, and the seed stays where it was. -/
theorem execute_reseed (htodo : todo.SeedsItself) (seed : Nat) (w : Workspace) :
    (todo.handler.execute services).runWith (w.reseed seed) =
      (((todo.handler.execute services).runWith w).1, ((todo.handler.execute services).runWith w).2.reseed seed) := by
  show (todo.act services (w.context.reseed seed)).runWith (w.reseed seed) = _
  rw [act_reseed htrain htodo]
  exact todo.ignoresSeed_act services w.context seed w

end

end Instruction

/-! ## Lines that give a seed -/

section

variable {i : CommandInput} {h : Handler}

/-- A number is read of an option that is given. -/
theorem isSome_of_natural {key : String} {v : Option Nat} (hread : i.natural key = .ok v) :
    v.isSome = (i.option? key).isSome := by
  unfold CommandInput.natural at hread
  split at hread
  · next hnone =>
      cases hread
      rw [hnone]
      rfl
  · next hvalue =>
      split at hread
      · cases hread
        rw [hvalue]
        rfl
      · cases hread

/-- The handler of a line that splits has the seed that the line gives. -/
theorem seeding_of_split (hbuild : Splitting.spec.build i = .ok h) (hseed : (i.option? "seed").isSome = true) :
    ∃ how, h = (Instruction.split how).handler ∧ how.seed.isSome = true := by
  simp only [Splitting.spec] at hbuild
  split at hbuild
  · rcases bind_eq_ok.1 hbuild with ⟨fraction, _, hrest⟩
    rcases bind_eq_ok.1 hrest with ⟨seed, hread, hpure⟩
    cases hpure
    exact ⟨_, rfl, (isSome_of_natural hread).trans hseed⟩
  · cases hbuild

/-- The parameters of a line have the seed that the line gives. -/
theorem seed_of_readParams {params : Learn.Params} (hread : Training.readParams i = .ok params) :
    params.seed.isSome = (i.option? "seed").isSome := by
  rcases bind_eq_ok.1 hread with ⟨trees, _, hread⟩
  rcases bind_eq_ok.1 hread with ⟨maxDepth, _, hread⟩
  rcases bind_eq_ok.1 hread with ⟨k, _, hread⟩
  rcases bind_eq_ok.1 hread with ⟨iterations, _, hread⟩
  rcases bind_eq_ok.1 hread with ⟨learningRate, _, hread⟩
  rcases bind_eq_ok.1 hread with ⟨seed, hseed, hpure⟩
  cases hpure
  exact isSome_of_natural hseed

/-- What is read of a line that trains: the algorithm that it names, with its parameters. -/
theorem training_of_input {how : Training} (hread : Training.ofInput i = .ok how) :
    Algorithm.ofName? i.firstArg = some how.algorithm ∧ Training.readParams i = .ok how.params := by
  unfold Training.ofInput at hread
  cases hname : Algorithm.ofName? i.firstArg with
  | none =>
      rw [hname] at hread
      cases hread
  | some a =>
      rw [hname] at hread
      rcases bind_eq_ok.1 hread with ⟨algorithm, halgorithm, hread⟩
      cases halgorithm
      cases hforeign : Training.foreignOption? a i.options with
      | some key =>
          simp only [hforeign] at hread
          cases hread
      | none =>
          simp only [hforeign] at hread
          rcases bind_eq_ok.1 hread with ⟨params, hparams, hread⟩
          cases hzero : Training.zeroParam? params with
          | some key =>
              simp only [hzero] at hread
              cases hread
          | none =>
              simp only [hzero] at hread
              by_cases hbad : Training.badRate params = true
              · rw [if_pos hbad] at hread
                cases hread
              · rw [if_neg hbad] at hread
                cases hread
                exact ⟨rfl, hparams⟩

/-- The handler of a line that trains has the seed that the line gives, or it trains no random forest. -/
theorem seeding_of_train (hbuild : Training.spec.build i = .ok h)
    (hseed : Algorithm.ofName? i.firstArg = some .randomForest → (i.option? "seed").isSome = true) :
    ∃ how, h = (Instruction.train how).handler ∧ (Instruction.train how).SeedsItself := by
  rcases bind_eq_ok.1 hbuild with ⟨how, hread, hpure⟩
  cases hpure
  refine ⟨how, rfl, ?_⟩
  rcases training_of_input hread with ⟨hname, hparams⟩
  by_cases hforest : how.algorithm = .randomForest
  · right
    rw [seed_of_readParams hparams]
    exact hseed (hforest ▸ hname)
  · exact Or.inl hforest

end

end TableFlow
