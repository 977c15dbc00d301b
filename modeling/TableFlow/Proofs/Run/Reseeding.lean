import TableFlow.Proofs.Command.Seeding
import TableFlow.Proofs.KeyMap
import TableFlow.Proofs.Run.Failure
import TableFlow.Proofs.Run.Leniency

/-!
# What the configured seed reaches

The seed of the configuration is kept in the context, for the steps that split and train.  In a script whose lines
bring their own seeds where one is used, no step asks for it; so two configurations that differ in the seed alone make
runs that differ in the seed of the context alone.

Main results:

- Theorem `Run.advanceAll_reseed`: steps that seed themselves do the same in a run with another seed.
- Theorem `exists_seeding_of_step`: a line that brings its seed is made into such a step.
- Theorem `Services.native_seed`: the services of the library do not ask the configuration for the seed.
- Theorem `seed_stays_in_context`: runs of such scripts differ in the seed of the context alone.
-/

namespace TableFlow

open Learn (Algorithm)
open Script (Node Program)

/-! ## Runs of steps -/

/-- Each step carries an instruction out that seeds itself. -/
def SeedThemselves (steps : List Step) : Prop :=
  ∀ s ∈ steps, ∃ todo, s.CarriesOut todo ∧ todo.SeedsItself

namespace Run

/-- The run with another seed. -/
def reseed (seed : Nat) (r : Run) : Run :=
  { r with context := r.context.reseed seed }

section

variable {services : Services}
variable (htrain : ∀ (r : Learn.Request) seed, r.SeedsItself → services.train { r with seed } = services.train r)

include htrain

/-- A step that seeds itself does the same in a run with another seed. -/
theorem advance_reseed {s : Step} {todo : Instruction} (hs : s.CarriesOut todo) (htodo : todo.SeedsItself)
    (seed : Nat) (r : Run) : (r.reseed seed).advance services s = (r.advance services s).reseed seed := by
  have hrun : (s.handler.execute services).runWith (r.reseed seed).toWorkspace =
      (((s.handler.execute services).runWith r.toWorkspace).1,
        ((s.handler.execute services).runWith r.toWorkspace).2.reseed seed) := by
    rw [hs.handler_eq]
    exact Instruction.execute_reseed htrain htodo seed r.toWorkspace
  rw [advance, advance, Handler.runWith_perform, Handler.runWith_perform, hrun]
  rcases (s.handler.execute services).runWith r.toWorkspace with ⟨(e | detail) | message, w⟩
  · rfl
  · rfl
  · rfl

/-- So do sequences of them: the seed makes no difference to where a run ends, either. -/
theorem advanceAll_reseed {steps : List Step} (hsteps : SeedThemselves steps) (seed : Nat) (r : Run) :
    (r.reseed seed).advanceAll services steps = (r.advanceAll services steps).reseed seed := by
  induction steps generalizing r with
  | nil => rfl
  | cons s rest ih =>
      rcases hsteps s List.mem_cons_self with ⟨todo, hs, htodo⟩
      have herror : ((r.advance services s).reseed seed).error = (r.advance services s).error := rfl
      rw [advanceAll, advanceAll]
      simp only [advance_reseed htrain hs htodo, herror]
      by_cases hfailed : (r.advance services s).error.isSome = true
      · rw [if_pos hfailed, if_pos hfailed]
      · rw [if_neg hfailed, if_neg hfailed]
        exact ih (fun t ht => hsteps t (List.mem_cons_of_mem s ht)) _

end

end Run

/-! ## Lines that bring their seeds -/

/-- The line gives a seed if its command could use the configured one: it splits, or it trains a random forest. -/
def Script.Node.BringsSeed (n : Node) : Prop :=
  (n.command = "split" → (n.options.get? "seed").isSome = true) ∧
    (n.command = "train" → Algorithm.ofName? (n.args.headD "") = some .randomForest →
      (n.options.get? "seed").isSome = true)

instance (n : Node) : Decidable n.BringsSeed :=
  inferInstanceAs (Decidable (_ ∧ _))

/-- A line that brings its seed is made into a step that seeds itself. -/
theorem exists_seeding_of_step {config : Config} {n : Node} {s : Step} (hn : n.BringsSeed)
    (hstep : ({ config } : Dialect).step n = .ok s) : ∃ todo, s.CarriesOut todo ∧ todo.SeedsItself := by
  rcases Dialect.step_eq_ok_iff.1 hstep with ⟨spec, hchecks⟩
  have hfound : Registry.bundled.get? n.command = some spec := hchecks.found
  have hbuilt := hchecks.built
  have hname : s.name = n.command := congrArg Node.command hchecks.node
  have hseed : (spec.option? "seed").isSome = true →
      (({ config } : Dialect).inputOf spec (({ config } : Dialect).stripNode n)).option? "seed" =
        n.options.get? "seed" := by
    intro hdeclared
    show (({ config } : Dialect).stripNode n).options.get? "seed" = _
    rw [Dialect.options_stripNode hchecks.found]
    have hlookup := lookup_filter_fst (fun key => (spec.option? key).isSome) "seed" n.options.pairs
    exact hlookup.trans (if_pos hdeclared)
  by_cases hsplit : n.command = "split"
  · rw [hsplit] at hfound
    obtain rfl : Splitting.spec = spec := Option.some.inj hfound
    rcases seeding_of_split hbuilt (by rw [hseed rfl, hn.1 hsplit]) with ⟨how, hhandler, hgiven⟩
    exact ⟨.split how, ⟨hhandler, hname.trans hsplit⟩, hgiven⟩
  · by_cases htrain : n.command = "train"
    · rw [htrain] at hfound
      obtain rfl : Training.spec = spec := Option.some.inj hfound
      rcases seeding_of_train hbuilt fun hforest => by rw [hseed rfl, hn.2 htrain hforest] with
        ⟨how, hhandler, hseeds⟩
      exact ⟨.train how, ⟨hhandler, hname.trans htrain⟩, hseeds⟩
    · rcases Dialect.found_eq hchecks.found with ⟨hspec, hmem⟩
      rcases instruction_of_build hmem hbuilt with ⟨todo, hhandler, htodo⟩
      refine ⟨todo, ⟨hhandler, hname.trans (hspec.symm.trans htodo.symm)⟩, ?_⟩
      cases todo with
      | split how => exact absurd (hspec.symm.trans htodo.symm) hsplit
      | train how => exact absurd (hspec.symm.trans htodo.symm) htrain
      | _ => trivial

/-- The steps of a program whose lines bring their seeds seed themselves. -/
theorem seedThemselves_of_compile {config : Config} {p : Program} {steps : List Step}
    (hlines : ∀ n ∈ p.nodes, n.BringsSeed) (h : ({ config } : Dialect).compile p = .ok steps) :
    SeedThemselves steps := by
  intro s hs
  rcases exists_of_mem_mapM h hs with ⟨n, hn, hstep⟩
  exact exists_seeding_of_step (hlines n hn) hstep

/-! ## What else the configuration is asked for -/

section

variable (config : Config) (seed : Nat)

/-- Checking a line asks the configuration for its strictness alone. -/
theorem Dialect.step_seed (n : Node) :
    ({ config := { config with seed } } : Dialect).step n = ({ config } : Dialect).step n := by
  cases hfound : Registry.bundled.get? n.command with
  | none =>
      have hlookup : ∀ config : Config, ({ config } : Dialect).lookup n =
          .error (({ config } : Dialect).unknownCommand n) := by
        intro config
        simp only [lookup, hfound]
      rw [step, step, hlookup, hlookup]
      rfl
  | some spec =>
      let written := ({ config } : Dialect).inputOf spec n
      have hbuild := (readsWords_of_mem (found_eq (d := { config }) hfound).2).build_config
        (({ config } : Dialect).inputOf spec (({ config } : Dialect).stripNode n)) { config with seed }
      have hoptions : checkOptions config.strictOptions spec { written with config := { config with seed } }
          n.options.pairs = checkOptions config.strictOptions spec written n.options.pairs :=
        checkOptions_congr rfl rfl
      rw [step_of_found (d := { config }) hfound, step_of_found (d := { config := { config with seed } }) hfound,
        ← hbuild]
      exact congrArg (fun checked => spec.checkArity written >>= fun _ => checked >>= fun _ => _) hoptions

/-- So is a script accepted or refused alike, with the same steps or the same error. -/
theorem Dialect.compileSource_seed (source : String) :
    ({ config := { config with seed } } : Dialect).compileSource source =
      ({ config } : Dialect).compileSource source := by
  have hcompile : ({ config := { config with seed } } : Dialect).compile = ({ config } : Dialect).compile := by
    funext p
    exact congrArg (fun step => p.nodes.mapM step) (funext (step_seed config seed))
  rw [compileSource, compileSource, hcompile]

/-- Reading a table asks the configuration for the texts of missing values alone. -/
theorem Csv.rows_seed (width : Nat) (fault : Option FileFault) (number : Nat) (rs : List RawRecord) :
    rows { config with seed } width fault number rs = rows config width fault number rs := by
  induction rs generalizing number with
  | nil => rfl
  | cons r rs ih =>
      have hrow : row { config with seed } width r = row config width r := rfl
      rw [rows, rows, hrow, ih]

theorem Csv.readTable_seed (delimiter : UInt8) (stream : Stream) :
    readTable { config with seed } delimiter stream = readTable config delimiter stream := by
  unfold readTable
  simp only [rows_seed]

theorem Records.row_seed (columns : List String) (fields : Fields) :
    row { config with seed } columns fields = row config columns fields := by
  have hcell : cell { config with seed } = cell config := by
    funext value
    cases value <;> rfl
  rw [row, row, hcell]

theorem Records.toTable_seed (objects : List Fields) :
    toTable { config with seed } objects = toTable config objects := by
  have hrow : ∀ columns, row { config with seed } columns = row config columns :=
    fun columns => funext (row_seed config seed columns)
  simp only [toTable, hrow]

theorem DataFile.readTable_seed (stream : Stream) (format : DataFormat) :
    readTable { config with seed } stream format = readTable config stream format := by
  have htable : Records.toTable { config with seed } = Records.toTable config :=
    funext (Records.toTable_seed config seed)
  cases format with
  | csv delimiter => exact Csv.readTable_seed config seed delimiter stream
  | jsonLines => simp only [readTable, Records.readLines, htable]
  | json => simp only [readTable, Records.readArray, htable]

/-- The services of the library do not ask for the seed; the trainer is told it by the step. -/
theorem Services.native_seed (time : String) : native { config with seed } time = native config time := by
  have hdelimiter : ({ config with seed } : Config).delimiterByte = config.delimiterByte := rfl
  have hload : DataFile.load { config with seed } = DataFile.load config := by
    funext path
    simp only [DataFile.load, hdelimiter, DataFile.readTable_seed]
  simp only [native, hload, Services.mk.injEq, true_and, and_true]
  rfl

end

/-! ## Runs of scripts -/

/-- The run of a script whose lines bring their seeds, with another seed configured: the seed of the context is the
other one, and nothing else differs; a script that is refused has no context to keep it. -/
theorem Run.script_reseed (config : Config) {source : String}
    (hlines : ∀ p, Program.parse source = .ok p → ∀ n ∈ p.nodes, n.BringsSeed) (seed : Nat) (time : String)
    (files : Files) :
    script { config with seed } time source files =
      match ({ config } : Dialect).compileSource source with
      | .ok _ => (script config time source files).reseed seed
      | .error _ => script config time source files := by
  rw [script, script, ofSource, ofSource, Dialect.compileSource_seed, Services.native_seed]
  cases hsource : ({ config } : Dialect).compileSource source with
  | error e => rfl
  | ok steps =>
      rcases bind_eq_ok.1 hsource with ⟨p, hparse, hcompile⟩
      have hsteps := seedThemselves_of_compile (hlines p hparse) hcompile
      have htrain : ∀ (r : Learn.Request) seed, r.SeedsItself →
          (Services.native config time).train { r with seed } = (Services.native config time).train r :=
        fun r seed hr => Learn.train_seed hr config.defaultTrees seed
      exact advanceAll_reseed htrain hsteps seed (start config files)

/-- Two configurations that differ in the seed alone run a script alike whose lines bring a seed where they split and
where they train a random forest: the run succeeds or fails alike, with the same error, the same reports and the same
files; and the context is the same but for the seed, so the model predicts the same class for every row, and the
metrics are the same. -/
theorem seed_stays_in_context (config : Config) (seed : Nat) (time source : String) (files : Files)
    (hlines : ∀ p, Program.parse source = .ok p → ∀ n ∈ p.nodes, n.BringsSeed) :
    let r := Run.script config time source files
    let r' := Run.script { config with seed } time source files
    r'.success = r.success ∧ r'.error = r.error ∧ r'.reports = r.reports ∧ r'.files = r.files ∧
      r'.context = { r.context with seed := r'.context.seed } ∧
      (∀ row, r'.context.model.map (·.predict row) = r.context.model.map (·.predict row)) ∧
      r'.context.metrics = r.context.metrics := by
  intro r r'
  have hsame : r' = r ∨ r' = r.reseed seed := by
    have hrun := Run.script_reseed config hlines seed time files
    split at hrun
    · exact Or.inr hrun
    · exact Or.inl hrun
  -- What is left holds of any two such runs; what they are runs of would only be unfolded.
  clear_value r r'
  rcases hsame with rfl | rfl
  · simp
  · simp [Run.reseed, Run.success, Context.reseed]

/-- A script that brings a seed where it splits and where it trains a random forest, and none for a decision tree. -/
def seededSource : String :=
  "load d.csv\nsplit 50/50 --target y --seed 7\ntrain tree\nevaluate\ntrain forest --seed 3\nevaluate\n"

/-- The program of that script. -/
def seededProgram : Program :=
  ⟨[⟨"load", ["d.csv"], Options.empty, 1⟩,
    ⟨"split", ["50/50"], Options.ofList [("target", "y"), ("seed", "7")], 2⟩,
    ⟨"train", ["tree"], Options.empty, 3⟩, ⟨"evaluate", [], Options.empty, 4⟩,
    ⟨"train", ["forest"], Options.ofList [("seed", "3")], 5⟩, ⟨"evaluate", [], Options.empty, 6⟩]⟩

/-- Its lines bring their seeds, so on any files it tells the same with the seeds 1 and 2, and both runs leave the same
context, each with its own seed. -/
theorem seed_stays_in_context_of_seededSource :
    (∀ p, Program.parse seededSource = .ok p → ∀ n ∈ p.nodes, n.BringsSeed) ∧
      ∀ files,
        let r := Run.script { seed := 1 } "" seededSource files
        let r' := Run.script { seed := 2 } "" seededSource files
        r'.success = r.success ∧ r'.reports = r.reports ∧ r'.context = { r.context with seed := r'.context.seed } := by
  have hparse : (match Program.parse seededSource with
      | .ok p => decide (p = seededProgram)
      | .error _ => false) = true := by
    decide +kernel
  have hlines : ∀ p, Program.parse seededSource = .ok p → ∀ n ∈ p.nodes, n.BringsSeed := by
    intro p hp
    rw [hp] at hparse
    rw [of_decide_eq_true hparse]
    decide +kernel
  refine ⟨hlines, fun files => ?_⟩
  rcases seed_stays_in_context { seed := 1 } 2 "" seededSource files hlines with
    ⟨hsuccess, _, hreports, _, hcontext, _⟩
  exact ⟨hsuccess, hreports, hcontext⟩

end TableFlow
