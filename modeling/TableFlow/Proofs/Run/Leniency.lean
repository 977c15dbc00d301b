import TableFlow.Proofs.Command.Instruction
import TableFlow.Proofs.Script.RoundTrip

/-!
# Strict and lenient checking

A lenient dialect passes over the options that a command does not declare, where a strict one refuses them.  So
lenient checking is strict checking of the program without these options.  Either way the steps of a program are
its nodes with the declared options, and they are a normal form: written as a script, they are read and checked,
in both ways, as the same steps again.

Both facts rest on how handlers are made.  A command makes one from the arguments and the declared options of a
line alone; the configuration is not asked, and where the line stands matters to errors only.

Main results:

- Definition `Program.stripped`: a program without the options that its commands do not declare.
- Theorem `readsWords_of_mem`: the bundled commands make handlers from arguments and options alone.
- Theorem `compile_lenient`: lenient checking is strict checking of the stripped program.
- Theorem `node_of_compile`: the steps are the nodes of the stripped program.
- Theorem `compileSource_describe`: the steps, written as a script, give the same steps.
- Theorem `leniency_is_stripping`: all of this for the bundled commands.
-/

namespace TableFlow

open Script (Node Program isOptionName isOptionWord)

/-! ## Declared options -/

namespace Dialect

variable (d : Dialect)

/-- The command of a name declares an option; one that is not known declares none. -/
def declares (command key : String) : Bool :=
  match d.registry.get? command with
  | some s => (s.option? key).isSome
  | none => false

/-- A node without the options that its command does not declare. -/
def stripNode (n : Node) : Node :=
  { n with options := n.options.filter (d.declares n.command) }

/-- A program without the options that its commands do not declare. -/
def strip (p : Program) : Program :=
  ⟨p.nodes.map d.stripNode⟩

/-- The dialect with its strictness set. -/
def withStrictness (strict : Bool) : Dialect :=
  { d with config := { d.config with strictOptions := strict } }

end Dialect

/-! ## Commands that go by their words -/

/-- What the first check answers when it accepts, the second one answers too. -/
def Allows {α : Type} (x y : Except Error α) : Prop :=
  ∀ a, x = .ok a → y = .ok a

namespace Allows

variable {α β : Type}

theorem refl (x : Except Error α) : Allows x x :=
  fun _ h => h

theorem error (e : Error) (y : Except Error α) : Allows (.error e) y := by
  intro a h
  cases h

/-- Chains of checks that allow one another link by link do so as a whole. -/
theorem bind {x y : Except Error α} {f g : α → Except Error β} (hxy : Allows x y)
    (hfg : ∀ a, Allows (f a) (g a)) : Allows (x >>= f) (y >>= g) := by
  intro b h
  obtain ⟨a, hx, hf⟩ := bind_eq_ok.1 h
  exact bind_eq_ok.2 ⟨a, hxy a hx, hfg a b hf⟩

end Allows

/-- The command makes handlers from arguments and options alone: the configuration is not asked, and another
line gives the same handler. -/
structure CommandSpec.ReadsWords (s : CommandSpec) : Prop where
  build_config : ∀ i config, s.build { i with config } = s.build i
  build_line : ∀ i line, Allows (s.build i) (s.build { i with line })

section

variable (i : CommandInput) (line : Nat)

theorem allows_natural (key : String) :
    Allows (i.natural key) ({ i with line : CommandInput }.natural key) := by
  have hoption : ({ i with line } : CommandInput).option? key = i.option? key := rfl
  unfold CommandInput.natural
  rw [hoption]
  cases i.option? key with
  | none => exact .refl _
  | some text =>
      dsimp only
      cases Text.word64? text with
      | some n => exact .refl _
      | none => exact .error _ _

theorem allows_number (key : String) :
    Allows (i.number key) ({ i with line : CommandInput }.number key) := by
  have hoption : ({ i with line } : CommandInput).option? key = i.option? key := rfl
  unfold CommandInput.number
  rw [hoption]
  cases i.option? key with
  | none => exact .refl _
  | some text =>
      dsimp only
      cases Decimal.readFinite? text with
      | some x => exact .refl _
      | none => exact .error _ _

theorem allows_path : Allows i.path ({ i with line : CommandInput }.path) := by
  have hfirst : ({ i with line } : CommandInput).firstArg = i.firstArg := rfl
  unfold CommandInput.path
  rw [hfirst]
  dsimp only
  split
  · exact .error _ _
  · exact .refl _

theorem allows_columns : Allows i.columns ({ i with line : CommandInput }.columns) := by
  unfold CommandInput.columns
  dsimp only
  split
  · exact .error _ _
  · exact .refl _

theorem allows_params :
    Allows (Training.readParams i) (Training.readParams { i with line }) := by
  refine .bind (allows_natural i line _) fun trees => ?_
  refine .bind (allows_natural i line _) fun maxDepth => ?_
  refine .bind (allows_natural i line _) fun k => ?_
  refine .bind (allows_natural i line _) fun iterations => ?_
  refine .bind (allows_number i line _) fun learningRate => ?_
  refine .bind (allows_natural i line _) fun seed => ?_
  exact .refl _

end

/-! ## The bundled commands go by their words -/

theorem readsWords_path (name : String) (act : String → Services → Context → StepM String) :
    (Storage.pathSpec name act).ReadsWords where
  build_config _ _ := rfl
  build_line i line := .bind (allows_path i line) fun _ => .refl _

theorem readsWords_clean : Cleaning.spec.ReadsWords where
  build_config _ _ := rfl
  build_line i line := by
    have hfirst : ({ i with line } : CommandInput).firstArg = i.firstArg := rfl
    simp only [Cleaning.spec, hfirst]
    cases Cleaning.ofName? i.firstArg with
    | some way => exact .refl _
    | none => exact .error _ _

theorem readsWords_encode : Encoding.spec.ReadsWords where
  build_config _ _ := rfl
  build_line i line := by
    have hoption : ({ i with line } : CommandInput).option? "method" = i.option? "method" := rfl
    simp only [Encoding.spec, hoption]
    cases i.option? "method" with
    | none => exact .refl _
    | some name =>
        dsimp only
        cases Encoding.ofName? name with
        | some way => exact .refl _
        | none => exact .error _ _

theorem readsWords_scale : Scaling.spec.ReadsWords where
  build_config _ _ := rfl
  build_line i line := by
    have hfirst : ({ i with line } : CommandInput).firstArg = i.firstArg := rfl
    simp only [Scaling.spec, hfirst]
    cases Scaling.ofName? i.firstArg with
    | some way => exact .refl _
    | none => exact .error _ _

theorem readsWords_drop : Columns.dropSpec.ReadsWords where
  build_config _ _ := rfl
  build_line i line := .bind (allows_columns i line) fun _ => .refl _

theorem readsWords_select : Columns.selectSpec.ReadsWords where
  build_config _ _ := rfl
  build_line i line := .bind (allows_columns i line) fun _ => .refl _

theorem readsWords_split : Splitting.spec.ReadsWords where
  build_config _ _ := rfl
  build_line i line := by
    have hfirst : ({ i with line } : CommandInput).firstArg = i.firstArg := rfl
    simp only [Splitting.spec, hfirst]
    cases Ratio.parse i.firstArg with
    | ok fraction => exact .bind (.refl _) fun _ => .bind (allows_natural i line _) fun _ => .refl _
    | error fault => exact .error _ _

theorem ofInput_config (i : CommandInput) (config : Config) :
    Training.ofInput { i with config } = Training.ofInput i := by
  have herror (message) : ({ i with config } : CommandInput).error message = i.error message := rfl
  have hfirst : ({ i with config } : CommandInput).firstArg = i.firstArg := rfl
  have hoption (key) : ({ i with config } : CommandInput).option? key = i.option? key := rfl
  have hparams : Training.readParams { i with config } = Training.readParams i := rfl
  unfold Training.ofInput
  simp only [herror, hfirst, hoption, hparams]

theorem allows_ofInput (i : CommandInput) (line : Nat) :
    Allows (Training.ofInput i) (Training.ofInput { i with line }) := by
  have hfirst : ({ i with line } : CommandInput).firstArg = i.firstArg := rfl
  have hoption (key) : ({ i with line } : CommandInput).option? key = i.option? key := rfl
  unfold Training.ofInput
  simp only [hfirst, hoption]
  cases Learn.Algorithm.ofName? i.firstArg with
  | none => exact .error _ _
  | some a =>
      refine .bind (.refl _) fun a => ?_
      cases Training.foreignOption? a i.options with
      | some key => exact .error _ _
      | none =>
          refine .bind (allows_params i line) fun params => ?_
          cases Training.zeroParam? params with
          | some key => exact .error _ _
          | none =>
              dsimp only
              split
              · exact .error _ _
              · exact .refl _

theorem readsWords_train : Training.spec.ReadsWords where
  build_config i config := congrArg (fun t => t >>= _) (ofInput_config i config)
  build_line i line := .bind (allows_ofInput i line) fun _ => .refl _

theorem readsWords_evaluate : Evaluation.spec.ReadsWords where
  build_config _ _ := rfl
  build_line _ _ := .refl _

/-- The bundled commands make handlers from arguments and options alone. -/
theorem readsWords_of_mem {s : CommandSpec} (hs : s ∈ Registry.bundled.specs) : s.ReadsWords := by
  simp only [Registry.bundled, List.mem_cons, List.not_mem_nil, or_false] at hs
  rcases hs with rfl | rfl | rfl | rfl | rfl | rfl | rfl | rfl | rfl | rfl | rfl
  · exact readsWords_path _ _
  · exact readsWords_clean
  · exact readsWords_encode
  · exact readsWords_scale
  · exact readsWords_drop
  · exact readsWords_select
  · exact readsWords_split
  · exact readsWords_train
  · exact readsWords_evaluate
  · exact readsWords_path _ _
  · exact readsWords_path _ _

/-! ## Checking arguments and options -/

section

variable {s : CommandSpec} {i : CommandInput} {pairs : List (String × String)}

/-- The check of the arguments succeeds when there are neither too few nor too many. -/
theorem checkArity_eq_ok_iff : s.checkArity i = .ok () ↔
    s.minArgs ≤ i.args.length ∧ ∀ most ∈ s.maxArgs, i.args.length ≤ most := by
  unfold CommandSpec.checkArity
  cases s.maxArgs with
  | none =>
      dsimp only
      split <;> simp <;> omega
  | some most =>
      dsimp only
      split
      · simp
        omega
      · split <;> simp <;> omega

/-- The check of an option succeeds when there is no complaint about its value. -/
theorem checkOption_eq_ok_iff {o : OptionSpec} {value : String} :
    CommandSpec.checkOption i o value = .ok () ↔ o.kind.complaint? value = none := by
  unfold CommandSpec.checkOption
  cases o.kind.complaint? value <;> simp

/-- The checks of options succeed when each declared one has a value of its kind, and none is undeclared unless
the dialect is lenient. -/
theorem checkOptions_eq_ok_iff {strict : Bool} :
    Dialect.checkOptions strict s i pairs = .ok () ↔
      ∀ pair ∈ pairs, (∀ o, s.option? pair.1 = some o → o.kind.complaint? pair.2 = none) ∧
        (s.option? pair.1 = none → strict = false) := by
  induction pairs with
  | nil => simp [Dialect.checkOptions]
  | cons pair pairs ih =>
      obtain ⟨key, value⟩ := pair
      rw [Dialect.checkOptions, List.forall_mem_cons, ← ih]
      cases hoption : s.option? key with
      | none => cases strict <;> simp
      | some o =>
          dsimp only
          rw [bind_eq_ok]
          constructor
          · rintro ⟨_, hcheck, hrest⟩
            exact ⟨⟨by simpa using checkOption_eq_ok_iff.1 hcheck, by simp⟩, hrest⟩
          · rintro ⟨⟨hvalue, _⟩, hrest⟩
            exact ⟨(), checkOption_eq_ok_iff.2 (hvalue o rfl), hrest⟩

/-- Lenient checking of options is strict checking of the declared ones. -/
theorem checkOptions_lenient :
    Dialect.checkOptions false s i pairs =
      Dialect.checkOptions true s i (pairs.filter fun pair => (s.option? pair.1).isSome) := by
  induction pairs with
  | nil => rfl
  | cons pair pairs ih =>
      obtain ⟨key, value⟩ := pair
      rw [Dialect.checkOptions, List.filter_cons]
      cases hoption : s.option? key with
      | none => simpa using ih
      | some o => simp [Dialect.checkOptions, hoption, ih]

/-- What is said about options depends on the command and the line alone. -/
theorem checkOptions_congr {strict : Bool} {j : CommandInput} (hcommand : i.command = j.command)
    (hline : i.line = j.line) :
    Dialect.checkOptions strict s i pairs = Dialect.checkOptions strict s j pairs := by
  have herror : i.error = j.error := by
    funext message
    rw [CommandInput.error, CommandInput.error, hcommand, hline]
  induction pairs with
  | nil => rfl
  | cons pair pairs ih =>
      obtain ⟨key, value⟩ := pair
      simp only [Dialect.checkOptions, Dialect.unknownOption, CommandSpec.checkOption, herror, ih]

end

/-! ## Checking a node -/

/-- A step is its node and its handler. -/
theorem Step.ext_node {a b : Step} (hnode : a.node = b.node) (hhandler : a.handler = b.handler) :
    a = b := by
  cases a
  cases b
  cases hnode
  cases hhandler
  rfl

namespace Dialect

variable {d : Dialect} {n : Node} {s : Step} {spec : CommandSpec}

/-- A line as its command sees it. -/
def inputOf (d : Dialect) (spec : CommandSpec) (n : Node) : CommandInput :=
  ⟨spec.name, n.args, n.options, d.config, n.line⟩

/-- What makes a node into a step: its command is known, and its checks succeed. -/
structure Checks (d : Dialect) (n : Node) (spec : CommandSpec) (s : Step) : Prop where
  found : d.registry.get? n.command = some spec
  arity : spec.checkArity (d.inputOf spec n) = .ok ()
  options : checkOptions d.config.strictOptions spec (d.inputOf spec n) n.options.pairs = .ok ()
  built : spec.build (d.inputOf spec (d.stripNode n)) = .ok s.handler
  node : s.node = d.stripNode n

/-- A command that is found has the name it was looked for by, and is one of the known ones. -/
theorem found_eq {name : String} (h : d.registry.get? name = some spec) :
    spec.name = name ∧ spec ∈ d.registry.specs := by
  have hname := List.find?_some h
  exact ⟨by simpa using hname, List.mem_of_find?_eq_some h⟩

/-- The options of a stripped node are those that its command declares. -/
theorem options_stripNode (h : d.registry.get? n.command = some spec) :
    (d.stripNode n).options = n.options.filter fun key => (spec.option? key).isSome := by
  have hdeclares : d.declares n.command = fun key => (spec.option? key).isSome := by
    funext key
    simp [declares, h]
  rw [stripNode, hdeclares]

/-- Stripping a node again changes nothing. -/
theorem stripNode_stripNode (d : Dialect) (n : Node) :
    d.stripNode (d.stripNode n) = d.stripNode n := by
  have hoptions : (n.options.filter (d.declares n.command)).filter (d.declares n.command) =
      n.options.filter (d.declares n.command) := by
    refine Options.ext ?_
    simp
  exact congrArg (fun options => { n with options := options }) hoptions

/-- The step of a node with a known command. -/
theorem step_of_found (h : d.registry.get? n.command = some spec) :
    d.step n = (do
      spec.checkArity (d.inputOf spec n)
      checkOptions d.config.strictOptions spec (d.inputOf spec n) n.options.pairs
      let handler ← spec.build (d.inputOf spec (d.stripNode n))
      pure ⟨n.command, n.args, (d.stripNode n).options, n.line, handler⟩) := by
  have hlookup : d.lookup n = .ok spec := by
    simp only [lookup, h]
  unfold step
  rw [hlookup, options_stripNode h, inputOf, inputOf, options_stripNode h, ← (found_eq h).1]
  rfl

/-- A node is made into a step exactly when it passes the checks. -/
theorem step_eq_ok_iff : d.step n = .ok s ↔ ∃ spec, d.Checks n spec s := by
  constructor
  · intro h
    obtain ⟨spec, hlookup, _⟩ := bind_eq_ok.1 h
    have hfound : d.registry.get? n.command = some spec := by
      unfold lookup at hlookup
      split at hlookup
      · next found hget =>
          cases hlookup
          exact hget
      · cases hlookup
    rw [step_of_found hfound] at h
    obtain ⟨_, harity, h⟩ := bind_eq_ok.1 h
    obtain ⟨_, hoptions, h⟩ := bind_eq_ok.1 h
    obtain ⟨handler, hbuild, hpure⟩ := bind_eq_ok.1 h
    cases hpure
    exact ⟨spec, hfound, harity, hoptions, hbuild, rfl⟩
  · rintro ⟨spec, h⟩
    rw [step_of_found h.found]
    refine bind_eq_ok.2 ⟨(), h.arity, bind_eq_ok.2 ⟨(), h.options, ?_⟩⟩
    refine bind_eq_ok.2 ⟨s.handler, h.built, congrArg Except.ok (Step.ext_node ?_ rfl)⟩
    rw [h.node]
    rfl

/-! ## Lenient checking -/

/-- Strict and lenient dialects find the same commands and complain in the same words, so a lenient one makes of a
node what a strict one makes of the stripped node. -/
theorem step_lenient (hreads : ∀ spec ∈ d.registry.specs, spec.ReadsWords) (n : Node) :
    (d.withStrictness false).step n = (d.withStrictness true).step (d.stripNode n) := by
  cases hfound : d.registry.get? n.command with
  | none =>
      have hlookup (strict : Bool) (m : Node) (hm : m.command = n.command) (hline : m.line = n.line) :
          (d.withStrictness strict).lookup m = .error (d.unknownCommand n) := by
        unfold lookup
        rw [hm]
        simp only [withStrictness, hfound, unknownCommand, hm, hline]
      unfold Dialect.step
      rw [hlookup false n rfl rfl, hlookup true (d.stripNode n) rfl rfl]
      rfl
  | some spec =>
      have hlenient : (d.withStrictness false).registry.get? n.command = some spec := hfound
      have hstrict : (d.withStrictness true).registry.get? (d.stripNode n).command = some spec := hfound
      have hoptions : checkOptions false spec ((d.withStrictness false).inputOf spec n) n.options.pairs =
          checkOptions true spec ((d.withStrictness true).inputOf spec (d.stripNode n))
            (d.stripNode n).options.pairs := by
        rw [checkOptions_lenient, options_stripNode hfound, Options.pairs_filter]
        exact checkOptions_congr rfl rfl
      have hbuild : spec.build ((d.withStrictness false).inputOf spec (d.stripNode n)) =
          spec.build ((d.withStrictness true).inputOf spec (d.stripNode (d.stripNode n))) := by
        rw [stripNode_stripNode]
        exact (hreads spec (found_eq hfound).2).build_config
          ((d.withStrictness true).inputOf spec (d.stripNode n)) _
      have hagain : (d.stripNode (d.stripNode n)).options = (d.stripNode n).options := by
        rw [stripNode_stripNode]
      rw [step_of_found hlenient, step_of_found hstrict]
      show (do
        spec.checkArity ((d.withStrictness true).inputOf spec (d.stripNode n))
        checkOptions false spec ((d.withStrictness false).inputOf spec n) n.options.pairs
        let handler ← spec.build ((d.withStrictness false).inputOf spec (d.stripNode n))
        pure ⟨n.command, n.args, (d.stripNode n).options, n.line, handler⟩ : Except Error Step) = _
      rw [hoptions, hbuild, ← hagain]
      rfl

/-- Lenient checking is strict checking of the stripped program. -/
theorem compile_lenient (hreads : ∀ spec ∈ d.registry.specs, spec.ReadsWords) (p : Program) :
    (d.withStrictness false).compile p = (d.withStrictness true).compile (d.strip p) := by
  have hstep : (d.withStrictness false).step = (d.withStrictness true).step ∘ d.stripNode :=
    funext (step_lenient hreads)
  rw [compile, compile, strip, List.mapM_map, hstep]

/-! ## Steps mirror nodes -/

/-- The steps of a program are its nodes with the declared options. -/
theorem node_of_compile {p : Program} {steps : List Step} (h : d.compile p = .ok steps) :
    steps.map Step.node = (d.strip p).nodes := by
  have hsteps : p.nodes.map d.step = steps.map .ok := mapM_eq_ok_iff.1 h
  refine List.ext_getElem (by simpa [strip] using (congrArg List.length hsteps).symm) ?_
  intro i hi hi'
  have hlength : i < p.nodes.length := by simpa [strip] using hi'
  have hmade : i < steps.length := by simpa using hi
  have hstep : d.step p.nodes[i] = .ok steps[i] := by
    have := List.getElem_of_eq hsteps (by simpa using hlength)
    simpa using this
  obtain ⟨spec, hchecks⟩ := step_eq_ok_iff.1 hstep
  simpa [strip] using hchecks.node

/-- Every node of an accepted program is made into one of the steps. -/
theorem exists_step_of_mem {p : Program} {steps : List Step} (h : d.compile p = .ok steps) {n : Node}
    (hn : n ∈ p.nodes) : ∃ s ∈ steps, d.step n = .ok s := by
  have hmem : d.step n ∈ steps.map Except.ok := by
    rw [← mapM_eq_ok_iff.1 h]
    exact List.mem_map_of_mem hn
  obtain ⟨s, hs, heq⟩ := List.mem_map.1 hmem
  exact ⟨s, hs, heq.symm⟩

/-- Nothing is stripped from a program that a strict dialect accepts. -/
theorem strip_of_strict {p : Program} {steps : List Step}
    (h : (d.withStrictness true).compile p = .ok steps) : d.strip p = p := by
  have hnode : ∀ n ∈ p.nodes, d.stripNode n = n := by
    intro n hn
    obtain ⟨s, _, hs⟩ := exists_step_of_mem h hn
    obtain ⟨spec, hchecks⟩ := step_eq_ok_iff.1 hs
    have hdeclared := checkOptions_eq_ok_iff.1 hchecks.options
    have hoptions : n.options.filter (d.declares n.command) = n.options := by
      refine Options.ext (List.filter_eq_self.2 ?_)
      intro pair hpair
      have hsome : spec.option? pair.1 ≠ none := by
        intro hnone
        cases (hdeclared pair hpair).2 hnone
      have hfound : d.registry.get? n.command = some spec := hchecks.found
      simpa [declares, hfound, Option.isSome_iff_ne_none] using hsome
    rw [stripNode, hoptions]
  have hnodes : p.nodes.map d.stripNode = p.nodes := by
    rw [List.map_congr_left hnode, List.map_id']
  rw [strip, hnodes]

/-! ## Steps are a normal form -/

/-- A step, as a node on any line, is made into the same step on that line, strictly or leniently. -/
theorem step_node (hreads : ∀ spec ∈ d.registry.specs, spec.ReadsWords) (h : d.step n = .ok s)
    (strict : Bool) (line : Nat) :
    (d.withStrictness strict).step { s.node with line } = .ok { s with line } := by
  obtain ⟨spec, hchecks⟩ := step_eq_ok_iff.1 h
  obtain ⟨hconfig, hline⟩ := hreads spec (found_eq hchecks.found).2
  have hagain : d.stripNode { s.node with line } = { s.node with line } := by
    rw [hchecks.node]
    exact congrArg (fun m : Node => { m with line }) (stripNode_stripNode d n)
  refine step_eq_ok_iff.2 ⟨spec, ?_, ?_, ?_, ?_, hagain.symm⟩
  · rw [hchecks.node]
    exact hchecks.found
  · have harity := checkArity_eq_ok_iff.1 hchecks.arity
    rw [checkArity_eq_ok_iff, hchecks.node]
    exact harity
  · have hchecked := checkOptions_eq_ok_iff.1 hchecks.options
    refine checkOptions_eq_ok_iff.2 ?_
    intro pair hpair
    have hpair : pair ∈ (d.stripNode n).options.pairs := by
      rw [← hchecks.node]
      exact hpair
    rw [options_stripNode hchecks.found, Options.pairs_filter, List.mem_filter] at hpair
    refine ⟨(hchecked pair hpair.1).1, ?_⟩
    intro hnone
    rw [hnone] at hpair
    cases hpair.2
  · have hbuilt : spec.build { d.inputOf spec (d.stripNode n) with line } = .ok s.handler :=
      hline _ line _ hchecks.built
    have hnode : (d.withStrictness strict).stripNode { s.node with line } =
        { d.stripNode n with line } := by
      rw [← hchecks.node]
      exact hagain
    rw [hnode, ← hbuilt]
    exact hconfig { d.inputOf spec (d.stripNode n) with line } _

end Dialect

/-- The command can be spelled in a script, and so can the options that it declares. -/
structure CommandSpec.Spellable (s : CommandSpec) : Prop where
  name_ne : s.name ≠ ""
  name_plain : isOptionWord s.name = false
  name_line : '\n' ∉ s.name.toList
  options_name : ∀ o ∈ s.options, isOptionName o.name.toList = true

/-- The bundled commands can be spelled. -/
theorem spellable_of_mem {s : CommandSpec} (hs : s ∈ Registry.bundled.specs) : s.Spellable := by
  simp only [Registry.bundled, List.mem_cons, List.not_mem_nil, or_false] at hs
  rcases hs with rfl | rfl | rfl | rfl | rfl | rfl | rfl | rfl | rfl | rfl | rfl <;>
    constructor <;> decide +kernel

/-- No argument and no option value of the step holds an end of line. -/
structure Step.OnOneLine (s : Step) : Prop where
  args_line : ∀ a ∈ s.args, '\n' ∉ a.toList
  values_line : ∀ v ∈ s.options.pairs.map Prod.snd, '\n' ∉ v.toList

/-- The steps as a script, one line for each. -/
def Step.script (steps : List Step) : String :=
  "\n".intercalate (steps.map Step.describe)

/-- The steps on consecutive lines from the first one on. -/
def Step.renumbered (steps : List Step) : List Step :=
  steps.mapIdx fun i s => { s with line := i + 1 }

namespace Dialect

variable {d : Dialect} {p : Program} {steps : List Step}

/-- The script of steps is that of their nodes. -/
theorem script_eq_render (steps : List Step) : Step.script steps = (⟨steps.map Step.node⟩ : Program).render := by
  rw [Step.script, Program.render, List.map_map]
  rfl

/-- Each step was made from a node of the program. -/
theorem exists_node_of_mem (h : d.compile p = .ok steps) {s : Step} (hs : s ∈ steps) :
    ∃ n ∈ p.nodes, d.step n = .ok s :=
  exists_of_mem_mapM h hs

/-- Steps within one line each form a program that a script can spell. -/
theorem wellFormed_of_compile (hspell : ∀ spec ∈ d.registry.specs, spec.Spellable)
    (h : d.compile p = .ok steps) (hlines : ∀ s ∈ steps, s.OnOneLine) :
    (⟨steps.map Step.node⟩ : Program).WellFormed := by
  intro m hm
  obtain ⟨s, hs, rfl⟩ := List.mem_map.1 hm
  obtain ⟨n, _, hstep⟩ := exists_node_of_mem h hs
  obtain ⟨spec, hchecks⟩ := step_eq_ok_iff.1 hstep
  obtain ⟨hname, hmem⟩ := found_eq hchecks.found
  have hspec := hspell spec hmem
  have hcommand : s.node.command = spec.name := by
    rw [hchecks.node, hname]
    rfl
  have hkeys : ∀ k ∈ s.node.options.pairs.map Prod.fst, isOptionName k.toList = true := by
    intro k hk
    rw [hchecks.node, options_stripNode hchecks.found] at hk
    obtain ⟨pair, hpair, rfl⟩ := List.mem_map.1 hk
    have hdeclared := (List.mem_filter.1 hpair).2
    obtain ⟨o, ho⟩ := Option.isSome_iff_exists.1 hdeclared
    have hoption : o.name = pair.1 := by simpa using List.find?_some ho
    rw [← hoption]
    exact hspec.options_name o (List.mem_of_find?_eq_some ho)
  refine ⟨?_, ?_, ?_, (hlines s hs).args_line, (hlines s hs).values_line, hkeys⟩
  · rw [hcommand]
    exact hspec.name_ne
  · rw [hcommand]
    exact hspec.name_plain
  · rw [hcommand]
    exact hspec.name_line

/-- The steps of a program, written as a script, are read and checked as the same steps, strictly or leniently. -/
theorem compileSource_script (hreads : ∀ spec ∈ d.registry.specs, spec.ReadsWords)
    (hspell : ∀ spec ∈ d.registry.specs, spec.Spellable) (h : d.compile p = .ok steps)
    (hlines : ∀ s ∈ steps, s.OnOneLine) (strict : Bool) :
    (d.withStrictness strict).compileSource (Step.script steps) = .ok (Step.renumbered steps) := by
  have hparse := Script.parse_render_of_wellFormed (wellFormed_of_compile hspell h hlines)
  refine bind_eq_ok.2 ⟨_, by rw [script_eq_render, hparse], mapM_eq_ok_iff.2 ?_⟩
  refine List.ext_getElem (by simp [Program.renumbered, Step.renumbered]) ?_
  intro i hi hi'
  have hlength : i < steps.length := by simpa [Step.renumbered] using hi'
  obtain ⟨n, _, hstep⟩ := exists_node_of_mem h (List.getElem_mem hlength)
  simpa [Program.renumbered, Step.renumbered] using step_node hreads hstep strict (i + 1)

end Dialect

/-! ## The bundled commands -/

/-- Checking with the bundled commands, strictly or leniently. -/
def Dialect.bundled (config : Config) (strict : Bool) : Dialect :=
  ({ config } : Dialect).withStrictness strict

/-- A program without the options that its commands do not declare. -/
def Script.Program.stripped (p : Program) : Program :=
  ({} : Dialect).strip p

/-- Lenient checking is strict checking of the stripped program, with the same steps or the same error, and accepts
what strict checking accepts with the same steps.  Either way the steps are the nodes with the declared options, and
the script that they spell gives the same steps, on its own lines, in both ways. -/
theorem leniency_is_stripping (config : Config) (p : Program) :
    (Dialect.bundled config false).compile p = (Dialect.bundled config true).compile p.stripped ∧
      (∀ steps, (Dialect.bundled config true).compile p = .ok steps →
        (Dialect.bundled config false).compile p = .ok steps) ∧
      ∀ strict steps, (Dialect.bundled config strict).compile p = .ok steps →
        steps.map Step.node = p.stripped.nodes ∧
          ((∀ s ∈ steps, s.OnOneLine) → ∀ strict',
            (Dialect.bundled config strict').compileSource (Step.script steps) =
              .ok (Step.renumbered steps)) := by
  have hreads : ∀ spec ∈ ({ config } : Dialect).registry.specs, spec.ReadsWords :=
    fun _ => readsWords_of_mem
  have hlenient := Dialect.compile_lenient hreads p
  refine ⟨hlenient, ?_, ?_⟩
  · intro steps h
    have hstrip : p.stripped = p := Dialect.strip_of_strict (d := { config }) h
    rw [← h]
    exact hlenient.trans (congrArg _ hstrip)
  · intro strict steps h
    refine ⟨Dialect.node_of_compile (d := Dialect.bundled config strict) h, ?_⟩
    intro hlines strict'
    exact Dialect.compileSource_script (d := Dialect.bundled config strict) hreads
      (fun _ => spellable_of_mem) h hlines strict'

/-- A program with declared and undeclared options side by side, on lines of its own. -/
def mixedProgram : Program :=
  ⟨[⟨"load", ["a b.csv"], Options.ofList [("verbose", "yes")], 3⟩,
    ⟨"train", ["knn"], Options.ofList [("k", "3"), ("weight", "x\ny"), ("target", "it's")], 7⟩]⟩

/-- The steps of that program. -/
def mixedSteps : List Step :=
  [⟨"load", ["a b.csv"], Options.empty, 3, (Instruction.load "a b.csv").handler⟩,
    ⟨"train", ["knn"], Options.ofList [("k", "3"), ("target", "it's")], 7,
      (Instruction.train ⟨.knn, some "it's", { k := some 3 }⟩).handler⟩]

/-- Its undeclared options are passed over, and what is left is spelled without them. -/
theorem leniency_of_mixedProgram :
    (Dialect.bundled {} false).compile mixedProgram = .ok mixedSteps ∧
      (Dialect.bundled {} true).compile mixedProgram.stripped = .ok mixedSteps ∧
      Step.script mixedSteps = "load \"a b.csv\"\ntrain knn --k 3 --target \"it's\"" ∧
      ∀ strict, (Dialect.bundled {} strict).compileSource
        "load \"a b.csv\"\ntrain knn --k 3 --target \"it's\"" = .ok (Step.renumbered mixedSteps) := by
  have hcompile : (Dialect.bundled {} false).compile mixedProgram = .ok mixedSteps := rfl
  have hscript : Step.script mixedSteps = "load \"a b.csv\"\ntrain knn --k 3 --target \"it's\"" := by
    decide +kernel
  have hlines : ∀ s ∈ mixedSteps, s.OnOneLine := by
    intro s hs
    rcases List.mem_pair.1 hs with rfl | rfl <;> constructor <;> decide
  obtain ⟨hlenient, _, hsteps⟩ := leniency_is_stripping {} mixedProgram
  refine ⟨hcompile, hlenient.symm.trans hcompile, hscript, ?_⟩
  rw [← hscript]
  exact (hsteps false mixedSteps hcompile).2 hlines

end TableFlow
