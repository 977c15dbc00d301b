import TableFlow.Run.Builder
import TableFlow.Proofs.Script.RoundTrip

/-!
# Built programs and scripts

A builder can be used in any way, with any nodes and any keys.  Whatever is called, the nodes stand on consecutive
lines from the first one on.  So the printed script, which tells no lines, is read back as the very program that was
built, and checks and runs as it does, down to the lines that the errors name; all that is needed is that the words
are such that a script can spell them.

Main results:

- Definition `Builder.afterCalls`: a builder after any sequence of calls.
- Theorem `Builder.numbered_afterCalls`: its nodes stand on consecutive lines.
- Theorem `Builder.parse_script_iff`: its script is read back as its program exactly when the program is well formed.
- Theorem `Builder.calls_match_script`: building a program and writing its script come to the same.
-/

namespace TableFlow

open Script (Node Program)

namespace Builder

/-! ## Calls -/

/-- What can be called on a builder. -/
inductive Call where
  | step (n : Node)
  | load (path : String)
  | clean (way : String)
  | cleanMissing
  | dropDuplicates
  | encode
  | encodeColumns (columns : List String)
  | encodeIndicators (columns : List String)
  | scale (way : String)
  | drop (columns : List String)
  | select (columns : List String)
  | split (share : Float)
  | splitFor (share : Float) (target : String)
  | train (algorithm : String)
  | trainWith (algorithm : String) (params : List (String × String))
  | evaluate
  | exportTo (path : String)
  | save (path : String)

/-- The builder after a call. -/
def perform (b : Builder) : Call → Builder
  | .step n => b.add n
  | .load path => b.load path
  | .clean way => b.clean way
  | .cleanMissing => b.cleanMissing
  | .dropDuplicates => b.dropDuplicates
  | .encode => b.encode
  | .encodeColumns columns => b.encodeColumns columns
  | .encodeIndicators columns => b.encodeIndicators columns
  | .scale way => b.scale way
  | .drop columns => b.drop columns
  | .select columns => b.select columns
  | .split share => b.split share
  | .splitFor share target => b.splitFor share target
  | .train algorithm => b.train algorithm
  | .trainWith algorithm params => b.trainWith algorithm params
  | .evaluate => b.evaluate
  | .exportTo path => b.exportTo path
  | .save path => b.save path

/-- The builder after some calls. -/
def afterCalls (b : Builder) (calls : List Call) : Builder :=
  calls.foldl perform b

/-- The usual program is built by calls. -/
example (path target algorithm : String) :
    quick path target algorithm = empty.afterCalls [.load path, .cleanMissing, .encode,
      .splitFor 0.8 target, .train algorithm, .evaluate] := rfl

/-! ## Lines -/

/-- The nodes stand on consecutive lines from the first one on. -/
def Numbered (b : Builder) : Prop :=
  b.program.renumbered = b.program

/-- There is nothing to number at first. -/
theorem numbered_empty : empty.Numbered := rfl

/-- A node that is added gets the next line, whatever line it had. -/
theorem Numbered.add {b : Builder} (h : b.Numbered) (n : Node) : (b.add n).Numbered := by
  have hnodes : (b.program.nodes.mapIdx fun i n => { n with line := i + 1 }) = b.program.nodes :=
    congrArg Program.nodes h
  rw [Numbered, Program.renumbered, Builder.add, List.mapIdx_concat, hnodes]
  rfl

/-- Every call adds one node. -/
theorem exists_perform_eq_add (b : Builder) (c : Call) : ∃ n, b.perform c = b.add n := by
  cases c <;> exact ⟨_, rfl⟩

/-- A call keeps the lines consecutive. -/
theorem Numbered.perform {b : Builder} (h : b.Numbered) (c : Call) : (b.perform c).Numbered := by
  obtain ⟨n, hn⟩ := exists_perform_eq_add b c
  rw [hn]
  exact h.add n

/-- So do any calls. -/
theorem Numbered.afterCalls {b : Builder} (h : b.Numbered) (calls : List Call) :
    (b.afterCalls calls).Numbered := by
  induction calls generalizing b with
  | nil => exact h
  | cons c calls ih => exact ih (h.perform c)

/-- Whatever is called, the nodes stand on consecutive lines. -/
theorem numbered_afterCalls (calls : List Call) : (empty.afterCalls calls).Numbered :=
  numbered_empty.afterCalls calls

/-! ## Scripts -/

section

variable {b : Builder}

/-- The script of a builder is read back as its program exactly when the program is well formed. -/
theorem parse_script_iff (h : b.Numbered) :
    Program.parse b.script = .ok b.program ↔ b.program.WellFormed := by
  constructor
  · exact Script.wellFormed_of_parse
  · intro hwellFormed
    rw [script, Script.parse_render_of_wellFormed hwellFormed, h]

/-- A script that is read back as the program is checked as the program is. -/
theorem compileSource_script (h : Program.parse b.script = .ok b.program) (config : Config) :
    ({ config } : Dialect).compileSource b.script = b.compile config := by
  rw [Dialect.compileSource, h]
  rfl

/-- It runs as the program does, too, whatever the services. -/
theorem ofSource_script (h : Program.parse b.script = .ok b.program) (config : Config)
    (services : Services) (files : Files) :
    Run.ofSource { config } services b.script files = b.run config services files := by
  rw [Run.ofSource, compileSource_script h]
  rfl

end

/-- Building a program by any calls and writing it as a script come to the same.  If its words are well formed, and
only then, the script is read as the program that was built, on the same lines and with the options in the same
order; it is checked with the same steps or the same error, and runs in the same way. -/
theorem calls_match_script (calls : List Call) :
    (Program.parse (empty.afterCalls calls).script = .ok (empty.afterCalls calls).program ↔
        (empty.afterCalls calls).program.WellFormed) ∧
      ((empty.afterCalls calls).program.WellFormed → ∀ config,
        ({ config } : Dialect).compileSource (empty.afterCalls calls).script =
            (empty.afterCalls calls).compile config ∧
          ∀ time files, Run.script config time (empty.afterCalls calls).script files =
            (empty.afterCalls calls).run config (.native config time) files) := by
  have hparse := parse_script_iff (numbered_afterCalls calls)
  refine ⟨hparse, ?_⟩
  intro h config
  exact ⟨compileSource_script (hparse.2 h) config,
    fun time files => ofSource_script (hparse.2 h) config (.native config time) files⟩

/-- Calls with both kinds of quotes in a word, a node from another line, and a key that is given again. -/
def oddCalls : List Call :=
  [.load "it's \"here\".csv", .step { command := "clean", args := ["mean"], line := 77 },
    .trainWith "knn" [("k", "3"), ("weight", ""), ("k", "5")]]

/-- The error of these calls. -/
def oddError : Error :=
  .validation "train" ("line 3: unknown option '--weight' (allowed: --target, --seed, --trees, " ++
    "--max_depth, --k, --iterations, --learning_rate)")

/-- These calls and their script are refused for the same option of the same line. -/
theorem calls_match_script_of_oddCalls :
    (empty.afterCalls oddCalls).program.WellFormed ∧
      (empty.afterCalls oddCalls).script =
        "load \"it's \"'\"'\"here\"'\"'\".csv\"\nclean mean\ntrain knn --k 5 --weight \"\"" ∧
      ({} : Dialect).compileSource (empty.afterCalls oddCalls).script = .error oddError ∧
      Run.script {} "" (empty.afterCalls oddCalls).script Files.empty =
        Run.rejected oddError Files.empty := by
  have hparse : Program.parse (empty.afterCalls oddCalls).script =
      .ok (empty.afterCalls oddCalls).program := by decide +kernel
  have hcompile : (empty.afterCalls oddCalls).compile {} = .error oddError := by rfl
  have hwellFormed := (calls_match_script oddCalls).1.1 hparse
  obtain ⟨hsource, hrun⟩ := (calls_match_script oddCalls).2 hwellFormed {}
  refine ⟨hwellFormed, by decide +kernel, hsource.trans hcompile, ?_⟩
  rw [hrun, run, hcompile]
  rfl

end Builder
end TableFlow
