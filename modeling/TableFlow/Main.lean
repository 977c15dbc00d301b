import Std.Time.DateTime
import Std.Time.Format
import TableFlow.CommandLine

/-!
# The program

Reads the files that an invocation may need, answers it, and writes the files that have changed.
-/

namespace TableFlow

/-- The path of names on the disk. -/
def diskPath : List String → String
  | "/" :: rest => "/" ++ "/".intercalate rest
  | names => "/".intercalate names

/-- What stands at a path on the disk. -/
def diskEntry? (path : String) : IO (Option Entry) := do
  try
    if ← (← IO.FS.realPath path).isDir then pure (some .directory)
    else pure (some (.file (← IO.FS.readBinFile path).toList))
  catch _ => pure none

/-- Add what stands at a path on the disk, and the directories on the way to it. -/
def addFromDisk (files : Files) (path : String) : IO Files :=
  (Path.stages (Path.names path)).foldlM (fun files names => do
    match ← diskEntry? (diskPath names) with
    | some entry => pure (files.put names entry)
    | none => pure files) files

/-- The paths that the script of an invocation names. -/
def scriptPaths (i : Invocation) (files : Files) : List String :=
  match i.source files with
  | .ok source =>
    match Script.Program.parse source with
    | .ok program => program.nodes.flatMap Script.Node.args
    | .error _ => []
  | .error _ => []

/-- Write the files that have changed. -/
def writeToDisk (before after : Files) : IO Unit := do
  for (names, entry) in after.entries do
    if before.entry? names != some entry then
      match entry with
      | .directory => IO.FS.createDirAll (diskPath names)
      | .file content => IO.FS.writeBinFile (diskPath names) (ByteArray.mk content.toArray)

end TableFlow

open TableFlow in
/-- Answer the words of a command line. -/
def main (args : List String) : IO UInt32 := do
  match Invocation.ofArgs? args with
  | none =>
    IO.eprintln s!"error: usage: {Invocation.usage}"
    pure 2
  | some i =>
    let files ← (i.config.toList ++ [i.script]).foldlM addFromDisk Files.empty
    let files ← (scriptPaths i files).foldlM addFromDisk files
    let startedAt := (Std.Time.DateTime.ofTimestamp (← Std.Time.Timestamp.now) .UTC).toISO8601String
    let start ← IO.monoNanosNow
    let answer ← IO.lazyPure fun _ => i.answer startedAt files
    let stop ← IO.monoNanosNow
    match answer with
    | .ok answer => writeToDisk files (answer.files files)
    | .error _ => pure ()
    let seconds := Float.ofNat (stop - start) / 1000000000.0
    let reply := Invocation.reply { startedAt, seconds } answer
    IO.print reply.output
    IO.eprint reply.errors
    pure (UInt32.ofNat reply.exit)
