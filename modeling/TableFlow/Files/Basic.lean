import TableFlow.Error
import TableFlow.Files.Path
import TableFlow.Text.Utf8

/-!
# Files

The files that a run reads and writes, as a value: a map from paths to entries, in which every directory on
the way to an entry has an entry of its own.  A step that touches files is a `FileM` action; what it has
written stays written when it fails later.
-/

namespace TableFlow

/-- What stands at a path. -/
inductive Entry where
  | file (content : Bytes)
  | directory
  deriving DecidableEq, Inhabited

/-- Why a file could not be used. -/
inductive FileFault where
  | notFound
  | isDirectory
  | notDirectory
  | alreadyThere
  /-- The content is not the text it should be. -/
  | notUtf8
  /-- The content cannot be unpacked. -/
  | damaged (reason : String)
  deriving DecidableEq, Repr

/-- The text of a fault. -/
def FileFault.message : FileFault → String
  | .notFound => "No such file or directory (os error 2)"
  | .isDirectory => "Is a directory (os error 21)"
  | .notDirectory => "Not a directory (os error 20)"
  | .alreadyThere => "File exists (os error 17)"
  | .notUtf8 => "stream did not contain valid UTF-8"
  | .damaged reason => reason

/-- A fault of the file at a path. -/
def FileFault.at (fault : FileFault) (path : String) : Error :=
  let text := fault.message
  .io s!"{path}: {text}"

/-- What could be read of a file, and the fault at which reading stopped if it did not reach the end. -/
structure Stream where
  bytes : Bytes
  fault : Option FileFault := none
  deriving DecidableEq

/-- The entries of a file system, by the names along their paths. -/
structure Files where
  entries : List (List String × Entry)
  deriving DecidableEq, Inhabited

namespace Files

/-- No entries. -/
def empty : Files := ⟨[]⟩

/-- The entry at a path; the start is always a directory. -/
def entry? (f : Files) (names : List String) : Option Entry :=
  if names.isEmpty then some .directory else f.entries.lookup names

/-- Put an entry at a path. -/
def put (f : Files) (names : List String) (e : Entry) : Files :=
  if f.entries.any (·.1 == names) then
    ⟨f.entries.map fun pair => if pair.1 == names then (names, e) else pair⟩
  else ⟨f.entries ++ [(names, e)]⟩

/-- Check that every proper part of a path is a directory. -/
def checkParents (f : Files) (names : List String) : Except FileFault Unit :=
  (Path.stages names.dropLast).forM fun part =>
    match f.entry? part with
    | some .directory => .ok ()
    | some (.file _) => .error .notDirectory
    | none => .error .notFound

/-- Open what stands at a path. -/
def openEntry (f : Files) (path : String) : Except FileFault Entry := do
  if path = "" then throw .notFound
  let names := Path.names path
  f.checkParents names
  match f.entry? names with
  | none => throw .notFound
  | some .directory => pure .directory
  | some (.file content) =>
    if Path.endsInSlash path then throw .notDirectory else pure (.file content)

/-- Read a file. -/
def read (f : Files) (path : String) : Except FileFault Bytes := do
  match ← f.openEntry path with
  | .directory => throw .isDirectory
  | .file content => pure content

/-- Read a file as a text. -/
def readText (f : Files) (path : String) : Except FileFault String := do
  match Text.decode? (← f.read path) with
  | some text => pure text
  | none => throw .notUtf8

/-- Write a file, in place of the one that stood there. -/
def write (f : Files) (path : String) (content : Bytes) : Except FileFault Files := do
  if path = "" then throw .notFound
  let names := Path.names path
  f.checkParents names
  match f.entry? names with
  | some .directory => throw .isDirectory
  | some (.file _) =>
    if Path.endsInSlash path then throw .notDirectory else pure (f.put names (.file content))
  | none => if Path.endsInSlash path then throw .isDirectory else pure (f.put names (.file content))

/-- Make the directories of a path that are missing, from the first to the last. -/
def makeParts (f : Files) (whole : List String) : List (List String) → Except FileFault Files
  | [] => .ok f
  | part :: rest =>
    match f.entry? part with
    | some .directory => f.makeParts whole rest
    | some (.file _) => .error (if part = whole then .alreadyThere else .notDirectory)
    | none => (f.put part .directory).makeParts whole rest

/-- Make a directory and those it stands in. -/
def makeDirectories (f : Files) (path : String) : Except FileFault Files :=
  let names := Path.names path
  f.makeParts names (Path.stages names)

/-- The files that are new or changed since an earlier state. -/
def changedSince (f before : Files) : List (List String × Bytes) :=
  f.entries.filterMap fun (names, e) =>
    match e with
    | .directory => none
    | .file content => if before.entry? names = some e then none else some (names, content)

end Files

/-- An action on files that may fail. -/
abbrev FileM := ExceptT Error (StateM Files)

namespace FileM

/-- Run an action. -/
def runWith {α : Type} (action : FileM α) (files : Files) : Except Error α × Files :=
  Id.run (StateT.run (ExceptT.run action) files)

/-- Read what stands at a path. -/
def openEntry (path : String) : FileM Entry := fun files =>
  match files.openEntry path with
  | .ok e => (.ok e, files)
  | .error fault => (.error (fault.at path), files)

/-- Write a file after making the directories it stands in. -/
def save (path : String) (content : Bytes) : FileM Unit := fun files =>
  let parent := match Path.parent? path with
    | some parent => parent
    | none => ""
  match files.makeDirectories parent with
  | .error fault => (.error (fault.at parent), files)
  | .ok files =>
    match files.write path content with
    | .error fault => (.error (fault.at path), files)
    | .ok files => (.ok (), files)

end FileM
end TableFlow
