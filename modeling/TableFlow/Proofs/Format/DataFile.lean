import TableFlow.Proofs.Format.Csv.RoundTrip
import TableFlow.Proofs.Format.Records
import TableFlow.Proofs.Kinds
import TableFlow.Proofs.Table.Shape

/-!
# Loading and writing data files

A table that is loaded is well-formed, whatever the layout of its file.  Where a file cannot be loaded or written, the
error tells of the file or of the layout of its content: what is wrong with a text comes out as an error of layout.

Main results:

- Theorem `wellFormed_of_load`: a table that is loaded from a file is well-formed.
- Theorem `failsAs_load`: loading fails as `io` or `schema`, if the delimiter is a byte.
- Theorem `failsAs_write`: writing then fails as `io`.
-/

namespace TableFlow

variable {config : Config} {t : Table}

/-! ## Actions on files -/

namespace FileM

variable {α β : Type}

/-- Whenever the action fails, the error is of one of these kinds. -/
def FailsAs (kinds : List String) (action : FileM α) : Prop :=
  ∀ files e files', action.runWith files = (.error e, files') → e.kind ∈ kinds

theorem FailsAs.mono {kinds more : List String} {action : FileM α} (h : FailsAs kinds action)
    (hsub : kinds ⊆ more) : FailsAs more action :=
  fun files e files' hrun => hsub (h files e files' hrun)

/-- A result that depends on no file. -/
theorem runWith_liftM (x : Except Error α) (files : Files) : (liftM x : FileM α).runWith files = (x, files) := by
  cases x <;> rfl

theorem runWith_openEntry (path : String) (files : Files) :
    (openEntry path).runWith files =
      match files.openEntry path with
      | .ok entry => (.ok entry, files)
      | .error fault => (.error (fault.at path), files) := rfl

/-- A sequence goes on where its first part has succeeded. -/
theorem runWith_bind (x : FileM α) (f : α → FileM β) (files : Files) :
    (x >>= f).runWith files =
      match x.runWith files with
      | (.ok a, files) => (f a).runWith files
      | (.error e, files) => (.error e, files) := by
  simp only [runWith, ExceptT.run_bind, StateT.run_bind]
  rcases StateT.run (ExceptT.run x) files with ⟨_ | _, _⟩ <;> rfl

end FileM

theorem FileFault.kind_at (fault : FileFault) (path : String) : (fault.at path).kind = "io" := rfl

/-- Where a file cannot be saved, the error tells of a file. -/
theorem FileM.failsAs_save (path : String) (content : Bytes) : FailsAs ["io"] (save path content) := by
  intro files e files' h
  simp only [runWith, ExceptT.run, StateT.run, Id.run, save] at h
  apply List.mem_singleton.2
  split at h
  · cases h
    exact FileFault.kind_at _ _
  · split at h
    · cases h
      exact FileFault.kind_at _ _
    · cases h

/-! ## Contents -/

theorem Csv.failsAs_header (r : RawRecord) : FailsAs ["io", "schema"] (header r) := by
  unfold header
  split
  · exact .ok _
  · exact .error (.tail _ (.head _))

theorem Csv.failsAs_rows (width : Nat) (fault : Option FileFault) (number : Nat) (rs : List RawRecord) :
    FailsAs ["io", "schema"] (rows config width fault number rs) := by
  induction rs generalizing number with
  | nil =>
      unfold rows
      split
      · exact .ok _
      · exact .error (.tail _ (.head _))
  | cons r rs ih =>
      unfold rows
      split
      · exact .error (.tail _ (.head _))
      · split
        · next e hrest => exact .error (ih _ e hrest)
        · exact .ok _

/-- Reading a delimited text fails at the file or at its layout. -/
theorem Csv.failsAs_readTable (delimiter : UInt8) (stream : Stream) :
    FailsAs ["io", "schema"] (readTable config delimiter stream) := by
  have hsub : ["schema"] ⊆ ["io", "schema"] := by simp
  unfold readTable
  split
  · split
    · exact .error (.head _)
    · exact .error (.tail _ (.head _))
  · refine .bind (failsAs_header _) fun columns => ?_
    split
    · exact .error (.tail _ (.head _))
    · refine .bind ((Table.failsAs_ofRows columns []).mono hsub) fun empty => ?_
      exact .bind (failsAs_rows _ _ _ _) fun rows => .ok _

theorem Records.failsAs_lineObject (number : Nat) (text : List Char) :
    FailsAs ["io", "schema"] (lineObject number text) := by
  unfold lineObject
  split
  · exact .error (.tail _ (.head _))
  · split
    · exact .ok _
    · exact .error (.tail _ (.head _))

theorem Records.failsAs_lineObjects (number : Nat) (lines : List Bytes) :
    FailsAs ["io", "schema"] (lineObjects number lines) := by
  induction lines generalizing number with
  | nil => exact .ok _
  | cons line lines ih =>
      unfold lineObjects
      split
      · exact .error (.head _)
      · split
        · exact ih _
        · exact .bind (failsAs_lineObject _ _) fun object => .bind (ih _) fun more => .ok _

theorem Records.failsAs_itemObjects (number : Nat) (items : List Json) :
    FailsAs ["io", "schema"] (itemObjects number items) := by
  induction items generalizing number with
  | nil => exact .ok _
  | cons item items ih =>
      unfold itemObjects
      split
      · exact .bind (ih _) fun more => .ok _
      · exact .error (.tail _ (.head _))

theorem Records.failsAs_toTable (objects : List Fields) : FailsAs ["io", "schema"] (toTable config objects) :=
  (Table.failsAs_ofRows _ _).mono (by simp)

theorem Records.failsAs_readLines (stream : Stream) : FailsAs ["io", "schema"] (readLines config stream) := by
  refine .bind (failsAs_lineObjects _ _) fun objects => ?_
  split
  · exact .error (.head _)
  · exact failsAs_toTable objects

/-- Reading an array of objects also fails where the content is no text in the format. -/
theorem Records.failsAs_readArray (stream : Stream) :
    FailsAs ["io", "schema", "serde"] (readArray config stream) := by
  have hsub : ["io", "schema"] ⊆ ["io", "schema", "serde"] := by simp
  unfold readArray
  split
  · exact .error (.tail _ (.tail _ (.head _)))
  · split
    · exact .error (.tail _ (.tail _ (.head _)))
    · split
      · exact .bind ((failsAs_itemObjects _ _).mono hsub) fun objects => (failsAs_toTable objects).mono hsub
      · exact .error (.tail _ (.head _))

/-! ## Tables of objects -/

theorem Records.wellFormed_of_toTable {objects : List Fields} (h : toTable config objects = .ok t) :
    t.WellFormed :=
  Table.wellFormed_ofRows h

theorem Records.wellFormed_of_readLines {stream : Stream} (h : readLines config stream = .ok t) :
    t.WellFormed := by
  obtain ⟨objects, _, h⟩ := bind_eq_ok.1 h
  split at h
  · cases h
  · exact wellFormed_of_toTable h

theorem Records.wellFormed_of_readArray {stream : Stream} (h : readArray config stream = .ok t) :
    t.WellFormed := by
  unfold readArray at h
  split at h
  · cases h
  · split at h
    · cases h
    · split at h
      · obtain ⟨objects, _, h⟩ := bind_eq_ok.1 h
        exact wellFormed_of_toTable h
      · cases h

namespace DataFile

/-! ## What is done to the files -/

/-- How a file is loaded. -/
theorem runWith_load (config : Config) (path : String) (files : Files) :
    (load config path).runWith files =
      match config.delimiterByte with
      | .error e => (.error e, files)
      | .ok delimiter =>
        match files.openEntry path with
        | .error fault => (.error (fault.at path), files)
        | .ok entry =>
          match readTable config (content (detect path delimiter).2 (chunk (detect path delimiter).1) entry)
            (detect path delimiter).1 with
          | .ok t => (.ok t, files)
          | .error e => (.error (withPath path e), files) := by
  unfold load
  cases config.delimiterByte with
  | error e => rfl
  | ok delimiter =>
      simp only [FileM.runWith_bind, FileM.runWith_liftM, FileM.runWith_openEntry]
      cases files.openEntry path with
      | error fault => rfl
      | ok entry =>
          simp only
          cases readTable config (content (detect path delimiter).2 (chunk (detect path delimiter).1) entry)
            (detect path delimiter).1 with
          | ok t => rfl
          | error e => rfl

/-- How a file is written. -/
theorem runWith_write (config : Config) (path : String) (t : Table) (files : Files) :
    (write config path t).runWith files =
      match config.delimiterByte with
      | .error e => (.error e, files)
      | .ok delimiter =>
        (FileM.save path (packed (writeTable t (detect path delimiter).1) (detect path delimiter).2)).runWith
          files := by
  unfold write
  cases config.delimiterByte with
  | error e => rfl
  | ok delimiter => simp only [FileM.runWith_bind, FileM.runWith_liftM]

/-! ## How files are read and written -/

/-- Reading a table in any layout. -/
theorem failsAs_readTable (stream : Stream) (format : DataFormat) :
    FailsAs ["io", "schema", "serde"] (readTable config stream format) := by
  have hsub : ["io", "schema"] ⊆ ["io", "schema", "serde"] := by simp
  cases format with
  | csv delimiter => exact (Csv.failsAs_readTable delimiter stream).mono hsub
  | jsonLines => exact (Records.failsAs_readLines stream).mono hsub
  | json => exact Records.failsAs_readArray stream

/-- With the path of the file, what is wrong with a text is an error of layout. -/
theorem kind_withPath {e : Error} (h : e.kind ∈ ["io", "schema", "serde"]) (path : String) :
    (withPath path e).kind ∈ ["io", "schema"] := by
  unfold withPath
  split
  · split
    · exact .head _
    · exact .head _
  · exact .tail _ (.head _)
  · exact .tail _ (.head _)
  · next hio hschema hserialization =>
      cases e with
      | io text => exact absurd rfl (hio text)
      | schema text => exact absurd rfl (hschema text)
      | serialization text => exact absurd rfl (hserialization text)
      | _ => simp [Error.kind] at h

/-- The delimiter of a valid configuration is a byte. -/
theorem exists_delimiterByte (hvalid : config.validate = .ok ()) : ∃ delimiter, config.delimiterByte = .ok delimiter := by
  unfold Config.validate at hvalid
  split at hvalid
  · cases hvalid
  · next hascii =>
      unfold Config.delimiterByte
      rw [if_pos (by omega)]
      exact ⟨_, rfl⟩

/-- Where a file cannot be loaded, the error tells of the file or of the layout of its content. -/
theorem failsAs_load (hvalid : config.validate = .ok ()) (path : String) :
    FileM.FailsAs ["io", "schema"] (load config path) := by
  intro files e files' h
  obtain ⟨delimiter, hdelimiter⟩ := exists_delimiterByte hvalid
  rw [runWith_load, hdelimiter] at h
  simp only at h
  split at h
  · cases h
    exact .head _
  · split at h
    · cases h
    · next e hread =>
        cases h
        exact kind_withPath (failsAs_readTable _ _ e hread) path

/-- Where a file cannot be written, the error tells of the file. -/
theorem failsAs_write (hvalid : config.validate = .ok ()) (path : String) (t : Table) :
    FileM.FailsAs ["io"] (write config path t) := by
  intro files e files' h
  obtain ⟨delimiter, hdelimiter⟩ := exists_delimiterByte hvalid
  rw [runWith_write, hdelimiter] at h
  exact FileM.failsAs_save _ _ files e files' h

/-! ## Tables of files -/

/-- A table that is read in any layout is well-formed. -/
theorem wellFormed_of_readTable {stream : Stream} {format : DataFormat}
    (h : readTable config stream format = .ok t) : t.WellFormed := by
  cases format with
  | csv delimiter => exact (Csv.plain_of_readTable h).wellFormed
  | jsonLines => exact Records.wellFormed_of_readLines h
  | json => exact Records.wellFormed_of_readArray h

/-- A table that is loaded from a file is well-formed. -/
theorem wellFormed_of_load {path : String} {files files' : Files}
    (h : (load config path).runWith files = (.ok t, files')) : t.WellFormed := by
  rw [runWith_load] at h
  split at h
  · cases h
  · split at h
    · cases h
    · split at h
      · next hread =>
          cases h
          exact wellFormed_of_readTable hread
      · cases h

end DataFile
end TableFlow
