import ProtoSdl.Compiler
import ProtoSdl.Sdl.Document

/-!
  Conversion of files — from a schema file to its document

  A file is converted alone: the compiler reads it, its declarations become a tree,
  and the tree has a document or none. Several files are converted in order, and the
  first file that cannot be converted decides the failure. With more than one job the
  conversions run side by side; what comes out is the same
  (`convertFiles_eq_mapM`), because no conversion depends on another.
-/

namespace ProtoSdl

open ProtoSdl.Path (AbsolutePath)

/-- What conversions are made in: the working directory, and the compiler's outcome
for each file. -/
structure Environment where
  workingDirectory : AbsolutePath
  compile : AbsolutePath → Compiler.Outcome

inductive FileError where
  /-- There is no tree of the file. -/
  | load (e : Compiler.LoadError)
  /-- The tree has no document. -/
  | conversion (e : Sdl.ConversionError)
  deriving DecidableEq, Repr

/-- The text that tells a user of the error. -/
def FileError.message : FileError → String
  | load e => e.message
  | conversion e => e.message

namespace Environment

variable (env : Environment)

/-- The place of a file. -/
def placeOf (file : String) : AbsolutePath := .ofText env.workingDirectory file

/-- The document of a schema file. -/
def convertFile (includes : List String) (file : String) :
    Except FileError (Option Sdl.Document) :=
  match Compiler.loadTree env.workingDirectory file includes (env.compile (env.placeOf file)) with
  | .error e => .error (.load e)
  | .ok tree =>
    match tree.toDocument with
    | .error e => .error (.conversion e)
    | .ok d => .ok d

/-- The documents of schema files in order, or the failure of the first file that
has one. -/
def convertFiles (includes : List String) (jobs : Int) (files : List String) :
    Except FileError (List (Option Sdl.Document)) :=
  if jobs ≤ 1 ∨ files.length = 1 then files.mapM (env.convertFile includes)
  else
    let tasks := files.map fun f => Task.spawn fun _ => env.convertFile includes f
    tasks.mapM Task.get

/-- The number of jobs has no influence on the result. -/
theorem convertFiles_eq_mapM (includes : List String) (jobs : Int) (files : List String) :
    env.convertFiles includes jobs files = files.mapM (env.convertFile includes) := by
  unfold convertFiles
  split
  · rfl
  · rw [List.mapM_map]
    rfl

end Environment

end ProtoSdl
