import ProtoSdl.Conversion
import ProtoSdl.Files.Change
import ProtoSdl.Files.Discovery

/-!
  Batches — discover, convert, write

  A batch finds the schema files that an input path stands for, converts all of them,
  and then writes the documents one after the other into the output directory, each
  under the stem of its file. Nothing is written before everything is converted, so a
  file that cannot be converted leaves the file system as it was; a write that fails
  leaves the files written before it.

  A `Session` is what a batch changes: the file system and the lines that it prints
  on two channels. A `Run` computation may fail, and what it did before remains.
-/

namespace ProtoSdl

open Files (FileSystem)

structure Session where
  files : FileSystem
  /-- The lines printed for the user. -/
  out : List String := []
  /-- The lines of warnings. -/
  err : List String := []

inductive RunError where
  /-- The input path leads nowhere. -/
  | missingInput (path : String)
  /-- The input path stands for no schema file; its absolute form is told. -/
  | noSchemaFiles (path : String)
  /-- A file cannot be converted. -/
  | file (e : FileError)
  /-- A document cannot be written. -/
  | system (e : Files.SystemError)
  /-- A path was asked for and none was given. -/
  | noPath
  /-- A number of jobs was asked for and none was given. -/
  | noNumber
  deriving DecidableEq, Repr

/-- The text that tells a user of the error. -/
def RunError.message : RunError → String
  | missingInput path => "No such file or directory: '" ++ path ++ "'"
  | noSchemaFiles path =>
    "Could not find protobuf files in the provided path: '" ++ path ++ "'."
  | file e => e.message
  | system e => e.message
  | noPath => "expected str, bytes or os.PathLike object, not list"
  | noNumber => "'<=' not supported between instances of 'list' and 'int'"

/-- A computation on a session; a failure keeps what was done before. -/
abbrev Run := EStateM RunError Session

structure Settings where
  input : String
  output : String
  isRecursive : Bool := false
  includes : List String := []
  jobs : Int := 1
  deriving DecidableEq, Repr

/-- Prints a line. -/
def say (line : String) : Run Unit := modify fun s => { s with out := s.out ++ [line] }

/-- Prints a line of warning. -/
def warn (line : String) : Run Unit := modify fun s => { s with err := s.err ++ [line] }

/-- Changes the file system of the session. -/
def applyChange (change : Files.Change Unit) : Run Unit := fun s =>
  match change s.files with
  | .ok () fs => .ok () { s with files := fs }
  | .error e fs => .error (.system e) { s with files := fs }

namespace Environment

variable (env : Environment)

/-- The names of the working directory. -/
def here : Files.Place := env.workingDirectory.names

/-- Finds the schema files of a batch and tells how many there are. -/
def discover (input : String) (isRecursive : Bool) : Run (List String) := do
  match (← get).files.schemaFiles? env.here input isRecursive with
  | none => throw (.missingInput input)
  | some [] => throw (.noSchemaFiles (env.placeOf input).text)
  | some found =>
    say ("Found " ++ toString found.length ++ " proto file(s)")
    return found

/-- Converts the files; the session remains as it is. -/
def convert (includes : List String) (jobs : Int) (files : List String) :
    Run (List (Option Sdl.Document)) :=
  match env.convertFiles includes jobs files with
  | .ok documents => return documents
  | .error e => throw (.file e)

end Environment

/-- The suffix of written documents. -/
def documentSuffix : String := ".graphql"

/-- The path of a file's document in the output directory. -/
def documentPath (output file : String) : String :=
  Path.join output ((Path.LexicalPath.ofText file).stem ++ documentSuffix)

/-- Writes a text under the stem of a file, and answers the path. -/
def Environment.writeDocument (env : Environment) (output file text : String) : Run String := do
  applyChange (Files.createDirectories env.here output)
  let path := documentPath output file
  applyChange (Files.writeFile env.here (.ofText path) text)
  return path

/-- Tells that there is nothing to write for a file. -/
def skip (file : String) : Run Unit :=
  warn ("  Skipped " ++ file ++ ": no declarations to convert")

/-- Writes the documents in order and answers the paths; files without document are
skipped. -/
def Environment.writeDocuments (env : Environment) (output : String) :
    List (String × Option Sdl.Document) → Run (List String)
  | [] => return []
  | (file, none) :: rest => do
    skip file
    env.writeDocuments output rest
  | (file, some d) :: rest => do
    let path ← env.writeDocument output file d.text
    say ("  Generated: " ++ path)
    let paths ← env.writeDocuments output rest
    return path :: paths

/-- Tells how many documents were written. -/
def summarize (count : Nat) (output : String) : Run Unit :=
  say ("Converted " ++ toString count ++ " protobuf" ++ (if count = 1 then "" else "s") ++
    " into GraphQL schemas at " ++ output ++ ".")

/-- Runs a batch and answers the paths of the written documents. -/
def Environment.runBatch (env : Environment) (s : Settings) : Run (List String) := do
  let files ← env.discover s.input s.isRecursive
  let documents ← env.convert s.includes s.jobs files
  let written ← env.writeDocuments s.output (files.zip documents)
  summarize written.length s.output
  return written

end ProtoSdl
