import ProtoSdl.Batch
import ProtoSdl.CommandLine.Help
import ProtoSdl.CommandLine.Request

/-!
  Execution — a command line from its texts to the exit code

  A command line that asks for help prints it and succeeds. One that is misused
  prints how the program is called and what is wrong. Otherwise the batch is run; a
  batch that fails is told in one line, whose heading depends on the kind of the
  error. All failures have the same exit code.

  A request in which a value is absent is run as far as it can be without it
  (`runRequest`). With every value present it is the batch of those values
  (`runRequest_eq_runBatch`).
-/

namespace ProtoSdl

namespace CommandLine

/-- How the program ends. -/
inductive Exit where
  | success
  | failure
  deriving DecidableEq, Repr

def Exit.code : Exit → UInt32
  | success => 0
  | failure => 1

/-- What a failed batch is told with. -/
def heading : RunError → String
  | .file (.conversion (.unsupportedSyntax _)) => ""
  | .missingInput _ | .noSchemaFiles _ | .system (.notFound _) => "Error: "
  | .file (.conversion (.duplicateType _)) | .file (.load (.compilerFailed _)) =>
    "Error during conversion: "
  | .file _ | .system _ | .noPath | .noNumber => "Unexpected error during conversion: "

/-- The line that tells of a failed batch. -/
def report (e : RunError) : String := heading e ++ e.message

/-- The lines that tell of a misuse. -/
def misuseLines (e : UsageError) : List String :=
  [usage, programName ++ ": error: " ++ e.message]

/-- The request for a batch with these settings. -/
def Request.ofSettings (s : Settings) : Request where
  input := s.input
  output := some s.output
  isRecursive := s.isRecursive
  includes := s.includes.map some
  jobs := some s.jobs

end CommandLine

open CommandLine

/-- The value, or a failure where it is absent. -/
def present {α : Type} (e : RunError) : Option α → Run α
  | some a => return a
  | none => throw e

/-- Goes through the documents where there is no place to write one. -/
def writeNowhere : List (String × Option Sdl.Document) → Run Unit
  | [] => return
  | (file, none) :: rest => do
    skip file
    writeNowhere rest
  | (_, some _) :: _ => throw .noPath

namespace Environment

variable (env : Environment)

/-- Writes the documents, tells how many there were, and answers their paths. -/
def deliver (documents : List (String × Option Sdl.Document)) :
    Option String → Run (List String)
  | some output => do
    let written ← env.writeDocuments output documents
    summarize written.length output
    return written
  | none => do
    writeNowhere documents
    summarize 0 "[]"
    return []

/-- Runs the batch of a request and answers the paths of the written documents. -/
def runRequest (r : Request) : Run (List String) := do
  let files ← env.discover r.input r.isRecursive
  let jobs ← present .noNumber r.jobs
  let includes ← r.includes.mapM (present .noPath)
  let documents ← env.convert includes jobs files
  env.deliver (files.zip documents) r.output

theorem mapM_present_some (e : RunError) (l : List String) :
    (l.map some).mapM (present e) = pure l := by
  rw [List.mapM_map]
  exact List.mapM_pure.trans (by rw [List.map_id'])

/-- A request without absent values is the batch of its settings. -/
theorem runRequest_eq_runBatch (s : Settings) :
    env.runRequest (.ofSettings s) = env.runBatch s := by
  simp only [runRequest, Request.ofSettings, mapM_present_some, present, deliver, pure_bind,
    runBatch]

/-- Executes a command line. -/
def execute (texts : List String) (s : Session) : Exit × Session :=
  match Request.ofCommandLine texts with
  | .error .help => (.success, { s with out := s.out ++ helpLines })
  | .error (.misuse e) => (.failure, { s with err := s.err ++ misuseLines e })
  | .ok r =>
    match env.runRequest r s with
    | .ok _ s => (.success, s)
    | .error e s => (.failure, { s with err := s.err ++ [report e] })

end Environment

end ProtoSdl
