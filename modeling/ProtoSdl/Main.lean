import ProtoSdl.CommandLine.Execution

/-!
  The program — a command line in a real directory tree

  The program takes a picture of the places that a request can touch, executes the
  command line on the picture, and then makes the changes of the picture real. What
  is done is decided by `Environment.execute` alone.

  The compiler is not called from here: the descriptor set of a schema file is
  expected beside the file, under the name of the file with `.pb` after it. A file
  without descriptor set is one that the compiler could not read.
-/

namespace ProtoSdl.Program

open CommandLine (Request)
open Files (FileSystem Place)
open ProtoSdl.Path (AbsolutePath)

/-- The suffix of descriptor sets, after the name of the schema file. -/
def compiledSuffix : String := ".pb"

def textOf (place : Place) : String := "/" ++ "/".intercalate place

/-- The places that a path text leads through. -/
def visited (workingDirectory : Place) (text : String) : List Place :=
  let start := FileSystem.start workingDirectory text
  let pieces := Path.segments text
  start :: (List.range pieces.length).map fun n => (pieces.take (n + 1)).foldl Path.descend start

/-- Adds what is at the place, and at the places above it, to the picture. -/
def addPlace (fs : FileSystem) (place : Place) : IO FileSystem := do
  let here ← IO.currentDir
  let mut fs := fs
  let mut parent : Place := []
  for name in place do
    let path := here / textOf (parent ++ [name])
    if ← path.isDir then
      fs := fs.addDirectory parent name
    else if ← path.pathExists then
      fs := fs.putFile parent name ""
    parent := parent ++ [name]
  return fs

/-- Adds what a path text leads through to the picture, and what is in the directory
that it leads to. -/
def addPath (fs : FileSystem) (workingDirectory : AbsolutePath) (text : String)
    (isRecursive : Bool) : IO FileSystem := do
  let mut fs := fs
  for place in visited workingDirectory.names text do
    fs ← addPlace fs place
  let start := (← IO.currentDir) / (AbsolutePath.ofText workingDirectory text).text
  if ← start.isDir then
    for path in ← start.walkDir fun path => pure (isRecursive || path == start) do
      fs ← addPlace fs (AbsolutePath.ofText workingDirectory path.toString).names
  return fs

/-- The picture that a command line needs. -/
def picture (workingDirectory : AbsolutePath) (arguments : List String) : IO FileSystem := do
  match Request.ofCommandLine arguments with
  | .error _ => return .empty
  | .ok r =>
    let fs ← addPath .empty workingDirectory r.input r.isRecursive
    addPath fs workingDirectory (r.output.getD r.input) false

/-- The compiler's outcome for the file at a place. -/
def compiled (place : Place) : IO Compiler.Outcome := do
  let name := textOf place ++ compiledSuffix
  let path := (← IO.currentDir) / name
  if ← path.pathExists then
    return .encoded (← IO.FS.readBinFile path).toList
  else
    return .failure (name ++ ": No such file or directory").toUTF8.toList

/-- Makes the changes between two pictures real. -/
def realize (before after : FileSystem) : IO Unit := do
  for place in after.directories.reverse do
    if before.get? place ≠ some .directory then
      IO.FS.createDir (textOf place)
  for (place, content) in after.files do
    if before.get? place ≠ some (.file content) then
      IO.FS.writeFile (textOf place) content

end ProtoSdl.Program

open ProtoSdl in
/-- Executes the command line and ends with its exit code. -/
def main (arguments : List String) : IO UInt32 := do
  let workingDirectory :=
    Path.AbsolutePath.ofText (.ofRoot .single) (← IO.currentDir).toString
  let before ← Program.picture workingDirectory arguments
  let outcomes ← (before.files.filter fun f => Files.isSchemaName f.1).mapM fun f =>
    return (f.1, ← Program.compiled f.1)
  let env : Environment :=
    { workingDirectory, compile := fun file => (outcomes.lookup file.names).getD (.failure []) }
  let (exit, session) := env.execute arguments { files := before }
  Program.realize before session.files
  session.out.forM IO.println
  session.err.forM IO.eprintln
  return exit.code
