import ProtoSdl.Files.Follow
import ProtoSdl.Path.Lexical
import ProtoSdl.Path.Lineage
import ProtoSdl.Text.Quoted

/-!
  Changes — creating directories and writing files

  A `Change` is a computation on a file system that may fail; what it did before it
  failed remains. There are three of them:

    1. `createDirectory` creates one directory, whose parent has to exist.
    2. `createDirectories` creates a directory and those above it that are missing.
       A directory that exists already is no fault. The last segment `.` of a path
       is not created, since it is there as soon as the path before it is.
    3. `writeFile` puts a text into a file in a directory that exists.

  A refused change tells the path that was refused as it was given.
-/

namespace ProtoSdl.Files

inductive SystemError where
  | notFound (path : String)
  | alreadyExists (path : String)
  | notADirectory (path : String)
  | isADirectory (path : String)
  /-- A path holds a null character. -/
  | nullCharacter
  deriving DecidableEq, Repr

/-- The text that tells a user of the error. -/
def SystemError.message : SystemError → String
  | notFound path => "[Errno 2] No such file or directory: " ++ Text.quoted path
  | alreadyExists path => "[Errno 17] File exists: " ++ Text.quoted path
  | notADirectory path => "[Errno 20] Not a directory: " ++ Text.quoted path
  | isADirectory path => "[Errno 21] Is a directory: " ++ Text.quoted path
  | nullCharacter => "embedded null byte"

/-- The error of a path that an obstacle stands in the way of. -/
def Obstacle.error (path : String) : Obstacle → SystemError
  | absent => .notFound path
  | notADirectory => .notADirectory path

/-- A computation that changes a file system; a failure keeps what was done before. -/
abbrev Change := EStateM SystemError FileSystem

/-- The directory in which the last segment of a path text stands, with that
segment; no segment for a text of slashes alone. -/
def parentOf (fs : FileSystem) (workingDirectory : Place) (text : String) :
    Except SystemError (Place × Option String) :=
  if FileSystem.hasNull text then .error .nullCharacter
  else if text = "" then .error (.notFound text)
  else
    let begin := FileSystem.start workingDirectory text
    match Path.lastSegment? text with
    | none => .ok (begin, none)
    | some (last, above) =>
      -- The empty segment at the end is followed only from a directory.
      match fs.follow begin (above.reverse ++ [""]) with
      | .ok parent => .ok (parent, some last)
      | .error o => .error (o.error text)

/-- Creates a directory. -/
def createDirectory (workingDirectory : Place) (text : String) : Change Unit := fun fs =>
  match parentOf fs workingDirectory text with
  | .error e => .error e fs
  | .ok (_, none) => .error (.alreadyExists text) fs
  | .ok (parent, some last) =>
    if last = "." ∨ last = ".." ∨ (fs.get? (parent ++ [last])).isSome then
      .error (.alreadyExists text) fs
    else .ok () (fs.addDirectory parent last)

/-- Creates a directory unless there is one. -/
def ensureDirectory (workingDirectory : Place) (text : String) : Change Unit := fun fs =>
  match createDirectory workingDirectory text fs with
  | .ok () fs' => .ok () fs'
  | .error e fs' =>
    if fs'.isDirectoryPath workingDirectory text then .ok () fs' else .error e fs'

/-- Creates the directories of a lineage from the first one on whose successor
exists. -/
def createLineage (workingDirectory : Place) : List Path.Step → Change Unit
  | [] => fun fs => .ok () fs
  | [step] => ensureDirectory workingDirectory step.text
  | step :: above :: rest => fun fs =>
    if fs.pathExists workingDirectory above.text then
      ensureDirectory workingDirectory step.text fs
    else
      let finish := fun fs' =>
        if step.last = "." then .ok () fs' else ensureDirectory workingDirectory step.text fs'
      match createLineage workingDirectory (above :: rest) fs with
      | .ok () fs' => finish fs'
      | .error (.alreadyExists _) fs' => finish fs'
      | .error e fs' => .error e fs'

/-- Creates a directory and the missing ones above it. -/
def createDirectories (workingDirectory : Place) (text : String) : Change Unit :=
  createLineage workingDirectory (Path.lineage text)

/-- Puts a text into a file. -/
def writeFile (workingDirectory : Place) (path : Path.LexicalPath) (content : String) :
    Change Unit := fun fs =>
  match parentOf fs workingDirectory path.text with
  | .error e => .error e fs
  | .ok (_, none) => .error (.isADirectory path.text) fs
  | .ok (parent, some last) =>
    if last = "." ∨ last = ".." ∨ fs.IsDirectory (parent ++ [last]) then
      .error (.isADirectory path.text) fs
    else .ok () (fs.putFile parent last content)

end ProtoSdl.Files
