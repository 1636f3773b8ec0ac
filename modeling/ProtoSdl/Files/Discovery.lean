import ProtoSdl.Files.Follow
import ProtoSdl.Path.Lexical

/-!
  Discovery — the schema files that an input path stands for

  An input path names a schema file or a directory. A file stands for itself, if it
  has the suffix of schema files. A directory stands for the files in it whose names
  end in that suffix, or for all such files below it. The result is a list of path
  texts in ascending order; they extend the input path as it was given, without the
  parts that do not matter.

  The two rules for names differ on a name that is nothing but the suffix: such a
  file is found in its directory but has no suffix of its own.
-/

namespace ProtoSdl.Files

/-- The suffix of schema files. -/
def schemaSuffix : String := ".proto"

/-- The names that lead from a directory down to a place below it. -/
def below? (directory place : Place) : Option (List String) :=
  if directory.isPrefixOf place then
    match place.drop directory.length with
    | [] => none
    | names => some names
  else none

/-- Whether the last of the names is one that a directory is searched for. -/
def isSchemaName (names : List String) : Bool :=
  match names.getLast? with
  | some n => Text.hasSuffix schemaSuffix n
  | none => false

namespace FileSystem

/-- The schema files below a directory, by the names that lead there. -/
def schemaFilesBelow (fs : FileSystem) (directory : Place) (isRecursive : Bool) :
    List (List String) :=
  fs.files.filterMap fun f =>
    match below? directory f.1 with
    | some names =>
      if isSchemaName names && (isRecursive || names.length == 1) then some names else none
    | none => none

/-- The schema files that the input path stands for; none if it leads nowhere. -/
def schemaFiles? (fs : FileSystem) (workingDirectory : Place) (input : String)
    (isRecursive : Bool) : Option (List String) :=
  let path := Path.LexicalPath.ofText input
  match fs.locate workingDirectory path.text with
  | .error _ => none
  | .ok place =>
    if fs.IsDirectory place then
      let found := (fs.schemaFilesBelow place isRecursive).map fun names => (path.append names).text
      some (found.mergeSort fun a b => decide (a ≤ b))
    else if path.suffix = schemaSuffix then some [path.text]
    else some []

end FileSystem

end ProtoSdl.Files
