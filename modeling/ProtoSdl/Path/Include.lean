import ProtoSdl.Path.Absolute

/-!
  Include directories — where imports are looked for, and what a file is called
  there

  The compiler is given include directories: the explicit ones first, then the
  directory of each file, every directory once. It calls a file by its path below
  the first include directory that contains it. A directory below a double root
  never counts as containing a file, and a file that no directory contains is called
  by its base name.
-/

namespace ProtoSdl.Path

/-- The include directories of files, explicit ones in front, each one once. -/
def includeDirectories (workingDirectory : AbsolutePath) (files includes : List String) :
    List AbsolutePath :=
  (includes.map (AbsolutePath.ofText workingDirectory) ++
    files.map fun f => (AbsolutePath.ofText workingDirectory f).parent).eraseDups

/-- Whether the compiler finds the place below the directory. -/
def contains (directory place : AbsolutePath) : Bool :=
  directory.root == .single && directory.names.isPrefixOf place.names

/-- The names of the place below a directory that contains it, joined to a path. -/
def below (directory place : AbsolutePath) : String :=
  match place.names.drop directory.names.length with
  | [] => "."
  | rest => "/".intercalate rest

/-- The name by which the compiler calls a file. -/
def virtualName (place : AbsolutePath) (directories : List AbsolutePath) : String :=
  match directories.find? (contains · place) with
  | some directory => below directory place
  | none => place.baseName

theorem contains_iff (directory place : AbsolutePath) :
    contains directory place = true ↔
      directory.root = .single ∧ directory.names <+: place.names := by
  simp [contains]

/-- A directory contains what lies below it, and the rest of the names leads there. -/
theorem names_eq_of_contains {directory place : AbsolutePath}
    (h : contains directory place = true) :
    place.names = directory.names ++ place.names.drop directory.names.length :=
  (List.prefix_iff_eq_append.1 ((contains_iff _ _).1 h).2).symm

end ProtoSdl.Path
