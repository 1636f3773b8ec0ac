import ProtoSdl.Descriptor.Declarations

/-!
  Schema trees — the tree of a descriptor set

  The tree of a set holds the declarations of its target files, each file's under
  the package that it names. A package with dots is a path of packages, and files
  share the packages of a common path: `graft` walks down the path, enters the
  first package of each name, and adds a package where there is none. Within a file
  the declarations stand in source order.

  The dialect of the tree is the first unsupported one among the target files; a
  file that names no dialect is written in the second.

  Of several faults the one that is met first is told: those of the dialects come
  first, then those of the name table, then those of the files in their order, and
  of a file that of its package first.
-/

namespace ProtoSdl.Descriptor

open Schema (Declaration)

/-- The numbers under which a file lists messages, enumerations and services. -/
def messageNumber : Int := 4

def enumerationNumber : Int := 5

def serviceNumber : Int := 6

/-- The declarations of a file's messages from the given index on, with their
paths. -/
def messageDeclarations (c : Context) (scope : String) :
    Nat → List Message → Except Fault (List (List Int × Declaration))
  | _, [] => .ok []
  | index, m :: rest => do
    let here := [messageNumber, (index : Int)]
    let first ← m.declaration c scope here
    let others ← messageDeclarations c scope (index + 1) rest
    return (here, first) :: others

/-- The declarations of a file in source order. -/
def File.declarations (table : NameTable) (f : File) : Except Fault (List Declaration) := do
  let c : Context := { table, locations := f.locations }
  let messages ← messageDeclarations c f.scope 0 f.messages
  let enumerations := placeFrom (·.declaration table f.scope) [] enumerationNumber 0 f.enumerations
  let services ← f.services.mapM (Service.declaration table)
  return inSourceOrder f.locations
    (messages ++ enumerations ++ placeFrom id [] serviceNumber 0 services)

/-- The declarations with those of the first package of this name changed; a new
package at the end where there is none. -/
def enter (name : String) (change : List Declaration → List Declaration) :
    List Declaration → List Declaration
  | [] => [.package name (change [])]
  | .package n children :: rest =>
    if n = name then .package n (change children) :: rest
    else .package n children :: enter name change rest
  | d :: rest => d :: enter name change rest

/-- The declarations with new ones at the end of the package that the path leads
to. -/
def graft : List String → List Declaration → List Declaration → List Declaration
  | [], new, ds => ds ++ new
  | name :: path, new, ds => enter name (graft path new) ds

/-- The path of packages that a name leads through. -/
def packagePath (package : String) : List String :=
  if package = "" then [] else Text.split '.' package

/-- The declarations with those of the files added, file by file. -/
def graftFiles (table : NameTable) : List File → List Declaration →
    Except Fault (List Declaration)
  | [], ds => .ok ds
  | f :: rest, ds => do
    let package ← f.package.require .packageNotText
    let new ← f.declarations table
    graftFiles table rest (graft (packagePath package) new ds)

/-- The dialect of a file that declares this one. -/
def declaredDialect (dialect : String) : String := if dialect = "" then "proto2" else dialect

/-- The first dialect of the files that is not a third version, or the third. -/
def dialectOf : List File → Except Fault String
  | [] => .ok "proto3"
  | f :: rest => do
    let dialect ← f.dialect.require .dialectNotText
    if Text.hasSuffix "3" (declaredDialect dialect) then dialectOf rest
    else return declaredDialect dialect

/-- The name table of the set, if it has one. -/
def Set.nameTable (s : Set) : Except Fault NameTable :=
  if s.isNameable then .ok s.names else .error .enumerationNotText

/-- The tree of the set's target files, with references resolved by all files. -/
def Set.tree (s : Set) (names : Option (List String)) : Except Fault Schema.Tree := do
  let targets := s.targets names
  let dialect ← dialectOf targets
  let table ← s.nameTable
  let declarations ← graftFiles table targets []
  return { dialect, declarations }

@[simp] theorem graft_nil (new ds : List Declaration) : graft [] new ds = ds ++ new := rfl

@[simp] theorem graft_cons (name : String) (path : List String) (new ds : List Declaration) :
    graft (name :: path) new ds = enter name (graft path new) ds := rfl

end ProtoSdl.Descriptor
