import ProtoSdl.Name

/-!
  Descriptors — what a protobuf compiler says of a set of files

  A descriptor set is a list of files, imported files among them. A file holds
  messages, enumerations and services in the order of their declaration, and
  locations that say where in the source each of them stands. Messages nest.

  Everything may be missing from a descriptor, so every part has a default. Names
  come as the compiler wrote them and may be no texts. Full names always are.
-/

namespace ProtoSdl.Descriptor

/-- The types of a field, in the order of their numbers, which begin at one. -/
inductive FieldType where
  | double | float | int64 | uint64 | int32 | fixed64 | fixed32 | bool | string
  | group | message | bytes | uint32 | enumeration | sfixed32 | sfixed64 | sint32 | sint64
  deriving DecidableEq, Repr

namespace FieldType

/-- All types in the order of their numbers. -/
def all : List FieldType :=
  [double, float, int64, uint64, int32, fixed64, fixed32, bool, string,
   group, message, bytes, uint32, enumeration, sfixed32, sfixed64, sint32, sint64]

/-- The type of a number. -/
def ofNumber? (n : Int) : Option FieldType := if n ≤ 0 then none else all[n.toNat - 1]?

/-- The name of a scalar type; none for a type that a type name describes. -/
def scalarName? : FieldType → Option String
  | double => some "double"
  | float => some "float"
  | int64 => some "int64"
  | uint64 => some "uint64"
  | int32 => some "int32"
  | fixed64 => some "fixed64"
  | fixed32 => some "fixed32"
  | bool => some "bool"
  | string => some "string"
  | group => none
  | message => none
  | bytes => some "bytes"
  | uint32 => some "uint32"
  | enumeration => none
  | sfixed32 => some "sfixed32"
  | sfixed64 => some "sfixed64"
  | sint32 => some "sint32"
  | sint64 => some "sint64"

end FieldType

/-- The labels of a field, in the order of their numbers, which begin at one. -/
inductive Label where
  | optional | required | repeated
  deriving DecidableEq, Repr

/-- The label of a number. -/
def Label.ofNumber? (n : Int) : Option Label :=
  if n ≤ 0 then none else [optional, required, repeated][n.toNat - 1]?

structure Field where
  name : Name := .text ""
  number : Int := 0
  label : Label := .optional
  type : FieldType := .double
  typeName : Name := .text ""
  /-- The position of the field's group among the oneof declarations. -/
  oneofIndex : Option Int := none
  /-- Whether the field is alone in a group that only records its presence. -/
  isProto3Optional : Bool := false
  deriving DecidableEq, Repr

structure Enumeration where
  name : Name := .text ""
  values : List Name := []
  deriving DecidableEq, Repr

structure Method where
  name : Name := .text ""
  input : Name := .text ""
  output : Name := .text ""
  deriving DecidableEq, Repr

structure Service where
  name : Name := .text ""
  methods : List Method := []
  deriving DecidableEq, Repr

structure Message where
  name : Name := .text ""
  fields : List Field := []
  nested : List Message := []
  enumerations : List Enumeration := []
  /-- The names of the oneof declarations. -/
  oneofs : List Name := []
  /-- What is said about the message being the entry type of a map field. -/
  mapEntry : Option Bool := none
  deriving Repr, Inhabited

/-- Whether the message is the entry type of a map field. -/
def Message.isMapEntry (m : Message) : Bool := m.mapEntry.getD false

/-- Where in the source a part of the file stands; the path leads to the part
through the numbers of the descriptor's fields. -/
structure Location where
  path : List Int := []
  span : List Int := []
  deriving DecidableEq, Repr

structure File where
  name : Name := .text ""
  package : Name := .text ""
  dialect : Name := .text ""
  messages : List Message := []
  enumerations : List Enumeration := []
  services : List Service := []
  locations : List Location := []
  deriving Repr

/-- The scope of a file's top-level names: a dot and the package, or nothing. -/
def File.scope (f : File) : String :=
  if f.package = .text "" then "" else "." ++ f.package.shown

structure Set where
  files : List File := []
  deriving Repr

/-- The files that are to be converted: those with one of the names, in the order
of the set, or all files when no names are given. -/
def Set.targets (s : Set) (names : Option (List String)) : List File :=
  match names with
  | none => s.files
  | some names => s.files.filter ((names.map Name.text).contains ·.name)

/-- The full name of what is declared in a scope. -/
def fullName (scope : String) (name : Name) : String := scope ++ "." ++ name.shown

end ProtoSdl.Descriptor
