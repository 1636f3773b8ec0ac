import ProtoSdl.Descriptor.NameTable
import ProtoSdl.Descriptor.SourceOrder
import ProtoSdl.Schema.Declaration

/-!
  Declarations — what a descriptor declares

  A message becomes a declaration with the same fields in the same order. A map
  field refers to an entry type nested in its message: it is marked as a map, takes
  the type of the entry's values, and the entry type itself leaves no declaration.
  A oneof group takes the fields that point to it; fields that are optional in
  themselves belong to no group, and a group without fields is left out.

  A descriptor may be at fault in itself in two ways: a map entry without a field
  for its values, and a field that points to a group that does not exist. The nested
  messages of a message are looked at first, then its fields, then its groups.

  Other faults are names that have to be texts and are not: the dialect and the
  package of a file that is converted, the reference to the type of a field, of a
  request or of a response, and the name of a nested enumeration.
-/

namespace ProtoSdl.Descriptor

inductive Fault where
  /-- A map entry has no field for the values. -/
  | mapWithoutValue
  /-- A field points to a oneof declaration that does not exist. -/
  | noSuchOneof (index : Int)
  /-- The dialect of a file is not a text. -/
  | dialectNotText
  /-- The package of a file is not a text. -/
  | packageNotText
  /-- The reference to a type is not a text. -/
  | referenceNotText
  /-- The name of a nested enumeration is not a text. -/
  | enumerationNotText
  deriving DecidableEq, Repr

/-- The text that tells a user of the fault. -/
def Fault.message : Fault → String
  | mapWithoutValue => ""
  | noSuchOneof index => toString index
  | dialectNotText => "endswith first arg must be bytes or a tuple of bytes, not str"
  | packageNotText => "a bytes-like object is required, not 'str'"
  | referenceNotText => "startswith first arg must be bytes or a tuple of bytes, not str"
  | enumerationNotText => "can only concatenate str (not \"bytes\") to str"

/-- What the declarations of one file are made with. -/
structure Context where
  table : NameTable
  locations : List Location

/-- The name that a reference becomes, which has to be a text. -/
def resolvedReference (table : NameTable) (typeName : Name) : Except Fault Name := do
  let full ← typeName.require .referenceNotText
  return reference table full

/-- The name of a field's type. -/
def Field.resolvedType (table : NameTable) (f : Field) : Except Fault Name :=
  match f.type.scalarName? with
  | some scalar => .ok (.text scalar)
  | none => resolvedReference table f.typeName

/-- The entry type of a map field: the last nested map entry whose full name is
the field's type name. -/
def mapEntry? (full : String) (nested : List Message) (typeName : Name) : Option Message :=
  nested.reverse.find? fun m => m.isMapEntry && .text (fullName full m.name) == typeName

/-- The number of the field that holds a map's values. -/
def mapValueNumber : Int := 2

/-- The declaration of a field in the message with this full name. -/
def Field.declaration (table : NameTable) (full : String) (nested : List Message) (f : Field) :
    Except Fault Schema.Field :=
  match mapEntry? full nested f.typeName with
  | some entry =>
    match entry.fields.find? fun v => v.number == mapValueNumber with
    | some value => do
      let typeName ← value.resolvedType table
      return { name := f.name, typeName, isRepeated := f.label == .repeated, isMap := true }
    | none => .error .mapWithoutValue
  | none => do
    let typeName ← f.resolvedType table
    return { name := f.name, typeName, isRepeated := f.label == .repeated }

/-- The declarations of the fields, or the first fault. -/
def fieldDeclarations (table : NameTable) (full : String) (nested : List Message) :
    List Field → Except Fault (List Schema.Field)
  | [] => .ok []
  | f :: rest => do
    let first ← f.declaration table full nested
    let others ← fieldDeclarations table full nested rest
    return first :: others

/-- The oneof declaration that the field belongs to. -/
def Field.group? (f : Field) : Option Int := if f.isProto3Optional then none else f.oneofIndex

/-- The names of the fields that belong to the group. -/
def groupMembers (fields : List Field) (index : Nat) : List Name :=
  (fields.filter fun f => f.group? == some (index : Int)).map Field.name

/-- The groups from the given index on, without the empty ones. -/
def groupsFrom (fields : List Field) : Nat → List Name → List Schema.Oneof
  | _, [] => []
  | index, name :: rest =>
    match groupMembers fields index with
    | [] => groupsFrom fields (index + 1) rest
    | members => { name, members } :: groupsFrom fields (index + 1) rest

/-- The oneof groups of a message, or the first field that points to none. -/
def oneofGroups (fields : List Field) (oneofs : List Name) :
    Except Fault (List Schema.Oneof) :=
  match (fields.filterMap Field.group?).find? fun i => i < 0 || (oneofs.length : Int) ≤ i with
  | some i => .error (.noSuchOneof i)
  | none => .ok (groupsFrom fields 0 oneofs)

/-- The declaration of an enumeration in a scope. -/
def Enumeration.declaration (table : NameTable) (scope : String) (e : Enumeration) :
    Schema.Declaration :=
  .enumeration { name := reference table (fullName scope e.name), values := e.values }

/-- The paths of consecutive parts, and their declarations. -/
def placeFrom {α : Type} (declare : α → Schema.Declaration) (path : List Int) (number : Int) :
    Nat → List α → List (List Int × Schema.Declaration)
  | _, [] => []
  | index, a :: rest =>
    (path ++ [number, (index : Int)], declare a) ::
      placeFrom declare path number (index + 1) rest

/-- The number under which a message lists its nested messages. -/
def nestedNumber : Int := 3

/-- The number under which a message lists its nested enumerations. -/
def nestedEnumerationNumber : Int := 4

mutual

/-- The declaration of a message in a scope; the path is the one that leads to it
in its file. -/
def Message.declaration (c : Context) (scope : String) (path : List Int) :
    Message → Except Fault Schema.Declaration
  | ⟨name, fields, nested, enumerations, oneofs, _⟩ => do
    let full := fullName scope name
    let inner ← nestedDeclarations c full path 0 nested
    let enums := placeFrom (·.declaration c.table full) path nestedEnumerationNumber 0 enumerations
    let declared ← fieldDeclarations c.table full nested fields
    let groups ← oneofGroups fields oneofs
    return .message
      { name := reference c.table full, fields := declared, oneofs := groups }
      (inSourceOrder c.locations (inner ++ enums))

/-- The declarations of nested messages from the given index on, with their paths;
map entries count but have no declaration. -/
def nestedDeclarations (c : Context) (scope : String) (path : List Int) :
    Nat → List Message → Except Fault (List (List Int × Schema.Declaration))
  | _, [] => .ok []
  | index, m :: rest =>
    if m.isMapEntry then nestedDeclarations c scope path (index + 1) rest
    else do
      let here := path ++ [nestedNumber, (index : Int)]
      let first ← m.declaration c scope here
      let others ← nestedDeclarations c scope path (index + 1) rest
      return (here, first) :: others

end

/-- The declaration of a remote procedure. -/
def Method.declaration (table : NameTable) (m : Method) : Except Fault Schema.Method := do
  let request ← resolvedReference table m.input
  let response ← resolvedReference table m.output
  return { name := m.name, request, response }

/-- The declaration of a service. -/
def Service.declaration (table : NameTable) (s : Service) : Except Fault Schema.Declaration := do
  let methods ← s.methods.mapM (Method.declaration table)
  return .service { name := s.name, methods }

end ProtoSdl.Descriptor
