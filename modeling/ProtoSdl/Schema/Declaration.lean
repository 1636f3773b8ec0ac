import ProtoSdl.Name

/-!
  Declarations — the tree of a protobuf schema

  A schema tree is the dialect that its files declare and a list of top-level
  declarations. A declaration is a package, which holds declarations of any kind;
  a message with its fields, its oneof groups and the declarations nested in it;
  an enumeration; or a service. Trees may come from outside the library, so a
  declaration may also be of a kind that the library does not know: such a one has
  a name and the word for its kind, and cannot be emitted.

  A `Message` is a message's own part, without the nested declarations, so that
  what is emitted for the message alone is a function of it.
-/

namespace ProtoSdl.Schema

/-- A message field. The type name of a map field is that of the map's values. -/
structure Field where
  name : Name
  typeName : Name
  isRepeated : Bool := false
  isMap : Bool := false
  deriving DecidableEq, Repr

/-- A oneof group: its name and the names of the fields in it. -/
structure Oneof where
  name : Name
  members : List Name := []
  deriving DecidableEq, Repr

/-- A message without the declarations nested in it. -/
structure Message where
  name : Name
  fields : List Field := []
  oneofs : List Oneof := []
  deriving DecidableEq, Repr

/-- The first field of that name. -/
def Message.field? (m : Message) (name : Name) : Option Field :=
  m.fields.find? (·.name == name)

structure Enumeration where
  name : Name
  values : List Name := []
  deriving DecidableEq, Repr

/-- A remote procedure: its name and the types of its request and its response. -/
structure Method where
  name : Name
  request : Name
  response : Name
  deriving DecidableEq, Repr

structure Service where
  name : Name
  methods : List Method := []
  deriving DecidableEq, Repr

inductive Declaration where
  | package (name : String) (children : List Declaration)
  | message (own : Message) (nested : List Declaration)
  | enumeration (e : Enumeration)
  | service (s : Service)
  /-- A declaration of a kind that has no meaning here. -/
  | unknown (kind name : String)
  deriving Repr, Inhabited

namespace Declaration

def name : Declaration → Name
  | package n _ => .text n
  | message m _ => m.name
  | enumeration e => e.name
  | service s => s.name
  | unknown _ n => .text n

def isPackage : Declaration → Bool
  | package _ _ => true
  | _ => false

end Declaration

/-- A schema: the dialect that it declares and its top-level declarations. -/
structure Tree where
  dialect : String
  declarations : List Declaration
  deriving Repr

end ProtoSdl.Schema
