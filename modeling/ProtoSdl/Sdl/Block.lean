import ProtoSdl.Sdl.Ledger
import ProtoSdl.Sdl.TypeName

/-!
  Blocks — the parts of a document

  A document is a sequence of blocks: one-line declarations of well-known types,
  object types and their input twins, enumerations, and the operation blocks of
  the root types. A block is kept as what it says; `Block.lines` gives its lines
  and `Block.render` its text, without a final line break.

  A oneof group takes two lines of an object: a comment that lists the members,
  and a field whose type is the union of the members' types. The union shorthand
  is not part of the language, and readers of a document have to know it.
-/

namespace ProtoSdl.Sdl

/-- A line of an object type. -/
structure FieldLine where
  name : String
  type : String
  deriving DecidableEq, Repr

/-- The two lines of a oneof group. -/
structure UnionLine where
  name : String
  members : List String
  types : List String
  deriving DecidableEq, Repr

/-- A line of an operation block. -/
structure OperationLine where
  name : String
  request : String
  response : String
  deriving DecidableEq, Repr

/-- The two roots under which remote procedures are filed. -/
inductive RootType where
  | query
  | mutation
  deriving DecidableEq, Repr

def RootType.name : RootType → String
  | query => "Query"
  | mutation => "Mutation"

/-- The keyword of an object block. -/
inductive ObjectKeyword where
  | type
  | input
  deriving DecidableEq, Repr

def ObjectKeyword.text : ObjectKeyword → String
  | type => "type"
  | input => "input"

inductive Block where
  | wellKnown (t : WellKnownType)
  | object (keyword : ObjectKeyword) (name : String) (fields : List FieldLine)
      (unions : List UnionLine)
  | enumeration (name : String) (values : List String)
  | operation (keyword : RootKeyword) (root : RootType) (operations : List OperationLine)
  deriving DecidableEq, Repr

def FieldLine.render (f : FieldLine) : String := "\t" ++ f.name ++ ": " ++ f.type

/-- The comment line and the field line of a oneof group. -/
def UnionLine.render (u : UnionLine) : List String :=
  ["\t# oneof " ++ u.name ++ ": " ++ ", ".intercalate u.members,
   "\t" ++ u.name ++ ": " ++ " | ".intercalate u.types]

def OperationLine.render (o : OperationLine) : String :=
  "  " ++ o.name ++ "(" ++ o.request ++ ": " ++ o.request ++ "): " ++ o.response

/-- The first line of a block with a body. -/
def header (keyword name : String) : String := keyword ++ " " ++ name ++ " \x7b"

/-- The last line of a block with a body. -/
def footer : String := "\x7d"

/-- The lines of a block. -/
def Block.lines : Block → List String
  | wellKnown t => [t.declaration]
  | object keyword name fields unions =>
    header keyword.text name :: fields.map FieldLine.render ++ unions.flatMap UnionLine.render ++
      [footer]
  | enumeration name values => header "enum" name :: values.map ("\t" ++ ·) ++ [footer]
  | operation keyword root operations =>
    header keyword.text root.name :: operations.map OperationLine.render ++ [footer]

/-- The text of a block. -/
def Block.render (b : Block) : String := "\n".intercalate b.lines

/-- Blocks are set apart by a blank line. -/
def renderBlocks (blocks : List Block) : String := "\n\n".intercalate (blocks.map Block.render)

end ProtoSdl.Sdl
