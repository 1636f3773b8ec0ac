import ProtoSdl.Schema.Item
import ProtoSdl.Sdl.Block
import ProtoSdl.Text.Split

/-!
  Emission — the blocks of each item

  A message claims its own name and the name of its input twin, and becomes two
  objects with the same lines. An enumeration claims its name. A service claims
  no name of its own; its procedures are filed under the two roots, and it has at
  most one block for each, the one for queries first. The type of a field, of a
  request and of a response is resolved on the way, which declares a well-known
  type on its first use. The names of fields and procedures have to be texts; all
  other names are printed as they are shown.

  `emitItems` puts the blocks of a list of items one after the other;
  `emitItems_append` says that this is the append of the parts.
-/

namespace ProtoSdl.Sdl

open Schema

/-- The printed name of a type. A well-known type is declared on its first use. -/
def resolve (protoName : Name) : Emit String :=
  match wellKnown? protoName.shown with
  | some t => do
    let _ ← declareWellKnown protoName.shown t
    return t.name
  | none => return typeName protoName.shown

/-- The printed type of a field; the types of a map's keys and values are not
shown. -/
def fieldType (f : Field) : Emit String :=
  if f.isMap then
    return mapTypeName
  else do
    let t ← resolve f.typeName
    return if f.isRepeated then "[" ++ t ++ "]" else t

def fieldLine (f : Field) : Emit FieldLine := do
  let name ← f.name.require .fieldNotText
  let t ← fieldType f
  return { name := fieldName name, type := t }

/-- The type that a oneof group shows for one of its members: that of the field of
this name. A name without field is shown for itself. -/
def memberType (m : Message) (member : Name) : String :=
  typeName (((m.field? member).map Field.typeName).getD member).shown

def unionLine (m : Message) (o : Oneof) : UnionLine :=
  { name := o.name.shown, members := o.members.map Name.shown,
    types := o.members.map (memberType m) }

/-- The name of the input twin of a message. -/
def inputName (name : Name) : String := name.shown ++ "Input"

/-- The two objects of a message. -/
def messageBlocks (m : Message) : Emit (List Block) := do
  let fields ← m.fields.mapM fieldLine
  let unions := m.oneofs.map (unionLine m)
  return [.object .type m.name.shown fields unions,
    .object .input (inputName m.name) fields unions]

def enumerationBlock (e : Enumeration) : Block :=
  .enumeration e.name.shown (e.values.map Name.shown)

/-- The beginnings of the names of procedures that only read. -/
def queryPrefixes : List String := ["Get", "List"]

/-- The root under which a procedure is filed: by its name, the reading ones are
queries and all others are mutations. -/
def rootOf (methodName : String) : RootType :=
  if queryPrefixes.any (Text.hasPrefix · methodName) then .query else .mutation

def operationLine (m : Method) : Emit (RootType × OperationLine) := do
  let name ← m.name.require .methodNotText
  let request ← resolve m.request
  let response ← resolve m.response
  return (rootOf name, { name, request, response })

/-- The block of the operations under one root, if there are any. -/
def operationBlock (root : RootType) (lines : List (RootType × OperationLine)) :
    Emit (List Block) :=
  match lines.filterMap fun l => if l.1 = root then some l.2 else none with
  | [] => return []
  | operations => do
    let keyword ← openRoot root.name
    return [.operation keyword root operations]

/-- The blocks of a service: queries first, then mutations. -/
def serviceBlocks (s : Service) : Emit (List Block) := do
  let lines ← s.methods.mapM operationLine
  let queries ← operationBlock .query lines
  let mutations ← operationBlock .mutation lines
  return queries ++ mutations

/-- The blocks of an item. -/
def emitItem : Item → Emit (List Block)
  | .message m => do
    claim [m.name, .text (inputName m.name)]
    messageBlocks m
  | .enumeration e => do
    claim [e.name]
    return [enumerationBlock e]
  | .service s => serviceBlocks s
  | .unknown kind => throw (.unknownKind kind)

/-- The blocks of the items in order. -/
def emitItems : List Item → Emit (List Block)
  | [] => return []
  | item :: rest => do
    let first ← emitItem item
    let others ← emitItems rest
    return first ++ others

/-- Emitting a list in two parts gives the blocks of the first part before those
of the second. -/
theorem emitItems_append (items others : List Item) :
    emitItems (items ++ others) = do
      let bs ← emitItems items
      let cs ← emitItems others
      return bs ++ cs := by
  induction items with
  | nil => simp [emitItems]
  | cons item items ih =>
    simp only [List.cons_append, emitItems, ih, bind_assoc, pure_bind, List.append_assoc]

end ProtoSdl.Sdl
