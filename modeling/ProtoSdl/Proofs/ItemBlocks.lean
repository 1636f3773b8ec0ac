import ProtoSdl.Sdl.Document

/-!
  Item blocks — what an item says in a document, apart from any run

  The lines of an item are those that its parts are printed as, whatever the ledger holds. The
  ledger decides on the keyword of an operation block and on nothing else:

    1. `printedField` and `printedOperation` are the printed lines, and `operations` are the
       lines of a service under one root (`filterMap_lines`).
    2. `declaredNames`, `usedNames` and `servedRoots` are what an item asks for: the type names
       it declares, the names it uses as types, and the roots it files operations under.
    3. `blocksOf` are the blocks.
-/

namespace ProtoSdl.Sdl

open Schema

/-- The printed name of a reference. -/
def printedName (n : Name) : String :=
  match wellKnown? n.shown with
  | some t => t.name
  | none => typeName n.shown

/-- The printed type of a field. -/
def printedType (f : Field) : String :=
  if f.isMap then mapTypeName
  else if f.isRepeated then "[" ++ printedName f.typeName ++ "]" else printedName f.typeName

def printedField (f : Field) : FieldLine :=
  { name := fieldName f.name.shown, type := printedType f }

def printedOperation (m : Method) : OperationLine :=
  { name := m.name.shown, request := printedName m.request, response := printedName m.response }

/-- The operations of a service under one root. -/
def operations (r : RootType) (s : Service) : List OperationLine :=
  (s.methods.filter fun m => rootOf m.name.shown = r).map printedOperation

/-- The lines under one root of all lines of a service. -/
theorem filterMap_lines (r : RootType) (s : Service) :
    ((s.methods.map fun m => (rootOf m.name.shown, printedOperation m)).filterMap
      fun l => if l.1 = r then some l.2 else none) = operations r s := by
  unfold operations
  induction s.methods with
  | nil => rfl
  | cons m ms ih =>
    rw [List.map_cons, List.filterMap_cons, List.filter_cons, ih]
    by_cases hm : rootOf m.name.shown = r <;> simp [hm]

/-- The names that an item uses as types, in the order of their use. -/
def usedNames : Item → List Name
  | .message m => (m.fields.filter fun f => !f.isMap).map Field.typeName
  | .service s => s.methods.flatMap fun m => [m.request, m.response]
  | .enumeration _ => []
  | .unknown _ => []

/-- The type names that an item declares. -/
def declaredNames : Item → List Name
  | .message m => [m.name, .text (inputName m.name)]
  | .enumeration e => [e.name]
  | .service _ => []
  | .unknown _ => []

/-- The roots under which an item files operations. -/
def servedRoots : Item → List RootType
  | .service s => [.query, .mutation].filter fun r => operations r s ≠ []
  | .message _ => []
  | .enumeration _ => []
  | .unknown _ => []

/-- Whether the item is of a known kind and has texts where names have to be texts. -/
def IsEmittable : Item → Prop
  | .message m => ∀ f ∈ m.fields, f.name.isText = true
  | .enumeration _ => True
  | .service s => ∀ m ∈ s.methods, m.name.isText = true
  | .unknown _ => False

/-- The keyword of the next block of a root type. -/
def keywordIn (l : Ledger) (r : RootType) : RootKeyword :=
  if l.roots.contains r.name then .extend else .declare

/-- The block of a service under one root, if it files an operation there. -/
def operationBlocks (l : Ledger) (r : RootType) (s : Service) : List Block :=
  if operations r s = [] then [] else [.operation (keywordIn l r) r (operations r s)]

/-- The blocks of an item; the ledger decides on the keywords of operation blocks. -/
def blocksOf (l : Ledger) : Item → List Block
  | .message m =>
    [.object .type m.name.shown (m.fields.map printedField) (m.oneofs.map (unionLine m)),
     .object .input (inputName m.name) (m.fields.map printedField) (m.oneofs.map (unionLine m))]
  | .enumeration e => [enumerationBlock e]
  | .service s => operationBlocks l .query s ++ operationBlocks l .mutation s
  | .unknown _ => []

/-- No item declares a name twice: the name of an input twin is longer. -/
theorem nodup_declaredNames (i : Item) : (declaredNames i).Nodup := by
  cases i with
  | message m =>
    have hne : m.name ≠ .text (inputName m.name) := by
      intro he
      have hl := congrArg (fun n => n.shown.toList.length) he
      simp [inputName] at hl
    simpa [declaredNames] using hne
  | enumeration e => simp [declaredNames]
  | service s => exact List.nodup_nil
  | unknown kind => exact List.nodup_nil

/-- Of the two roots some are chosen; their names are different. -/
theorem nodup_rootNames (p : RootType → Bool) :
    (([.query, .mutation].filter p).map RootType.name).Nodup := by
  have hall : ([RootType.query, .mutation].map RootType.name).Nodup := by decide
  exact hall.sublist (List.filter_sublist.map _)

end ProtoSdl.Sdl
