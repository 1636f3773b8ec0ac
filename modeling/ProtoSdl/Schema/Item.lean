import ProtoSdl.Schema.Declaration
import ProtoSdl.Text.Uppercase

/-!
  Items — what is emitted of a schema, in the order of emission

  The walk over a schema visits declarations from top to bottom, a message before
  the declarations nested in it. It leaves out the top-level package `google`,
  whose types enter a document only where they are used, and every declaration
  whose name does not begin with an uppercase letter, together with all that is
  nested in it. Packages are visited whatever their names are, unless they stand
  inside a message. An item is one visited declaration that is not a package.

  `Tree.items` is the whole walk. Packages leave no trace in it: it is a list, and
  all later stages read the list alone.
-/

namespace ProtoSdl.Schema

/-- A visited declaration; a message is visited apart from what is nested in it. -/
inductive Item where
  | message (m : Message)
  | enumeration (e : Enumeration)
  | service (s : Service)
  | unknown (kind : String)
  deriving DecidableEq, Repr

/-- Whether the octet is that of an uppercase ASCII letter. -/
def isUppercaseOctet (b : UInt8) : Bool := 'A'.toUInt8 ≤ b && b ≤ 'Z'.toUInt8

/-- Whether the name can name a type: it begins with an uppercase letter. -/
def isTypeName : Name → Bool
  | .text s => s.toList.head?.any Text.isUppercase
  | .octets bs => bs.head?.any isUppercaseOctet

mutual

/-- The items of a declaration that is visited. -/
def Declaration.items : Declaration → List Item
  | .package _ children => packageItems children
  | .message m nested => .message m :: nestedItems nested
  | .enumeration e => [.enumeration e]
  | .service s => [.service s]
  | .unknown kind _ => [.unknown kind]

/-- The items of a package's declarations: sub-packages and declarations with a
type name are visited. -/
def packageItems : List Declaration → List Item
  | [] => []
  | d :: rest =>
    (if d.isPackage || isTypeName d.name then d.items else []) ++ packageItems rest

/-- The items of the declarations nested in a message: those with a type name are
visited. -/
def nestedItems : List Declaration → List Item
  | [] => []
  | d :: rest => (if isTypeName d.name then d.items else []) ++ nestedItems rest

end

/-- The package whose types are emitted only where they are used. -/
def reservedPackage : String := "google"

/-- Whether the declaration is the reserved package. -/
def Declaration.isReserved : Declaration → Bool
  | .package name _ => name == reservedPackage
  | _ => false

/-- The items of a schema. -/
def Tree.items (t : Tree) : List Item :=
  packageItems (t.declarations.filter fun d => !d.isReserved)

@[simp] theorem packageItems_append (ds es : List Declaration) :
    packageItems (ds ++ es) = packageItems ds ++ packageItems es := by
  induction ds with
  | nil => simp [packageItems]
  | cons d ds ih => simp [packageItems, ih]

@[simp] theorem nestedItems_append (ds es : List Declaration) :
    nestedItems (ds ++ es) = nestedItems ds ++ nestedItems es := by
  induction ds with
  | nil => simp [nestedItems]
  | cons d ds ih => simp [nestedItems, ih]

end ProtoSdl.Schema
