import ProtoSdl.Text.OctetLiteral

/-!
  Names — what a schema calls its parts

  A name is a text. In an encoded descriptor it may also be octets that encode no
  text: such a name can be compared with others, and it is shown by a literal, but
  whatever needs to look into a text fails on it (`Name.require`).

  A name of octets never equals a text, not even the one that shows it.
-/

namespace ProtoSdl

inductive Name where
  | text (s : String)
  /-- Octets that encode no text. -/
  | octets (bs : List UInt8)
  deriving DecidableEq, Repr

namespace Name

instance : Inhabited Name := ⟨text ""⟩

instance : Coe String Name := ⟨text⟩

/-- The name that the octets encode. -/
def ofOctets (bs : List UInt8) : Name :=
  match String.fromUTF8? ⟨bs.toArray⟩ with
  | some s => text s
  | none => octets bs

/-- Whether the name is a text. -/
def isText : Name → Bool
  | text _ => true
  | octets _ => false

/-- The text that is printed for the name. -/
def shown : Name → String
  | text s => s
  | octets bs => Text.octetLiteral bs

/-- The name between quotation marks; a literal has its own. -/
def quoted : Name → String
  | text s => Text.quoted s
  | octets bs => Text.octetLiteral bs

/-- The text of the name, or a failure where it is none. -/
def require {ε : Type} {m : Type → Type} [Monad m] [MonadExcept ε m] (e : ε) : Name → m String
  | text s => pure s
  | octets _ => throw e

@[simp] theorem isText_text (s : String) : (text s).isText = true := rfl

@[simp] theorem shown_text (s : String) : (text s).shown = s := rfl

@[simp] theorem require_text {ε : Type} {m : Type → Type} [Monad m] [MonadExcept ε m]
    (e : ε) (s : String) : (text s).require e = (pure s : m String) := rfl

end Name

end ProtoSdl
