import ProtoSdl.Name

/-!
  Conversion errors — why a schema has no document

  A schema is refused when it is not written in the third dialect of protobuf,
  when two of its declarations would get the same GraphQL type name, and when the
  walk meets a declaration of an unknown kind, or a field or a remote procedure
  whose name is not a text.
-/

namespace ProtoSdl.Sdl

inductive ConversionError where
  /-- The schema declares a dialect that is not supported. -/
  | unsupportedSyntax (dialect : String)
  /-- The type name is already taken in the document. -/
  | duplicateType (name : Name)
  /-- A declaration is of a kind that cannot be emitted. -/
  | unknownKind (kind : String)
  /-- The name of a field is not a text. -/
  | fieldNotText
  /-- The name of a remote procedure is not a text. -/
  | methodNotText
  deriving DecidableEq, Repr

/-- The text that tells a user of the error. -/
def ConversionError.message : ConversionError → String
  | unsupportedSyntax _ =>
    "Invalid Protobuf version detected, currently only proto3 is supported."
  | duplicateType name => "Duplicate GraphQL type name " ++ name.quoted
  | unknownKind kind => "Unknown declaration kind: " ++ kind
  | fieldNotText => "startswith first arg must be bytes or a tuple of bytes, not str"
  | methodNotText => "a bytes-like object is required, not 'str'"

end ProtoSdl.Sdl
