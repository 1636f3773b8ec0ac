/-!
  Well-known types — the types of `google.protobuf` that a document declares for
  itself

  A wrapper, a timestamp or one of their kin is never emitted from its own file.
  A document that uses one declares it in a single line, under its short name and
  with a fixed body. `wellKnown?` finds the type of a qualified name.
-/

namespace ProtoSdl.Sdl

/-- A type with a fixed one-line declaration. -/
structure WellKnownType where
  name : String
  body : String
  deriving DecidableEq, Repr

/-- The line that declares the type. -/
def WellKnownType.declaration (t : WellKnownType) : String := "type " ++ t.name ++ " " ++ t.body

/-- The well-known types by qualified name. -/
def wellKnownTypes : List (String × WellKnownType) :=
  [("google.protobuf.StringValue", ⟨"StringValue", "\x7b value: String \x7d"⟩),
   ("google.protobuf.DoubleValue", ⟨"DoubleValue", "\x7b value: Float \x7d"⟩),
   ("google.protobuf.FloatValue", ⟨"FloatValue", "\x7b value: Float \x7d"⟩),
   ("google.protobuf.Int32Value", ⟨"Int32Value", "\x7b value: Int \x7d"⟩),
   ("google.protobuf.Int64Value", ⟨"Int64Value", "\x7b value: Int \x7d"⟩),
   ("google.protobuf.UInt32Value", ⟨"UInt32Value", "\x7b value: Int \x7d"⟩),
   ("google.protobuf.UInt64Value", ⟨"UInt64Value", "\x7b value: Int \x7d"⟩),
   ("google.protobuf.BoolValue", ⟨"BoolValue", "\x7b value: Boolean \x7d"⟩),
   ("google.protobuf.BytesValue", ⟨"BytesValue", "\x7b value: String \x7d"⟩),
   ("google.protobuf.Empty", ⟨"Empty", "\x7b\x7d"⟩),
   ("google.protobuf.Any", ⟨"Any", "\x7b type_url: String, value: String \x7d"⟩),
   ("google.protobuf.Timestamp", ⟨"Timestamp", "\x7b seconds: Int, nanos: Int \x7d"⟩),
   ("google.protobuf.Duration", ⟨"Duration", "\x7b seconds: Int, nanos: Int \x7d"⟩),
   ("google.protobuf.FieldMask", ⟨"FieldMask", "\x7b paths: [String] \x7d"⟩)]

/-- The well-known type of a qualified name. -/
def wellKnown? (qualifiedName : String) : Option WellKnownType :=
  wellKnownTypes.lookup qualifiedName

end ProtoSdl.Sdl
