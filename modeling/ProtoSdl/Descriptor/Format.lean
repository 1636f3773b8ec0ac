import ProtoSdl.Wire.Record

/-!
  Format — how descriptors are encoded

  The kinds of messages that occur in an encoded descriptor set, and what each of
  their fields holds. Fields that the library has no use for are in the format as
  far as a fault in them makes the whole set unreadable: messages, because they
  have to be well-formed, and lists of numbers, because they may be packed.
-/

namespace ProtoSdl.Descriptor

/-- The kinds of messages in an encoded descriptor set. -/
inductive Kind where
  | set | file | message | field | oneof | enumeration | enumerationValue | service | method
  | sourceInfo | location
  | extensionRange | extensionRangeOptions
  | fileOptions | messageOptions | fieldOptions | oneofOptions | enumerationOptions
  | enumerationValueOptions | serviceOptions | methodOptions
  | uninterpretedOption
  /-- A message in which no field is a message or a list of numbers. -/
  | plain
  deriving DecidableEq, Repr

open Wire (Form)

/-- What the messages of a kind hold under a field number. All kinds of options
keep under 999 the options that the compiler did not interpret. -/
def Kind.format : Kind → Nat → Form Kind
  | .set, 1 => .message .file
  | .file, 1 | .file, 2 | .file, 12 => .octets
  | .file, 4 => .message .message
  | .file, 5 => .message .enumeration
  | .file, 6 => .message .service
  | .file, 7 => .message .field
  | .file, 8 => .message .fileOptions
  | .file, 9 => .message .sourceInfo
  | .file, 10 | .file, 11 => .numbers
  | .message, 1 => .octets
  | .message, 2 | .message, 6 => .message .field
  | .message, 3 => .message .message
  | .message, 4 => .message .enumeration
  | .message, 5 => .message .extensionRange
  | .message, 7 => .message .messageOptions
  | .message, 8 => .message .oneof
  | .message, 9 => .message .plain
  | .field, 1 | .field, 6 => .octets
  | .field, 3 | .field, 4 | .field, 5 | .field, 9 | .field, 17 => .number
  | .field, 8 => .message .fieldOptions
  | .oneof, 1 => .octets
  | .oneof, 2 => .message .oneofOptions
  | .enumeration, 1 => .octets
  | .enumeration, 2 => .message .enumerationValue
  | .enumeration, 3 => .message .enumerationOptions
  | .enumeration, 4 => .message .plain
  | .enumerationValue, 1 => .octets
  | .enumerationValue, 3 => .message .enumerationValueOptions
  | .service, 1 => .octets
  | .service, 2 => .message .method
  | .service, 3 => .message .serviceOptions
  | .method, 1 | .method, 2 | .method, 3 => .octets
  | .method, 4 => .message .methodOptions
  | .sourceInfo, 1 => .message .location
  | .location, 1 | .location, 2 => .numbers
  | .extensionRange, 3 => .message .extensionRangeOptions
  | .extensionRangeOptions, 2 | .extensionRangeOptions, 50 => .message .plain
  | .fileOptions, 50 => .message .plain
  | .messageOptions, 7 => .number
  | .messageOptions, 12 => .message .plain
  | .fieldOptions, 19 => .numbers
  | .fieldOptions, 20 | .fieldOptions, 21 | .fieldOptions, 22 => .message .plain
  | .oneofOptions, 1 => .message .plain
  | .enumerationOptions, 7 => .message .plain
  | .enumerationValueOptions, 2 | .enumerationValueOptions, 4 => .message .plain
  | .serviceOptions, 34 => .message .plain
  | .methodOptions, 35 => .message .plain
  | .uninterpretedOption, 2 => .message .plain
  | .extensionRangeOptions, 999 | .fileOptions, 999 | .messageOptions, 999
  | .fieldOptions, 999 | .oneofOptions, 999 | .enumerationOptions, 999
  | .enumerationValueOptions, 999 | .serviceOptions, 999 | .methodOptions, 999 =>
    .message .uninterpretedOption
  | _, _ => .nothing

end ProtoSdl.Descriptor
