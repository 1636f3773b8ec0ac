import ProtoSdl.Descriptor.Basic
import ProtoSdl.Descriptor.Format
import ProtoSdl.Descriptor.Nesting

/-!
  Encoded descriptor sets — from octets to a descriptor set

  A set is read as records of its format, and the records are then taken for what
  they mean: of a name, a number or a truth value the last record counts, a number
  that names no type or label counts as missing, lists keep the order of their
  records, and the options of a message and the source information of a file are
  the records of all their occurrences together. Octets that encode no text are a
  name all the same.

  `Set.ofOctets` fails exactly where the octets cannot be read as records.
-/

namespace ProtoSdl.Descriptor

open Wire (ReadError Record)

section Values

variable (records : List Record) (field : Nat)

/-- The last name under the field number. -/
def lastName : Name :=
  ((records.filterMap (·.octets? field)).getLast?.map Name.ofOctets).getD (.text "")

/-- All numbers under the field number. -/
def allNumbers : List Int := records.filterMap (·.int32? field)

/-- The last truth value under the field number. -/
def lastBool? : Option Bool := (records.filterMap (·.bool? field)).getLast?

/-- The messages under the field number. -/
def allMessages : List (List Record) := records.filterMap (·.message? field)

/-- The message under the field number, merged from all its occurrences. -/
def merged : List Record := (allMessages records field).flatten

end Values

def Field.ofRecords (rs : List Record) : Field where
  name := lastName rs 1
  number := (allNumbers rs 3).getLast?.getD 0
  label := ((allNumbers rs 4).filterMap Label.ofNumber?).getLast?.getD .optional
  type := ((allNumbers rs 5).filterMap FieldType.ofNumber?).getLast?.getD .double
  typeName := lastName rs 6
  oneofIndex := (allNumbers rs 9).getLast?
  isProto3Optional := (lastBool? rs 17).getD false

def Enumeration.ofRecords (rs : List Record) : Enumeration where
  name := lastName rs 1
  values := (allMessages rs 2).map (lastName · 1)

def Service.ofRecords (rs : List Record) : Service where
  name := lastName rs 1
  methods := (allMessages rs 2).map fun m =>
    { name := lastName m 1, input := lastName m 2, output := lastName m 3 }

mutual

/-- The message of a record. -/
def Message.ofRecord? : Record → Option Message
  | .message _ rs => some
    { name := lastName rs 1
      fields := (allMessages rs 2).map Field.ofRecords
      nested := nestedOfRecords rs
      enumerations := (allMessages rs 4).map Enumeration.ofRecords
      oneofs := (allMessages rs 8).map (lastName · 1)
      mapEntry := lastBool? (merged rs 7) 7 }
  | _ => none

/-- The messages that are nested in a message of these records. -/
def nestedOfRecords : List Record → List Message
  | [] => []
  | r :: rest =>
    (if r.field = 3 then (Message.ofRecord? r).toList else []) ++ nestedOfRecords rest

end

def Location.ofRecords (rs : List Record) : Location where
  path := allNumbers rs 1
  span := allNumbers rs 2

def File.ofRecords (rs : List Record) : File where
  name := lastName rs 1
  package := lastName rs 2
  dialect := lastName rs 12
  messages := (rs.filter (·.field == 4)).filterMap Message.ofRecord?
  enumerations := (allMessages rs 5).map Enumeration.ofRecords
  services := (allMessages rs 6).map Service.ofRecords
  locations := (allMessages (merged rs 9) 1).map Location.ofRecords

/-- The descriptor set that the octets encode. -/
def Set.ofOctets (octets : List UInt8) : Except ReadError Set :=
  (Wire.readRecords Kind.format nestingLimit .set octets).map fun rs =>
    { files := (allMessages rs 1).map File.ofRecords }

end ProtoSdl.Descriptor
