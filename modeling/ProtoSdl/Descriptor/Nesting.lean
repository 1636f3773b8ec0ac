import ProtoSdl.Descriptor.Basic

/-!
  Nesting — how deep an encoded descriptor set is

  In the encoding of a set every part that has parts or a name of its own is a
  message inside the message of its holder: files, declarations, fields, values of
  enumerations, methods, oneof groups. So is what a message says about map entries,
  and the locations of a file are in one message together. The height of a part is
  the number of messages on the longest way down from it.

  A set can be read back from its encoding only if it is at most `nestingLimit` high.
-/

namespace ProtoSdl.Descriptor

/-- How deep messages and groups may be nested in an encoded set. -/
def nestingLimit : Nat := 100

/-- The height of a holder whose parts have these heights. -/
def heightAbove (heights : List Nat) : Nat := (heights.map (· + 1)).foldr max 0

/-- The height of a holder whose parts hold nothing. -/
def heightAboveLeaves {α : Type} (parts : List α) : Nat := heightAbove (parts.map fun _ => 0)

def Enumeration.height (e : Enumeration) : Nat := heightAboveLeaves e.values

def Service.height (s : Service) : Nat := heightAboveLeaves s.methods

mutual

/-- The height of a message. -/
def Message.height : Message → Nat
  | ⟨_, fields, nested, enumerations, oneofs, mapEntry⟩ =>
    [heightAboveLeaves fields, nestedHeight nested,
      heightAbove (enumerations.map Enumeration.height), heightAboveLeaves oneofs,
      heightAboveLeaves mapEntry.toList].foldr max 0

/-- The height of a holder of messages. -/
def nestedHeight : List Message → Nat
  | [] => 0
  | m :: rest => max (m.height + 1) (nestedHeight rest)

end

/-- The height of a file's locations, with the message that they are in. -/
def locationsHeight (locations : List Location) : Nat :=
  if locations.isEmpty then 0 else 1 + heightAboveLeaves locations

def File.height (f : File) : Nat :=
  [nestedHeight f.messages, heightAbove (f.enumerations.map Enumeration.height),
    heightAbove (f.services.map Service.height), locationsHeight f.locations].foldr max 0

def Set.height (s : Set) : Nat := heightAbove (s.files.map File.height)

end ProtoSdl.Descriptor
