import ProtoSdl.Descriptor.Basic
import ProtoSdl.Text.Split

/-!
  Name table — the GraphQL names of full protobuf names

  The full name of a message or an enumeration is a dot, the package, the
  enclosing messages and its own name, joined by dots. Its GraphQL name is the
  chain of the enclosing messages and its own name, joined by underscores; the
  package is left out.

  A `NameTable` lists the declarations of a set in the order of the walk: file by
  file, messages before enumerations, a message before what is nested in it. Where
  two declarations have the same full name the last one counts
  (`NameTable.find?_eq_some_iff`).
  `reference` gives the name that a reference to a type becomes.

  The chain of a nested enumeration is joined from texts, so a set has a name table
  only if the names of all nested enumerations are texts (`Set.isNameable`).
-/

namespace ProtoSdl.Descriptor

/-- Full names with their GraphQL names, in the order of declaration. -/
abbrev NameTable := List (String × Name)

namespace NameTable

/-- The GraphQL name of the last declaration with this full name. -/
def find? (t : NameTable) (full : String) : Option Name := t.reverse.lookup full

/-- Every full name once, in ascending order, with its GraphQL name. -/
def entries (t : NameTable) : List (String × Name) :=
  ((t.map Prod.fst).eraseDups.mergeSort fun a b => decide (a ≤ b)).filterMap fun full =>
    (t.find? full).map fun short => (full, short)

/-- A look-up gives the last entry of the key. -/
theorem find?_eq_some_iff {t : NameTable} {full : String} {name : Name} :
    t.find? full = some name ↔
      ∃ before after, t = before ++ (full, name) :: after ∧ ∀ p ∈ after, p.1 ≠ full := by
  unfold find?
  rw [List.lookup_eq_some_iff]
  constructor
  · rintro ⟨after, before, hreverse, hafter⟩
    refine ⟨before.reverse, after.reverse, ?_, fun p hp => ?_⟩
    · rw [← List.reverse_reverse t, hreverse]
      simp
    · have hne := hafter p (List.mem_reverse.mp hp)
      rw [bne_iff_ne] at hne
      exact hne.symm
  · rintro ⟨before, after, rfl, hafter⟩
    refine ⟨after.reverse, before.reverse, by simp, fun p hp => ?_⟩
    rw [bne_iff_ne]
    exact (hafter p (List.mem_reverse.mp hp)).symm

theorem isSome_find?_iff {t : NameTable} {full : String} :
    (t.find? full).isSome = true ↔ full ∈ t.map Prod.fst := by
  unfold find?
  rw [List.lookup_isSome_iff, List.mem_map]
  constructor
  · rintro ⟨p, hp, hfull⟩
    exact ⟨p, List.mem_reverse.mp hp, (beq_iff_eq.mp hfull).symm⟩
  · rintro ⟨p, hp, rfl⟩
    exact ⟨p, List.mem_reverse.mpr hp, beq_self_eq_true p.1⟩

end NameTable

/-- What stands between the name of a message and that of a type nested in it. -/
def nestingSeparator : String := "_"

/-- The declarations of nested enumerations in a scope below a chain of messages. -/
def enumerationNames (scope chain : String) (es : List Enumeration) : NameTable :=
  es.map fun e => (fullName scope e.name, .text (chain ++ e.name.shown))

mutual

/-- The declarations of a message: itself, the nested messages, the nested
enumerations. The chain is that of the enclosing messages with a separator after
each. -/
def Message.names (scope chain : String) : Message → NameTable
  | ⟨name, _, nested, enumerations, _, _⟩ =>
    (fullName scope name, .text (chain ++ name.shown)) ::
      (messageNames (fullName scope name) (chain ++ name.shown ++ nestingSeparator) nested ++
        enumerationNames (fullName scope name) (chain ++ name.shown ++ nestingSeparator)
          enumerations)

/-- The declarations of messages in a scope below a chain of messages. -/
def messageNames (scope chain : String) : List Message → NameTable
  | [] => []
  | m :: rest => m.names scope chain ++ messageNames scope chain rest

end

/-- The declarations of top-level enumerations; they keep their names as they are. -/
def topEnumerationNames (scope : String) (es : List Enumeration) : NameTable :=
  es.map fun e => (fullName scope e.name, e.name)

/-- The declarations of a file. -/
def File.names (f : File) : NameTable :=
  messageNames f.scope "" f.messages ++ topEnumerationNames f.scope f.enumerations

/-- The declarations of a set. -/
def Set.names (s : Set) : NameTable := s.files.flatMap File.names

mutual

/-- Whether the enumerations nested in the message have texts as names. -/
def Message.isNameable : Message → Bool
  | ⟨_, _, nested, enumerations, _, _⟩ =>
    nestedNameable nested && enumerations.all (·.name.isText)

/-- Whether the enumerations nested in the messages have texts as names. -/
def nestedNameable : List Message → Bool
  | [] => true
  | m :: rest => m.isNameable && nestedNameable rest

end

/-- Whether all nested enumerations of the set have texts as names. -/
def Set.isNameable (s : Set) : Bool := s.files.all fun f => nestedNameable f.messages

/-- The package whose types keep their qualified names, with a dot after it. -/
def wellKnownPackage : String := "google.protobuf."

/-- The full name without one leading dot. -/
def withoutDot (full : String) : String :=
  match full.toList with
  | '.' :: rest => String.ofList rest
  | _ => full

/-- The name that a reference to a type becomes: the qualified name for a type of
the well-known package, the name in the table for a declared type, and the last
part of the name for any other. -/
def reference (table : NameTable) (full : String) : Name :=
  let qualified := withoutDot full
  if Text.hasPrefix wellKnownPackage qualified then .text qualified
  else (table.find? full).getD (.text (Text.lastPiece '.' qualified))

theorem messageNames_append (scope chain : String) (ms ns : List Message) :
    messageNames scope chain (ms ++ ns) =
      messageNames scope chain ms ++ messageNames scope chain ns := by
  induction ms with
  | nil => simp [messageNames]
  | cons m ms ih => simp [messageNames, ih]

end ProtoSdl.Descriptor
