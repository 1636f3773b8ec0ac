/-!
  Lossy UTF-8 — the text of octets, with ill-formed parts left out

  The decoder is a machine over octets. It either awaits a new character or is
  inside one (`Pending`), in which case it knows how many continuation octets are
  missing, in which range the next one has to lie, and the value read so far. An
  octet outside that range ends the unfinished character without a trace and is
  then looked at as the beginning of a new one; so exactly the longest prefix
  that could have begun a character is left out.

  The ranges of the second octet are those of the well-formed sequences: they
  leave out overlong forms, surrogates and values above U+10FFFF.
-/

namespace ProtoSdl.Text

/-- An unfinished character: `missing + 1` octets are still to come, the next one
between `low` and `high`. -/
structure Pending where
  missing : Nat
  low : UInt8
  high : UInt8
  value : Nat

/-- The effect of an octet that begins a character: a finished one, an unfinished
one, or neither. -/
def begin (b : UInt8) : Option Char × Option Pending :=
  let n := b.toNat
  if n < 0x80 then (some (Char.ofNat n), none)
  else if n < 0xC2 then (none, none)
  else if n < 0xE0 then (none, some ⟨0, 0x80, 0xBF, n - 0xC0⟩)
  else if n = 0xE0 then (none, some ⟨1, 0xA0, 0xBF, 0⟩)
  else if n = 0xED then (none, some ⟨1, 0x80, 0x9F, 0xD⟩)
  else if n < 0xF0 then (none, some ⟨1, 0x80, 0xBF, n - 0xE0⟩)
  else if n = 0xF0 then (none, some ⟨2, 0x90, 0xBF, 0⟩)
  else if n < 0xF4 then (none, some ⟨2, 0x80, 0xBF, n - 0xF0⟩)
  else if n = 0xF4 then (none, some ⟨2, 0x80, 0x8F, 4⟩)
  else (none, none)

/-- The effect of an octet on the machine. -/
def advance : Option Pending → UInt8 → Option Char × Option Pending
  | none, b => begin b
  | some p, b =>
    if p.low ≤ b ∧ b ≤ p.high then
      let value := 64 * p.value + (b.toNat - 0x80)
      match p.missing with
      | 0 => (some (Char.ofNat value), none)
      | m + 1 => (none, some ⟨m, 0x80, 0xBF, value⟩)
    else begin b

/-- The characters that the octets give from a state of the machine. -/
def charactersFrom : Option Pending → List UInt8 → List Char
  | _, [] => []
  | state, b :: rest =>
    let (char, next) := advance state b
    char.toList ++ charactersFrom next rest

/-- The text of the octets without their ill-formed parts. -/
def ofOctets (octets : List UInt8) : String := String.ofList (charactersFrom none octets)

end ProtoSdl.Text
