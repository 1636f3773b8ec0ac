import ProtoSdl.Text.Quoted

/-!
  Octet literals — octets where a text is expected

  Octets that should encode a text may be no well-formed UTF-8. They are then shown
  by a literal: the letter `b` and, between quotation marks, a character for every
  octet below 0x80, escaped as in quoted text, and for every other octet its two
  hexadecimal digits after a backslash and an `x`. So a literal has ASCII characters
  only.

  `toList_octetLiteral` gives the shape of the whole.
-/

namespace ProtoSdl.Text

/-- The characters that stand for one octet between the marks. -/
def escapeOctet (mark : Char) (b : UInt8) : List Char :=
  if b < 0x80 then escape mark (Char.ofNat b.toNat)
  else '\\' :: 'x' :: hexadecimal 2 b.toNat

/-- The quotation mark that a literal of these octets takes. -/
def octetMark (octets : List UInt8) : Char :=
  quotationMark (octets.map fun b => Char.ofNat b.toNat)

/-- The literal of the octets. -/
def octetLiteral (octets : List UInt8) : String :=
  let mark := octetMark octets
  String.ofList ('b' :: mark :: octets.flatMap (escapeOctet mark) ++ [mark])

theorem toList_octetLiteral (octets : List UInt8) :
    (octetLiteral octets).toList =
      'b' :: octetMark octets :: octets.flatMap (escapeOctet (octetMark octets)) ++
        [octetMark octets] := by
  simp [octetLiteral]

end ProtoSdl.Text
