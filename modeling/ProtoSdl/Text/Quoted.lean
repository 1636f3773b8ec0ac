import ProtoSdl.Text.Printable

/-!
  Quoted text — a name inside a message

  A message shows a name between quotation marks. The mark is the single one,
  unless the text holds a single mark and no double one. The mark itself and the
  backslash are escaped with a backslash; line feed, carriage return and tab have
  letters of their own; every other character that is not printable is written
  as its code point in lower-case hexadecimal, with two, four or eight digits.
-/

namespace ProtoSdl.Text

/-- The hexadecimal digits of the number, padded with zeros to the width. -/
def hexadecimal (width n : Nat) : List Char :=
  let ds := Nat.toDigits 16 n
  List.replicate (width - ds.length) '0' ++ ds

/-- The quotation mark that a text of these characters takes. -/
def quotationMark (cs : List Char) : Char :=
  if cs.contains '\'' && !cs.contains '"' then '"' else '\''

/-- The characters that stand for one character between the marks. -/
def escape (mark c : Char) : List Char :=
  if c = mark ∨ c = '\\' then ['\\', c]
  else if c = '\n' then ['\\', 'n']
  else if c = '\r' then ['\\', 'r']
  else if c = '\t' then ['\\', 't']
  else if isPrintable c then [c]
  else if c.toNat < 0x100 then '\\' :: 'x' :: hexadecimal 2 c.toNat
  else if c.toNat < 0x10000 then '\\' :: 'u' :: hexadecimal 4 c.toNat
  else '\\' :: 'U' :: hexadecimal 8 c.toNat

/-- The text between quotation marks. -/
def quoted (s : String) : String :=
  let mark := quotationMark s.toList
  String.ofList (mark :: s.toList.flatMap (escape mark) ++ [mark])

end ProtoSdl.Text
