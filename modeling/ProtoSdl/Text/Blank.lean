/-!
  Blank characters — the Unicode white space that trimming removes

  `isBlank` holds of the characters of the bidirectional classes and categories
  that separate words, lines and paragraphs, the four information separators
  U+001C to U+001F among them. A zero-width space and a byte order mark are not
  blank.

  `trimBy` removes a class of characters from both ends of a text, and `trim` this
  one.
-/

namespace ProtoSdl.Text

/-- Whether the character is white space. -/
def isBlank (c : Char) : Bool :=
  let n := c.toNat
  (0x09 ≤ n && n ≤ 0x0D) || (0x1C ≤ n && n ≤ 0x20) || n == 0x85 || n == 0xA0 || n == 0x1680 ||
    (0x2000 ≤ n && n ≤ 0x200A) || n == 0x2028 || n == 0x2029 || n == 0x202F || n == 0x205F ||
    n == 0x3000

/-- The characters without the leading and trailing ones of the class. -/
def trimBy (p : Char → Bool) (cs : List Char) : List Char :=
  ((cs.dropWhile p).reverse.dropWhile p).reverse

/-- The text without the white space at its ends. -/
def trim (s : String) : String := String.ofList (trimBy isBlank s.toList)

end ProtoSdl.Text
