import ProtoSdl.Text.Blank

/-!
  Numerals — decimal integers as they are written on a command line

  A numeral is an optional sign and decimal digits of any script, with at most
  one underscore between two digits and blanks around the whole. The digits of a
  script are ten consecutive code points, so `digitZeros` lists the zeros alone.

  `digit?` reads one digit, `digits?` a run with its underscores, `integer?` the
  numeral. A numeral of more than `maxDigits` digits is refused.
  `isNegativeDecimal` recognises a negative number that may have a fraction, as it
  is told from a switch.
-/

namespace ProtoSdl.Text

/-- The code points of the digit zero in every script with decimal digits. -/
def digitZeros : List Nat :=
  [0x0030, 0x0660, 0x06F0, 0x07C0, 0x0966, 0x09E6, 0x0A66, 0x0AE6, 0x0B66, 0x0BE6,
   0x0C66, 0x0CE6, 0x0D66, 0x0DE6, 0x0E50, 0x0ED0, 0x0F20, 0x1040, 0x1090, 0x17E0,
   0x1810, 0x1946, 0x19D0, 0x1A80, 0x1A90, 0x1B50, 0x1BB0, 0x1C40, 0x1C50, 0xA620,
   0xA8D0, 0xA900, 0xA9D0, 0xA9F0, 0xAA50, 0xABF0, 0xFF10, 0x104A0, 0x10D30, 0x11066,
   0x110F0, 0x11136, 0x111D0, 0x112F0, 0x11450, 0x114D0, 0x11650, 0x116C0, 0x11730, 0x118E0,
   0x11950, 0x11C50, 0x11D50, 0x11DA0, 0x16A60, 0x16AC0, 0x16B50, 0x1D7CE, 0x1D7D8, 0x1D7E2,
   0x1D7EC, 0x1D7F6, 0x1E140, 0x1E2F0, 0x1E950, 0x1FBF0]

/-- The value of a decimal digit of any script. -/
def digit? (c : Char) : Option Nat :=
  (digitZeros.find? fun z => z ≤ c.toNat && c.toNat < z + 10).map (c.toNat - ·)

/-- The values of a run of digits in which an underscore may stand between two
digits. -/
def digits? : List Char → Option (List Nat)
  | [] => none
  | [c] => (digit? c).map ([·])
  | c :: '_' :: rest => do
    let d ← digit? c
    let ds ← digits? rest
    return d :: ds
  | c :: rest => do
    let d ← digit? c
    let ds ← digits? rest
    return d :: ds

/-- The most digits that a numeral may have. -/
def maxDigits : Nat := 4300

/-- The number that the digits write, most significant first. -/
def ofDigits (ds : List Nat) : Nat := ds.foldl (fun n d => 10 * n + d) 0

/-- The blanks that may surround a numeral: white space other than the
information separators. -/
def isNumeralBlank (c : Char) : Bool := isBlank c && !(0x1C ≤ c.toNat && c.toNat ≤ 0x1F)

/-- The natural number of an unsigned numeral. -/
def natural? (cs : List Char) : Option Nat := do
  let ds ← digits? cs
  if ds.length ≤ maxDigits then some (ofDigits ds) else none

/-- The integer that the text writes, if it is a numeral. -/
def integer? (s : String) : Option Int :=
  match trimBy isNumeralBlank s.toList with
  | '-' :: cs => (natural? cs).map fun n => -(n : Int)
  | '+' :: cs => (natural? cs).map Int.ofNat
  | cs => (natural? cs).map Int.ofNat

def isDigit (c : Char) : Bool := (digit? c).isSome

/-- The characters without one line feed at the end. -/
def dropLineFeed (cs : List Char) : List Char :=
  if cs.getLast? = some '\n' then cs.dropLast else cs

/-- Whether the text is a minus sign before digits, or before digits with a point
and at least one digit after it. A line feed at the end does not matter. -/
def isNegativeDecimal (s : String) : Bool :=
  match s.toList with
  | '-' :: cs =>
    let number := dropLineFeed cs
    match number.dropWhile isDigit with
    | [] => !number.isEmpty
    | '.' :: fraction => !fraction.isEmpty && fraction.all isDigit
    | _ :: _ => false
  | _ => false

end ProtoSdl.Text
