/-!
  Spans of code points — the rows from which character tables are made

  A span is an arithmetic progression of code points. Tables of Unicode
  properties are lists of spans: most rows have step one, and the alphabets in
  which capital and small letters alternate have step two.
-/

namespace ProtoSdl.Text

/-- The code points `first`, `first + step`, … not above `last`. -/
structure Span where
  first : Nat
  last : Nat
  step : Nat
  deriving DecidableEq, Repr

namespace Span

/-- Whether the code point is one of the span's. -/
def contains (s : Span) (n : Nat) : Bool :=
  s.first ≤ n && n ≤ s.last && (n - s.first) % s.step == 0

/-- Whether one of the spans holds the character's code point. -/
def covers (spans : List Span) (c : Char) : Bool := spans.any (·.contains c.toNat)

end Span

end ProtoSdl.Text
