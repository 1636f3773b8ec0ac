import ProtoSdl.Wire.Token

/-!
  Records — an encoded message read by its format

  A format says of every field number of every kind of message what is expected
  there: a number, a list of numbers, octets, or a message of some kind. A token
  that does not have the expected shape, and one whose field number is not in the
  format, is passed over. A list of numbers may be written number by number or with
  all numbers in one token.

  `readRecords` turns octets into records. It refuses them if they, or a message in
  them, cannot be cut into tokens (`corrupt`) or if messages are nested too deeply
  (`tooDeep`). The octets are read from first to last and a message where it stands,
  so that of several faults the one that stands first is told.
-/

namespace ProtoSdl.Wire

/-- What a format expects under a field number; `κ` names the kinds of messages. -/
inductive Form (κ : Type) where
  | nothing
  | number
  | numbers
  | octets
  | message (kind : κ)
  deriving DecidableEq, Repr

/-- A field as it was read. -/
inductive Record where
  | number (field n : Nat)
  | octets (field : Nat) (octets : List UInt8)
  | message (field : Nat) (records : List Record)
  deriving Repr

/-- Why octets cannot be read. -/
inductive ReadError where
  /-- They cannot be cut into tokens. -/
  | corrupt
  /-- Messages are nested too deeply. -/
  | tooDeep
  deriving DecidableEq, Repr

/-- The records of one token, given how a message inside it is read. -/
def tokenRecords {κ : Type} (inner : κ → List UInt8 → Except ReadError (List Record))
    (form : Form κ) (t : Token) : Except ReadError (List Record) :=
  match form, t.payload with
  | .number, .number n => .ok [.number t.field n]
  | .numbers, .number n => .ok [.number t.field n]
  | .numbers, .delimited bs =>
    match varints? numberLimit bs with
    | some ns => .ok (ns.map fun n => .number t.field (n % wordCount))
    | none => .error .corrupt
  | .octets, .delimited bs => .ok [.octets t.field bs]
  | .message kind, .delimited bs => (inner kind bs).map fun rs => [.message t.field rs]
  | _, _ => .ok []

/-- The records of the tokens, one after the other. -/
def tokensRecords {κ : Type} (inner : κ → List UInt8 → Except ReadError (List Record))
    (form : Nat → Form κ) : List Token → Except ReadError (List Record)
  | [] => .ok []
  | t :: rest => do
    let first ← tokenRecords inner (form t.field) t
    let others ← tokensRecords inner form rest
    return first ++ others

/-- The records of a message that was cut into tokens. -/
def cutRecords {κ : Type} (inner : κ → List UInt8 → Except ReadError (List Record))
    (form : Nat → Form κ) (cut : Cut) : Except ReadError (List Record) := do
  let rs ← tokensRecords inner form cut.tokens
  if cut.isFaultless then return rs else throw .corrupt

/-- The records of a message of the kind, in which messages and groups are nested
at most `depth` deep. -/
def readRecords {κ : Type} (format : κ → Nat → Form κ) :
    (depth : Nat) → κ → List UInt8 → Except ReadError (List Record)
  | 0, kind, bs =>
    cutRecords (fun _ _ => .error .tooDeep) (format kind) (messageTokens 0 bs)
  | depth + 1, kind, bs =>
    cutRecords (readRecords format depth) (format kind) (messageTokens (depth + 1) bs)

namespace Record

def field : Record → Nat
  | number f _ => f
  | octets f _ => f
  | message f _ => f

/-- The record's number, as a signed number of 32 bits, if it stands under this
field number. -/
def int32? (f : Nat) : Record → Option Int
  | number g n => if g = f then some ((n : Int).bmod halfWordCount) else none
  | _ => none

/-- Whether the record's number is not zero, if it stands under this field number. -/
def bool? (f : Nat) : Record → Option Bool
  | number g n => if g = f then some (n != 0) else none
  | _ => none

def octets? (f : Nat) : Record → Option (List UInt8)
  | octets g bs => if g = f then some bs else none
  | _ => none

def message? (f : Nat) : Record → Option (List Record)
  | message g rs => if g = f then some rs else none
  | _ => none

end Record

end ProtoSdl.Wire
