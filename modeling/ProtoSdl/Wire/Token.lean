import ProtoSdl.Wire.Varint

/-!
  Tokens — the flat view of an encoded message

  An encoded message is a sequence of tokens. A token is a tag, which gives a field
  number and the shape of what follows, and a payload of that shape: a number, a
  fixed number of octets, or octets with their count in front. Two shapes open and
  close a group; the two unused shapes are refused. Tags and counts have at most
  five octets, and a tag fits in 32 bits, a count in 31; numbers have at most ten
  octets and count modulo 2^64.

  `tokens` cuts octets into tokens, and `outsideGroups` keeps the tokens that stand
  in no group, provided that groups are closed in the order of their opening and
  not nested too deeply. Field number zero is refused outside groups and has no
  meaning inside. Both stop at the first fault: a `Cut` is what stands before it.

  `length_token?` says that a token takes at least one octet, so that cutting ends.
-/

namespace ProtoSdl.Wire

inductive Payload where
  | number (n : Nat)
  | fixed (octets : List UInt8)
  | delimited (octets : List UInt8)
  | opening
  | closing
  deriving DecidableEq, Repr

structure Token where
  field : Nat
  payload : Payload
  deriving DecidableEq, Repr

/-- Tokens up to the first fault, and whether there is none. -/
structure Cut where
  tokens : List Token
  isFaultless : Bool
  deriving DecidableEq, Repr

namespace Cut

/-- Nothing is left and nothing is at fault. -/
def done : Cut := ⟨[], true⟩

/-- The next octet or token is at fault. -/
def fault : Cut := ⟨[], false⟩

/-- The cut with a token in front. -/
def cons (t : Token) (c : Cut) : Cut := { c with tokens := t :: c.tokens }

end Cut

/-- The most octets of a tag or a count. -/
def tagLimit : Nat := 5

/-- The most octets of a number. -/
def numberLimit : Nat := 10

/-- How many numbers of 64 bits there are. -/
def wordCount : Nat := 0x10000000000000000

/-- How many numbers of 32 bits there are. -/
def halfWordCount : Nat := 0x100000000

/-- How many numbers of 31 bits there are. -/
def countLimit : Nat := 0x80000000

/-- The first octets and the rest, if there are enough of them. -/
def take? (count : Nat) (octets : List UInt8) : Option (List UInt8 × List UInt8) :=
  if count ≤ octets.length then some (octets.take count, octets.drop count) else none

/-- A number of 64 bits and what follows it. -/
def number? (octets : List UInt8) : Option (Nat × List UInt8) :=
  (varint? numberLimit octets).map fun (n, rest) => (n % wordCount, rest)

/-- A count of octets, and the octets that it counts with what follows them. -/
def count? (octets : List UInt8) : Option (Nat × List UInt8) :=
  match varint? tagLimit octets with
  | some (n, rest) => if n < countLimit then some (n, rest) else none
  | none => none

/-- The payload of a shape and what follows it. -/
def payload? (shape : Nat) (octets : List UInt8) : Option (Payload × List UInt8) :=
  match shape with
  | 0 => (number? octets).map fun (n, rest) => (.number n, rest)
  | 1 => (take? 8 octets).map fun (bs, rest) => (.fixed bs, rest)
  | 2 => do
    let (count, rest) ← count? octets
    let (bs, rest) ← take? count rest
    return (.delimited bs, rest)
  | 3 => some (.opening, octets)
  | 4 => some (.closing, octets)
  | 5 => (take? 4 octets).map fun (bs, rest) => (.fixed bs, rest)
  | _ => none

/-- The token at the beginning of the octets, and what follows it. -/
def token? (octets : List UInt8) : Option (Token × List UInt8) :=
  match varint? tagLimit octets with
  | some (tag, rest) =>
    if tag < halfWordCount then
      (payload? (tag % 8) rest).map fun (p, r) => (⟨tag / 8, p⟩, r)
    else none
  | none => none

theorem length_take? {count : Nat} {octets bs rest : List UInt8}
    (h : take? count octets = some (bs, rest)) : rest.length ≤ octets.length := by
  simp only [take?, Option.ite_none_right_eq_some, Option.some.injEq, Prod.mk.injEq] at h
  rw [← h.2.2, List.length_drop]
  omega

theorem length_number? {n : Nat} {octets rest : List UInt8}
    (h : number? octets = some (n, rest)) : rest.length < octets.length := by
  obtain ⟨⟨m, r⟩, hm, he⟩ := Option.map_eq_some_iff.1 h
  simp only [Prod.mk.injEq] at he
  rw [← he.2]
  exact length_varint? hm

theorem length_count? {n : Nat} {octets rest : List UInt8}
    (h : count? octets = some (n, rest)) : rest.length < octets.length := by
  unfold count? at h
  split at h
  · rename_i hv
    split at h
    · cases h
      exact length_varint? hv
    · cases h
  · cases h

theorem length_payload? {shape : Nat} {p : Payload} {octets rest : List UInt8}
    (h : payload? shape octets = some (p, rest)) : rest.length ≤ octets.length := by
  unfold payload? at h
  split at h
  · obtain ⟨⟨m, r⟩, hm, he⟩ := Option.map_eq_some_iff.1 h
    cases he
    exact Nat.le_of_lt (length_number? hm)
  · obtain ⟨⟨m, r⟩, hm, he⟩ := Option.map_eq_some_iff.1 h
    cases he
    exact length_take? hm
  · cases hn : count? octets with
    | none => simp [hn] at h
    | some nr =>
      obtain ⟨n, r⟩ := nr
      cases ht : take? n r with
      | none => simp [hn, ht] at h
      | some bt =>
        obtain ⟨bs, t⟩ := bt
        simp only [hn, ht, Option.bind_eq_bind, Option.bind_some, Option.pure_def,
          Option.some.injEq, Prod.mk.injEq] at h
        have h₁ := length_count? hn
        have h₂ := length_take? ht
        rw [h.2] at h₂
        omega
  · cases h
    exact Nat.le_refl _
  · cases h
    exact Nat.le_refl _
  · obtain ⟨⟨m, r⟩, hm, he⟩ := Option.map_eq_some_iff.1 h
    cases he
    exact length_take? hm
  · cases h

/-- A token takes at least one octet. -/
theorem length_token? {t : Token} {octets rest : List UInt8}
    (h : token? octets = some (t, rest)) : rest.length < octets.length := by
  unfold token? at h
  split at h
  · rename_i tag r hv
    split at h
    · obtain ⟨⟨p, q⟩, hp, he⟩ := Option.map_eq_some_iff.1 h
      cases he
      exact Nat.lt_of_le_of_lt (length_payload? hp) (length_varint? hv)
    · cases h
  · cases h

/-- The tokens of which the octets consist. -/
def tokens (octets : List UInt8) : Cut :=
  if octets = [] then .done
  else
    match h : token? octets with
    | some (t, rest) =>
      have : rest.length < octets.length := length_token? h
      (tokens rest).cons t
    | none => .fault
termination_by octets.length

/-- The tokens in no group, with at most `limit` groups open at a time. The first
list holds the field numbers of the open groups, the innermost first. -/
def outsideGroups (limit : Nat) : List Nat → List Token → Cut
  | [], [] => .done
  | _ :: _, [] => .fault
  | [], t :: rest =>
    if t.field = 0 then .fault
    else
      match t.payload with
      | .opening => if 0 < limit then outsideGroups limit [t.field] rest else .fault
      | .closing => .fault
      | _ => (outsideGroups limit [] rest).cons t
  | n :: outer, t :: rest =>
    match t.payload with
    | .opening =>
      if outer.length + 1 < limit then outsideGroups limit (t.field :: n :: outer) rest
      else .fault
    | .closing => if n = t.field then outsideGroups limit outer rest else .fault
    | _ => outsideGroups limit (n :: outer) rest

/-- The tokens of a message, in which groups are nested at most `limit` deep. -/
def messageTokens (limit : Nat) (octets : List UInt8) : Cut :=
  let cut := tokens octets
  let kept := outsideGroups limit [] cut.tokens
  { kept with isFaultless := cut.isFaultless && kept.isFaultless }

end ProtoSdl.Wire
