/-!
  Variable-length numbers — seven bits an octet, lowest first

  Every octet but the last has its high bit set. `varint?` reads one number of at
  most so many octets and returns it with the octets that follow; it refuses a
  number that is cut off or too long. Zero bits on top are no fault.

  `length_varint?` says that a number takes at least one octet.
-/

namespace ProtoSdl.Wire

/-- The number at the beginning of the octets, at most `limit` octets long, and
what follows it. -/
def varint? : (limit : Nat) → List UInt8 → Option (Nat × List UInt8)
  | 0, _ => none
  | _ + 1, [] => none
  | limit + 1, b :: rest =>
    if b < 0x80 then some (b.toNat, rest)
    else (varint? limit rest).map fun (n, r) => (b.toNat - 0x80 + 128 * n, r)

theorem length_varint? {limit n : Nat} {octets rest : List UInt8}
    (h : varint? limit octets = some (n, rest)) : rest.length < octets.length := by
  induction limit generalizing octets n with
  | zero => simp [varint?] at h
  | succ limit ih =>
    cases octets with
    | nil => simp [varint?] at h
    | cons b tail =>
      rw [varint?] at h
      split at h
      · simp only [Option.some.injEq, Prod.mk.injEq] at h
        simp [h.2]
      · obtain ⟨⟨m, r⟩, hm, he⟩ := Option.map_eq_some_iff.1 h
        cases he
        exact Nat.lt_succ_of_lt (ih hm)

/-- The numbers of which the octets consist, one after the other. -/
def varints? (limit : Nat) (octets : List UInt8) : Option (List Nat) :=
  if octets = [] then some []
  else
    match h : varint? limit octets with
    | some (n, rest) =>
      have : rest.length < octets.length := length_varint? h
      (varints? limit rest).map (n :: ·)
    | none => none
termination_by octets.length

end ProtoSdl.Wire
