import ProtoSdl.Name

/-!
  Octet literals read back — a literal shows one list of octets only

  A name of octets is printed by a literal, and two names that are compared as
  octets must not look alike in a document. `readOctet` reads one octet from the
  front of a literal's inside: four characters after a backslash and an `x`, two
  after any other backslash, one everywhere else. What one octet is written as is
  read back as this octet whatever follows (`readOctet_escapeOctet`), so the inside
  of a literal determines the octets (`flatMap_escapeOctet_injective`), and so does
  the whole literal (`octetLiteral_injective`). A literal stays on one line
  (`newline_not_mem_octetLiteral`).
-/

namespace ProtoSdl.Text

/-- The value of a hexadecimal digit. -/
def digitValue (c : Char) : Nat :=
  if c.toNat < 0x3A then c.toNat - 0x30 else c.toNat - 0x57

/-- The octet that a letter after a backslash stands for. -/
def unescapeLetter (c : Char) : UInt8 :=
  if c = 'n' then 10 else if c = 'r' then 13 else if c = 't' then 9 else UInt8.ofNat c.toNat

/-- Reads one octet from the front of a literal's inside. -/
def readOctet : List Char → Option (UInt8 × List Char)
  | '\\' :: 'x' :: high :: low :: rest =>
    some (UInt8.ofNat (16 * digitValue high + digitValue low), rest)
  | '\\' :: c :: rest => some (unescapeLetter c, rest)
  | c :: rest => some (UInt8.ofNat c.toNat, rest)
  | [] => none

/-- Whether the characters are a whole writing of the octet, of one of the three
widths. -/
def writes (b : UInt8) : List Char → Bool
  | [bar, x, high, low] =>
    bar = '\\' ∧ x = 'x' ∧ UInt8.ofNat (16 * digitValue high + digitValue low) = b
  | [bar, c] => bar = '\\' ∧ c ≠ 'x' ∧ unescapeLetter c = b
  | [c] => c ≠ '\\' ∧ UInt8.ofNat c.toNat = b
  | _ => false

/-- A whole writing is read as its octet, and the rest is left alone. -/
theorem readOctet_of_writes {b : UInt8} {cs : List Char} (h : writes b cs = true)
    (rest : List Char) : readOctet (cs ++ rest) = some (b, rest) := by
  unfold writes at h
  split at h
  · simp only [decide_eq_true_eq] at h
    obtain ⟨rfl, rfl, hb⟩ := h
    simp [readOctet, hb]
  · simp only [decide_eq_true_eq] at h
    obtain ⟨rfl, hx, hb⟩ := h
    simp [readOctet, hx, hb]
  · simp only [decide_eq_true_eq] at h
    obtain ⟨hx, hb⟩ := h
    simp [readOctet, hx, hb]
  · cases h

/-- The two marks that a literal can take. -/
theorem octetMark_cases (bs : List UInt8) : octetMark bs = '"' ∨ octetMark bs = '\'' := by
  unfold octetMark quotationMark
  split
  · exact .inl rfl
  · exact .inr rfl

/-- An octet is written as a whole, and without a line break. -/
theorem writes_escapeOctet {mark : Char} (hm : mark = '"' ∨ mark = '\'') (b : UInt8) :
    writes b (escapeOctet mark b) = true ∧ '\n' ∉ escapeOctet mark b := by
  -- Both ways of writing a character are whole, so the table of printable ones is left out.
  obtain ⟨p, hp⟩ : ∃ p, isPrintable (Char.ofNat b.toNat) = p := ⟨_, rfl⟩
  unfold escapeOctet escape
  rw [hp]
  have hlt := b.toNat_lt
  rw [← UInt8.ofNat_toNat (x := b)]
  generalize b.toNat = n at hlt
  clear hp
  revert p n
  rcases hm with rfl | rfl
  · decide +kernel
  · decide +kernel

theorem readOctet_escapeOctet {mark : Char} (hm : mark = '"' ∨ mark = '\'') (b : UInt8)
    (rest : List Char) : readOctet (escapeOctet mark b ++ rest) = some (b, rest) :=
  readOctet_of_writes (writes_escapeOctet hm b).1 rest

/-- The inside of a literal determines the octets. -/
theorem flatMap_escapeOctet_injective {mark : Char} (hm : mark = '"' ∨ mark = '\'') :
    ∀ {bs cs : List UInt8}, bs.flatMap (escapeOctet mark) = cs.flatMap (escapeOctet mark) →
      bs = cs := by
  intro bs
  induction bs with
  | nil =>
    intro cs h
    cases cs with
    | nil => rfl
    | cons c cs =>
      have hr := readOctet_escapeOctet hm c (cs.flatMap (escapeOctet mark))
      rw [← List.flatMap_cons, ← h] at hr
      cases hr
  | cons b bs ih =>
    intro cs h
    have hb := readOctet_escapeOctet hm b (bs.flatMap (escapeOctet mark))
    rw [← List.flatMap_cons, h] at hb
    cases cs with
    | nil => cases hb
    | cons c cs =>
      rw [List.flatMap_cons, readOctet_escapeOctet hm c] at hb
      simp only [Option.some.injEq, Prod.mk.injEq] at hb
      obtain ⟨rfl, hrest⟩ := hb
      rw [ih hrest.symm]

/-- A literal holds no line break. -/
theorem newline_not_mem_octetLiteral (bs : List UInt8) : '\n' ∉ (octetLiteral bs).toList := by
  have hmark := octetMark_cases bs
  have hne : '\n' ≠ octetMark bs := by
    rcases hmark with hm | hm <;> rw [hm] <;> decide
  rw [toList_octetLiteral, List.cons_append, List.mem_cons, List.cons_append, List.mem_cons,
    List.mem_append, List.mem_singleton]
  rintro (h | h | h | h)
  · cases h
  · exact hne h
  · obtain ⟨b, -, hb⟩ := List.mem_flatMap.mp h
    exact (writes_escapeOctet hmark b).2 hb
  · exact hne h

/-- A literal determines its octets. -/
theorem octetLiteral_injective {bs cs : List UInt8} (h : octetLiteral bs = octetLiteral cs) :
    bs = cs := by
  have hl := congrArg String.toList h
  rw [toList_octetLiteral, toList_octetLiteral] at hl
  simp only [List.cons_append, List.cons.injEq, true_and] at hl
  obtain ⟨hm, hl⟩ := hl
  rw [hm] at hl
  exact flatMap_escapeOctet_injective (octetMark_cases cs) (List.append_cancel_right hl)

end ProtoSdl.Text
