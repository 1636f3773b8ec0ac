import ProtoSdl.Text.Split

/-!
  Blank lines — a text of chunks reads back as its chunks

  A blank line is made of two line breaks in a row. `splitBlank` cuts a text at its
  blank lines, from the left, and `chunks` also cuts what stands between them into lines.

    1. `cutBlank_chunk` — a chunk is not cut, whatever follows it.
    2. `chunks_intercalate` — chunks are read back from the text in which they are joined,
       if each of their lines is filled: not empty and without a line break. An empty line
       inside a chunk, or at its end, would be taken for a cut.
    3. `not_hasSuffix_intercalate` — such a text does not end in a line break.
-/

namespace ProtoSdl.Text

/-- Whether the text holds no line break. -/
def IsLine (s : String) : Prop := '\n' ∉ s.toList

instance (s : String) : Decidable (IsLine s) := inferInstanceAs (Decidable (¬ '\n' ∈ s.toList))

/-- Whether the text is a line with something on it. -/
def IsFilled (s : String) : Prop := s ≠ "" ∧ IsLine s

instance (s : String) : Decidable (IsFilled s) := inferInstanceAs (Decidable (_ ∧ _))

/-- Whether the texts are the lines of a chunk. -/
def IsChunk (lines : List String) : Prop := lines ≠ [] ∧ ∀ s ∈ lines, IsFilled s

/-- The characters between the blank lines; the cuts are made from the left. -/
def cutBlank : List Char → List (List Char)
  | [] => [[]]
  | [c] => [[c]]
  | c :: d :: rest =>
    if c = '\n' ∧ d = '\n' then [] :: cutBlank rest
    else (cutBlank (d :: rest)).modifyHead (c :: ·)

/-- The texts between the blank lines. -/
def splitBlank (s : String) : List String := (cutBlank s.toList).map String.ofList

/-- The lines of each text between the blank lines. -/
def chunks (s : String) : List (List String) := (splitBlank s).map (split '\n')

/-! ## Lines -/

theorem IsLine.append {s r : String} (hs : IsLine s) (hr : IsLine r) : IsLine (s ++ r) := by
  unfold IsLine
  rw [String.toList_append, List.mem_append, not_or]
  exact ⟨hs, hr⟩

theorem IsFilled.append {s r : String} (hs : IsFilled s) (hr : IsLine r) : IsFilled (s ++ r) := by
  refine ⟨fun he => hs.1 ?_, hs.2.append hr⟩
  have hl := congrArg String.toList he
  rw [String.toList_append] at hl
  exact String.toList_eq_nil_iff.mp (List.append_eq_nil_iff.mp hl).1

theorem IsLine.intercalate {sep : String} (hsep : IsLine sep) {pieces : List String}
    (h : ∀ s ∈ pieces, IsLine s) : IsLine (sep.intercalate pieces) := by
  unfold IsLine
  rw [String.toList_intercalate]
  induction pieces with
  | nil => exact List.not_mem_nil
  | cons s pieces ih =>
    have hs := h s List.mem_cons_self
    cases pieces with
    | nil => simpa [IsLine] using hs
    | cons r pieces =>
      rw [List.map_cons, List.map_cons, List.intercalate_cons_cons, ← List.map_cons,
        List.mem_append, List.mem_append, not_or, not_or]
      exact ⟨⟨hs, hsep⟩, ih fun q hq => h q (List.mem_cons_of_mem _ hq)⟩

/-! ## Cuts -/

theorem cutBlank_ne_nil (cs : List Char) : cutBlank cs ≠ [] := by
  induction cs using cutBlank.induct with
  | case1 => simp [cutBlank]
  | case2 c => simp [cutBlank]
  | case3 c d rest h ih => simp [cutBlank, h]
  | case4 c d rest h ih =>
    rw [cutBlank, if_neg h]
    cases hr : cutBlank (d :: rest) with
    | nil => exact absurd hr ih
    | cons first others => simp

theorem cutBlank_cons {c : Char} (hc : c ≠ '\n') (cs : List Char) :
    cutBlank (c :: cs) = (cutBlank cs).modifyHead (c :: ·) := by
  cases cs with
  | nil => rfl
  | cons d rest => rw [cutBlank, if_neg fun h => hc h.1]

theorem cutBlank_line {line : List Char} (h : '\n' ∉ line) (cs : List Char) :
    cutBlank (line ++ cs) = (cutBlank cs).modifyHead (line ++ ·) := by
  induction line with
  | nil =>
    cases hcs : cutBlank cs with
    | nil => exact absurd hcs (cutBlank_ne_nil cs)
    | cons first others => simp [hcs]
  | cons c line ih =>
    rw [List.mem_cons, not_or] at h
    rw [List.cons_append, cutBlank_cons (fun he => h.1 he.symm), ih h.2, List.modifyHead_modifyHead]
    rfl

/-- A line break before a line is no cut. -/
theorem cutBlank_break {line : List Char} (hne : line ≠ []) (h : '\n' ∉ line) (cs : List Char) :
    cutBlank ('\n' :: (line ++ cs)) = (cutBlank (line ++ cs)).modifyHead ('\n' :: ·) := by
  cases line with
  | nil => exact absurd rfl hne
  | cons c line =>
    rw [List.mem_cons, not_or] at h
    rw [List.cons_append, cutBlank, if_neg fun he => h.1 he.2.symm]

/-- A chunk of lines is not cut, whatever follows it. -/
theorem cutBlank_chunk {lines : List (List Char)} (hne : lines ≠ [])
    (h : ∀ line ∈ lines, line ≠ [] ∧ '\n' ∉ line) (cs : List Char) :
    cutBlank (['\n'].intercalate lines ++ cs) =
      (cutBlank cs).modifyHead (['\n'].intercalate lines ++ ·) := by
  -- By induction on the lines: each one but the last is followed by a line break and a line.
  induction lines with
  | nil => exact absurd rfl hne
  | cons line lines ih =>
    obtain ⟨-, hline⟩ := h line List.mem_cons_self
    cases lines with
    | nil =>
      rw [List.intercalate_singleton]
      exact cutBlank_line hline cs
    | cons next lines =>
      have hnext := h next (by simp)
      have ih := ih (by simp) fun l hl => h l (List.mem_cons_of_mem _ hl)
      obtain ⟨rest, hrest⟩ : ∃ rest, ['\n'].intercalate (next :: lines) = next ++ rest := by
        cases lines with
        | nil => exact ⟨[], by simp⟩
        | cons l lines =>
          exact ⟨_, by rw [List.intercalate_cons_cons, List.append_assoc]⟩
      rw [List.intercalate_cons_cons, List.append_assoc, List.append_assoc, cutBlank_line hline,
        List.singleton_append]
      rw [hrest] at ih ⊢
      rw [List.append_assoc, cutBlank_break hnext.1 hnext.2, ← List.append_assoc, ih,
        List.modifyHead_modifyHead, List.modifyHead_modifyHead]
      congr 1
      funext first
      simp

theorem cutBlank_intercalate {chunks : List (List (List Char))} (hne : chunks ≠ [])
    (h : ∀ lines ∈ chunks, lines ≠ [] ∧ ∀ line ∈ lines, line ≠ [] ∧ '\n' ∉ line) :
    cutBlank (['\n', '\n'].intercalate (chunks.map ['\n'].intercalate)) =
      chunks.map ['\n'].intercalate := by
  induction chunks with
  | nil => exact absurd rfl hne
  | cons lines chunks ih =>
    obtain ⟨hlines, hline⟩ := h lines List.mem_cons_self
    cases chunks with
    | nil =>
      have hcut := cutBlank_chunk hlines hline []
      rw [List.append_nil] at hcut
      rw [List.map_cons, List.map_nil, List.intercalate_singleton, hcut]
      simp [cutBlank]
    | cons next chunks =>
      have ih := ih (by simp) fun l hl => h l (List.mem_cons_of_mem _ hl)
      rw [List.map_cons] at ih
      rw [List.map_cons, List.map_cons, List.intercalate_cons_cons, List.append_assoc,
        cutBlank_chunk hlines hline, List.cons_append, List.cons_append, List.nil_append, cutBlank,
        if_pos ⟨rfl, rfl⟩, ih, List.modifyHead_cons, List.append_nil]

/-- Chunks of lines are read back from the text in which they are joined. -/
theorem chunks_intercalate {pieces : List (List String)} (hne : pieces ≠ [])
    (h : ∀ lines ∈ pieces, IsChunk lines) :
    chunks ("\n\n".intercalate (pieces.map "\n".intercalate)) = pieces := by
  have hsep : "\n".toList = ['\n'] := rfl
  have hsep' : "\n\n".toList = ['\n', '\n'] := rfl
  have hlists : (pieces.map "\n".intercalate).map String.toList =
      (pieces.map (List.map String.toList)).map ['\n'].intercalate := by
    rw [List.map_map, List.map_map]
    apply List.map_congr_left
    intro lines _
    rw [Function.comp_apply, Function.comp_apply, String.toList_intercalate, hsep]
  have hfilled : ∀ lines ∈ pieces.map (List.map String.toList),
      lines ≠ [] ∧ ∀ line ∈ lines, line ≠ [] ∧ '\n' ∉ line := by
    intro lines hlines
    obtain ⟨strings, hstrings, rfl⟩ := List.mem_map.mp hlines
    obtain ⟨hne, hline⟩ := h strings hstrings
    refine ⟨by simpa using hne, fun line hl => ?_⟩
    obtain ⟨s, hs, rfl⟩ := List.mem_map.mp hl
    exact ⟨by simpa using (hline s hs).1, (hline s hs).2⟩
  have hcut := cutBlank_intercalate (by simpa using hne) hfilled
  have hpieces : splitBlank ("\n\n".intercalate (pieces.map "\n".intercalate)) =
      pieces.map "\n".intercalate := by
    unfold splitBlank
    rw [String.toList_intercalate, hsep', hlists, hcut, ← hlists, List.map_map]
    exact List.map_id'' (fun s => String.ofList_toList) _
  unfold chunks
  rw [hpieces, List.map_map]
  refine (List.map_congr_left fun lines hlines => ?_).trans (List.map_id _)
  obtain ⟨hne, hline⟩ := h lines hlines
  exact split_intercalate hne fun s hs => (hline s hs).2

/-! ## The end of a text -/

/-- Whether the text ends in something else than a line break. -/
def EndsFilled (s : String) : Prop := s ≠ "" ∧ hasSuffix "\n" s = false

theorem IsFilled.endsFilled {s : String} (h : IsFilled s) : EndsFilled s := by
  refine ⟨h.1, Bool.eq_false_iff.mpr fun hs => h.2 ?_⟩
  exact ((hasSuffix_iff "\n" s).mp hs).subset (List.mem_singleton_self _)

theorem EndsFilled.append {r : String} (h : EndsFilled r) (s : String) : EndsFilled (s ++ r) := by
  constructor
  · intro he
    have hl := congrArg String.toList he
    rw [String.toList_append] at hl
    exact h.1 (String.toList_eq_nil_iff.mp (List.append_eq_nil_iff.mp hl).2)
  · rw [Bool.eq_false_iff, ne_eq, hasSuffix_iff, String.toList_append]
    intro hs
    -- The last text is not empty, so what ends the whole ends it as well.
    have hlength : "\n".toList.length ≤ r.toList.length := by
      exact List.length_pos_iff.mpr fun he => h.1 (String.toList_eq_nil_iff.mp he)
    have hr := List.suffix_of_suffix_length_le hs (List.suffix_append _ _) hlength
    rw [← hasSuffix_iff, h.2] at hr
    cases hr

/-- Joined texts end as the last of them does. -/
theorem EndsFilled.intercalate {pieces : List String} (hne : pieces ≠ [])
    (h : ∀ s ∈ pieces, EndsFilled s) (sep : String) : EndsFilled (sep.intercalate pieces) := by
  induction pieces with
  | nil => exact absurd rfl hne
  | cons s pieces ih =>
    cases pieces with
    | nil => exact h s List.mem_cons_self
    | cons r pieces =>
      have hrest := ih (by simp) fun q hq => h q (List.mem_cons_of_mem _ hq)
      rw [String.intercalate_cons_cons]
      exact hrest.append _

/-- A text of chunks does not end in a line break. -/
theorem not_hasSuffix_intercalate {pieces : List (List String)} (hne : pieces ≠ [])
    (h : ∀ lines ∈ pieces, IsChunk lines) :
    hasSuffix "\n" ("\n\n".intercalate (pieces.map "\n".intercalate)) = false := by
  refine (EndsFilled.intercalate (by simpa using hne) (fun text htext => ?_) "\n\n").2
  obtain ⟨lines, hlines, rfl⟩ := List.mem_map.mp htext
  obtain ⟨hne, hfilled⟩ := h lines hlines
  exact EndsFilled.intercalate hne (fun s hs => (hfilled s hs).endsFilled) "\n"

end ProtoSdl.Text
