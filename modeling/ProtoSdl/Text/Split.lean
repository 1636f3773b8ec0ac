/-!
  Splitting and testing names — the list operations behind dotted and slashed
  names

  `split` cuts a text at every occurrence of a separator and keeps empty pieces;
  `lastPiece` is what follows the last separator. `hasPrefix` and `hasSuffix`
  compare characters one by one.

  `intercalate_split` says that joining the pieces gives the text back, and
  `not_mem_of_mem_split` that no piece holds the separator. `split_intercalate` says
  that such pieces come apart again where they were joined.
-/

namespace ProtoSdl.Text

/-- The pieces of the text between the separators; a text without separator is
its own single piece. -/
def split (sep : Char) (s : String) : List String :=
  (s.toList.splitOn sep).map String.ofList

/-- The text after the last separator, or all of it where there is none. -/
def lastPiece (sep : Char) (s : String) : String :=
  String.ofList (s.toList.reverse.takeWhile (· ≠ sep)).reverse

/-- Whether the text begins with `p`. -/
def hasPrefix (p s : String) : Bool := p.toList.isPrefixOf s.toList

/-- Whether the text ends with `p`. -/
def hasSuffix (p s : String) : Bool := p.toList.isSuffixOf s.toList

theorem split_ne_nil (sep : Char) (s : String) : split sep s ≠ [] := by
  simp [split, List.splitOn_ne_nil]

/-- Joining the pieces gives the text back. -/
theorem intercalate_split (sep : Char) (s : String) :
    (String.ofList [sep]).intercalate (split sep s) = s := by
  apply String.toList_inj.1
  rw [String.toList_intercalate, split, List.map_map]
  have h : (String.toList ∘ String.ofList) = id := by
    funext cs; simp
  rw [h, List.map_id, String.toList_ofList, List.intercalate_splitOn]

theorem not_mem_of_mem_splitOn {sep : Char} {cs piece : List Char} (h : piece ∈ cs.splitOn sep) :
    sep ∉ piece := by
  induction cs generalizing piece with
  | nil => simp_all
  | cons c cs ih =>
    rw [List.splitOn_cons_eq_if_modifyHead] at h
    split at h
    · rcases List.mem_cons.1 h with rfl | h
      · simp
      · exact ih h
    · rename_i hc
      cases hs : cs.splitOn sep with
      | nil => exact absurd hs (List.splitOn_ne_nil _ _)
      | cons first others =>
        rw [hs] at h ih
        rw [List.modifyHead_cons] at h
        rcases List.mem_cons.1 h with rfl | h
        · rw [List.mem_cons, not_or]
          exact ⟨fun he => hc (beq_iff_eq.2 he.symm), ih List.mem_cons_self⟩
        · exact ih (List.mem_cons_of_mem _ h)

/-- No piece holds the separator. -/
theorem not_mem_of_mem_split {sep : Char} {s piece : String} (h : piece ∈ split sep s) :
    sep ∉ piece.toList := by
  obtain ⟨cs, hcs, rfl⟩ := List.mem_map.1 h
  rw [String.toList_ofList]
  exact not_mem_of_mem_splitOn hcs

/-- Pieces without the separator are cut apart again where they were joined. -/
theorem split_intercalate {sep : Char} {pieces : List String} (hne : pieces ≠ [])
    (h : ∀ s ∈ pieces, sep ∉ s.toList) :
    split sep ((String.ofList [sep]).intercalate pieces) = pieces := by
  have hpieces : ∀ cs ∈ pieces.map String.toList, sep ∉ cs := by
    intro cs hcs
    obtain ⟨s, hs, rfl⟩ := List.mem_map.1 hcs
    exact h s hs
  unfold split
  rw [String.toList_intercalate, String.toList_ofList, List.splitOn_intercalate _ hpieces
    (by simpa using hne), List.map_map]
  exact List.map_id'' (fun s => String.ofList_toList) pieces

theorem hasPrefix_iff (p s : String) : hasPrefix p s = true ↔ p.toList <+: s.toList := by
  simp [hasPrefix]

theorem hasSuffix_iff (p s : String) : hasSuffix p s = true ↔ p.toList <:+ s.toList := by
  simp [hasSuffix]

end ProtoSdl.Text
