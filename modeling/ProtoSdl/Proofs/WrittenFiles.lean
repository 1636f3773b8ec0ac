import ProtoSdl.Batch
import ProtoSdl.Proofs.Growth
import ProtoSdl.Proofs.PathTexts

/-!
  Written files — what is read where a file was written

  A file is written and read under the same text of a lexical path. Of this text only
  its last segment matters here: where it is a name, it is the name of the file
  (`segments_of_endsIn`), and two files of different names stand at different places.

    1. `writeFile_eq_ok` — a file that is written is put at the place of its path, in a
       directory that the path leads to.
    2. `readFile_of_written` — its text is read there as long as the place keeps it and
       the file system only grows.
    3. `segments_documentPath` — the name of a document is the last segment of its path.
-/

namespace ProtoSdl

open ProtoSdl.Path (LexicalPath IsName segments)

namespace Path

/-- Whether the text ends with the name as its last segment. -/
def EndsIn (text name : String) : Prop := text = name ∨ ∃ before, text = before ++ "/" ++ name

theorem segments_of_endsIn {text name : String} (hn : IsName name) (h : EndsIn text name) :
    ∃ before, segments text = before ++ [name] := by
  have hname : segments name = [name] := by
    unfold segments Text.split
    rw [List.splitOn_eq_singleton hn.2.2.2, List.map_singleton, String.ofList_toList]
  rcases h with rfl | ⟨before, rfl⟩
  · exact ⟨[], hname⟩
  · refine ⟨segments before, ?_⟩
    have hl : (before ++ "/" ++ name).toList = before.toList ++ separator :: name.toList := by
      rw [String.toList_append, String.toList_append, List.append_assoc]
      rfl
    rw [← hname]
    unfold segments Text.split
    rw [hl, List.splitOn_append_cons_self, List.map_append]

theorem endsIn_join (directory name : String) : EndsIn (join directory name) name := by
  unfold join
  split
  · rename_i h
    rcases h with rfl | h
    · exact .inl String.empty_append
    · obtain ⟨before, hb⟩ := (Text.hasSuffix_iff "/" directory).mp h
      refine .inr ⟨String.ofList before, ?_⟩
      have hd : directory = String.ofList before ++ "/" := by
        apply String.toList_inj.mp
        rw [String.toList_append, String.toList_ofList, hb]
      rw [hd]
  · exact .inr ⟨directory, rfl⟩

/-- The text of a lexical path ends in its last name. -/
theorem endsIn_text {p : LexicalPath} {before : List String} {name : String}
    (h : p.names = before ++ [name]) : EndsIn p.text name := by
  have hjoin : EndsIn ("/".intercalate p.names) name := by
    rw [h]
    cases before with
    | nil => exact .inl String.intercalate_singleton
    | cons first others =>
      refine .inr ⟨"/".intercalate (first :: others), ?_⟩
      rw [String.intercalate_append_of_ne_nil (by simp) (by simp), String.intercalate_singleton]
  unfold LexicalPath.text
  cases p.root with
  | none =>
    dsimp only
    rw [if_neg (by simp [h])]
    exact hjoin
  | some r =>
    right
    cases r with
    | single =>
      rcases hjoin with hj | ⟨x, hj⟩
      · exact ⟨"", by rw [hj]; rfl⟩
      · exact ⟨"/" ++ x, by rw [hj]; simp [Root.text, String.append_assoc]⟩
    | double =>
      rcases hjoin with hj | ⟨x, hj⟩
      · exact ⟨"/", by rw [hj]; rfl⟩
      · exact ⟨"//" ++ x, by rw [hj]; simp [Root.text, String.append_assoc]⟩

theorem names_ofText {text name : String} (hn : IsName name) (h : EndsIn text name) :
    ∃ before, (LexicalPath.ofText text).names = before ++ [name] := by
  obtain ⟨before, hs⟩ := segments_of_endsIn hn h
  refine ⟨before.filter fun s => s ≠ "" ∧ s ≠ ".", ?_⟩
  show (segments text).filter _ = _
  rw [hs, List.filter_append, List.filter_cons_of_pos (by simp [hn.1, hn.2.1]), List.filter_nil]

theorem lastSegment?_of_segments {text name : String} {before : List String} (hn : IsName name)
    (h : segments text = before ++ [name]) : lastSegment? text = some (name, before.reverse) := by
  unfold lastSegment?
  rw [h, List.reverse_append, List.reverse_singleton, List.singleton_append,
    List.dropWhile_cons_of_neg (by simpa using hn.1)]

end Path

namespace Files

/-- The place that the text of a path names. -/
def placeAt (workingDirectory : Place) (p : LexicalPath) : Place :=
  (segments p.text).foldl Path.descend (FileSystem.start workingDirectory p.text)

/-- The content of the file at the path. -/
def FileSystem.readFile (fs : FileSystem) (workingDirectory : Place) (p : LexicalPath) :
    Option String :=
  match fs.locate workingDirectory p.text with
  | .ok place =>
    match fs.get? place with
    | some (.file content) => some content
    | some .directory => none
    | none => none
  | .error _ => none

variable {workingDirectory : Place} {p : LexicalPath} {before : List String} {name : String}

theorem placeAt_eq (hn : IsName name) (hs : segments p.text = before ++ [name]) :
    placeAt workingDirectory p =
      before.foldl Path.descend (FileSystem.start workingDirectory p.text) ++ [name] := by
  unfold placeAt
  rw [hs, List.foldl_append]
  exact Path.descend_name hn _

/-- A file that is written is put at the place of its path. -/
theorem writeFile_eq_ok (hn : IsName name) (hs : segments p.text = before ++ [name])
    {content : String} {fs fs' : FileSystem}
    (h : writeFile workingDirectory p content fs = .ok () fs') :
    ∃ parent, placeAt workingDirectory p = parent ++ [name] ∧
      fs.follow (FileSystem.start workingDirectory p.text) before = .ok parent ∧
      fs.IsDirectory parent ∧ ¬ fs.IsDirectory (parent ++ [name]) ∧
      fs' = fs.putFile parent name content ∧ ¬ (p.text = "" ∨ FileSystem.hasNull p.text) := by
  unfold writeFile parentOf at h
  rw [Path.lastSegment?_of_segments hn hs] at h
  by_cases hnull : FileSystem.hasNull p.text = true
  · rw [if_pos hnull] at h
    cases h
  · rw [if_neg hnull] at h
    by_cases hempty : p.text = ""
    · rw [if_pos hempty] at h
      cases h
    · rw [if_neg hempty] at h
      dsimp only at h
      rw [List.reverse_reverse] at h
      cases hf : fs.follow (FileSystem.start workingDirectory p.text) (before ++ [""]) with
      | error o =>
        rw [hf] at h
        cases h
      | ok parent =>
        rw [hf] at h
        dsimp only at h
        -- The last segment is cut off, and what is before it leads to a directory.
        obtain ⟨hfollow, hdirectory⟩ := (fs.follow_append_empty _ _ _).mp hf
        have hplace : placeAt workingDirectory p = _ := placeAt_eq hn hs
        rw [← (FileSystem.follow_eq_ok fs hfollow).1] at hplace
        split at h
        · cases h
        · rename_i hfree
          cases h
          refine ⟨parent, hplace, hfollow, hdirectory, fun hd => hfree (.inr (.inr hd)), rfl, ?_⟩
          rintro (he | he)
          · exact hempty he
          · exact hnull he

/-- Writing a file changes the place of its path alone. -/
theorem get?_writeFile_of_ne (hn : IsName name) (hs : segments p.text = before ++ [name])
    {content : String} {fs fs' : FileSystem}
    (h : writeFile workingDirectory p content fs = .ok () fs') {q : Place}
    (hq : q ≠ placeAt workingDirectory p) : fs'.get? q = fs.get? q := by
  obtain ⟨parent, hplace, -, -, -, rfl, -⟩ := writeFile_eq_ok hn hs h
  exact fs.get?_putFile_of_ne content (hplace ▸ hq)

/-- A written text is read as long as its place keeps it and the file system grows. -/
theorem readFile_of_written (hn : IsName name) (hs : segments p.text = before ++ [name])
    {content : String} {fs fs' fs'' : FileSystem}
    (h : writeFile workingDirectory p content fs = .ok () fs') (hext : fs'.Extends fs'')
    (hkept : fs''.get? (placeAt workingDirectory p) = fs'.get? (placeAt workingDirectory p)) :
    fs''.readFile workingDirectory p = some content := by
  obtain ⟨parent, hplace, hfollow, hdirectory, hfree, rfl, hnamed⟩ := writeFile_eq_ok hn hs h
  have hput := FileSystem.get?_putFile content ⟨hdirectory, hn, hfree⟩ (parent ++ [name])
  rw [if_pos rfl] at hput
  rw [hplace, hput] at hkept
  have hgrown := (fs.putFile_extends parent name content).trans hext
  have hlocate : fs''.locate workingDirectory p.text = .ok (parent ++ [name]) := by
    unfold FileSystem.locate
    rw [if_neg hnamed, hs, FileSystem.follow_append_eq_ok_iff]
    refine ⟨parent, hgrown.follow hfollow, (hgrown parent).1 hdirectory, ?_⟩
    rw [Path.descend_name hn, FileSystem.follow, hkept]
    rfl
  unfold FileSystem.readFile
  rw [hlocate]
  dsimp only
  rw [hkept]

end Files

/-! ## Documents -/

/-- The name of the file that holds the document of a schema file. -/
def documentName (file : String) : String := (LexicalPath.ofText file).stem ++ documentSuffix

theorem isName_documentName (file : String) : IsName (documentName file) := by
  -- The stem is cut from a name, and a name has no separator.
  have hslash : Path.separator ∉ (LexicalPath.ofText file).stem.toList := by
    intro h
    have hname : Path.separator ∈ (LexicalPath.ofText file).name.toList := by
      rw [← Path.append_splitSuffix (LexicalPath.ofText file).name, String.toList_append]
      exact List.mem_append_left _ h
    unfold LexicalPath.name at hname
    cases hl : (LexicalPath.ofText file).names.getLast? with
    | none =>
      rw [hl] at hname
      simp at hname
    | some last =>
      rw [hl] at hname
      have hmem := List.mem_of_getLast? hl
      exact Text.not_mem_of_mem_split (List.mem_filter.mp hmem).1 hname
  -- The suffix makes it longer than the three texts that are no names.
  have hlength : 8 ≤ (documentName file).toList.length := by
    unfold documentName
    rw [String.toList_append, List.length_append]
    have hsuffix : documentSuffix.toList.length = 8 := rfl
    omega
  have hshort : ∀ s : String, s.toList.length < 8 → documentName file ≠ s := by
    rintro s hs rfl
    omega
  refine ⟨hshort "" (by decide), hshort "." (by decide), hshort ".." (by decide), ?_⟩
  unfold documentName
  rw [String.toList_append, List.mem_append, not_or]
  exact ⟨hslash, by decide⟩

/-- The name of a document is the last segment of its path. -/
theorem segments_documentPath (output file : String) :
    ∃ before, segments (LexicalPath.ofText (documentPath output file)).text =
      before ++ [documentName file] := by
  have hn := isName_documentName file
  obtain ⟨before, hnames⟩ := Path.names_ofText hn (Path.endsIn_join output (documentName file))
  exact Path.segments_of_endsIn hn (Path.endsIn_text hnames)

/-- Where the document of a schema file is written. -/
def Environment.documentPlace (env : Environment) (output file : String) : Files.Place :=
  Files.placeAt env.here (.ofText (documentPath output file))

/-- Documents of different names stand at different places. -/
theorem documentName_eq_of_place {env : Environment} {output file other : String}
    (h : env.documentPlace output file = env.documentPlace output other) :
    documentName file = documentName other := by
  obtain ⟨before, hs⟩ := segments_documentPath output file
  obtain ⟨before', hs'⟩ := segments_documentPath output other
  unfold Environment.documentPlace at h
  rw [Files.placeAt_eq (isName_documentName file) hs,
    Files.placeAt_eq (isName_documentName other) hs'] at h
  have hlast := congrArg List.getLast? h
  rw [List.getLast?_concat, List.getLast?_concat] at hlast
  exact Option.some.inj hlast

theorem documentName_inj {file other : String} :
    documentName file = documentName other ↔
      (LexicalPath.ofText file).stem = (LexicalPath.ofText other).stem := by
  unfold documentName
  constructor
  · intro h
    have hl := congrArg String.toList h
    rw [String.toList_append, String.toList_append] at hl
    exact String.toList_inj.mp (List.append_cancel_right hl)
  · intro h
    rw [h]

theorem documentPath_inj {output file other : String} :
    documentPath output file = documentPath output other ↔
      (LexicalPath.ofText file).stem = (LexicalPath.ofText other).stem := by
  have hpath : ∀ file, documentPath output file = Path.join output (documentName file) :=
    fun _ => rfl
  have hcancel : ∀ x a b : String, x ++ a = x ++ b → a = b := by
    intro x a b h
    have hl := congrArg String.toList h
    rw [String.toList_append, String.toList_append] at hl
    exact String.toList_inj.mp (List.append_cancel_left hl)
  rw [← documentName_inj, hpath, hpath]
  constructor
  · intro h
    -- Both names are joined to the directory in the same way.
    unfold Path.join at h
    split at h
    · exact hcancel _ _ _ h
    · exact hcancel _ _ _ h
  · intro h
    rw [h]

end ProtoSdl
