import ProtoSdl.Proofs.FirstOccurrences
import ProtoSdl.Proofs.TargetNames

/-!
  Include directories — the directories that the compiler is handed, as texts

  Include directories come from texts and are handed to the compiler as texts. The absolute
  text of a place leads to the place from any directory (`AbsolutePath.ofText_text`), so it
  stays as it is when it is made absolute once more.

    1. `directoryText` cuts a text off at its last slash. For an absolute text this gives the
       absolute text of the parent (`directoryText_text`).
    2. So the texts of the include directories are the absolute texts of the explicit ones
       and the directory texts of the files, each of them once (`directoryTexts_eq`).
    3. These texts as explicit directories give the same directories again
       (`includeDirectories_directoryTexts`).
    4. `handedDirectories` reads the directories off the arguments of the compiler, and finds
       these texts (`handedDirectories_arguments`).

  `includeDirectories_normal` says what the list is, and that the compiler and the target name
  depend on the same one.
-/

namespace ProtoSdl.Path

/-- The absolute form of a path text. -/
def absoluteText (workingDirectory : AbsolutePath) (text : String) : String :=
  (AbsolutePath.ofText workingDirectory text).text

/-- The text up to its last slash, without the slashes at its end if there is anything else. -/
def directoryText (text : String) : String :=
  let reversed := text.toList.reverse.dropWhile (· ≠ separator)
  let above := reversed.dropWhile (· = separator)
  String.ofList (if above = [] then reversed else above).reverse

/-- The texts of the include directories. -/
def directoryTexts (workingDirectory : AbsolutePath) (files includes : List String) :
    List String :=
  (includeDirectories workingDirectory files includes).map AbsolutePath.text

/-! ## Absolute texts -/

/-- A text of a root and names leads through the names. -/
theorem foldl_descend_rooted {root : Root} {names : List String} (h : ∀ n ∈ names, IsName n) :
    (segments (rooted (some root) names)).foldl descend [] = names := by
  by_cases hne : names = []
  · subst hne
    cases root <;> decide
  · have hsegments : ∀ n ∈ names, IsSegment n := fun n hn => (h n hn).isSegment
    have hblanks : (blanks (some root)).foldl descend [] = [] := by cases root <;> rfl
    rw [segments_rooted hsegments hne, List.foldl_append, hblanks, foldl_descend_names h,
      List.nil_append]

theorem AbsolutePath.text_eq_rooted (p : AbsolutePath) : p.text = rooted (some p.root) p.names :=
  rfl

/-- The text of a place names it from any directory. -/
theorem AbsolutePath.ofText_text (workingDirectory p : AbsolutePath) :
    ofText workingDirectory p.text = p := by
  have hroot : root? p.text = some p.root := by
    rw [p.text_eq_rooted]
    exact root?_rooted fun n hn => (p.names_valid n hn).isSegment
  have hnames : (segments p.text).foldl descend [] = p.names := by
    rw [p.text_eq_rooted]
    exact foldl_descend_rooted p.names_valid
  unfold ofText
  rw [hroot]
  exact AbsolutePath.eq_of rfl hnames

theorem AbsolutePath.text_injective {p q : AbsolutePath} (h : p.text = q.text) : p = q := by
  rw [← p.ofText_text p, h, p.ofText_text q]

/-! ## The directory of a text -/

/-- What stands before a name is what is left after the search for a slash. -/
theorem dropWhile_name {n : String} (hn : IsName n) (cs : List Char) :
    (cs ++ n.toList).reverse.dropWhile (· ≠ separator) =
      cs.reverse.dropWhile (· ≠ separator) := by
  have hall : ∀ c ∈ n.toList.reverse, decide (c ≠ separator) = true := by
    intro c hc
    apply decide_eq_true
    rintro rfl
    exact hn.2.2.2 (List.mem_reverse.mp hc)
  rw [List.reverse_append, List.dropWhile_append_of_pos hall]

/-- No slash is at the end of a name. -/
theorem dropWhile_slash_name {n : String} (hn : IsName n) (cs : List Char) :
    (cs ++ n.toList).reverse.dropWhile (· = separator) = (cs ++ n.toList).reverse := by
  rw [List.reverse_append]
  cases hcs : n.toList.reverse with
  | nil => exact absurd (String.toList_eq_nil_iff.mp (List.reverse_eq_nil_iff.mp hcs)) hn.1
  | cons c rest =>
    have hc : c ≠ separator := by
      rintro rfl
      apply hn.2.2.2
      rw [← List.mem_reverse, hcs]
      exact List.mem_cons_self
    rw [List.cons_append, List.dropWhile_cons_of_neg (by simpa using hc)]

variable {n m : String}

/-- The directory of a name directly below the root is the root. -/
theorem directoryText_root (hn : IsName n) (root : Root) :
    directoryText (root.text ++ n) = root.text := by
  unfold directoryText
  rw [String.toList_append, dropWhile_name hn]
  cases root <;> decide

/-- The directory of a name behind another one is the text that ends in the other one. -/
theorem directoryText_append (hm : IsName m) (hn : IsName n) (above : String) :
    directoryText (above ++ m ++ "/" ++ n) = above ++ m := by
  have hslash : (above ++ m ++ "/").toList.reverse =
      separator :: (above.toList ++ m.toList).reverse := by
    rw [String.toList_append, String.toList_append, List.reverse_append]
    rfl
  have hne : (above.toList ++ m.toList).reverse ≠ [] := by
    simp [hm.1]
  unfold directoryText
  dsimp only
  rw [String.toList_append, dropWhile_name hn, hslash, List.dropWhile_cons_of_neg (by simp),
    List.dropWhile_cons_of_pos (by simp), dropWhile_slash_name hm, if_neg hne,
    List.reverse_reverse, ← String.toList_append, String.ofList_toList]

/-- Joined names end in the last one. -/
theorem exists_intercalate_concat (names : List String) (m : String) :
    ∃ above, "/".intercalate (names ++ [m]) = above ++ m := by
  by_cases hne : names = []
  · refine ⟨"", ?_⟩
    rw [hne, List.nil_append, String.intercalate_singleton, String.empty_append]
  · refine ⟨"/".intercalate names ++ "/", ?_⟩
    rw [String.intercalate_append_of_ne_nil hne (by simp), String.intercalate_singleton]

/-- The directory of a text in normal form is in normal form: it is the text of the parent. -/
theorem directoryText_text (p : AbsolutePath) : directoryText p.text = p.parent.text := by
  have htext : p.text = p.root.text ++ "/".intercalate p.names := rfl
  have hparent : p.parent.text = p.root.text ++ "/".intercalate p.names.dropLast := rfl
  rw [htext, hparent]
  rcases List.eq_nil_or_concat p.names with hnil | ⟨above, n, hconcat⟩
  · rw [hnil]
    cases p.root <;> decide
  · rw [List.concat_eq_append] at hconcat
    have hn : IsName n := p.names_valid n (by simp [hconcat])
    rw [hconcat, List.dropLast_concat]
    rcases List.eq_nil_or_concat above with rfl | ⟨front, m, hfront⟩
    · rw [List.nil_append, String.intercalate_singleton, directoryText_root hn]
      exact String.append_empty.symm
    · rw [List.concat_eq_append] at hfront
      have hm : IsName m := p.names_valid m (by simp [hconcat, hfront])
      obtain ⟨above', habove⟩ := exists_intercalate_concat front m
      rw [String.intercalate_append_of_ne_nil (by simp [hfront]) (by simp),
        String.intercalate_singleton, hfront, habove, ← String.append_assoc, ← String.append_assoc,
        ← String.append_assoc]
      exact directoryText_append hm hn _

/-! ## The list of directories -/

variable (workingDirectory : AbsolutePath) (files includes : List String)

/-- The texts of the include directories come from the texts of the explicit ones and of the
files, without going through places. -/
theorem directoryTexts_eq :
    directoryTexts workingDirectory files includes =
      (includes.map (absoluteText workingDirectory) ++
        files.map fun f => directoryText (absoluteText workingDirectory f)).eraseDups := by
  unfold directoryTexts includeDirectories
  rw [map_eraseDups AbsolutePath.text_injective, List.map_append, List.map_map, List.map_map]
  have hown : (AbsolutePath.text ∘ fun f => (AbsolutePath.ofText workingDirectory f).parent) =
      fun f => directoryText (absoluteText workingDirectory f) := by
    funext f
    exact (directoryText_text _).symm
  rw [hown]
  rfl

theorem map_ofText_directoryTexts :
    (directoryTexts workingDirectory files includes).map (AbsolutePath.ofText workingDirectory) =
      includeDirectories workingDirectory files includes := by
  unfold directoryTexts
  rw [List.map_map]
  exact List.map_id'' (AbsolutePath.ofText_text workingDirectory) _

/-- The include directories as explicit ones, with the same files, are the include directories. -/
theorem includeDirectories_directoryTexts :
    includeDirectories workingDirectory files (directoryTexts workingDirectory files includes) =
      includeDirectories workingDirectory files includes := by
  have hlisted := map_ofText_directoryTexts workingDirectory files includes
  -- The directories of the files are in the list already.
  have hown : (files.map fun f => (AbsolutePath.ofText workingDirectory f).parent) ⊆
      includeDirectories workingDirectory files includes := by
    intro p hp
    exact List.mem_eraseDups.mpr (List.mem_append_right _ hp)
  have hdistinct : (includeDirectories workingDirectory files includes).Nodup := nodup_eraseDups _
  rw [includeDirectories, hlisted, eraseDups_append_of_subset hown, eraseDups_of_nodup hdistinct]

end ProtoSdl.Path

namespace ProtoSdl.Compiler

open ProtoSdl.Path

/-- The directories that the arguments name for the search of imports. -/
def handedDirectories : List String → List String
  | option :: value :: rest =>
    if option = "-I" then value :: handedDirectories rest else handedDirectories (value :: rest)
  | _ => []

theorem handedDirectories_cons {argument : String} (h : argument ≠ "-I") (rest : List String) :
    handedDirectories (argument :: rest) = handedDirectories rest := by
  cases rest with
  | nil => rfl
  | cons value rest => rw [handedDirectories, if_neg h]

theorem handedDirectories_eq_nil {arguments : List String} (h : ∀ a ∈ arguments, a ≠ "-I") :
    handedDirectories arguments = [] := by
  induction arguments with
  | nil => rfl
  | cons a arguments ih =>
    rw [handedDirectories_cons (h a List.mem_cons_self)]
    exact ih fun b hb => h b (List.mem_cons_of_mem _ hb)

theorem handedDirectories_options (directories : List String) {rest : List String}
    (h : ∀ a ∈ rest, a ≠ "-I") :
    handedDirectories (directories.flatMap (fun d => ["-I", d]) ++ rest) = directories := by
  induction directories with
  | nil => exact handedDirectories_eq_nil h
  | cons d directories ih =>
    rw [List.flatMap_cons, List.append_assoc]
    show handedDirectories ("-I" :: d :: (directories.flatMap _ ++ rest)) = _
    rw [handedDirectories, if_pos rfl, ih]

/-- The compiler is handed the texts of the include directories. -/
theorem handedDirectories_arguments (workingDirectory : AbsolutePath)
    (files includes : List String) (output : String) :
    handedDirectories ((invocation workingDirectory files includes).arguments output) =
      directoryTexts workingDirectory files includes := by
  -- Neither the output nor a file can be mistaken for the option of a directory.
  have houtput : "--descriptor_set_out=" ++ output ≠ "-I" := by
    intro h
    have hchars := congrArg String.toList h
    rw [String.toList_append] at hchars
    cases hchars
  have hfiles : ∀ a ∈ (invocation workingDirectory files includes).files.map AbsolutePath.text,
      a ≠ "-I" := by
    intro a ha
    obtain ⟨p, -, rfl⟩ := List.mem_map.mp ha
    intro h
    have hchars := congrArg String.toList h
    unfold AbsolutePath.text at hchars
    rw [String.toList_append] at hchars
    cases hroot : p.root <;> rw [hroot] at hchars <;> cases hchars
  have harguments : (invocation workingDirectory files includes).arguments output =
      "--include_imports" :: "--include_source_info" :: ("--descriptor_set_out=" ++ output) ::
        ((directoryTexts workingDirectory files includes).flatMap (fun d => ["-I", d]) ++
          (invocation workingDirectory files includes).files.map AbsolutePath.text) := by
    unfold directoryTexts
    rw [List.flatMap_map]
    rfl
  rw [harguments, handedDirectories_cons (by decide), handedDirectories_cons (by decide),
    handedDirectories_cons houtput, handedDirectories_options _ hfiles]

/-- No include directory is listed twice, and each text in the list is its own absolute form
everywhere. The list begins with the absolute forms of the explicit directories and goes on with
the directories of the files that are not among these, all in the order of first occurrence. As
explicit directories the list gives itself. It is what the compiler is handed, and the target is
named by what the compiler is handed. -/
theorem includeDirectories_normal (workingDirectory : AbsolutePath)
    (files includes : List String) :
    let explicit := includes.map (absoluteText workingDirectory)
    let own := files.map fun f => directoryText (absoluteText workingDirectory f)
    let listed := directoryTexts workingDirectory files includes
    listed.Nodup ∧
    (∀ elsewhere, listed.map (absoluteText elsewhere) = listed) ∧
    (∃ first rest, listed = first ++ rest ∧ (∀ t, t ∈ first ↔ t ∈ explicit) ∧
      ∀ t, t ∈ rest ↔ t ∈ own ∧ t ∉ explicit) ∧
    listed.Pairwise (fun t u => (explicit ++ own).idxOf t < (explicit ++ own).idxOf u) ∧
    directoryTexts workingDirectory files listed = listed ∧
    (∀ output, handedDirectories
      ((invocation workingDirectory files includes).arguments output) = listed) ∧
    ∀ file output,
      let handed :=
        handedDirectories ((invocation workingDirectory [file] includes).arguments output)
      targetName workingDirectory file includes = targetName workingDirectory file handed ∧
      targetName workingDirectory file includes =
        virtualName (AbsolutePath.ofText workingDirectory file)
          (handed.map (AbsolutePath.ofText workingDirectory)) := by
  intro explicit own listed
  have hlisted : listed = (explicit ++ own).eraseDups :=
    directoryTexts_eq workingDirectory files includes
  refine ⟨?_, ?_, ⟨explicit.eraseDups, (own.removeAll explicit).eraseDups, ?_, ?_, ?_⟩,
    ?_, ?_, ?_, ?_⟩
  · rw [hlisted]
    exact nodup_eraseDups _
  · intro elsewhere
    have hsame : absoluteText elsewhere ∘ AbsolutePath.text = AbsolutePath.text := by
      funext p
      exact congrArg AbsolutePath.text (AbsolutePath.ofText_text elsewhere p)
    show (List.map AbsolutePath.text _).map _ = List.map AbsolutePath.text _
    rw [List.map_map, hsame]
  · rw [hlisted, List.eraseDups_append]
  · exact fun t => List.mem_eraseDups
  · intro t
    rw [List.mem_eraseDups, List.removeAll, List.mem_filter]
    simp
  · rw [hlisted]
    exact pairwise_idxOf_eraseDups _
  · have hstable := includeDirectories_directoryTexts workingDirectory files includes
    exact congrArg (List.map AbsolutePath.text) hstable
  · exact handedDirectories_arguments workingDirectory files includes
  · intro file output handed
    have hhanded : handed = directoryTexts workingDirectory [file] includes :=
      handedDirectories_arguments workingDirectory [file] includes output
    rw [hhanded]
    unfold targetName
    rw [includeDirectories_directoryTexts, map_ofText_directoryTexts]
    exact ⟨rfl, rfl⟩

/-- Six texts for three directories, two of them roots. -/
theorem includeDirectories_normal_workshop :
    directoryTexts workshop ["lines/track.proto", "//old/../map.proto", "/index.proto"]
        ["./lines//yard/..", "///", "lines/"] = ["/work/lines", "/", "//"] ∧
      directoryTexts workshop ["lines/track.proto", "//old/../map.proto", "/index.proto"]
        ["/work/lines", "/", "//"] = ["/work/lines", "/", "//"] := by
  have hlisted : directoryTexts workshop
      ["lines/track.proto", "//old/../map.proto", "/index.proto"]
        ["./lines//yard/..", "///", "lines/"] = ["/work/lines", "/", "//"] := by decide +kernel
  obtain ⟨-, -, -, -, hstable, -⟩ := includeDirectories_normal workshop
    ["lines/track.proto", "//old/../map.proto", "/index.proto"]
    ["./lines//yard/..", "///", "lines/"]
  rw [hlisted] at hstable
  exact ⟨hlisted, hstable⟩

end ProtoSdl.Compiler
