import ProtoSdl.Files.Discovery
import ProtoSdl.Proofs.Growth
import ProtoSdl.Proofs.PathTexts

/-!
  Named files — naming a schema file and searching its directory

  An input path that leads to a file stands for the file if it has the suffix of schema
  files. A path that leads to a directory stands for the files in it whose names end in this
  suffix. The two rules are compared on one file and the directory that it is in:

    1. `exists_parent` — the names of a path that leads to a file lead to the directory that
       the file is in, and then to the file.
    2. `schemaFiles?_of_file` and `mem_schemaFiles?_of_directory` — what the rules are about:
       a name has the suffix if it ends in it and is longer (`suffix_eq_schemaSuffix_iff`).
    3. `named_iff_listed` — so the two agree on all files but one kind, those whose name is
       nothing but the suffix. A recursive search finds all that another search finds.
-/

namespace ProtoSdl.Path

/-- There is something in front of a suffix. -/
theorem splitSuffix_fst_ne_empty {name : String} (h : (splitSuffix name).2 ≠ "") :
    (splitSuffix name).1 ≠ "" := by
  unfold splitSuffix at h ⊢
  dsimp only at h ⊢
  generalize name.toList.reverse.dropWhile (· ≠ '.') = rest at h ⊢
  cases rest with
  | nil => exact absurd rfl h
  | cons c before =>
    dsimp only at h ⊢
    split at h
    · exact absurd rfl h
    · rename_i hlong
      rw [if_neg hlong]
      simp [(not_or.mp hlong).1]

/-- A name with one more dot behind something has what follows this dot as its suffix. -/
theorem splitSuffix_append {before extension : List Char} (hbefore : before ≠ [])
    (hextension : extension ≠ []) (hdot : '.' ∉ extension) :
    splitSuffix (String.ofList (before ++ '.' :: extension)) =
      (String.ofList before, String.ofList ('.' :: extension)) := by
  have hreversed : (before ++ '.' :: extension).reverse =
      extension.reverse ++ '.' :: before.reverse := by simp
  have hletters : ∀ c ∈ extension.reverse, decide (c ≠ '.') = true := by
    intro c hc
    apply decide_eq_true
    rintro rfl
    exact hdot (List.mem_reverse.mp hc)
  unfold splitSuffix
  dsimp only
  rw [String.toList_ofList, hreversed, List.takeWhile_append_of_pos hletters,
    List.dropWhile_append_of_pos hletters]
  simp [hbefore, hextension]

/-- A name has a suffix if it ends in it and has something before it. -/
theorem suffix_eq_iff {name : String} {extension : List Char} (hne : extension ≠ [])
    (hdot : '.' ∉ extension) :
    (splitSuffix name).2 = String.ofList ('.' :: extension) ↔
      Text.hasSuffix (String.ofList ('.' :: extension)) name = true ∧
        name ≠ String.ofList ('.' :: extension) := by
  rw [Text.hasSuffix_iff, String.toList_ofList]
  constructor
  · intro h
    have hall := append_splitSuffix name
    have hfront : (splitSuffix name).1 ≠ "" := by
      apply splitSuffix_fst_ne_empty
      rw [h]
      simp
    rw [h] at hall
    refine ⟨⟨(splitSuffix name).1.toList, ?_⟩, fun hname => hfront ?_⟩
    · simpa using congrArg String.toList hall
    · rw [hname] at hall
      simpa [← hname] using congrArg String.toList hall
  · rintro ⟨⟨before, hbefore⟩, hname⟩
    obtain rfl : String.ofList (before ++ '.' :: extension) = name := by
      rw [hbefore, String.ofList_toList]
    have hlong : before ≠ [] := by
      rintro rfl
      exact hname rfl
    rw [splitSuffix_append hlong hne hdot]

namespace LexicalPath

/-- The path of what holds the last name. -/
def parent (p : LexicalPath) : LexicalPath := { p with names := p.names.dropLast }

variable {p : LexicalPath}

theorem names_parent {names : List String} {name : String} (h : p.names = names ++ [name]) :
    p.parent.names = names := by
  unfold parent
  rw [h, List.dropLast_concat]

theorem IsNormal.parent (h : p.IsNormal) : p.parent.IsNormal :=
  fun n hn => h n (List.dropLast_subset _ hn)

theorem IsNormal.append (h : p.IsNormal) {names : List String} (hn : ∀ n ∈ names, IsName n) :
    (p.append names).IsNormal := by
  intro n hmem
  rcases List.mem_append.mp hmem with hmem | hmem
  · exact h n hmem
  · exact (hn n hmem).isSegment

/-- The segments of a path without names lead nowhere else. -/
theorem segments_of_names_eq_nil (h : p.names = []) :
    p.text ≠ "" ∧ '\x00' ∉ p.text.toList ∧ root? p.text = p.root ∧
      ∀ s ∈ segments p.text, s = "" ∨ s = "." := by
  obtain ⟨root, names⟩ := p
  obtain rfl : names = [] := h
  cases root with
  | none => decide
  | some r => cases r <;> decide

theorem root?_text (h : p.IsNormal) : root? p.text = p.root := by
  by_cases hne : p.names = []
  · exact (segments_of_names_eq_nil hne).2.2.1
  · rw [text_eq_rooted hne, root?_rooted h]

theorem text_ne_empty (h : p.IsNormal) : p.text ≠ "" := by
  by_cases hne : p.names = []
  · exact (segments_of_names_eq_nil hne).1
  · intro he
    have hread := ofText_text h
    rw [he] at hread
    apply hne
    rw [← hread]
    rfl

/-- The text of a path begins with the text of its parent, if this one has names. -/
theorem text_eq_parent_append {names : List String} {name : String}
    (h : p.names = names ++ [name]) (hne : names ≠ []) :
    p.text = p.parent.text ++ "/" ++ name := by
  have hparent := names_parent h
  rw [text_eq_rooted (by simp [h]), text_eq_rooted (hparent ▸ hne), hparent, h]
  unfold rooted
  rw [String.intercalate_append_of_ne_nil hne (by simp), String.intercalate_singleton,
    String.append_assoc, String.append_assoc, String.append_assoc]
  rfl

end LexicalPath

end ProtoSdl.Path

namespace ProtoSdl.Files

open ProtoSdl.Path (LexicalPath IsName segments)

namespace FileSystem

variable {fs : FileSystem} {workingDirectory place : Place} {p : LexicalPath}

/-! ## The directory of a file -/

theorem not_isDirectory_of_file {content : String} (h : fs.get? place = some (.file content)) :
    ¬ fs.IsDirectory place := by
  unfold IsDirectory
  rw [h]
  exact nofun

/-- What holds a directory is a directory. -/
theorem isDirectory_dropLast (h : fs.IsDirectory place) : fs.IsDirectory place.dropLast := by
  rw [isDirectory_iff] at h ⊢
  rcases h with rfl | h
  · exact .inl rfl
  · exact fs.directories_closed place h

/-- Segments that lead nowhere else are followed from a directory only. -/
theorem follow_blank {pieces : List String} (h : ∀ s ∈ pieces, s = "" ∨ s = ".")
    (hne : pieces ≠ []) (place found : Place) :
    fs.follow place pieces = .ok found ↔ found = place ∧ fs.IsDirectory place := by
  induction pieces with
  | nil => exact absurd rfl hne
  | cons s pieces ih =>
    have hstay : Path.descend place s = place := if_pos (h s List.mem_cons_self)
    rw [follow, hstay]
    unfold IsDirectory
    cases hplace : fs.get? place with
    | none => simp
    | some e =>
      cases e with
      | file content => simp
      | directory =>
        dsimp only
        cases pieces with
        | nil =>
          rw [follow, hplace]
          simp [eq_comm]
        | cons t pieces =>
          have hrest := ih (fun u hu => h u (List.mem_cons_of_mem _ hu)) (by simp)
          unfold IsDirectory at hrest
          rw [hrest, hplace]

theorem start_parent (hp : p.IsNormal) :
    start workingDirectory p.parent.text = start workingDirectory p.text := by
  unfold start
  rw [LexicalPath.root?_text hp, LexicalPath.root?_text hp.parent]
  rfl

/-- A path with names leads where its names lead. -/
theorem locate_of_names (hp : p.IsNormal) (hne : p.names ≠ []) {found : Place} :
    fs.locate workingDirectory p.text = .ok found ↔
      hasNull p.text = false ∧
        fs.follow (start workingDirectory p.text) p.names = .ok found := by
  have hroot : ∀ names, fs.follow [] ("" :: names) = fs.follow [] names := by
    intro names
    have hget : fs.get? [] = some .directory := if_pos (.inl rfl)
    rw [follow, hget]
    rfl
  have hfollow : fs.follow (start workingDirectory p.text) (segments p.text) =
      fs.follow (start workingDirectory p.text) p.names := by
    unfold start
    rw [LexicalPath.root?_text hp, LexicalPath.text_eq_rooted hne, Path.segments_rooted hp hne]
    cases p.root with
    | none => rfl
    | some r =>
      cases r with
      | single => exact hroot _
      | double => exact (hroot _).trans (hroot _)
  unfold locate
  rw [← hfollow]
  cases hnull : hasNull p.text with
  | true => simp
  | false => simp [LexicalPath.text_ne_empty hp]

/-- A path without names leads to where the following of a path begins. -/
theorem locate_of_names_eq_nil (h : p.names = []) {found : Place} :
    fs.locate workingDirectory p.text = .ok found ↔
      found = start workingDirectory p.text ∧ fs.IsDirectory (start workingDirectory p.text) := by
  obtain ⟨htext, hnull, -, hblank⟩ := LexicalPath.segments_of_names_eq_nil h
  unfold locate
  rw [if_neg (by simp [htext, hasNull, hnull])]
  exact follow_blank hblank (Text.split_ne_nil _ _) _ _

/-- A path that leads to a file ends with the name of the file, and its parent leads to the
directory that the file is in. -/
theorem exists_parent (hp : p.IsNormal) (h : fs.locate workingDirectory p.text = .ok place)
    (hfile : ¬ fs.IsDirectory place) :
    ∃ names name directory, p.names = names ++ [name] ∧ IsName name ∧
      place = directory ++ [name] ∧ fs.IsDirectory directory ∧
      fs.locate workingDirectory p.parent.text = .ok directory := by
  rcases List.eq_nil_or_concat p.names with hnil | ⟨names, name, hnames⟩
  · obtain ⟨rfl, hdirectory⟩ := (locate_of_names_eq_nil hnil).mp h
    exact absurd hdirectory hfile
  · rw [List.concat_eq_append] at hnames
    obtain ⟨hnull, hfollow⟩ := (locate_of_names hp (by simp [hnames])).mp h
    rw [hnames, follow_append_eq_ok_iff] at hfollow
    obtain ⟨directory, hfollow, hdirectory, hlast⟩ := hfollow
    have hplace : place = Path.descend directory name := (follow_eq_ok fs hlast).1
    have hsegment := hp name (by simp [hnames])
    have hname : IsName name := by
      refine ⟨hsegment.1, hsegment.2.1, ?_, hsegment.2.2⟩
      rintro rfl
      -- The way up from a directory ends in a directory.
      apply hfile
      rw [hplace]
      exact isDirectory_dropLast hdirectory
    rw [Path.descend_name hname] at hplace
    refine ⟨names, name, directory, hnames, hname, hplace, hdirectory, ?_⟩
    have hparent := LexicalPath.names_parent hnames
    rw [← start_parent hp] at hfollow
    by_cases hne : names = []
    · subst hne
      obtain ⟨rfl, -⟩ := follow_eq_ok fs hfollow
      exact (locate_of_names_eq_nil hparent).mpr ⟨rfl, hdirectory⟩
    · refine (locate_of_names hp.parent (hparent ▸ hne)).mpr ⟨?_, hparent ▸ hfollow⟩
      unfold hasNull at hnull ⊢
      rw [LexicalPath.text_eq_parent_append hnames hne] at hnull
      simp only [String.toList_append, List.contains_eq_mem, decide_eq_false_iff_not,
        List.mem_append, not_or] at hnull ⊢
      exact hnull.1.1

/-! ## What an input path stands for -/

/-- Whether the input path stands for the file and nothing else. -/
def StandsFor (fs : FileSystem) (workingDirectory : Place) (input : String) (isRecursive : Bool)
    (file : String) : Prop :=
  fs.schemaFiles? workingDirectory input isRecursive = some [file]

/-- Whether the file is among those that the input path stands for. -/
def Lists (fs : FileSystem) (workingDirectory : Place) (input : String) (isRecursive : Bool)
    (file : String) : Prop :=
  ∃ found, fs.schemaFiles? workingDirectory input isRecursive = some found ∧ file ∈ found

variable {input : String} {isRecursive : Bool}

theorem below?_eq_some_iff {directory : Place} {names : List String} :
    below? directory place = some names ↔ place = directory ++ names ∧ names ≠ [] := by
  unfold below?
  constructor
  · intro h
    split at h
    · rename_i hprefix
      obtain ⟨rest, rfl⟩ := List.isPrefixOf_iff_prefix.mp hprefix
      rw [List.drop_left] at h
      cases rest with
      | nil => cases h
      | cons n rest =>
        cases h
        exact ⟨rfl, by simp⟩
    · cases h
  · rintro ⟨rfl, hne⟩
    rw [if_pos (List.isPrefixOf_iff_prefix.mpr (List.prefix_append _ _)), List.drop_left]
    cases names with
    | nil => exact absurd rfl hne
    | cons n names => rfl

theorem mem_schemaFilesBelow_iff {directory : Place} {names : List String} :
    names ∈ fs.schemaFilesBelow directory isRecursive ↔
      names ≠ [] ∧ (∃ content, (directory ++ names, content) ∈ fs.files) ∧
        isSchemaName names = true ∧ (isRecursive = true ∨ names.length = 1) := by
  unfold schemaFilesBelow
  rw [List.mem_filterMap]
  constructor
  · rintro ⟨⟨place, content⟩, hmem, h⟩
    dsimp only at h
    split at h
    · rename_i found hbelow
      obtain ⟨rfl, hne⟩ := below?_eq_some_iff.mp hbelow
      split at h
      · rename_i hkept
        cases h
        simp only [Bool.and_eq_true, Bool.or_eq_true, beq_iff_eq] at hkept
        exact ⟨hne, ⟨content, hmem⟩, hkept.1, hkept.2⟩
      · cases h
    · cases h
  · rintro ⟨hne, ⟨content, hmem⟩, hname, hdepth⟩
    refine ⟨_, hmem, ?_⟩
    have hbelow : below? directory (directory ++ names) = some names :=
      below?_eq_some_iff.mpr ⟨rfl, hne⟩
    dsimp only
    rw [hbelow]
    dsimp only
    rw [if_pos (by simp [hname, hdepth])]

/-- A path that leads to a file stands for the file if this has the suffix. -/
theorem schemaFiles?_of_file
    (h : fs.locate workingDirectory (LexicalPath.ofText input).text = .ok place)
    (hfile : ¬ fs.IsDirectory place) :
    fs.schemaFiles? workingDirectory input isRecursive =
      some (if (LexicalPath.ofText input).suffix = schemaSuffix then
        [(LexicalPath.ofText input).text] else []) := by
  unfold schemaFiles?
  dsimp only
  rw [h]
  dsimp only
  rw [if_neg hfile]
  split <;> rfl

/-- A path that leads to a directory lists the schema files below it. -/
theorem schemaFiles?_of_directory (isRecursive : Bool)
    (h : fs.locate workingDirectory (LexicalPath.ofText input).text = .ok place)
    (hdirectory : fs.IsDirectory place) :
    ∃ found, fs.schemaFiles? workingDirectory input isRecursive = some found ∧
      ∀ file, file ∈ found ↔ ∃ names ∈ fs.schemaFilesBelow place isRecursive,
        ((LexicalPath.ofText input).append names).text = file := by
  unfold schemaFiles?
  dsimp only
  rw [h]
  dsimp only
  rw [if_pos hdirectory]
  refine ⟨_, rfl, fun file => ?_⟩
  rw [List.mem_mergeSort, List.mem_map]

theorem exists_mem_files_of_get? {content : String} (h : fs.get? place = some (.file content)) :
    (place, content) ∈ fs.files := by
  obtain ⟨-, -, hlookup⟩ := (fs.get?_eq_file_iff place content).mp h
  obtain ⟨before, after, hfiles, -⟩ := List.lookup_eq_some_iff.mp hlookup
  rw [hfiles]
  simp

/-- The directory of a file lists the file if its name ends in the suffix. -/
theorem lists_parent_iff {content : String}
    (h : fs.locate workingDirectory (LexicalPath.ofText input).text = .ok place)
    (hfile : fs.get? place = some (.file content)) :
    fs.Lists workingDirectory (LexicalPath.ofText input).parent.text isRecursive
        (LexicalPath.ofText input).text ↔
      Text.hasSuffix schemaSuffix (LexicalPath.ofText input).name = true := by
  have hp := LexicalPath.isNormal_ofText input
  generalize LexicalPath.ofText input = p at *
  obtain ⟨names, name, directory, hnames, hname, rfl, hdirectory, hlocate⟩ :=
    exists_parent hp h (not_isDirectory_of_file hfile)
  have hread : LexicalPath.ofText p.parent.text = p.parent := LexicalPath.ofText_text hp.parent
  have hlast : p.name = name := by
    unfold LexicalPath.name
    rw [hnames, List.getLast?_concat]
    rfl
  have happend : p.parent.append [name] = p := by
    unfold LexicalPath.append LexicalPath.parent
    rw [hnames, List.dropLast_concat, ← hnames]
  rw [← hread] at hlocate
  obtain ⟨found, hfound, hmem⟩ := schemaFiles?_of_directory isRecursive hlocate hdirectory
  rw [hread] at hmem
  unfold Lists
  rw [hfound, hlast]
  constructor
  · rintro ⟨_, hsame, hlisted⟩
    cases hsame
    obtain ⟨below, hbelow, htext⟩ := (hmem _).mp hlisted
    obtain ⟨-, ⟨content', hcontent⟩, hschema, -⟩ := mem_schemaFilesBelow_iff.mp hbelow
    -- A listed path with the same text has the same names.
    have hbelowNames : ∀ n ∈ below, IsName n := fun n hn =>
      fs.file_names _ hcontent n (List.mem_append_right _ hn)
    have hsame := LexicalPath.eq_of_text_eq (hp.parent.append hbelowNames) hp htext
    have hbelowEq : below = [name] := by
      have hcancel := congrArg LexicalPath.names (hsame.trans happend.symm)
      exact List.append_cancel_left hcancel
    rw [hbelowEq] at hschema
    exact hschema
  · intro hsuffix
    refine ⟨found, rfl, (hmem _).mpr ⟨[name], ?_, by rw [happend]⟩⟩
    refine mem_schemaFilesBelow_iff.mpr ⟨by simp, ⟨content, exists_mem_files_of_get? hfile⟩, ?_, ?_⟩
    · exact hsuffix
    · exact .inr rfl

/-- A name has the suffix of schema files if it ends in it and is not all of it. -/
theorem suffix_eq_schemaSuffix_iff :
    p.suffix = schemaSuffix ↔
      Text.hasSuffix schemaSuffix p.name = true ∧ p.name ≠ schemaSuffix := by
  have hsuffix : schemaSuffix = String.ofList ('.' :: "proto".toList) := rfl
  unfold LexicalPath.suffix
  rw [hsuffix]
  exact Path.suffix_eq_iff (by decide) (by decide)

/-- A path that leads to a file stands for it if the name ends in the suffix and is longer. -/
theorem standsFor_iff {content : String}
    (h : fs.locate workingDirectory (LexicalPath.ofText input).text = .ok place)
    (hfile : fs.get? place = some (.file content)) :
    fs.StandsFor workingDirectory input isRecursive (LexicalPath.ofText input).text ↔
      Text.hasSuffix schemaSuffix (LexicalPath.ofText input).name = true ∧
        (LexicalPath.ofText input).name ≠ schemaSuffix := by
  unfold StandsFor
  rw [schemaFiles?_of_file h (not_isDirectory_of_file hfile), ← suffix_eq_schemaSuffix_iff]
  split
  · simp_all
  · simp_all

theorem schemaFilesBelow_subset (fs : FileSystem) (directory : Place) :
    fs.schemaFilesBelow directory false ⊆ fs.schemaFilesBelow directory true := by
  intro names h
  rw [mem_schemaFilesBelow_iff] at h ⊢
  exact ⟨h.1, h.2.1, h.2.2.1, .inl rfl⟩

/-- A recursive search finds what another one finds. -/
theorem schemaFiles?_subset {found : List String}
    (h : fs.schemaFiles? workingDirectory input false = some found) :
    ∃ found', fs.schemaFiles? workingDirectory input true = some found' ∧ found ⊆ found' := by
  unfold schemaFiles? at h ⊢
  dsimp only at h ⊢
  split at h
  · cases h
  · rename_i directory hlocate
    split at h
    · rename_i hdirectory
      cases h
      rw [if_pos hdirectory]
      refine ⟨_, rfl, fun file hfile => ?_⟩
      rw [List.mem_mergeSort] at hfile ⊢
      exact List.map_subset _ (fs.schemaFilesBelow_subset directory) hfile
    · rename_i hdirectory
      rw [if_neg hdirectory]
      exact ⟨found, h, List.Subset.refl found⟩

/-- A path that leads to a file stands for it exactly when the directory of the file lists it
and the name is more than the suffix of schema files. So naming a file and searching its
directory agree on all files but those whose name is this suffix: such a file is listed, and
its own path stands for nothing. A recursive search of a directory lists all that another
search of it lists. -/
theorem named_iff_listed (fs : FileSystem) (workingDirectory : Place) :
    (∀ (input : String) (place : Place) (content : String),
      fs.locate workingDirectory (LexicalPath.ofText input).text = .ok place →
      fs.get? place = some (.file content) →
      ∀ named listed : Bool,
        let path := LexicalPath.ofText input
        (fs.Lists workingDirectory path.parent.text listed path.text ↔
          Text.hasSuffix schemaSuffix path.name = true) ∧
        (fs.StandsFor workingDirectory input named path.text ↔
          fs.Lists workingDirectory path.parent.text listed path.text ∧
            path.name ≠ schemaSuffix) ∧
        ((fs.StandsFor workingDirectory input named path.text ↔
            fs.Lists workingDirectory path.parent.text listed path.text) ↔
          path.name ≠ schemaSuffix) ∧
        (path.name = schemaSuffix →
          fs.schemaFiles? workingDirectory input named = some [])) ∧
    ∀ (directory : String) (found : List String),
      fs.schemaFiles? workingDirectory directory false = some found →
        ∃ found', fs.schemaFiles? workingDirectory directory true = some found' ∧
          found ⊆ found' := by
  refine ⟨fun input place content hplace hfile named listed => ?_,
    fun directory found => schemaFiles?_subset⟩
  have hlisted := @lists_parent_iff fs workingDirectory place input listed content hplace hfile
  have hnamed := @standsFor_iff fs workingDirectory place input named content hplace hfile
  refine ⟨hlisted, ?_, ?_, fun hname => ?_⟩
  · rw [hnamed, hlisted]
  · rw [hnamed, hlisted]
    constructor
    · -- The suffix itself ends in the suffix.
      intro hagree hname
      have hends : Text.hasSuffix schemaSuffix (LexicalPath.ofText input).name = true := by
        rw [hname]
        decide
      exact (hagree.mpr hends).2 hname
    · intro hname
      exact and_iff_left hname
  · have hsuffix : (LexicalPath.ofText input).suffix ≠ schemaSuffix := by
      rw [Ne, suffix_eq_schemaSuffix_iff, hname]
      simp
    rw [schemaFiles?_of_file hplace (not_isDirectory_of_file hfile), if_neg hsuffix]

end FileSystem

/-- A directory with a schema file and a file that is named like the suffix. -/
def bareFiles : FileSystem :=
  ((FileSystem.empty.addDirectory [] "in").putFile ["in"] "a.proto" "").putFile ["in"] ".proto" ""

/-- The schema file is found by its name and in its directory, and a recursive search of the
directory finds both files. -/
theorem named_iff_listed_bareFiles :
    bareFiles.locate [] (LexicalPath.ofText "in/a.proto").text = .ok ["in", "a.proto"] ∧
      bareFiles.get? ["in", "a.proto"] = some (.file "") ∧
      (bareFiles.StandsFor [] "in/a.proto" false "in/a.proto" ↔
        bareFiles.Lists [] "in" true "in/a.proto") ∧
      ∃ found', bareFiles.schemaFiles? [] "in" true = some found' ∧
        ["in/.proto", "in/a.proto"] ⊆ found' := by
  have hplace : bareFiles.locate [] (LexicalPath.ofText "in/a.proto").text =
      .ok ["in", "a.proto"] := rfl
  have hfile : bareFiles.get? ["in", "a.proto"] = some (.file "") := by decide +kernel
  have hfound : bareFiles.schemaFiles? [] "in" false =
      some ((["in/.proto", "in/a.proto"] : List String).mergeSort fun a b => decide (a ≤ b)) := rfl
  rw [List.mergeSort_of_pairwise (by decide +kernel)] at hfound
  obtain ⟨hfiles, hdirectories⟩ := FileSystem.named_iff_listed bareFiles []
  have hagree := (hfiles "in/a.proto" _ "" hplace hfile false true).2.2.1
  have htext : (LexicalPath.ofText "in/a.proto").text = "in/a.proto" := by decide +kernel
  have hparent : (LexicalPath.ofText "in/a.proto").parent.text = "in" := by decide +kernel
  rw [htext, hparent] at hagree
  exact ⟨hplace, hfile, hagree.mpr (by decide +kernel), hdirectories "in" _ hfound⟩

/-- A file may be listed by its directory while its own path stands for nothing. -/
theorem exists_file_listed_only :
    ∃ (fs : FileSystem) (workingDirectory : Place) (input : String) (place : Place)
      (content : String),
      fs.locate workingDirectory (LexicalPath.ofText input).text = .ok place ∧
      fs.get? place = some (.file content) ∧
      fs.schemaFiles? workingDirectory input false = some [] ∧
      fs.Lists workingDirectory (LexicalPath.ofText input).parent.text false
        (LexicalPath.ofText input).text := by
  have hplace : bareFiles.locate [] (LexicalPath.ofText "in/.proto").text =
      .ok ["in", ".proto"] := rfl
  have hfile : bareFiles.get? ["in", ".proto"] = some (.file "") := by decide +kernel
  refine ⟨bareFiles, [], "in/.proto", _, _, hplace, hfile, rfl, ?_⟩
  exact (FileSystem.lists_parent_iff hplace hfile).mpr (by decide +kernel)

end ProtoSdl.Files
