import ProtoSdl.Compiler
import ProtoSdl.Proofs.PathTexts
import ProtoSdl.Proofs.PrintedReferences

/-!
  Target names — the name by which a file is found in the compiler's answer

  The compiler calls a file by its path below the first include directory that the file is
  in. A file that is read alone is looked for under its virtual name, which is to be the same
  path:

    1. `exists_firstHolder` — there is such a directory: at least that of the file itself.
    2. `relativeText` writes the names below it. The text leads from the directory to the file
       (`ofText_relativeText`), and different names have different texts
       (`relativeText_injective`).
    3. `virtualName_eq_iff` says when the virtual name is this text. It is for every place
       below the single root, because a directory contains the place exactly when it holds
       it (`contains_iff_holds`).
    4. Below a double root no directory contains what it holds, so that the virtual name is
       that below a directory of the same names at the single root, or the base name. So the
       file may be missed (`exists_file_missed`).

  `selected_iff_named` puts this together for the file that is selected from the answer.
-/

namespace ProtoSdl.Path

/-- Whether the element is the first one with the property. -/
def IsFirst {α : Type} (P : α → Prop) (as : List α) (a : α) : Prop :=
  ∃ before after, as = before ++ a :: after ∧ P a ∧ ∀ b ∈ before, ¬ P b

/-- Whether the place is the directory itself or lies below it. -/
def Holds (directory place : AbsolutePath) : Prop :=
  directory.root = place.root ∧ directory.names <+: place.names

instance (directory place : AbsolutePath) : Decidable (Holds directory place) :=
  inferInstanceAs (Decidable (_ ∧ _))

/-- The text of names that are followed from a directory. -/
def relativeText : List String → String
  | [] => "."
  | n :: names => "/".intercalate (n :: names)

theorem isFirst_iff {α : Type} {P : α → Prop} [DecidablePred P] {as : List α} {a : α} :
    IsFirst P as a ↔ as.find? (fun b => decide (P b)) = some a := by
  unfold IsFirst
  rw [List.find?_eq_some_iff_append, decide_eq_true_eq]
  constructor
  · rintro ⟨before, after, has, ha, hbefore⟩
    exact ⟨ha, before, after, has, fun b hb => by simpa using hbefore b hb⟩
  · rintro ⟨ha, before, after, has, hbefore⟩
    exact ⟨before, after, has, ha, fun b hb => by simpa using hbefore b hb⟩

/-! ## Names below a directory -/

theorem relativeText_singleton (n : String) : relativeText [n] = n :=
  @String.intercalate_singleton "/" n

theorem segments_relativeText {names : List String} (h : ∀ n ∈ names, IsName n) :
    segments (relativeText names) = if names = [] then ["."] else names := by
  cases names with
  | nil => decide
  | cons n names =>
    rw [if_neg (by simp)]
    exact Text.split_intercalate (by simp) fun m hm => (h m hm).2.2.2

theorem relativeText_injective {names others : List String} (h : ∀ n ∈ names, IsName n)
    (h' : ∀ n ∈ others, IsName n) (heq : relativeText names = relativeText others) :
    names = others := by
  have hdot : ∀ ns : List String, (∀ n ∈ ns, IsName n) → ns ≠ ["."] := by
    rintro ns hns rfl
    exact (hns "." List.mem_cons_self).2.1 rfl
  have hsegments := congrArg segments heq
  rw [segments_relativeText h, segments_relativeText h'] at hsegments
  by_cases hn : names = []
  · by_cases ho : others = []
    · rw [hn, ho]
    · rw [if_pos hn, if_neg ho] at hsegments
      exact absurd hsegments.symm (hdot others h')
  · by_cases ho : others = []
    · rw [if_neg hn, if_pos ho] at hsegments
      exact absurd hsegments (hdot names h)
    · rwa [if_neg hn, if_neg ho] at hsegments

theorem AbsolutePath.eq_of {p q : AbsolutePath} (hroot : p.root = q.root)
    (hnames : p.names = q.names) : p = q := by
  obtain ⟨root, names, valid⟩ := p
  obtain ⟨root', names', valid'⟩ := q
  obtain rfl : root = root' := hroot
  obtain rfl : names = names' := hnames
  rfl

/-- The text of the names below a directory leads from there to the place. -/
theorem ofText_relativeText {directory place : AbsolutePath} {rest : List String}
    (hroot : directory.root = place.root) (hnames : place.names = directory.names ++ rest) :
    AbsolutePath.ofText directory (relativeText rest) = place := by
  have hrest : ∀ n ∈ rest, IsName n := fun n hn =>
    place.names_valid n (hnames ▸ List.mem_append_right _ hn)
  cases rest with
  | nil =>
    have hdot : AbsolutePath.ofText directory "." = directory := rfl
    rw [relativeText, hdot]
    exact AbsolutePath.eq_of hroot (by rw [hnames, List.append_nil])
  | cons n rest =>
    obtain ⟨hroot', hnames'⟩ := directory.ofText_intercalate hrest
    exact AbsolutePath.eq_of (hroot'.trans hroot) (hnames'.trans hnames.symm)

/-! ## The virtual name -/

variable {place directory : AbsolutePath} {directories : List AbsolutePath} {rest : List String}

theorem below_eq (directory place : AbsolutePath) :
    below directory place = relativeText (place.names.drop directory.names.length) := by
  unfold below relativeText
  cases place.names.drop directory.names.length <;> rfl

/-- At the single root a directory contains what it holds. -/
theorem contains_iff_holds (hroot : place.root = .single) (directory : AbsolutePath) :
    contains directory place = true ↔ Holds directory place := by
  rw [contains_iff, Holds, hroot]

/-- The directory of a file holds it. -/
theorem holds_parent (place : AbsolutePath) : Holds place.parent place :=
  ⟨rfl, List.dropLast_prefix _⟩

/-- Among the include directories of a file there is a first one that holds it. -/
theorem exists_firstHolder (workingDirectory : AbsolutePath) (file : String)
    (includes : List String) :
    ∃ directory rest,
      IsFirst (Holds · (AbsolutePath.ofText workingDirectory file))
        (includeDirectories workingDirectory [file] includes) directory ∧
      (AbsolutePath.ofText workingDirectory file).names = directory.names ++ rest := by
  generalize hplace : AbsolutePath.ofText workingDirectory file = place
  have hparent : place.parent ∈ includeDirectories workingDirectory [file] includes := by
    unfold includeDirectories
    rw [List.mem_eraseDups]
    simp [hplace]
  have hsome : ((includeDirectories workingDirectory [file] includes).find?
      fun d => decide (Holds d place)).isSome = true := by
    rw [List.find?_isSome]
    exact ⟨_, hparent, decide_eq_true (holds_parent place)⟩
  obtain ⟨directory, hdirectory⟩ := Option.isSome_iff_exists.mp hsome
  have hfirst := isFirst_iff.mpr hdirectory
  obtain ⟨-, -, -, hholds, -⟩ := id hfirst
  obtain ⟨rest, hrest⟩ := hholds.2
  exact ⟨directory, rest, hfirst, hrest.symm⟩

/-- A virtual name is the text of the last names of the place, or nothing. -/
theorem virtualName_cases (place : AbsolutePath) (directories : List AbsolutePath) :
    (∃ e rest, IsFirst (fun d => contains d place = true) directories e ∧
        place.names = e.names ++ rest ∧ virtualName place directories = relativeText rest) ∨
      (∀ e ∈ directories, contains e place = false) ∧
        virtualName place directories = place.baseName := by
  unfold virtualName
  cases hfind : directories.find? (contains · place) with
  | some e =>
    left
    have hfirst : IsFirst (fun d => contains d place = true) directories e := by
      rw [isFirst_iff, ← hfind]
      simp
    obtain ⟨-, -, -, hcontains, -⟩ := id hfirst
    exact ⟨e, _, hfirst, names_eq_of_contains hcontains, below_eq e place⟩
  | none =>
    right
    refine ⟨fun e he => ?_, rfl⟩
    simpa using List.find?_eq_none.mp hfind e he

/-- No segment of a virtual name leads up. -/
theorem dots_not_mem_segments_virtualName (place : AbsolutePath)
    (directories : List AbsolutePath) : ".." ∉ segments (virtualName place directories) := by
  rcases virtualName_cases place directories with ⟨e, rest, -, hnames, hname⟩ | ⟨-, hname⟩
  · have hrest : ∀ n ∈ rest, IsName n := fun n hn =>
      place.names_valid n (hnames ▸ List.mem_append_right _ hn)
    rw [hname, segments_relativeText hrest]
    split
    · decide
    · exact fun h => (hrest ".." h).2.2.1 rfl
  · rw [hname]
    unfold AbsolutePath.baseName
    cases hlast : place.names.getLast? with
    | none => decide
    | some n =>
      have hn := place.names_valid n (List.mem_of_getLast? hlast)
      have hsegments : segments (relativeText [n]) = [n] := segments_relativeText (by simpa using hn)
      rw [Option.getD_some, ← relativeText_singleton n, hsegments, List.mem_singleton]
      exact fun h => hn.2.2.1 h.symm

/-- Below the directory that is taken, the virtual name is that below another directory if both
have the same names. -/
theorem virtualName_eq_iff_of_contains {e : AbsolutePath}
    (he : IsFirst (fun d => contains d place = true) directories e)
    (hnames : place.names = directory.names ++ rest) :
    virtualName place directories = relativeText rest ↔ e.names = directory.names := by
  have hfind := isFirst_iff.mp he
  obtain ⟨-, -, -, hcontains, -⟩ := he
  have htext : virtualName place directories = below e place := by
    unfold virtualName
    simp only [Bool.decide_eq_true] at hfind
    rw [hfind]
  have hbelow := names_eq_of_contains hcontains
  rw [htext, below_eq]
  constructor
  · intro h
    -- The same names are left, so the same names are in front of them.
    have hsame := relativeText_injective
      (fun n hn => place.names_valid n (List.drop_subset _ _ hn))
      (fun n hn => place.names_valid n (hnames ▸ List.mem_append_right _ hn)) h
    rw [hsame, hnames] at hbelow
    exact (List.append_cancel_right hbelow).symm
  · intro h
    rw [h, hnames, List.drop_left]

/-- Where no directory is taken, the virtual name is that below a directory if this is the
parent. -/
theorem virtualName_eq_iff_of_not_contains (hnone : ∀ e ∈ directories, contains e place = false)
    (hnames : place.names = directory.names ++ rest) :
    virtualName place directories = relativeText rest ↔
      place.names ≠ [] ∧ directory.names = place.parent.names := by
  have htext : virtualName place directories = place.baseName := by
    unfold virtualName
    rw [List.find?_eq_none.mpr fun e he => by simp [hnone e he]]
  have hparent : place.parent.names = place.names.dropLast := rfl
  rw [htext, hparent]
  unfold AbsolutePath.baseName
  rcases List.eq_nil_or_concat place.names with hnil | ⟨names, n, hconcat⟩
  · have hempty : rest = [] := (List.append_eq_nil_iff.mp (hnil ▸ hnames).symm).2
    rw [hnil, hempty]
    simp [relativeText]
  · rw [List.concat_eq_append] at hconcat
    have hn : IsName n := place.names_valid n (by simp [hconcat])
    rw [hconcat] at hnames ⊢
    rw [List.getLast?_concat, Option.getD_some, List.dropLast_concat]
    refine ⟨fun h => ⟨by simp, ?_⟩, fun ⟨_, h⟩ => ?_⟩
    · rw [← relativeText_singleton n] at h
      have hsame := relativeText_injective (by simpa using hn) (fun m hm => ?_) h
      · rw [← hsame] at hnames
        exact (List.append_cancel_right hnames).symm
      · exact place.names_valid m (hconcat ▸ hnames ▸ List.mem_append_right _ hm)
    · rw [h] at hnames
      rw [← List.append_cancel_left hnames, relativeText_singleton]

/-- The virtual name is the path below the first directory that holds the place if and only if
the place is at the single root, or the directory that is taken has the same names, or none is
taken and the place is directly in the directory. -/
theorem virtualName_eq_iff (hfirst : IsFirst (Holds · place) directories directory)
    (hnames : place.names = directory.names ++ rest) :
    virtualName place directories = relativeText rest ↔
      place.root = .single ∨
      (∃ e, IsFirst (fun d => contains d place = true) directories e ∧
        e.names = directory.names) ∨
      (∀ e ∈ directories, contains e place = false) ∧ place.names ≠ [] ∧
        directory = place.parent := by
  have hsingle (hroot : place.root = .single) :
      IsFirst (fun d => contains d place = true) directories directory := by
    simp only [contains_iff_holds hroot]
    exact hfirst
  obtain ⟨-, -, -, hholds, -⟩ := id hfirst
  cases hfind : directories.find? (contains · place) with
  | some e =>
    have he : IsFirst (fun d => contains d place = true) directories e := by
      rw [isFirst_iff]
      simpa using hfind
    have hunique : ∀ e', IsFirst (fun d => contains d place = true) directories e' → e' = e := by
      intro e' he'
      rw [isFirst_iff] at he he'
      exact Option.some.inj (he'.symm.trans he)
    rw [virtualName_eq_iff_of_contains he hnames]
    constructor
    · exact fun h => .inr (.inl ⟨e, he, h⟩)
    · rintro (hroot | ⟨e', he', h⟩ | ⟨hnone, -⟩)
      · rw [hunique directory (hsingle hroot)]
      · rw [← hunique e' he']
        exact h
      · obtain ⟨before, after, rfl, hcontains, -⟩ := he
        exact absurd hcontains (by simp [hnone e (by simp)])
  | none =>
    have hnone : ∀ e ∈ directories, contains e place = false := by
      simpa using hfind
    have hnot : ∀ e, ¬ IsFirst (fun d => contains d place = true) directories e := by
      rintro e ⟨before, after, rfl, hcontains, -⟩
      exact absurd hcontains (by simp [hnone e (by simp)])
    rw [virtualName_eq_iff_of_not_contains hnone hnames]
    constructor
    · exact fun ⟨hne, h⟩ => .inr (.inr ⟨hnone, hne, AbsolutePath.eq_of hholds.1 h⟩)
    · rintro (hroot | ⟨e, he, -⟩ | ⟨-, hne, rfl⟩)
      · exact absurd (hsingle hroot) (hnot directory)
      · exact absurd he (hnot e)
      · exact ⟨hne, rfl⟩

end ProtoSdl.Path

namespace ProtoSdl.Compiler

open ProtoSdl.Path (AbsolutePath IsFirst Holds relativeText)

/-- Of the files of a set whose names differ, those of one name are at most one. -/
theorem targets_eq_iff {s : Descriptor.Set} {f : Descriptor.File} {name wanted : String}
    (hf : f ∈ s.files) (hname : f.name = .text name)
    (hdistinct : (s.files.map Descriptor.File.name).Nodup) :
    s.targets (some [wanted]) = [f] ↔ wanted = name := by
  have htargets : s.targets (some [wanted]) = s.files.filter (·.name = .text wanted) := by
    unfold Descriptor.Set.targets
    refine List.filter_congr fun g _ => ?_
    simp
  rw [htargets]
  constructor
  · intro h
    have hmem : f ∈ s.files.filter (·.name = .text wanted) := by
      rw [h]
      exact List.mem_singleton_self f
    have hwanted := of_decide_eq_true (List.mem_filter.mp hmem).2
    rw [hname] at hwanted
    exact (Name.text.inj hwanted).symm
  · rintro rfl
    have hnames : (s.files.filterMap fun g => some g.name).Nodup := by
      rw [List.filterMap_eq_map']
      exact hdistinct
    have hone := Descriptor.filter_eq_singleton hnames hf (congrArg some hname)
    simpa using hone

/-- What is loaded of a set in which the name selects one file is declared by this file. -/
theorem declarations_of_loadTree {workingDirectory : AbsolutePath} {file : String}
    {includes : List String} {outcome : Outcome} {s : Descriptor.Set} {f : Descriptor.File}
    {t : Schema.Tree} (hset : outcome.set = .ok s)
    (htargets : s.targets (some [targetName workingDirectory file includes]) = [f])
    (h : loadTree workingDirectory file includes outcome = .ok t) :
    Descriptor.graftFiles s.names [f] [] = .ok t.declarations := by
  unfold loadTree at h
  rw [hset] at h
  dsimp only at h
  split at h
  · cases h
  · rename_i tree htree
    cases h
    rw [← htargets]
    exact Descriptor.Set.graftFiles_of_tree htree

/-- Among the include directories of a file there is a first one that holds it, and the names
below this directory lead to the file. The target name is the text of these names if and only if
the file is below the single root, or the directory that is taken for it has the same names, or
none is taken and the file is directly in its directory. Where the compiler calls the files by
different names, and this one by its path below the directory, exactly then it is the file that
is selected, and the declarations that are loaded are its own. A target name never leads up. -/
theorem selected_iff_named (workingDirectory : AbsolutePath) (file : String)
    (includes : List String) :
    let place := AbsolutePath.ofText workingDirectory file
    let directories := Path.includeDirectories workingDirectory [file] includes
    let name := targetName workingDirectory file includes
    ".." ∉ Path.segments name ∧
    ∃ directory rest,
      IsFirst (Holds · place) directories directory ∧
      place.names = directory.names ++ rest ∧
      AbsolutePath.ofText directory (relativeText rest) = place ∧
      (name = relativeText rest ↔
        place.root = .single ∨
        (∃ e, IsFirst (fun d => Path.contains d place = true) directories e ∧
          e.names = directory.names) ∨
        (∀ e ∈ directories, Path.contains e place = false) ∧ place.names ≠ [] ∧
          directory = place.parent) ∧
      ∀ (s : Descriptor.Set) (f : Descriptor.File), f ∈ s.files →
        f.name = .text (relativeText rest) → (s.files.map Descriptor.File.name).Nodup →
          (s.targets (some [name]) = [f] ↔ name = relativeText rest) ∧
          (name = relativeText rest → ∀ (outcome : Outcome) (t : Schema.Tree),
            outcome.set = .ok s → loadTree workingDirectory file includes outcome = .ok t →
              Descriptor.graftFiles s.names [f] [] = .ok t.declarations) := by
  intro place directories name
  refine ⟨Path.dots_not_mem_segments_virtualName place directories, ?_⟩
  obtain ⟨directory, rest, hfirst, hnames⟩ :=
    Path.exists_firstHolder workingDirectory file includes
  obtain ⟨-, -, -, hholds, -⟩ := id hfirst
  refine ⟨directory, rest, hfirst, hnames, Path.ofText_relativeText hholds.1 hnames,
    Path.virtualName_eq_iff hfirst hnames, fun s f hf hname hdistinct => ?_⟩
  have htargets : s.targets (some [name]) = [f] ↔ name = relativeText rest :=
    targets_eq_iff hf hname hdistinct
  exact ⟨htargets, fun h outcome t hset ht =>
    declarations_of_loadTree hset (htargets.mpr h) ht⟩

def stationFile : Descriptor.File :=
  { name := "rail/station.proto", dialect := "proto3", messages := [{ name := "Station" }] }

/-- A file and one that it imports, by the names that the compiler calls them. -/
def stationSet : Descriptor.Set :=
  ⟨[{ name := "rail/track.proto", dialect := "proto3", messages := [{ name := "Track" }] },
    stationFile]⟩

def stationTree : Schema.Tree :=
  { dialect := "proto3", declarations := [.message { name := "Station" } []] }

/-- The directory `/work`. -/
def workshop : AbsolutePath := .ofText (.ofRoot .single) "work"

theorem loadTree_station :
    loadTree workshop "lines/./rail//station.proto" ["lines/old/.."] (.descriptors stationSet) =
      .ok stationTree := by
  have htree : loadTree workshop "lines/./rail//station.proto" ["lines/old/.."]
      (.descriptors stationSet) =
        .ok ⟨"proto3", Descriptor.graft [] (Descriptor.inSourceOrder []
          [([4, 0], .message { name := "Station" } (Descriptor.inSourceOrder [] []))]) []⟩ := rfl
  rw [htree]
  simp only [Descriptor.inSourceOrder_nil]
  rfl

/-- The station is found below the first of two directories that hold it. -/
theorem selected_iff_named_station :
    stationFile ∈ stationSet.files ∧
      stationFile.name = .text (relativeText ["rail", "station.proto"]) ∧
      (stationSet.files.map Descriptor.File.name).Nodup ∧
      targetName workshop "lines/./rail//station.proto" ["lines/old/.."] = "rail/station.proto" ∧
      stationSet.targets
        (some [targetName workshop "lines/./rail//station.proto" ["lines/old/.."]]) =
          [stationFile] ∧
      Descriptor.graftFiles stationSet.names [stationFile] [] = .ok stationTree.declarations := by
  have hmem : stationFile ∈ stationSet.files := by simp [stationSet]
  have hdistinct : (stationSet.files.map Descriptor.File.name).Nodup := by decide
  obtain ⟨-, directory, rest, hfirst, hnames, -, hiff, hselected⟩ :=
    selected_iff_named workshop "lines/./rail//station.proto" ["lines/old/.."]
  have hdirectory : (Path.includeDirectories workshop ["lines/./rail//station.proto"]
      ["lines/old/.."]).find? (fun d => decide (Holds d
        (AbsolutePath.ofText workshop "lines/./rail//station.proto"))) =
      some (AbsolutePath.ofText workshop "lines") := by rfl
  obtain rfl := Option.some.inj ((Path.isFirst_iff.mp hfirst).symm.trans hdirectory)
  have hsplit : ["work", "lines"] ++ ["rail", "station.proto"] = ["work", "lines"] ++ rest :=
    hnames
  obtain rfl := List.append_cancel_left hsplit
  have hname : stationFile.name = .text (relativeText ["rail", "station.proto"]) := by rfl
  have htarget := hiff.mpr (.inl rfl)
  obtain ⟨htargets, hloaded⟩ := hselected stationSet stationFile hmem hname hdistinct
  exact ⟨hmem, hname, hdistinct, htarget, htargets.mpr htarget,
    hloaded htarget (.descriptors stationSet) stationTree rfl loadTree_station⟩

/-- Below the double root a file may be missed, although the compiler calls it by its path below
the first directory that holds it. -/
theorem exists_file_missed :
    ∃ (workingDirectory : AbsolutePath) (file : String) (includes : List String)
      (directory : AbsolutePath) (rest : List String) (s : Descriptor.Set) (f : Descriptor.File),
      IsFirst (Holds · (AbsolutePath.ofText workingDirectory file))
        (Path.includeDirectories workingDirectory [file] includes) directory ∧
      (AbsolutePath.ofText workingDirectory file).names = directory.names ++ rest ∧
      targetName workingDirectory file includes ≠ relativeText rest ∧
      f ∈ s.files ∧ f.name = .text (relativeText rest) ∧
      s.targets (some [targetName workingDirectory file includes]) = [] := by
  refine ⟨workshop, "//lines/rail/station.proto", ["//lines"],
    AbsolutePath.ofText workshop "//lines", ["rail", "station.proto"], stationSet, stationFile,
    ?_, rfl, by decide +kernel, by simp [stationSet], rfl, rfl⟩
  rw [Path.isFirst_iff]
  rfl

end ProtoSdl.Compiler
