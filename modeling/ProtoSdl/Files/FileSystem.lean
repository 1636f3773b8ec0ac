import ProtoSdl.Path.Absolute

/-!
  File system — directories and files by their places

  A place is the list of names that lead to it from the root; the root itself is the
  empty list. A file system lists its directories and its files with their contents.
  The root is always a directory. The type carries what holds of every file system:
  what exists stands in a directory, nothing is both file and directory, no file is
  listed twice, and all names are names.

  `get?` is the view through which a file system is seen. The two changes are
  `addDirectory` and `putFile`; each is without effect where it is not possible, and
  the `get?` lemmas say what each does to the view.
-/

namespace ProtoSdl.Files

open ProtoSdl.Path (IsName)

instance (s : String) : Decidable (IsName s) := inferInstanceAs (Decidable (_ ∧ _))

/-- The names that lead from the root to a directory or a file. -/
abbrev Place := List String

inductive Entry where
  | directory
  | file (content : String)
  deriving DecidableEq, Repr

structure FileSystem where
  directories : List Place
  files : List (Place × String)
  directories_closed : ∀ p ∈ directories, p.dropLast = [] ∨ p.dropLast ∈ directories
  files_closed : ∀ f ∈ files, f.1.dropLast = [] ∨ f.1.dropLast ∈ directories
  disjoint : ∀ f ∈ files, f.1 ≠ [] ∧ f.1 ∉ directories
  nodup_files : (files.map Prod.fst).Nodup
  directory_names : ∀ p ∈ directories, ∀ n ∈ p, IsName n
  file_names : ∀ f ∈ files, ∀ n ∈ f.1, IsName n

namespace FileSystem

/-- The file system that holds nothing but the root. -/
def empty : FileSystem :=
  ⟨[], [], by simp, by simp, by simp, by simp, by simp, by simp⟩

/-- What is at the place. -/
def get? (fs : FileSystem) (p : Place) : Option Entry :=
  if p = [] ∨ p ∈ fs.directories then some .directory
  else (fs.files.lookup p).map .file

def IsDirectory (fs : FileSystem) (p : Place) : Prop := fs.get? p = some .directory

instance (fs : FileSystem) (p : Place) : Decidable (fs.IsDirectory p) :=
  inferInstanceAs (Decidable (_ = _))

theorem isDirectory_iff (fs : FileSystem) (p : Place) :
    fs.IsDirectory p ↔ p = [] ∨ p ∈ fs.directories := by
  unfold IsDirectory get?
  split
  · simp_all
  · rename_i h
    simp [h]

theorem isName_of_isDirectory {fs : FileSystem} {p : Place} (h : fs.IsDirectory p) :
    ∀ n ∈ p, IsName n := by
  rcases (fs.isDirectory_iff p).1 h with rfl | h
  · simp
  · exact fs.directory_names p h

theorem isName_of_mem_append {p : Place} {name : String} (hp : ∀ n ∈ p, IsName n)
    (hn : IsName name) : ∀ n ∈ p ++ [name], IsName n := by
  intro n h
  rcases List.mem_append.1 h with h | h
  · exact hp n h
  · obtain rfl := List.mem_singleton.1 h
    exact hn

theorem get?_eq_file_iff (fs : FileSystem) (p : Place) (content : String) :
    fs.get? p = some (.file content) ↔
      p ≠ [] ∧ p ∉ fs.directories ∧ fs.files.lookup p = some content := by
  unfold get?
  split
  · simp only [Option.some.injEq, reduceCtorEq, false_iff]
    rintro ⟨h₁, h₂, -⟩
    simp_all
  · rename_i h
    rw [not_or] at h
    simp [h]

/-- The file system with a new directory, if its place is free. -/
def addDirectory (fs : FileSystem) (parent : Place) (name : String) : FileSystem :=
  if h : fs.IsDirectory parent ∧ IsName name ∧ fs.get? (parent ++ [name]) = none then
    { directories := (parent ++ [name]) :: fs.directories
      files := fs.files
      directories_closed := by
        have hp := (fs.isDirectory_iff parent).1 h.1
        intro p hm
        rcases List.mem_cons.1 hm with rfl | hm
        · simp only [List.dropLast_concat]
          exact hp.imp_right (List.mem_cons_of_mem _)
        · exact (fs.directories_closed p hm).imp_right (List.mem_cons_of_mem _)
      files_closed := fun f hf =>
        (fs.files_closed f hf).imp_right (List.mem_cons_of_mem _)
      disjoint := by
        intro f hf
        refine ⟨(fs.disjoint f hf).1, fun hm => ?_⟩
        rcases List.mem_cons.1 hm with he | hm
        · have hn := h.2.2
          unfold get? at hn
          split at hn
          · cases hn
          · rw [Option.map_eq_none_iff, List.lookup_eq_none_iff] at hn
            simpa [he] using hn f hf
        · exact (fs.disjoint f hf).2 hm
      nodup_files := fs.nodup_files
      directory_names := by
        intro p hm
        rcases List.mem_cons.1 hm with rfl | hm
        · exact isName_of_mem_append (isName_of_isDirectory h.1) h.2.1
        · exact fs.directory_names p hm
      file_names := fs.file_names }
  else fs

/-- The file system with this content in the file, which may be new; no effect at
the place of a directory. -/
def putFile (fs : FileSystem) (parent : Place) (name content : String) : FileSystem :=
  if h : fs.IsDirectory parent ∧ IsName name ∧ ¬ fs.IsDirectory (parent ++ [name]) then
    { directories := fs.directories
      files := (parent ++ [name], content) :: fs.files.filter (·.1 ≠ parent ++ [name])
      directories_closed := fs.directories_closed
      files_closed := by
        intro f hm
        rcases List.mem_cons.1 hm with rfl | hm
        · simpa using (fs.isDirectory_iff parent).1 h.1
        · exact fs.files_closed f (List.mem_filter.1 hm).1
      disjoint := by
        intro f hm
        rcases List.mem_cons.1 hm with rfl | hm
        · refine ⟨by simp, fun hd => h.2.2 ((fs.isDirectory_iff _).2 (.inr hd))⟩
        · exact fs.disjoint f (List.mem_filter.1 hm).1
      nodup_files := by
        rw [List.map_cons, List.nodup_cons]
        constructor
        · simp
        · exact fs.nodup_files.sublist (List.filter_sublist.map Prod.fst)
      directory_names := fs.directory_names
      file_names := by
        intro f hm
        rcases List.mem_cons.1 hm with rfl | hm
        · exact isName_of_mem_append (isName_of_isDirectory h.1) h.2.1
        · exact fs.file_names f (List.mem_filter.1 hm).1 }
  else fs

/-! ## What the changes do to the view -/

theorem get?_addDirectory {fs : FileSystem} {parent : Place} {name : String}
    (h : fs.IsDirectory parent ∧ IsName name ∧ fs.get? (parent ++ [name]) = none) (p : Place) :
    (fs.addDirectory parent name).get? p =
      if p = parent ++ [name] then some .directory else fs.get? p := by
  rw [addDirectory, dif_pos h]
  by_cases he : p = parent ++ [name]
  · simp [get?, he]
  · simp [get?, he]

theorem lookup_filter_ne {β : Type} (l : List (Place × β)) {p q : Place} (h : p ≠ q) :
    (l.filter (·.1 ≠ q)).lookup p = l.lookup p := by
  induction l with
  | nil => rfl
  | cons e l ih =>
    obtain ⟨k, v⟩ := e
    by_cases hk : k = q
    · subst hk
      have : (p == k) = false := by simpa using h
      simpa [List.filter_cons, List.lookup_cons, this] using ih
    · simp only [List.filter_cons, ne_eq, hk, not_false_eq_true, decide_true, if_true,
        List.lookup_cons]
      cases p == k
      · simpa using ih
      · rfl

theorem get?_putFile {fs : FileSystem} {parent : Place} {name : String} (content : String)
    (h : fs.IsDirectory parent ∧ IsName name ∧ ¬ fs.IsDirectory (parent ++ [name]))
    (p : Place) :
    (fs.putFile parent name content).get? p =
      if p = parent ++ [name] then some (.file content) else fs.get? p := by
  have hd := h.2.2
  rw [isDirectory_iff] at hd
  rw [putFile, dif_pos h]
  by_cases he : p = parent ++ [name]
  · subst he
    simp only [get?, hd, if_false, if_true, List.lookup_cons, beq_self_eq_true, Option.map_some]
  · have hb : (p == parent ++ [name]) = false := by simpa using he
    simp only [get?, he, if_false, List.lookup_cons, hb, lookup_filter_ne _ he]

end FileSystem

end ProtoSdl.Files
