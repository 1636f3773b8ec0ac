import ProtoSdl.Text.Split

/-!
  Absolute paths — a root and the names below it

  A path text names a place relative to a working directory. Its absolute form has
  no empty segment, no `.` and no `..`: a `..` takes back the name before it, and at
  the root it has no effect. There are two roots, because exactly two slashes at the
  beginning of a text are kept as two; more than two are one.

  `AbsolutePath` is this normal form. `AbsolutePath.ofText` computes it from a text
  by walking through the segments (`descend`), and `AbsolutePath.text` writes it.
-/

namespace ProtoSdl.Path

/-- What stands between the names of a path. -/
def separator : Char := '/'

/-- The segments of a path text. -/
def segments (text : String) : List String := Text.split separator text

/-- Whether the text is a name that a path in normal form can hold. -/
def IsName (s : String) : Prop := s ≠ "" ∧ s ≠ "." ∧ s ≠ ".." ∧ separator ∉ s.toList

/-- The beginning of an absolute path. -/
inductive Root where
  | single
  | double
  deriving DecidableEq, Repr

def Root.text : Root → String
  | single => "/"
  | double => "//"

/-- The root that a path text begins with; none for a relative path. -/
def root? (text : String) : Option Root :=
  if Text.hasPrefix "///" text then some .single
  else if Text.hasPrefix "//" text then some .double
  else if Text.hasPrefix "/" text then some .single
  else none

/-- A place in normal form. -/
structure AbsolutePath where
  root : Root
  names : List String
  names_valid : ∀ n ∈ names, IsName n
  deriving DecidableEq

/-- The names after one more segment. -/
def descend (names : List String) (segment : String) : List String :=
  if segment = "" ∨ segment = "." then names
  else if segment = ".." then names.dropLast
  else names ++ [segment]

theorem isName_of_mem_descend {names : List String} {segment : String}
    (h : ∀ n ∈ names, IsName n) (hs : separator ∉ segment.toList) :
    ∀ n ∈ descend names segment, IsName n := by
  intro n hn
  unfold descend at hn
  split at hn
  · exact h n hn
  · rename_i hdot
    split at hn
    · exact h n (List.dropLast_subset _ hn)
    · rename_i hdots
      rcases List.mem_append.1 hn with hn | hn
      · exact h n hn
      · obtain rfl := List.mem_singleton.1 hn
        exact ⟨fun e => hdot (.inl e), fun e => hdot (.inr e), hdots, hs⟩

theorem isName_of_mem_foldl_descend {names pieces : List String}
    (h : ∀ n ∈ names, IsName n) (hp : ∀ p ∈ pieces, separator ∉ p.toList) :
    ∀ n ∈ pieces.foldl descend names, IsName n := by
  induction pieces generalizing names with
  | nil => exact h
  | cons p pieces ih =>
    exact ih (isName_of_mem_descend h (hp p (by simp))) fun q hq => hp q (by simp [hq])

namespace AbsolutePath

/-- The place after the segments of a text. -/
def walk (start : AbsolutePath) (text : String) : AbsolutePath where
  root := start.root
  names := (segments text).foldl descend start.names
  names_valid := isName_of_mem_foldl_descend start.names_valid
    fun _ h => Text.not_mem_of_mem_split h

/-- The root itself. -/
def ofRoot (r : Root) : AbsolutePath := ⟨r, [], by simp⟩

/-- The place that a path text names in a working directory. -/
def ofText (workingDirectory : AbsolutePath) (text : String) : AbsolutePath :=
  match root? text with
  | some r => (ofRoot r).walk text
  | none => workingDirectory.walk text

/-- The text of a place. -/
def text (p : AbsolutePath) : String := p.root.text ++ "/".intercalate p.names

/-- The directory that holds the place; the root holds itself. -/
def parent (p : AbsolutePath) : AbsolutePath where
  root := p.root
  names := p.names.dropLast
  names_valid := fun n h => p.names_valid n (List.dropLast_subset _ h)

/-- The last name, or nothing for the root. -/
def baseName (p : AbsolutePath) : String := p.names.getLast?.getD ""

end AbsolutePath

end ProtoSdl.Path
