import ProtoSdl.Files.FileSystem

/-!
  Following a path — from a path text to a place

  A path text is followed segment by segment from the root or from the working
  directory. Empty segments and `.` stay, `..` goes up, any other segment goes down;
  but a further segment can be followed only from a directory. So `a/..` leads
  nowhere unless `a` is a directory, although its normal form does not mention `a`.

  A text that holds a null character names nothing.
-/

namespace ProtoSdl.Files

/-- Why a path text leads nowhere. -/
inductive Obstacle where
  /-- Something on the way, or the end of it, does not exist. -/
  | absent
  /-- Something on the way is a file. -/
  | notADirectory
  deriving DecidableEq, Repr

namespace FileSystem

variable (fs : FileSystem)

/-- The place that the segments lead to. -/
def follow : Place → List String → Except Obstacle Place
  | p, [] => if (fs.get? p).isSome then .ok p else .error .absent
  | p, s :: rest =>
    match fs.get? p with
    | some .directory => follow (Path.descend p s) rest
    | some (.file _) => .error .notADirectory
    | none => .error .absent

/-- Where the following of a path text begins. -/
def start (workingDirectory : Place) (text : String) : Place :=
  if (Path.root? text).isSome then [] else workingDirectory

/-- Whether the text holds a null character. -/
def hasNull (text : String) : Bool := text.toList.contains '\x00'

/-- The place that a path text leads to. -/
def locate (workingDirectory : Place) (text : String) : Except Obstacle Place :=
  if text = "" ∨ hasNull text then .error .absent
  else fs.follow (start workingDirectory text) (Path.segments text)

/-- Whether the path text leads to something. -/
def pathExists (workingDirectory : Place) (text : String) : Bool :=
  match fs.locate workingDirectory text with
  | .ok _ => true
  | .error _ => false

/-- Whether the path text leads to a directory. -/
def isDirectoryPath (workingDirectory : Place) (text : String) : Bool :=
  match fs.locate workingDirectory text with
  | .ok p => fs.IsDirectory p
  | .error _ => false

/-- A path that leads somewhere leads to the place that its normal form names. -/
theorem follow_eq_ok {p q : Place} {pieces : List String} (h : fs.follow p pieces = .ok q) :
    q = pieces.foldl Path.descend p ∧ (fs.get? q).isSome := by
  induction pieces generalizing p with
  | nil =>
    simp only [follow] at h
    split at h
    · cases h
      exact ⟨rfl, by assumption⟩
    · cases h
  | cons s rest ih =>
    simp only [follow] at h
    split at h
    · exact ih h
    · cases h
    · cases h

end FileSystem

end ProtoSdl.Files
