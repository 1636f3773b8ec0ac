import ProtoSdl.Path.Absolute

/-!
  Lexical paths — path texts without what does not matter

  A lexical path is a path text without empty segments and `.` segments. It is not
  resolved: a `..` stays where it is. Discovered files are reported as lexical paths,
  and the name of an output is made from the stem of one.

  The suffix of a name begins at its last dot, if there is something on both sides
  of it; a name that begins or ends with its only dot has no suffix.
-/

namespace ProtoSdl.Path

structure LexicalPath where
  root : Option Root
  names : List String
  deriving DecidableEq, Repr

/-- The part of a name before its suffix, and the suffix. -/
def splitSuffix (name : String) : String × String :=
  let reversed := name.toList.reverse
  let extension := (reversed.takeWhile (· ≠ '.')).reverse
  match reversed.dropWhile (· ≠ '.') with
  | _ :: before =>
    if before = [] ∨ extension = [] then (name, "")
    else (String.ofList before.reverse, String.ofList ('.' :: extension))
  | [] => (name, "")

namespace LexicalPath

/-- The path of a text. -/
def ofText (text : String) : LexicalPath where
  root := root? text
  names := (segments text).filter fun s => s ≠ "" ∧ s ≠ "."

/-- The text of a path; a path without root and names is the directory itself. -/
def text (p : LexicalPath) : String :=
  match p.root with
  | some r => r.text ++ "/".intercalate p.names
  | none => if p.names.isEmpty then "." else "/".intercalate p.names

/-- The path of what lies below by these names. -/
def append (p : LexicalPath) (names : List String) : LexicalPath :=
  { p with names := p.names ++ names }

/-- The last name, or nothing. -/
def name (p : LexicalPath) : String := p.names.getLast?.getD ""

def stem (p : LexicalPath) : String := (splitSuffix p.name).1

def suffix (p : LexicalPath) : String := (splitSuffix p.name).2

end LexicalPath

/-- Nothing of a name is lost when its suffix is split off. -/
theorem append_splitSuffix (name : String) :
    (splitSuffix name).1 ++ (splitSuffix name).2 = name := by
  have h := List.takeWhile_append_dropWhile (p := (· ≠ '.')) (l := name.toList.reverse)
  have hc := List.head?_dropWhile_not (· ≠ '.') name.toList.reverse
  simp only [splitSuffix]
  cases hd : name.toList.reverse.dropWhile (· ≠ '.') with
  | nil => simp
  | cons c before =>
    rw [hd] at h hc
    have he : c = '.' := by simpa using hc
    dsimp only
    split
    · simp
    · apply String.toList_inj.1
      have := congrArg List.reverse h
      simpa [he] using this

/-- The text of a file in a directory. -/
def join (directory name : String) : String :=
  if directory = "" ∨ Text.hasSuffix "/" directory then directory ++ name
  else directory ++ "/" ++ name

end ProtoSdl.Path
