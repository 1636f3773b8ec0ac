import ProtoSdl.Path.Absolute

/-!
  Lineage — a path text and the texts of the directories above it

  To create a directory with all directories above it one goes up from its text by
  cutting off the last segment and the slashes before it. `lineage` lists what one
  meets, the text itself first. A relative path ends with its first segment, an
  absolute one with the slashes at its beginning. The texts are not normalised: each
  of them is a beginning of the one before.
-/

namespace ProtoSdl.Path

/-- A path text with its last segment; nothing for a text of slashes alone. -/
structure Step where
  text : String
  last : String
  deriving DecidableEq, Repr

/-- The text of segments in reversed order. -/
def joinReversed (reversed : List String) : String := "/".intercalate reversed.reverse

/-- The steps above a segment; the segments before it are given in reversed order. -/
def stepsAbove : List String → List Step
  | [] => []
  | s :: above =>
    if s ≠ "" then ⟨joinReversed (s :: above), s⟩ :: stepsAbove above
    else if above.all (· = "") then [⟨joinReversed ("" :: "" :: above), ""⟩]
    else stepsAbove above

/-- The last segment of a path text and the segments before it in reversed order;
slashes at the end do not matter. -/
def lastSegment? (text : String) : Option (String × List String) :=
  match (segments text).reverse.dropWhile (· = "") with
  | [] => none
  | last :: above => some (last, above)

/-- The text itself and the texts above it. -/
def lineage (text : String) : List Step :=
  match lastSegment? text with
  | none => [⟨text, ""⟩]
  | some (last, above) => ⟨text, last⟩ :: stepsAbove above

end ProtoSdl.Path
