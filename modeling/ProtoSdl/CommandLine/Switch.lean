import ProtoSdl.Text.Split

/-!
  Switches — the named parts of a command line

  A switch has a letter, written after one hyphen, and a word, written after two.
  Some switches take a value. `Switch.ofName?` finds a switch by its letter or word,
  and `Switch.withPrefix` lists those whose word may be meant by a beginning of it.
-/

namespace ProtoSdl.CommandLine

inductive Switch where
  | help
  | recursive
  | includes
  | jobs
  deriving DecidableEq, Repr

namespace Switch

/-- The switches in the order in which they are told. -/
def all : List Switch := [help, recursive, includes, jobs]

/-- The hyphen and the letter. -/
def short : Switch → String
  | help => "-h"
  | recursive => "-r"
  | includes => "-I"
  | jobs => "-j"

/-- The hyphens and the word. -/
def long : Switch → String
  | help => "--help"
  | recursive => "--recursive"
  | includes => "--proto-path"
  | jobs => "--jobs"

/-- Both names, as an error tells them. -/
def label (s : Switch) : String := s.short ++ "/" ++ s.long

def takesValue : Switch → Bool
  | help => false
  | recursive => false
  | includes => true
  | jobs => true

/-- The switch of this name. -/
def ofName? (name : String) : Option Switch :=
  all.find? fun s => s.short = name ∨ s.long = name

/-- The switches whose word begins like this. -/
def withPrefix (beginning : String) : List Switch :=
  all.filter fun s => Text.hasPrefix beginning s.long

end Switch

end ProtoSdl.CommandLine
