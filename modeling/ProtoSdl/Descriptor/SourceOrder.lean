import ProtoSdl.Descriptor.Basic

/-!
  Source order — declarations in the order of the source text

  A descriptor lists messages, enumerations and services apart. Their locations
  tell in which order they were written: a part's position is the line and column
  of the first location for the part's path whose span has at least two numbers.
  `inSourceOrder` sorts siblings by position and keeps the descriptor's order where
  positions are equal; a part without position comes after all that have one.
-/

namespace ProtoSdl.Descriptor

/-- A line and a column; none for a part that no location describes. -/
abbrev Position := Option (Int × Int)

/-- Whether a part at the first position may stand before one at the second. -/
def Position.le : Position → Position → Bool
  | some (line, column), some (line', column') =>
    line < line' || (line == line' && column ≤ column')
  | _, none => true
  | none, some _ => false

/-- The position that the location gives, if its span is long enough. -/
def Location.position (l : Location) : Position :=
  match l.span with
  | line :: column :: _ => some (line, column)
  | _ => none

/-- The position of the part with this path. -/
def positionOf (locations : List Location) (path : List Int) : Position :=
  locations.findSome? fun l => if l.path = path then l.position else none

/-- The siblings by their positions. -/
def inSourceOrder {α : Type} (locations : List Location) (siblings : List (List Int × α)) :
    List α :=
  let placed := siblings.map fun s => (positionOf locations s.1, s.2)
  (placed.mergeSort fun a b => a.1.le b.1).map Prod.snd

theorem Position.le_trans {a b c : Position} (h : a.le b = true) (h' : b.le c = true) :
    a.le c = true := by
  cases a <;> cases b <;> cases c <;> simp_all [Position.le]
  omega

theorem Position.le_total (a b : Position) : (a.le b || b.le a) = true := by
  cases a <;> cases b <;> simp [Position.le]
  omega

/-- Sorting moves siblings and changes none of them. -/
theorem inSourceOrder_perm {α : Type} (locations : List Location)
    (siblings : List (List Int × α)) :
    (inSourceOrder locations siblings).Perm (siblings.map Prod.snd) := by
  have h := ((siblings.map fun s => (positionOf locations s.1, s.2)).mergeSort_perm
    fun a b => a.1.le b.1).map Prod.snd
  simpa [inSourceOrder, List.map_map, Function.comp_def] using h

/-- Without locations the descriptor's order is kept. -/
theorem inSourceOrder_nil {α : Type} (siblings : List (List Int × α)) :
    inSourceOrder [] siblings = siblings.map Prod.snd := by
  unfold inSourceOrder
  dsimp only
  rw [List.mergeSort_of_pairwise, List.map_map]
  · rfl
  · rw [List.pairwise_map]
    apply List.pairwise_of_forall
    intro a b
    rfl

end ProtoSdl.Descriptor
