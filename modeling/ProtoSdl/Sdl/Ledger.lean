import ProtoSdl.Sdl.Error
import ProtoSdl.Sdl.WellKnown

/-!
  Ledger — what one document has declared so far

  While a document is being written the ledger holds the type names that are taken,
  the well-known types that were declared on first use, and the root operation types
  that have a block. Each document begins with the empty ledger and nothing else is
  carried from one block to the next.

  An `Emit` computation reads and extends the ledger and may fail; what it did before
  it failed remains. Three operations extend the ledger:

    1. `claim` takes type names, all of them or, if one is taken already, none
       (`claim_ok_iff`, `claim_error_iff`).
    2. `declareWellKnown` declares a well-known type unless its key was declared
       before; a refused claim leaves the ledger as it was (`declareWellKnown_apply`).
    3. `openRoot` answers whether a root type's block is the first one
       (`openRoot_apply`).
-/

namespace ProtoSdl.Sdl

structure Ledger where
  /-- The keys of the well-known types declared so far, newest first. -/
  keys : List String := []
  /-- The well-known types declared so far, newest first. -/
  wellKnown : List WellKnownType := []
  /-- The names of the root types that have a block, newest first. -/
  roots : List String := []
  /-- The taken type names, oldest first. -/
  taken : List Name := []
  deriving DecidableEq, Repr

/-- The ledger with these type names taken. -/
def Ledger.take (l : Ledger) (names : List Name) : Ledger :=
  { l with taken := l.taken ++ names.eraseDups }

/-- A computation that extends a ledger; a failure keeps what was done before. -/
abbrev Emit := EStateM ConversionError Ledger

/-- Takes the type names, or fails with the first one that is taken already. -/
def claim (names : List Name) : Emit Unit := fun l =>
  match names.find? (l.taken.contains ·) with
  | some n => .error (.duplicateType n) l
  | none => .ok () (l.take names)

/-- Declares a well-known type under its key and puts the declaration in front;
answers false, and does nothing, if the key was declared before. -/
def declareWellKnown (key : String) (t : WellKnownType) : Emit Bool := do
  if (← get).keys.contains key then
    return false
  else
    claim [.text t.name]
    modify fun l => { l with keys := key :: l.keys, wellKnown := t :: l.wellKnown }
    return true

/-- The keyword before a root type's block: the first block declares the type,
the later ones extend it. -/
inductive RootKeyword where
  | declare
  | extend
  deriving DecidableEq, Repr

def RootKeyword.text : RootKeyword → String
  | declare => "type"
  | extend => "extend type"

/-- Opens a block of the root type. -/
def openRoot (name : String) : Emit RootKeyword := do
  if (← get).roots.contains name then
    return .extend
  else
    modify fun l => { l with roots := name :: l.roots }
    return .declare

/-- A claim succeeds when no name is taken yet. -/
theorem claim_ok_iff (names : List Name) (l s : Ledger) :
    claim names l = .ok () s ↔ (∀ n ∈ names, n ∉ l.taken) ∧ s = l.take names := by
  cases h : names.find? (l.taken.contains ·) with
  | some n =>
    have hm := List.mem_of_find?_eq_some h
    have ht := List.find?_some h
    rw [List.contains_iff_mem] at ht
    simp only [claim, h, reduceCtorEq, false_iff, not_and]
    exact fun hf => absurd ht (hf n hm)
  | none =>
    have hn : ∀ n ∈ names, n ∉ l.taken := by simpa using h
    simp only [claim, h, EStateM.Result.ok.injEq, true_and]
    exact ⟨fun he => ⟨hn, he.symm⟩, fun he => he.2.symm⟩

/-- A refused claim names the first name that is taken and changes nothing. -/
theorem claim_error_iff (names : List Name) (e : ConversionError) (l s : Ledger) :
    claim names l = .error e s ↔
      s = l ∧ ∃ n, names.find? (l.taken.contains ·) = some n ∧ e = .duplicateType n := by
  cases h : names.find? (l.taken.contains ·) with
  | some n =>
    simp only [claim, h, EStateM.Result.error.injEq, Option.some.injEq, exists_eq_left']
    exact ⟨fun he => ⟨he.2.symm, he.1.symm⟩, fun he => ⟨he.2.symm, he.1.symm⟩⟩
  | none => simp only [claim, h, reduceCtorEq, false_and, exists_false, and_false]

theorem declareWellKnown_apply (key : String) (t : WellKnownType) (l : Ledger) :
    declareWellKnown key t l =
      if l.keys.contains key then .ok false l
      else match claim [.text t.name] l with
        | .ok () s => .ok true { s with keys := key :: s.keys, wellKnown := t :: s.wellKnown }
        | .error e s => .error e s := by
  unfold declareWellKnown
  have run : ∀ f : Ledger → Emit Bool, (do let s ← get; f s : Emit Bool) l = f l l :=
    fun _ => rfl
  rw [run]
  split
  · rfl
  · show EStateM.bind (claim [.text t.name]) _ l = _
    unfold EStateM.bind
    cases claim [.text t.name] l <;> rfl

theorem openRoot_apply (name : String) (l : Ledger) :
    openRoot name l =
      if l.roots.contains name then .ok .extend l
      else .ok .declare { l with roots := name :: l.roots } := by
  unfold openRoot
  have run : ∀ f : Ledger → Emit RootKeyword, (do let s ← get; f s : Emit RootKeyword) l = f l l :=
    fun _ => rfl
  rw [run]
  split <;> rfl

end ProtoSdl.Sdl
