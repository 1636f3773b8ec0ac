import ProtoSdl.Descriptor.NameTable

/-!
  Declaration places — where in a set a declaration stands

  A declaration has a place in its set: the index of the file, the indexes of the messages
  around it, and its own. Whatever stands at a place is found slot by slot (`Set.at?`), map
  entries like all other messages. Places are compared slot by slot as well: messages come
  before enumerations, and a message comes before what is in it.

  The walk over a set meets what stands at some place and nothing else (`mem_setWalk`), in the
  order of places (`isOrdered_setWalk`).
-/

namespace ProtoSdl.Descriptor

/-! ## Places -/

/-- What a set lists files, and a file or a message lists messages and enumerations under. -/
inductive Slot where
  | file (index : Nat)
  | message (index : Nat)
  | enumeration (index : Nat)
  deriving DecidableEq, Repr

/-- Messages stand before enumerations, and of one kind the lower index first. -/
def Slot.Before : Slot → Slot → Prop
  | file i, file j => i < j
  | message i, message j => i < j
  | message _, enumeration _ => True
  | enumeration i, enumeration j => i < j
  | _, _ => False

instance : LT Slot := ⟨Slot.Before⟩

/-- A declaration in its file: the names of the messages around it, the outermost first, and
its own name. -/
structure Lineage where
  above : List Name
  name : Name
  isEnumeration : Bool
  deriving DecidableEq, Repr

namespace Lineage

def names (l : Lineage) : List Name := l.above ++ [l.name]

/-- The declaration inside one more message. -/
def below (outer : Name) (l : Lineage) : Lineage := { l with above := outer :: l.above }

/-- The names from the outermost message down to the declaration, joined by separators. -/
def joined (l : Lineage) : String := nestingSeparator.intercalate (l.names.map Name.shown)

/-- The GraphQL name; an enumeration that is in no message keeps its name as it is. -/
def chain (l : Lineage) : Name :=
  if l.isEnumeration = true ∧ l.above = [] then l.name else .text l.joined

end Lineage

/-- A declaration of a set. -/
structure Declared where
  package : Name
  lineage : Lineage
  deriving DecidableEq, Repr

/-- The package, if there is one, and the names down to the declaration, each after a dot. -/
def Declared.full (d : Declared) : String :=
  "." ++ ".".intercalate
    ((if d.package = .text "" then [] else [d.package.shown]) ++ d.lineage.names.map Name.shown)

/-- The message itself, or what is declared in it at the place. -/
def Message.at? : List Slot → Message → Option Lineage
  | [], m => some { above := [], name := m.name, isEnumeration := false }
  | [.enumeration i], m =>
    m.enumerations[i]?.map fun e =>
      { above := [m.name], name := e.name, isEnumeration := true }
  | .message i :: place, m => (m.nested[i]?.bind (Message.at? place)).map (Lineage.below m.name)
  | _, _ => none

/-- What is declared in the file at the place. -/
def File.at? : List Slot → File → Option Lineage
  | [.enumeration i], f =>
    f.enumerations[i]?.map fun e => { above := [], name := e.name, isEnumeration := true }
  | .message i :: place, f => f.messages[i]?.bind (Message.at? place)
  | _, _ => none

/-- What is declared in the set at the place. -/
def Set.at? : List Slot → Set → Option Declared
  | .file i :: place, s =>
    s.files[i]?.bind fun f => (f.at? place).map fun l => { package := f.package, lineage := l }
  | _, _ => none

/-! ## The walk -/

/-- Enumerations that are declared side by side, with their places. -/
def enumerationWalk (es : List Enumeration) : List (List Slot × Lineage) :=
  es.zipIdx.map fun e =>
    ([.enumeration e.2], { above := [], name := e.1.name, isEnumeration := true })

mutual

/-- The message and all declarations in it in the order of the walk, with their places. -/
def Message.walk : Message → List (List Slot × Lineage)
  | ⟨name, _, nested, enumerations, _, _⟩ =>
    ([], { above := [], name, isEnumeration := false }) ::
      (messageWalk 0 nested ++ enumerationWalk enumerations).map (Prod.map id (Lineage.below name))

/-- The walk over messages that are declared side by side from the index on. -/
def messageWalk : Nat → List Message → List (List Slot × Lineage)
  | _, [] => []
  | i, m :: rest => m.walk.map (Prod.map (.message i :: ·) id) ++ messageWalk (i + 1) rest

end

def File.walk (f : File) : List (List Slot × Lineage) :=
  messageWalk 0 f.messages ++ enumerationWalk f.enumerations

def Set.walk (s : Set) : List (List Slot × Declared) :=
  s.files.zipIdx.flatMap fun f =>
    f.1.walk.map (Prod.map (.file f.2 :: ·) fun l => { package := f.1.package, lineage := l })

variable {place : List Slot} {l : Lineage}

/-! ### What is met -/

theorem mem_enumerationWalk (es : List Enumeration) :
    (place, l) ∈ enumerationWalk es ↔
      ∃ i e, place = [.enumeration i] ∧ es[i]? = some e ∧
        l = { above := [], name := e.name, isEnumeration := true } := by
  unfold enumerationWalk
  constructor
  · intro h
    obtain ⟨⟨e, i⟩, he, heq⟩ := List.mem_map.mp h
    cases heq
    exact ⟨i, e, rfl, List.mem_zipIdx_iff_getElem?.mp he, rfl⟩
  · rintro ⟨i, e, rfl, he, rfl⟩
    exact List.mem_map.mpr ⟨(e, i), List.mem_zipIdx_iff_getElem?.mpr he, rfl⟩

mutual

/-- The walk over a message meets what stands at some place. -/
theorem mem_walk : ∀ (m : Message) (place : List Slot) (l : Lineage),
    (place, l) ∈ m.walk ↔ m.at? place = some l
  | ⟨name, fields, nested, enumerations, oneofs, mapEntry⟩, place, l => by
    rw [Message.walk, List.mem_cons, List.mem_map]
    constructor
    · rintro (h | ⟨⟨inner, l'⟩, h, heq⟩)
      · cases h
        rfl
      · cases heq
        rcases List.mem_append.mp h with h | h
        · obtain ⟨i, n, rest, rfl, hn, hat⟩ := (mem_messageWalk nested 0 inner l').mp h
          rw [Nat.zero_add]
          show (nested[i]?.bind (Message.at? rest)).map _ = _
          rw [hn, Option.bind_some, hat]
          rfl
        · obtain ⟨i, e, rfl, he, rfl⟩ := (mem_enumerationWalk enumerations).mp h
          show enumerations[i]?.map _ = _
          rw [he]
          rfl
    · intro h
      match place, h with
      | [], h =>
        cases h
        exact .inl rfl
      | .message i :: rest, h =>
        obtain ⟨l', hl', rfl⟩ := Option.map_eq_some_iff.mp h
        obtain ⟨n, hn, hat⟩ := Option.bind_eq_some_iff.mp hl'
        refine .inr ⟨(.message i :: rest, l'), List.mem_append_left _ ?_, rfl⟩
        rw [mem_messageWalk nested 0]
        exact ⟨i, n, rest, by rw [Nat.zero_add], hn, hat⟩
      | [.enumeration i], h =>
        obtain ⟨e, he, rfl⟩ := Option.map_eq_some_iff.mp h
        have hmem := (mem_enumerationWalk enumerations).mpr ⟨i, e, rfl, he, rfl⟩
        exact .inr ⟨_, List.mem_append_right _ hmem, rfl⟩

theorem mem_messageWalk : ∀ (ms : List Message) (i : Nat) (place : List Slot) (l : Lineage),
    (place, l) ∈ messageWalk i ms ↔
      ∃ j m rest, place = .message (i + j) :: rest ∧ ms[j]? = some m ∧ m.at? rest = some l
  | [], i, place, l => by simp [messageWalk]
  | m :: ms, i, place, l => by
    rw [messageWalk, List.mem_append, List.mem_map, mem_messageWalk ms]
    constructor
    · rintro (⟨⟨rest, l'⟩, h, heq⟩ | ⟨j, n, rest, rfl, hn, hat⟩)
      · cases heq
        exact ⟨0, m, rest, rfl, rfl, (mem_walk m rest l').mp h⟩
      · exact ⟨j + 1, n, rest, by rw [Nat.add_right_comm, Nat.add_assoc], hn, hat⟩
    · rintro ⟨j, n, rest, rfl, hn, hat⟩
      cases j with
      | zero =>
        obtain rfl := Option.some.inj hn
        exact .inl ⟨(rest, l), (mem_walk m rest l).mpr hat, rfl⟩
      | succ j => exact .inr ⟨j, n, rest, by rw [Nat.add_right_comm, Nat.add_assoc], hn, hat⟩

end

theorem mem_fileWalk (f : File) : (place, l) ∈ f.walk ↔ f.at? place = some l := by
  unfold File.walk
  rw [List.mem_append, mem_messageWalk, mem_enumerationWalk]
  constructor
  · rintro (⟨i, m, rest, rfl, hm, hat⟩ | ⟨i, e, rfl, he, rfl⟩)
    · rw [Nat.zero_add]
      show f.messages[i]?.bind _ = _
      rw [hm, Option.bind_some, hat]
    · show f.enumerations[i]?.map _ = _
      rw [he]
      rfl
  · intro h
    match place, h with
    | .message i :: rest, h =>
      obtain ⟨m, hm, hat⟩ := Option.bind_eq_some_iff.mp h
      exact .inl ⟨i, m, rest, by rw [Nat.zero_add], hm, hat⟩
    | [.enumeration i], h =>
      obtain ⟨e, he, rfl⟩ := Option.map_eq_some_iff.mp h
      exact .inr ⟨i, e, rfl, he, rfl⟩

variable {d : Declared}

theorem mem_setWalk (s : Set) : (place, d) ∈ s.walk ↔ s.at? place = some d := by
  unfold Set.walk
  rw [List.mem_flatMap]
  constructor
  · rintro ⟨⟨f, i⟩, hf, h⟩
    obtain ⟨⟨rest, l⟩, hl, heq⟩ := List.mem_map.mp h
    cases heq
    show s.files[i]?.bind _ = _
    rw [List.mem_zipIdx_iff_getElem?.mp hf, Option.bind_some, (mem_fileWalk f).mp hl]
    rfl
  · intro h
    match place, h with
    | .file i :: rest, h =>
      obtain ⟨f, hf, hat⟩ := Option.bind_eq_some_iff.mp h
      obtain ⟨l, hl, rfl⟩ := Option.map_eq_some_iff.mp hat
      refine ⟨(f, i), List.mem_zipIdx_iff_getElem?.mpr hf, ?_⟩
      exact List.mem_map.mpr ⟨(rest, l), (mem_fileWalk f).mpr hl, rfl⟩

/-- An enumeration that is met with a message is in a message. -/
theorem not_top_of_mem_messageWalk {ms : List Message} {i : Nat} {p : List Slot × Lineage}
    (hp : p ∈ messageWalk i ms) : ¬ (p.2.isEnumeration = true ∧ p.2.above = []) := by
  obtain ⟨place, l⟩ := p
  obtain ⟨j, m, rest, -, -, hat⟩ := (mem_messageWalk ms i place l).mp hp
  rintro ⟨henum, habove⟩
  match rest, hat with
  | [], hat =>
    cases hat
    cases henum
  | .message k :: rest, hat =>
    obtain ⟨l', -, rfl⟩ := Option.map_eq_some_iff.mp hat
    cases habove
  | [.enumeration k], hat =>
    obtain ⟨e, -, rfl⟩ := Option.map_eq_some_iff.mp hat
    cases habove

/-! ### The order -/

theorem Slot.lt_asymm : ∀ {a b : Slot}, a < b → ¬ b < a
  | .file _, .file _, h, h' => Nat.lt_asymm h h'
  | .message _, .message _, h, h' => Nat.lt_asymm h h'
  | .enumeration _, .enumeration _, h, h' => Nat.lt_asymm h h'

theorem place_asymm {p q : List Slot} (h : p < q) : ¬ q < p := List.lex_asymm Slot.lt_asymm h

/-- The places of a walk stand in their order. -/
def IsOrdered {α : Type} (walk : List (List Slot × α)) : Prop :=
  walk.Pairwise fun p q => p.1 < q.1

theorem pairwise_zipIdx {α : Type} (as : List α) :
    as.zipIdx.Pairwise fun a b => a.2 < b.2 := by
  apply List.pairwise_map.mp
  rw [List.zipIdx_map_snd]
  exact List.pairwise_lt_range'

theorem isOrdered_enumerationWalk (es : List Enumeration) : IsOrdered (enumerationWalk es) := by
  unfold IsOrdered enumerationWalk
  rw [List.pairwise_map]
  refine (pairwise_zipIdx es).imp fun h => ?_
  exact List.Lex.rel h

theorem IsOrdered.below {α β : Type} {walk : List (List Slot × α)} (h : IsOrdered walk)
    (f : α → β) : IsOrdered (walk.map (Prod.map id f)) := by
  unfold IsOrdered at h ⊢
  rwa [List.pairwise_map]

theorem IsOrdered.inside {α β : Type} {walk : List (List Slot × α)} (h : IsOrdered walk)
    (slot : Slot) (f : α → β) : IsOrdered (walk.map (Prod.map (slot :: ·) f)) := by
  unfold IsOrdered at h ⊢
  rw [List.pairwise_map]
  exact h.imp fun hlt => List.Lex.cons hlt

/-- Enumerations come after the messages of the same holder. -/
theorem isOrdered_append {ms : List Message} {es : List Enumeration}
    (h : IsOrdered (messageWalk 0 ms)) : IsOrdered (messageWalk 0 ms ++ enumerationWalk es) := by
  unfold IsOrdered
  rw [List.pairwise_append]
  refine ⟨h, isOrdered_enumerationWalk es, ?_⟩
  rintro ⟨place, l⟩ hp ⟨place', l'⟩ hq
  obtain ⟨j, m, rest, rfl, -, -⟩ := (mem_messageWalk ms 0 place l).mp hp
  obtain ⟨i, e, rfl, -, -⟩ := (mem_enumerationWalk es).mp hq
  exact List.Lex.rel trivial

mutual

theorem isOrdered_walk : ∀ m : Message, IsOrdered m.walk
  | ⟨name, fields, nested, enumerations, oneofs, mapEntry⟩ => by
    rw [Message.walk]
    unfold IsOrdered
    rw [List.pairwise_cons]
    refine ⟨?_, (isOrdered_append (isOrdered_messageWalk nested 0)).below _⟩
    -- A message comes before what is in it.
    rintro p hp
    obtain ⟨⟨place, l⟩, hl, rfl⟩ := List.mem_map.mp hp
    rcases List.mem_append.mp hl with hl | hl
    · obtain ⟨j, m, rest, rfl, -, -⟩ := (mem_messageWalk nested 0 place l).mp hl
      exact List.Lex.nil
    · obtain ⟨i, e, rfl, -, -⟩ := (mem_enumerationWalk enumerations).mp hl
      exact List.Lex.nil

theorem isOrdered_messageWalk : ∀ (ms : List Message) (i : Nat), IsOrdered (messageWalk i ms)
  | [], _ => .nil
  | m :: ms, i => by
    rw [messageWalk]
    unfold IsOrdered
    rw [List.pairwise_append]
    refine ⟨(isOrdered_walk m).inside _ _, isOrdered_messageWalk ms (i + 1), ?_⟩
    rintro p hp ⟨place, l⟩ hq
    obtain ⟨p', -, rfl⟩ := List.mem_map.mp hp
    obtain ⟨j, n, rest, rfl, -, -⟩ := (mem_messageWalk ms (i + 1) place l).mp hq
    exact List.Lex.rel (show i < i + 1 + j by omega)

end

theorem isOrdered_setWalk (s : Set) : IsOrdered s.walk := by
  unfold IsOrdered Set.walk
  rw [List.pairwise_flatMap]
  refine ⟨fun f _ => ?_, ?_⟩
  · exact IsOrdered.inside (isOrdered_append (isOrdered_messageWalk f.1.messages 0)) _ _
  · refine (pairwise_zipIdx s.files).imp fun h p hp q hq => ?_
    obtain ⟨p', -, rfl⟩ := List.mem_map.mp hp
    obtain ⟨q', -, rfl⟩ := List.mem_map.mp hq
    exact List.Lex.rel h

end ProtoSdl.Descriptor
