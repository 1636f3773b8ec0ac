import ProtoSdl.Proofs.DeclaredTypes
import Mathlib.Data.List.Forall2
import Mathlib.Data.List.Nodup

/-!
  Source orders — where the siblings of a schema stand

  The order of siblings is decided by the locations of their file, by the descriptor where
  locations say nothing, and by nothing else.

    1. `IsPositionOf` says which position the locations give to a path, and `positionOf` finds
       it (`positionOf_eq_iff`).
    2. `IsSourceOrder` says that siblings stand in the order of their positions, those without
       one at the end and those with the same one as in the descriptor. There is one such order
       (`IsSourceOrder.eq`), and `inSourceOrder` is it.
    3. `Message.IsInSourceOrder` says this of all that is nested in a declared message, at every
       depth. A sibling has the path of its holder, the number of its kind and its index in the
       list of the descriptor, in which map entries count (`nestedInSourceOrder_iff`).

  All declarations of a file are in source order (`isInSourceOrder_of_file`).
-/

namespace ProtoSdl.Descriptor

open Schema (Declaration)
open scoped List

/-! ## Positions -/

/-- The position is that of the first location of the path whose span has two numbers or more;
there is none where no location of the path has such a span. -/
def IsPositionOf (locations : List Location) (path : List Int) : Position → Prop
  | some (line, column) => ∃ before l after, locations = before ++ l :: after ∧ l.path = path ∧
      (∃ rest, l.span = line :: column :: rest) ∧ ∀ k ∈ before, k.path = path → k.span.length < 2
  | none => ∀ k ∈ locations, k.path = path → k.span.length < 2

theorem Location.position_eq_some_iff {l : Location} {line column : Int} :
    l.position = some (line, column) ↔ ∃ rest, l.span = line :: column :: rest := by
  unfold Location.position
  split
  · rename_i hspan
    rw [hspan]
    constructor
    · intro h
      cases h
      exact ⟨_, rfl⟩
    · rintro ⟨rest, h⟩
      cases h
      rfl
  · rename_i hspan
    constructor
    · nofun
    · rintro ⟨rest, h⟩
      exact absurd h (hspan line column rest)

theorem Location.position_eq_none_iff {l : Location} : l.position = none ↔ l.span.length < 2 := by
  unfold Location.position
  split
  · rename_i hspan
    rw [hspan]
    simp
  · rename_i hspan
    refine ⟨fun _ => ?_, fun _ => rfl⟩
    match h : l.span with
    | [] => decide
    | [_] => exact Nat.lt_succ_self 1
    | line :: column :: rest => exact absurd h (hspan line column rest)

theorem positionOf_eq_iff (locations : List Location) (path : List Int) (p : Position) :
    positionOf locations path = p ↔ IsPositionOf locations path p := by
  have hskip : ∀ k : Location, (if k.path = path then k.position else none) = none ↔
      (k.path = path → k.span.length < 2) := by
    intro k
    by_cases hk : k.path = path <;> simp [hk, Location.position_eq_none_iff]
  unfold positionOf
  cases p with
  | none => simp only [List.findSome?_eq_none_iff, hskip, IsPositionOf]
  | some p =>
    obtain ⟨line, column⟩ := p
    rw [List.findSome?_eq_some_iff]
    simp only [hskip]
    constructor
    · rintro ⟨before, l, after, hl, hp, hbefore⟩
      split at hp
      · rename_i hpath
        exact ⟨before, l, after, hl, hpath, Location.position_eq_some_iff.mp hp, hbefore⟩
      · cases hp
    · rintro ⟨before, l, after, hl, hpath, hspan, hbefore⟩
      refine ⟨before, l, after, hl, ?_, hbefore⟩
      rw [if_pos hpath]
      exact Location.position_eq_some_iff.mpr hspan

/-! ## Siblings -/

/-- Whether the first position is above the second one; no position is below all others. -/
def Position.Above : Position → Position → Prop
  | some (line, column), some (line', column') => line < line' ∨ line = line' ∧ column < column'
  | some _, none => True
  | none, _ => False

section Siblings

variable {α : Type}

/-- Whether a sibling, with its path and its index, comes before another one: by its position,
or by its index where the positions are the same. -/
def ComesBefore (locations : List Location) (a b : (List Int × α) × Nat) : Prop :=
  ∃ p q, IsPositionOf locations a.1.1 p ∧ IsPositionOf locations b.1.1 q ∧
    (p.Above q ∨ p = q ∧ a.2 < b.2)

/-- Whether the list has the siblings in the order of their positions, and those of one
position in the order that they are given in. -/
def IsSourceOrder (locations : List Location) (siblings : List (List Int × α))
    (sorted : List α) : Prop :=
  ∃ ranked, ranked ~ siblings.zipIdx ∧ ranked.Pairwise (ComesBefore locations) ∧
    sorted = ranked.map fun a => a.1.2

theorem Position.not_above_of_above {p q : Position} (h : p.Above q) : ¬ q.Above p ∧ p ≠ q := by
  cases p with
  | none => exact absurd h id
  | some p =>
    cases q with
    | none => exact ⟨id, nofun⟩
    | some q =>
      obtain ⟨line, column⟩ := p
      obtain ⟨line', column'⟩ := q
      have h : line < line' ∨ line = line' ∧ column < column' := h
      constructor
      · intro h'
        have h' : line' < line ∨ line' = line ∧ column' < column := h'
        omega
      · intro he
        cases he
        omega

theorem comesBefore_iff {locations : List Location} {a b : (List Int × α) × Nat} :
    ComesBefore locations a b ↔
      (positionOf locations a.1.1).Above (positionOf locations b.1.1) ∨
        positionOf locations a.1.1 = positionOf locations b.1.1 ∧ a.2 < b.2 := by
  unfold ComesBefore
  simp only [← positionOf_eq_iff]
  constructor
  · rintro ⟨p, q, rfl, rfl, h⟩
    exact h
  · exact fun h => ⟨_, _, rfl, rfl, h⟩

theorem not_comesBefore_of_comesBefore {locations : List Location} {a b : (List Int × α) × Nat}
    (h : ComesBefore locations a b) : ¬ ComesBefore locations b a := by
  rw [comesBefore_iff] at h ⊢
  rcases h with h | ⟨hp, h⟩
  · obtain ⟨hnot, hne⟩ := Position.not_above_of_above h
    rintro (h' | ⟨hp, -⟩)
    · exact hnot h'
    · exact hne hp.symm
  · rintro (h' | ⟨-, h'⟩)
    · exact (Position.not_above_of_above h').2 hp.symm
    · omega

/-- There is one source order. -/
theorem IsSourceOrder.eq {locations : List Location} {siblings : List (List Int × α)}
    {sorted sorted' : List α} (h : IsSourceOrder locations siblings sorted)
    (h' : IsSourceOrder locations siblings sorted') : sorted = sorted' := by
  obtain ⟨ranked, hperm, hsorted, rfl⟩ := h
  obtain ⟨ranked', hperm', hsorted', rfl⟩ := h'
  have heq := List.Perm.eq_of_pairwise
    (fun a b _ _ hab hba => absurd hba (not_comesBefore_of_comesBefore hab)) hsorted hsorted'
    (hperm.trans hperm'.symm)
  rw [heq]

/-- Positions that may stand in this order, but not in the other, are above one another. -/
theorem Position.above_or_eq_of_le {p q : Position} (h : p.le q = true) :
    (q.le p = false → p.Above q) ∧ (q.le p = true → p = q) := by
  cases p with
  | none =>
    cases q with
    | none => exact ⟨nofun, fun _ => rfl⟩
    | some q => cases h
  | some p =>
    cases q with
    | none => exact ⟨fun _ => trivial, nofun⟩
    | some q =>
      obtain ⟨line, column⟩ := p
      obtain ⟨line', column'⟩ := q
      simp only [Position.le, Bool.or_eq_true, Bool.and_eq_true, decide_eq_true_eq, beq_iff_eq,
        Bool.or_eq_false_iff, Bool.and_eq_false_iff, decide_eq_false_iff_not, beq_eq_false_iff_ne]
        at h ⊢
      constructor
      · intro h'
        show line < line' ∨ line = line' ∧ column < column'
        omega
      · intro h'
        have hline : line = line' := by omega
        have hcolumn : column = column' := by omega
        rw [hline, hcolumn]

/-- A sibling with its position in the place of its path. -/
def placed (locations : List Location) (s : List Int × α) : Position × α :=
  (positionOf locations s.1, s.2)

/-- Whether placed siblings may stand in this order. -/
def placedLE (p q : Position × α) : Bool := p.1.le q.1

/-- Whether siblings with their indices may stand in this order. -/
def rankLE (locations : List Location) (a b : (List Int × α) × Nat) : Bool :=
  List.zipIdxLE placedLE (placed locations a.1, a.2) (placed locations b.1, b.2)

theorem rankLE_trans (locations : List Location) (a b c : (List Int × α) × Nat) :
    rankLE locations a b = true → rankLE locations b c = true → rankLE locations a c = true := by
  have hplaced : ∀ p q r : Position × α, placedLE p q = true → placedLE q r = true →
      placedLE p r = true := fun _ _ _ => Position.le_trans
  exact List.zipIdxLE_trans hplaced _ _ _

theorem rankLE_total (locations : List Location) (a b : (List Int × α) × Nat) :
    (rankLE locations a b || rankLE locations b a) = true := by
  have hplaced : ∀ p q : Position × α, (placedLE p q || placedLE q p) = true :=
    fun _ _ => Position.le_total _ _
  exact List.zipIdxLE_total hplaced _ _

/-- In the ranking positions come first, and then indices. -/
theorem comesBefore_of_rankLE {locations : List Location} {a b : (List Int × α) × Nat}
    (h : rankLE locations a b = true) (hne : a.2 ≠ b.2) : ComesBefore locations a b := by
  rw [comesBefore_iff]
  unfold rankLE List.zipIdxLE at h
  split at h
  · rename_i hle
    obtain ⟨habove, heq⟩ := Position.above_or_eq_of_le hle
    split at h
    · rename_i hle'
      have hlt : a.2 ≤ b.2 := of_decide_eq_true h
      exact .inr ⟨heq hle', by omega⟩
    · rename_i hle'
      exact .inl (habove (Bool.eq_false_iff.mpr hle'))
  · cases h

/-- Sorting by positions is sorting by ranks. -/
theorem inSourceOrder_eq_rank (locations : List Location) (siblings : List (List Int × α)) :
    inSourceOrder locations siblings =
      (siblings.zipIdx.mergeSort (rankLE locations)).map fun a => a.1.2 := by
  have hplaced : (siblings.zipIdx.mergeSort (rankLE locations)).map
      (fun a => (placed locations a.1, a.2)) =
        (siblings.zipIdx.map fun a => (placed locations a.1, a.2)).mergeSort
          (List.zipIdxLE placedLE) := List.map_mergeSort fun _ _ _ _ => rfl
  have hindexed : siblings.zipIdx.map (fun a => (placed locations a.1, a.2)) =
      (siblings.map (placed locations)).zipIdx := List.map_zipIdx
  have hsorted := congrArg (List.map fun a => a.1) hplaced
  rw [hindexed, List.mergeSort_zipIdx, List.map_map] at hsorted
  show ((siblings.map (placed locations)).mergeSort placedLE).map Prod.snd = _
  rw [← hsorted, List.map_map]
  rfl

theorem isSourceOrder_inSourceOrder (locations : List Location) (siblings : List (List Int × α)) :
    IsSourceOrder locations siblings (inSourceOrder locations siblings) := by
  have hperm : siblings.zipIdx.mergeSort (rankLE locations) ~ siblings.zipIdx :=
    List.mergeSort_perm _ _
  refine ⟨_, hperm, ?_, inSourceOrder_eq_rank locations siblings⟩
  have hindices : (siblings.zipIdx.mergeSort (rankLE locations)).Pairwise fun a b => a.2 ≠ b.2 := by
    have hnodup : ((siblings.zipIdx.mergeSort (rankLE locations)).map Prod.snd).Nodup := by
      rw [(hperm.map Prod.snd).nodup_iff, List.zipIdx_map_snd]
      exact List.nodup_range'
    exact List.pairwise_map.mp hnodup
  have hranked := List.pairwise_mergeSort (rankLE_trans locations) (rankLE_total locations)
    siblings.zipIdx
  exact (hranked.and hindices).imp fun h => comesBefore_of_rankLE h.1 h.2

end Siblings

/-! ## Messages and files -/

/-- Consecutive parts of a holder with the path of each: that of the holder, the number of the
kind, and the index. -/
def siblingsOf {α : Type} (declare : α → Declaration) (path : List Int) (number : Int)
    (parts : List α) : List (List Int × Declaration) :=
  parts.zipIdx.map fun a => (path ++ [number, (a.2 : Int)], declare a.1)

mutual

/-- Whether the declaration of a message has all that is nested in it in source order, at every
depth. -/
def Message.IsInSourceOrder (c : Context) (scope : String) (path : List Int) :
    Message → Declaration → Prop
  | ⟨name, fields, nested, enumerations, oneofs, mapEntry⟩, d =>
    Message.declaration c scope path ⟨name, fields, nested, enumerations, oneofs, mapEntry⟩ =
        .ok d ∧
      ∃ own children messages, d = .message own children ∧
        NestedInSourceOrder c (fullName scope name) path 0 nested messages ∧
        IsSourceOrder c.locations
          (messages ++ siblingsOf (·.declaration c.table (fullName scope name)) path
            nestedEnumerationNumber enumerations) children

/-- Whether these are the declarations of nested messages from the index on, with their paths,
and each of them has what is nested in it in source order; a map entry has no declaration. -/
def NestedInSourceOrder (c : Context) (scope : String) (path : List Int) :
    Nat → List Message → List (List Int × Declaration) → Prop
  | _, [], siblings => siblings = []
  | index, m :: rest, siblings =>
    if m.isMapEntry then NestedInSourceOrder c scope path (index + 1) rest siblings
    else ∃ d others, siblings = (path ++ [nestedNumber, (index : Int)], d) :: others ∧
      m.IsInSourceOrder c scope (path ++ [nestedNumber, (index : Int)]) d ∧
        NestedInSourceOrder c scope path (index + 1) rest others

end

/-- The nested messages that are declared are those that are no map entries, each under its index
among all of them. -/
theorem nestedInSourceOrder_iff {c : Context} {scope : String} {path : List Int} {index : Nat}
    {ms : List Message} {siblings : List (List Int × Declaration)} :
    NestedInSourceOrder c scope path index ms siblings ↔
      List.Forall₂ (fun m s => s.1 = path ++ [nestedNumber, (m.2 : Int)] ∧
          m.1.IsInSourceOrder c scope s.1 s.2)
        ((ms.zipIdx index).filter fun m => !m.1.isMapEntry) siblings := by
  induction ms generalizing index siblings with
  | nil =>
    rw [NestedInSourceOrder, List.zipIdx_nil, List.filter_nil, List.forall₂_nil_left_iff]
  | cons m ms ih =>
    rw [NestedInSourceOrder, List.zipIdx_cons, List.filter_cons]
    by_cases hentry : m.isMapEntry = true
    · rw [if_pos hentry, if_neg (by simp [hentry])]
      exact ih
    · rw [if_neg hentry, if_pos (by simp [hentry]), List.forall₂_cons_left_iff]
      constructor
      · rintro ⟨d, others, rfl, hd, hothers⟩
        exact ⟨_, others, ⟨rfl, hd⟩, ih.mp hothers, rfl⟩
      · rintro ⟨⟨here, d⟩, others, ⟨rfl, hd⟩, hothers, rfl⟩
        exact ⟨d, others, rfl, hd, ih.mpr hothers⟩

theorem placeFrom_eq {α : Type} (declare : α → Declaration) (path : List Int) (number : Int)
    (index : Nat) (parts : List α) :
    placeFrom declare path number index parts =
      (parts.zipIdx index).map fun a => (path ++ [number, (a.2 : Int)], declare a.1) := by
  induction parts generalizing index with
  | nil => rfl
  | cons a parts ih => rw [placeFrom, ih, List.zipIdx_cons, List.map_cons]

theorem placeFrom_zero {α : Type} (declare : α → Declaration) (path : List Int) (number : Int)
    (parts : List α) :
    placeFrom declare path number 0 parts = siblingsOf declare path number parts :=
  placeFrom_eq declare path number 0 parts

mutual

theorem isInSourceOrder_of_message (c : Context) : ∀ (m : Message) (scope : String)
    (path : List Int) (d : Declaration), m.declaration c scope path = .ok d →
      m.IsInSourceOrder c scope path d
  | ⟨name, fields, nested, enumerations, oneofs, mapEntry⟩, scope, path, d, h => by
    rw [Message.IsInSourceOrder]
    refine ⟨h, ?_⟩
    rw [Message.declaration] at h
    obtain ⟨inner, hinner, h⟩ := bind_eq_ok h
    obtain ⟨declared, -, h⟩ := bind_eq_ok h
    obtain ⟨groups, -, h⟩ := bind_eq_ok h
    cases h
    refine ⟨_, _, inner, rfl,
      isInSourceOrder_of_nested c nested (fullName scope name) path 0 inner hinner, ?_⟩
    rw [placeFrom_zero]
    exact isSourceOrder_inSourceOrder _ _

theorem isInSourceOrder_of_nested (c : Context) : ∀ (ms : List Message) (scope : String)
    (path : List Int) (index : Nat) (siblings : List (List Int × Declaration)),
      nestedDeclarations c scope path index ms = .ok siblings →
        NestedInSourceOrder c scope path index ms siblings
  | [], scope, path, index, siblings, h => by
    rw [nestedDeclarations] at h
    cases h
    rw [NestedInSourceOrder]
  | m :: rest, scope, path, index, siblings, h => by
    rw [nestedDeclarations] at h
    rw [NestedInSourceOrder]
    split at h
    · rename_i hentry
      rw [if_pos hentry]
      exact isInSourceOrder_of_nested c rest scope path (index + 1) siblings h
    · rename_i hentry
      obtain ⟨first, hfirst, h⟩ := bind_eq_ok h
      obtain ⟨others, hothers, h⟩ := bind_eq_ok h
      cases h
      rw [if_neg hentry]
      exact ⟨first, others, rfl, isInSourceOrder_of_message c m scope _ first hfirst,
        isInSourceOrder_of_nested c rest scope path (index + 1) others hothers⟩

end

/-- The top-level messages that are declared, each under its index. -/
theorem isInSourceOrder_of_messages (c : Context) (scope : String) (ms : List Message) :
    ∀ (index : Nat) (siblings : List (List Int × Declaration)),
      messageDeclarations c scope index ms = .ok siblings →
        List.Forall₂ (fun m s => s.1 = [messageNumber, (m.2 : Int)] ∧
          m.1.IsInSourceOrder c scope s.1 s.2) (ms.zipIdx index) siblings := by
  induction ms with
  | nil =>
    intro index siblings h
    cases h
    exact .nil
  | cons m ms ih =>
    intro index siblings h
    rw [messageDeclarations] at h
    obtain ⟨first, hfirst, h⟩ := bind_eq_ok h
    obtain ⟨others, hothers, h⟩ := bind_eq_ok h
    cases h
    rw [List.zipIdx_cons]
    exact .cons ⟨rfl, isInSourceOrder_of_message c m scope _ first hfirst⟩
      (ih (index + 1) others hothers)

/-- A list that is converted one by one. -/
theorem forall₂_of_mapM {α β : Type} {f : α → Except Fault β} {as : List α} :
    ∀ {bs : List β}, as.mapM f = .ok bs → List.Forall₂ (fun a b => f a = .ok b) as bs := by
  induction as with
  | nil =>
    intro bs h
    cases h
    exact .nil
  | cons a as ih =>
    intro bs h
    rw [List.mapM_cons] at h
    obtain ⟨first, hfirst, h⟩ := bind_eq_ok h
    obtain ⟨others, hothers, h⟩ := bind_eq_ok h
    cases h
    exact .cons hfirst (ih hothers)

/-- Whether these are the declarations of a file in source order, with all that is nested in
them in source order too. -/
def File.IsInSourceOrder (table : NameTable) (f : File) (ds : List Declaration) : Prop :=
  ∃ messages services,
    List.Forall₂ (fun m s => s.1 = [messageNumber, (m.2 : Int)] ∧
      m.1.IsInSourceOrder ⟨table, f.locations⟩ f.scope s.1 s.2) f.messages.zipIdx messages ∧
    List.Forall₂ (fun v d => v.declaration table = .ok d) f.services services ∧
    IsSourceOrder f.locations
      (messages ++ siblingsOf (·.declaration table f.scope) [] enumerationNumber f.enumerations ++
        siblingsOf id [] serviceNumber services) ds

theorem isInSourceOrder_of_file {table : NameTable} {f : File} {ds : List Declaration}
    (h : f.declarations table = .ok ds) : f.IsInSourceOrder table ds := by
  unfold File.declarations at h
  obtain ⟨messages, hmessages, h⟩ := bind_eq_ok h
  obtain ⟨services, hservices, h⟩ := bind_eq_ok h
  cases h
  refine ⟨messages, services, isInSourceOrder_of_messages _ _ _ _ _ hmessages,
    forall₂_of_mapM hservices, ?_⟩
  rw [placeFrom_zero, placeFrom_zero]
  exact isSourceOrder_inSourceOrder _ _

end ProtoSdl.Descriptor
