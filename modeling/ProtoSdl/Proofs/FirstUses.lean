import ProtoSdl.Proofs.BlankLines
import ProtoSdl.Proofs.UniqueNames

/-!
  First uses — which well-known types a document declares, and in which order

  A well-known type is put in front of a document when one of its names is resolved for
  the first time. So what the items use, in the order of use, decides on the whole
  beginning of a document:

    1. `wellKnownUses` lists the well-known types that an item uses, each as often as it
       is used, and `usedInOrder` keeps the first use of each in a list of items. The
       ledger meets the same first uses (`firstUses_treeActs`).
    2. `mem_usedInOrder_iff` — a type is in the list exactly when a field that is no map,
       a request or a response of an item has its key.
    3. `wellKnown_declared_iff_used` — a document is the declarations of these types, the
       last first use in front, and then blocks that declare no well-known type. A schema
       without a document leaves the ledger as it was.
-/

namespace ProtoSdl

open Schema

/-- Whether an item of the schema has the name as the type of a field that is no map, or
as a request or a response. -/
inductive Schema.Tree.Uses (t : Tree) (n : Name) : Prop where
  | field (m : Message) (f : Field) (hm : .message m ∈ t.items) (hf : f ∈ m.fields)
      (hmap : f.isMap = false) (h : f.typeName = n)
  | request (s : Service) (p : Method) (hs : .service s ∈ t.items) (hp : p ∈ s.methods)
      (h : p.request = n)
  | response (s : Service) (p : Method) (hs : .service s ∈ t.items) (hp : p ∈ s.methods)
      (h : p.response = n)

namespace Sdl

/-- The well-known types that an item uses, in the order of use. -/
def wellKnownUses (i : Item) : List (String × WellKnownType) :=
  (usedNames i).filterMap wellKnownUse?

/-- The well-known types that the items use, in the order of first use. -/
def usedInOrder (items : List Item) : List (String × WellKnownType) :=
  (items.flatMap wellKnownUses).eraseDups

/-! ## The order of first use -/

/-- Only the key of a well-known type shows in a use. -/
theorem wellKnownUse?_eq_some_iff_text (n : Name) (u : String × WellKnownType) :
    wellKnownUse? n = some u ↔ n = .text u.1 ∧ u ∈ wellKnownTypes := by
  rw [wellKnownUse?_eq_some_iff, wellKnown?_eq_some_iff]
  constructor
  · rintro ⟨hshown, hmem⟩
    refine ⟨?_, hmem⟩
    cases n with
    | text s => exact congrArg Name.text hshown
    | octets bs =>
      -- The literal of octets is no key.
      refine absurd ?_ (isOwnName_octetLiteral bs)
      exact List.mem_append_right _ (List.mem_map.mpr ⟨u, hmem, hshown.symm⟩)
  · rintro ⟨rfl, hmem⟩
    exact ⟨rfl, hmem⟩

/-- The ledger of a schema meets the first uses in their order. -/
theorem firstUses_treeActs (items : List Item) :
    firstUses [] (items.flatMap actsOf) = usedInOrder items := by
  have huses : (items.flatMap usedNames).filterMap wellKnownUse? = items.flatMap wellKnownUses :=
    List.filterMap_flatMap
  rw [firstUses_eq, actUses_flatMap, huses]
  simp [usedInOrder]

theorem mem_usedNames_iff (t : Tree) (n : Name) :
    n ∈ t.items.flatMap usedNames ↔ t.Uses n := by
  rw [List.mem_flatMap]
  constructor
  · rintro ⟨i, hi, hn⟩
    cases i with
    | message m =>
      obtain ⟨f, hf, rfl⟩ := List.mem_map.mp hn
      obtain ⟨hf, hmap⟩ := List.mem_filter.mp hf
      exact .field m f hi hf (by simpa using hmap) rfl
    | service s =>
      obtain ⟨p, hp, hn⟩ := List.mem_flatMap.mp hn
      rcases List.mem_cons.mp hn with rfl | hn
      · exact .request s p hi hp rfl
      · obtain rfl := List.mem_singleton.mp hn
        exact .response s p hi hp rfl
    | enumeration e => cases hn
    | unknown kind => cases hn
  · intro h
    cases h with
    | field m f hm hf hmap h =>
      refine ⟨_, hm, List.mem_map.mpr ⟨f, ?_, h⟩⟩
      exact List.mem_filter.mpr ⟨hf, by simp [hmap]⟩
    | request s p hs hp h =>
      exact ⟨_, hs, List.mem_flatMap.mpr ⟨p, hp, by simp [h]⟩⟩
    | response s p hs hp h =>
      exact ⟨_, hs, List.mem_flatMap.mpr ⟨p, hp, by simp [h]⟩⟩

/-- The types in the order of first use are those of the table whose key is used. -/
theorem mem_usedInOrder_iff (t : Tree) (u : String × WellKnownType) :
    u ∈ usedInOrder t.items ↔ u ∈ wellKnownTypes ∧ t.Uses (.text u.1) := by
  unfold usedInOrder wellKnownUses
  rw [List.mem_eraseDups, ← List.filterMap_flatMap, List.mem_filterMap, ← mem_usedNames_iff]
  constructor
  · rintro ⟨n, hn, hu⟩
    obtain ⟨rfl, hmem⟩ := (wellKnownUse?_eq_some_iff_text n u).mp hu
    exact ⟨hmem, hn⟩
  · rintro ⟨hmem, hn⟩
    exact ⟨_, hn, (wellKnownUse?_eq_some_iff_text _ u).mpr ⟨rfl, hmem⟩⟩

/-- No key is in the list twice. -/
theorem nodup_usedInOrder (t : Tree) : ((usedInOrder t.items).map Prod.fst).Nodup := by
  have hnodup : (usedInOrder t.items).Nodup := nodup_eraseDups _
  refine hnodup.map_on fun u hu v hv he => ?_
  have hlist := ((mem_usedInOrder_iff t u).mp hu).1
  have hlist' := ((mem_usedInOrder_iff t v).mp hv).1
  exact List.inj_on_of_nodup_map nodup_wellKnownTypes hlist hlist' he

/-! ## The blocks after the declarations -/

theorem wellKnown_not_mem_blocksOf (l : Ledger) (i : Item) (w : WellKnownType) :
    .wellKnown w ∉ blocksOf l i := by
  have hoperation : ∀ r s, .wellKnown w ∉ operationBlocks l r s := by
    intro r s
    unfold operationBlocks
    split <;> simp
  cases i with
  | message m => simp [blocksOf]
  | enumeration e => simp [blocksOf, enumerationBlock]
  | service s => simp [blocksOf, hoperation]
  | unknown kind => simp [blocksOf]

theorem wellKnown_not_mem_blocksOfItems (items : List Item) (l : Ledger) (w : WellKnownType) :
    .wellKnown w ∉ blocksOfItems l items := by
  induction items generalizing l with
  | nil => simp [blocksOfItems]
  | cons i items ih =>
    rw [blocksOfItems, List.mem_append, not_or]
    exact ⟨wellKnown_not_mem_blocksOf l i w, ih _⟩

/-- A service without a block has no procedures. -/
theorem methods_eq_nil_of_blocksOf {l : Ledger} {s : Service}
    (h : blocksOf l (.service s) = []) : s.methods = [] := by
  have hnone : ∀ r, operationBlocks l r s = [] → operations r s = [] := by
    intro r hb
    unfold operationBlocks at hb
    split at hb
    · assumption
    · cases hb
  obtain ⟨hq, hm⟩ := List.append_eq_nil_iff.mp h
  have hq := hnone _ hq
  have hm := hnone _ hm
  -- Every procedure is filed under one of the roots.
  rw [List.eq_nil_iff_forall_not_mem]
  intro p hp
  unfold operations at hq hm
  rw [List.map_eq_nil_iff, List.filter_eq_nil_iff] at hq hm
  have hpq := hq p hp
  have hpm := hm p hp
  cases hr : rootOf p.name.shown with
  | query => simp [hr] at hpq
  | mutation => simp [hr] at hpm

/-- An item without a block does nothing to the ledger. -/
theorem actsOf_eq_nil_of_blocksOf {l : Ledger} {i : Item} (h : blocksOf l i = []) :
    actsOf i = [] := by
  cases i with
  | message m => cases h
  | enumeration e => cases h
  | unknown kind => rfl
  | service s =>
    obtain ⟨name, methods⟩ := s
    obtain rfl : methods = [] := methods_eq_nil_of_blocksOf h
    rfl

theorem acts_eq_nil_of_blocksOfItems (items : List Item) {l : Ledger}
    (h : blocksOfItems l items = []) : items.flatMap actsOf = [] := by
  induction items generalizing l with
  | nil => rfl
  | cons i items ih =>
    obtain ⟨hfirst, hrest⟩ := List.append_eq_nil_iff.mp h
    rw [List.flatMap_cons, actsOf_eq_nil_of_blocksOf hfirst, ih hrest]
    rfl

/-! ## The beginning of a document -/

theorem isLine_wellKnown {u : String × WellKnownType} (hu : u ∈ wellKnownTypes) :
    Text.IsLine u.2.name ∧ Text.IsLine u.2.body := by
  have hall : ∀ u ∈ wellKnownTypes, Text.IsLine u.2.name ∧ Text.IsLine u.2.body := by
    decide +kernel
  exact hall u hu

/-- A well-known type is declared in one line. -/
theorem isFilled_declaration {u : String × WellKnownType} (hu : u ∈ wellKnownTypes) :
    Text.IsFilled u.2.declaration := by
  have hword : Text.IsFilled "type " := by decide
  have hspace : Text.IsLine " " := by decide
  obtain ⟨hname, hbody⟩ := isLine_wellKnown hu
  exact ((hword.append hname).append hspace).append hbody

/-- The blocks of a document are the declarations of the well-known types, the last first use
in front, and those of its items. -/
theorem blocks_of_toDocument {t : Tree} {d : Document} (h : t.toDocument = .ok (some d)) :
    d.blocks = (usedInOrder t.items).reverse.map (fun u => .wellKnown u.2) ++
      blocksOfItems {} t.items := by
  obtain ⟨-, -, -, hblocks⟩ := of_toDocument_eq_ok h
  unfold treeActs at hblocks
  rwa [firstUses_treeActs, ← List.map_reverse] at hblocks

theorem blocksOfItems_ne_nil_of_toDocument {t : Tree} {d : Document}
    (h : t.toDocument = .ok (some d)) : blocksOfItems {} t.items ≠ [] := by
  obtain ⟨-, -, -, -, hdoc⟩ := of_toDocument_eq h
  intro he
  rw [(assemble_eq_none_iff _ _).mpr he] at hdoc
  cases hdoc

/-- A document begins with one declaration for each well-known type that its schema uses,
and declares no other one; the type that was used first last stands first. Where there is no
document nothing was declared. -/
theorem wellKnown_declared_iff_used (t : Tree) :
    (∀ d, t.toDocument = .ok (some d) → ∃ rest : List Block,
      d.blocks = (usedInOrder t.items).reverse.map (fun u => .wellKnown u.2) ++ rest ∧
      (∀ w, .wellKnown w ∉ rest) ∧
      d.text = "\n\n".intercalate
        ((usedInOrder t.items).reverse.map (fun u => "type " ++ u.2.name ++ " " ++ u.2.body) ++
          rest.map Block.render) ++ "\n") ∧
    (∀ u ∈ usedInOrder t.items, Text.IsLine ("type " ++ u.2.name ++ " " ++ u.2.body)) ∧
    ((usedInOrder t.items).map Prod.fst).Nodup ∧
    (∀ u, u ∈ usedInOrder t.items ↔ u ∈ wellKnownTypes ∧ t.Uses (.text u.1)) ∧
    (t.toDocument = .ok none → emitItems t.items {} = .ok [] {}) := by
  refine ⟨fun d h => ?_, fun u hu => ?_, nodup_usedInOrder t, mem_usedInOrder_iff t, fun h => ?_⟩
  · have hblocks := blocks_of_toDocument h
    refine ⟨_, hblocks, wellKnown_not_mem_blocksOfItems _ _, ?_⟩
    unfold Document.text renderBlocks
    rw [hblocks, List.map_append, List.map_map]
    rfl
  · exact (isFilled_declaration ((mem_usedInOrder_iff t u).mp hu).1).2
  · obtain ⟨-, -, -, hrun, hdoc⟩ := of_toDocument_eq h
    have hblocks := (assemble_eq_none_iff _ _).mp hdoc.symm
    rw [hrun, hblocks]
    unfold treeActs
    rw [acts_eq_nil_of_blocksOfItems _ hblocks]
    rfl

/-- A schema with two well-known types in use, one of them twice, and with uses that do not
count: in a map, in a message without type name and in the reserved package. -/
def clockTree : Tree :=
  { dialect := "proto3",
    declarations :=
      [.package "google" [.message
        { name := "Outer", fields := [{ name := "any", typeName := "google.protobuf.Any" }] } []],
       .package "clock" [
        .message
          { name := "Alarm",
            fields := [{ name := "at", typeName := "google.protobuf.Timestamp" },
                       { name := "tags", typeName := "google.protobuf.Any", isMap := true }] }
          [.message
            { name := "draft", fields := [{ name := "any", typeName := "google.protobuf.Any" }] }
            []],
        .service
          { name := "Clock",
            methods := [⟨"Stop", "google.protobuf.Empty", "google.protobuf.Timestamp"⟩] }]] }

/-- A schema without a block. -/
def idleTree : Tree := { dialect := "proto3", declarations := [.service { name := "Idle" }] }

/-- The type that is used first last stands first, and the others are not declared. -/
theorem wellKnown_declared_iff_used_clockTree :
    (∃ d rest, clockTree.toDocument = .ok (some d) ∧
      d.blocks = [.wellKnown ⟨"Empty", "\x7b\x7d"⟩,
        .wellKnown ⟨"Timestamp", "\x7b seconds: Int, nanos: Int \x7d"⟩] ++ rest ∧
      ∀ w, .wellKnown w ∉ rest) ∧
    emitItems idleTree.items {} = .ok [] {} := by
  constructor
  · obtain ⟨d, hd⟩ : ∃ d, clockTree.toDocument = .ok (some d) := ⟨_, rfl⟩
    obtain ⟨rest, hblocks, hrest, -⟩ := (wellKnown_declared_iff_used clockTree).1 d hd
    have hused : usedInOrder clockTree.items =
        [("google.protobuf.Timestamp", ⟨"Timestamp", "\x7b seconds: Int, nanos: Int \x7d"⟩),
         ("google.protobuf.Empty", ⟨"Empty", "\x7b\x7d"⟩)] := by
      decide +kernel
    rw [hused] at hblocks
    exact ⟨d, rest, hd, hblocks, hrest⟩
  · exact (wellKnown_declared_iff_used idleTree).2.2.2.2 rfl

end Sdl

end ProtoSdl
