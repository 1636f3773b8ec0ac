import ProtoSdl.Proofs.UniqueNames

/-!
  Operations — where the remote procedures of a schema stand in its document

  A service is grouped by itself, root by root, while the keyword of a block depends on
  all services before it. Read over a whole document:

    1. `operationsUnder_blocksOfItems` — the lines under a root, block after block, are
       those of the procedures that are filed there, in the order of the schema.
    2. `keywords_of_open` and `keywords_of_new` — the first block of a root type declares
       it and all later ones extend it.
    3. `filed_blocksOfItems` — a service has one block for each root under which it files
       something, the one for queries first, and a block is never empty.

  `operations_filed_once` says this of documents.
-/

namespace ProtoSdl.Sdl

open Schema

/-- The services among the items. -/
def servicesOf : Item → List Service
  | .service s => [s]
  | .message _ => []
  | .enumeration _ => []
  | .unknown _ => []

/-- The remote procedures of an item. -/
def methodsOf (i : Item) : List Method := (servicesOf i).flatMap Service.methods

/-- The operations that the block files under the root. -/
def Block.operationsUnder (r : RootType) : Block → List OperationLine
  | operation _ root operations => if root = r then operations else []
  | wellKnown _ => []
  | object _ _ _ _ => []
  | enumeration _ _ => []

/-- The keyword of a block of the root type. -/
def Block.keywordUnder? (r : RootType) : Block → Option RootKeyword
  | operation keyword root _ => if root = r then some keyword else none
  | wellKnown _ => none
  | object _ _ _ _ => none
  | enumeration _ _ => none

/-- The root type of an operation block and what the block files there. -/
def Block.filed? : Block → Option (RootType × List OperationLine)
  | operation _ root operations => some (root, operations)
  | wellKnown _ => none
  | object _ _ _ _ => none
  | enumeration _ _ => none

/-- What a service files, root by root. -/
def filings (s : Service) : List (RootType × List OperationLine) :=
  [.query, .mutation].filterMap fun r =>
    if operations r s = [] then none else some (r, operations r s)

/-! ## Lines -/

theorem operationsUnder_operationBlocks (l : Ledger) (q r : RootType) (s : Service) :
    (operationBlocks l q s).flatMap (Block.operationsUnder r) =
      if q = r then operations r s else [] := by
  unfold operationBlocks
  by_cases hq : q = r
  · subst hq
    cases hops : operations q s <;> simp [Block.operationsUnder]
  · cases hops : operations q s <;> simp [Block.operationsUnder, hq]

/-- The lines of an item under a root are its procedures that are filed there. -/
theorem operationsUnder_blocksOf (l : Ledger) (r : RootType) (i : Item) :
    (blocksOf l i).flatMap (Block.operationsUnder r) =
      ((methodsOf i).filter fun p => rootOf p.name.shown = r).map printedOperation := by
  cases i with
  | message m => rfl
  | enumeration e => rfl
  | unknown kind => rfl
  | service s =>
    have hmethods : methodsOf (.service s) = s.methods := List.append_nil _
    rw [hmethods]
    show (operationBlocks l .query s ++ operationBlocks l .mutation s).flatMap _ = operations r s
    rw [List.flatMap_append, operationsUnder_operationBlocks, operationsUnder_operationBlocks]
    cases r <;> simp

theorem operationsUnder_blocksOfItems (items : List Item) (l : Ledger) (r : RootType) :
    (blocksOfItems l items).flatMap (Block.operationsUnder r) =
      ((items.flatMap methodsOf).filter fun p => rootOf p.name.shown = r).map printedOperation := by
  induction items generalizing l with
  | nil => rfl
  | cons i items ih =>
    rw [blocksOfItems, List.flatMap_append, operationsUnder_blocksOf, ih, List.flatMap_cons,
      List.filter_append, List.map_append]

/-! ## Keywords -/

theorem keywords_operationBlocks (l : Ledger) (q r : RootType) (s : Service) :
    (operationBlocks l q s).filterMap (Block.keywordUnder? r) =
      if q = r ∧ (servedRoots (.service s)).contains r = true then [keywordIn l r] else [] := by
  rw [contains_servedRoots]
  unfold operationBlocks
  by_cases hq : q = r
  · subst hq
    cases hops : operations q s <;> simp [Block.keywordUnder?]
  · cases hops : operations q s <;> simp [Block.keywordUnder?, hq]

/-- An item has a block of the root type if it serves it. -/
theorem keywords_blocksOf (l : Ledger) (r : RootType) (i : Item) :
    (blocksOf l i).filterMap (Block.keywordUnder? r) =
      if (servedRoots i).contains r then [keywordIn l r] else [] := by
  cases i with
  | message m => rfl
  | enumeration e => rfl
  | unknown kind => rfl
  | service s =>
    show (operationBlocks l .query s ++ operationBlocks l .mutation s).filterMap _ = _
    rw [List.filterMap_append, keywords_operationBlocks, keywords_operationBlocks]
    cases r <;> simp

/-- Once a root type is open, its blocks extend it. -/
theorem keywords_of_open (items : List Item) {l : Ledger} {r : RootType}
    (h : l.roots.contains r.name = true) :
    ∀ k ∈ (blocksOfItems l items).filterMap (Block.keywordUnder? r), k = .extend := by
  induction items generalizing l with
  | nil => simp [blocksOfItems]
  | cons i items ih =>
    have hopen : (l.after (actsOf i)).roots.contains r.name = true := by
      rw [contains_roots_after, h, Bool.true_or]
    intro k hk
    rw [blocksOfItems, List.filterMap_append, List.mem_append, keywords_blocksOf] at hk
    rcases hk with hk | hk
    · split at hk
      · obtain rfl := List.mem_singleton.mp hk
        rw [keywordIn, if_pos h]
      · cases hk
    · exact ih hopen k hk

/-- The first block of a root type that is not open declares it, and the others extend it. -/
theorem keywords_of_new (items : List Item) {l : Ledger} {r : RootType}
    (h : l.roots.contains r.name = false) {first : RootKeyword} {later : List RootKeyword}
    (hk : (blocksOfItems l items).filterMap (Block.keywordUnder? r) = first :: later) :
    first = .declare ∧ ∀ k ∈ later, k = .extend := by
  -- The items are looked through for the first one that serves the root type.
  induction items generalizing l with
  | nil => cases hk
  | cons i items ih =>
    have hafter : (l.after (actsOf i)).roots.contains r.name = (servedRoots i).contains r := by
      rw [contains_roots_after, contains_root_actsOf, h, Bool.false_or]
    rw [blocksOfItems, List.filterMap_append, keywords_blocksOf] at hk
    split at hk
    · rename_i hserved
      injection hk with hfirst hlater
      constructor
      · rw [← hfirst, keywordIn, h, if_neg Bool.false_ne_true]
      · rw [← hlater]
        exact keywords_of_open items (hafter.trans hserved)
    · rename_i hserved
      exact ih (hafter.trans (Bool.eq_false_iff.mpr hserved)) hk

/-! ## Blocks -/

theorem filed_blocksOf (l : Ledger) (i : Item) :
    (blocksOf l i).filterMap Block.filed? = (servicesOf i).flatMap filings := by
  cases i with
  | message m => rfl
  | enumeration e => rfl
  | unknown kind => rfl
  | service s =>
    have hblock : ∀ r, (operationBlocks l r s).filterMap Block.filed? =
        [r].filterMap fun r => if operations r s = [] then none else some (r, operations r s) := by
      intro r
      unfold operationBlocks
      split <;> simp_all [Block.filed?]
    show (operationBlocks l .query s ++ operationBlocks l .mutation s).filterMap _ = _
    rw [List.filterMap_append, hblock, hblock, ← List.filterMap_append]
    simp [servicesOf, filings]

/-- The operation blocks of items are what their services file, in order. -/
theorem filed_blocksOfItems (items : List Item) (l : Ledger) :
    (blocksOfItems l items).filterMap Block.filed? =
      (items.flatMap servicesOf).flatMap filings := by
  induction items generalizing l with
  | nil => rfl
  | cons i items ih =>
    rw [blocksOfItems, List.filterMap_append, filed_blocksOf, ih, List.flatMap_cons,
      List.flatMap_append]

theorem ne_nil_of_mem_filings {s : Service} {f : RootType × List OperationLine}
    (h : f ∈ filings s) : f.2 ≠ [] := by
  obtain ⟨r, -, hr⟩ := List.mem_filterMap.mp h
  split at hr
  · cases hr
  · cases hr
    assumption

/-! ## Documents -/

/-- Every remote procedure of a schema stands in the document once, under its root and in the
order of the schema; each root type is declared once, no block is empty, and a service has at
most one block for each root, the one for queries first. -/
theorem operations_filed_once {t : Tree} {d : Document} (h : t.toDocument = .ok (some d)) :
    (∀ r, d.blocks.flatMap (Block.operationsUnder r) =
      ((t.items.flatMap methodsOf).filter fun p => rootOf p.name.shown = r).map printedOperation) ∧
    (∀ r first later, d.blocks.filterMap (Block.keywordUnder? r) = first :: later →
      first = .declare ∧ ∀ k ∈ later, k = .extend) ∧
    (∀ keyword r, .operation keyword r [] ∉ d.blocks) ∧
    d.blocks.filterMap Block.filed? = (t.items.flatMap servicesOf).flatMap filings := by
  have hfiled : d.blocks.filterMap Block.filed? = (t.items.flatMap servicesOf).flatMap filings := by
    rw [filterMap_blocks_of_toDocument (fun _ => rfl) h, filed_blocksOfItems]
  refine ⟨fun r => ?_, fun r first later hk => ?_, fun keyword r hmem => ?_, hfiled⟩
  · rw [flatMap_blocks_of_toDocument (fun _ => rfl) h, operationsUnder_blocksOfItems]
  · rw [filterMap_blocks_of_toDocument (fun _ => rfl) h] at hk
    exact keywords_of_new t.items rfl hk
  · have hin : (r, []) ∈ d.blocks.filterMap Block.filed? := List.mem_filterMap.mpr ⟨_, hmem, rfl⟩
    rw [hfiled] at hin
    obtain ⟨s, -, hs⟩ := List.mem_flatMap.mp hin
    exact ne_nil_of_mem_filings hs rfl

/-- Services in a package and in its sub-package, one of them without procedures. -/
def stockTree : Tree :=
  { dialect := "proto3",
    declarations :=
      [.package "shop" [
        .service { name := "Orders", methods := [⟨"Place", "Order", "Order"⟩] },
        .package "stock" [
          .service { name := "Idle" },
          .service
            { name := "Items",
              methods := [⟨"Remove", "Id", "Item"⟩, ⟨"GetItem", "Id", "Item"⟩] }]]] }

/-- The procedures of both services stand under their roots, and the mutations of the second
service extend those of the first one. -/
theorem operations_filed_once_stockTree :
    ∃ d, stockTree.toDocument = .ok (some d) ∧
      d.blocks.flatMap (Block.operationsUnder .query) = [⟨"GetItem", "Id", "Item"⟩] ∧
      d.blocks.flatMap (Block.operationsUnder .mutation) =
        [⟨"Place", "Order", "Order"⟩, ⟨"Remove", "Id", "Item"⟩] ∧
      ∃ first second, d.blocks.filterMap (Block.keywordUnder? .mutation) = [first, second] ∧
        first = .declare ∧ second = .extend := by
  obtain ⟨d, hd, first, second, hkeywords⟩ : ∃ d, stockTree.toDocument = .ok (some d) ∧
      ∃ first second, d.blocks.filterMap (Block.keywordUnder? .mutation) = [first, second] :=
    ⟨_, rfl, _, _, rfl⟩
  obtain ⟨hlines, hkeyword, -, -⟩ := operations_filed_once hd
  obtain ⟨hfirst, hlater⟩ := hkeyword _ _ _ hkeywords
  refine ⟨d, hd, ?_, ?_, first, second, hkeywords, hfirst, hlater second List.mem_cons_self⟩
  · rw [hlines]
    decide +kernel
  · rw [hlines]
    decide +kernel

end ProtoSdl.Sdl
