import ProtoSdl.Proofs.UniqueNames
import ProtoSdl.Proofs.TypeChains

/-!
  Printed references — the blocks of a set's document, read off the descriptors

  Each emitted type of a set has a block of its own in the document of the set, and
  each emitted service an operation block under every root that it needs:

    1. `block_mem_document` — the block of an emitted type is in the document, under
       the name that a reference to the type becomes, and no other type has this name.
    2. `lines_of_block` — the line of a field that refers to a type prints the reference,
       in brackets if the field is repeated.
    3. `operations_mem_document` — the operations of a service under one root print the
       references of the remote procedures that are filed there.

  What is printed for a reference is a function of its full name and of the set.
-/

namespace ProtoSdl.Descriptor

open Schema (Item Tree isTypeName)
open Sdl

/-- The printed name of a reference. -/
def printedReference (table : NameTable) (full : String) : String :=
  printedName (reference table full)

/-- The block of the type; none where the descriptor is at fault. -/
def DeclaredType.block? (table : NameTable) (d : DeclaredType) : Option Block :=
  match d.item? table with
  | some (.message m) =>
    some (.object .type m.name.shown (m.fields.map printedField) (m.oneofs.map (unionLine m)))
  | some (.enumeration e) => some (enumerationBlock e)
  | some (.service _) => none
  | some (.unknown _) => none
  | none => none

/-- Whether the field of the message refers to the type by this full name. -/
def Field.RefersTo (f : Field) (scope : String) (m : Message) (full : String) : Prop :=
  f.type.scalarName? = none ∧ mapEntry? (fullName scope m.name) m.nested f.typeName = none ∧
    f.typeName = .text full

/-- The line of a remote procedure. -/
def Method.line (table : NameTable) (m : Method) : OperationLine :=
  { name := m.name.shown, request := printedReference table m.input.shown,
    response := printedReference table m.output.shown }

/-- The operations of a service under one root. -/
def Service.lines (table : NameTable) (r : RootType) (s : Service) : List OperationLine :=
  (s.methods.filter fun m => rootOf m.name.shown = r).map (Method.line table)

/-! ## Blocks and items -/

theorem mem_blocksOfItems {items : List Item} {i : Item} (h : i ∈ items) (l : Ledger) :
    ∃ l', ∀ b ∈ blocksOf l' i, b ∈ blocksOfItems l items := by
  induction items generalizing l with
  | nil => cases h
  | cons j items ih =>
    rw [blocksOfItems]
    rcases List.mem_cons.mp h with rfl | h
    · exact ⟨l, fun b hb => List.mem_append_left _ hb⟩
    · obtain ⟨l', hl⟩ := ih h (l.after (actsOf j))
      exact ⟨l', fun b hb => List.mem_append_right _ (hl b hb)⟩

theorem mem_document {t : Tree} {d : Document} (h : t.toDocument = .ok (some d)) {i : Item}
    (hi : i ∈ t.items) : ∃ l, ∀ b ∈ blocksOf l i, b ∈ d.blocks := by
  obtain ⟨-, -, -, hblocks⟩ := of_toDocument_eq_ok h
  obtain ⟨l, hl⟩ := mem_blocksOfItems hi {}
  refine ⟨l, fun b hb => ?_⟩
  rw [hblocks]
  exact List.mem_append_right _ (hl b hb)

/-- Under a partial function without repeated values an element is told by its value. -/
theorem filter_eq_singleton {α β : Type} [DecidableEq β] {f : α → Option β} {l : List α}
    (hd : (l.filterMap f).Nodup) {a : α} (ha : a ∈ l) {b : β} (hb : f a = some b) :
    (l.filter fun c => f c = some b) = [a] := by
  obtain ⟨before, after, rfl⟩ := List.append_of_mem ha
  rw [List.filterMap_append, List.filterMap_cons, hb, List.nodup_append'] at hd
  obtain ⟨-, hafter, hbefore⟩ := hd
  -- The value is had once, and so neither before nor after the element.
  have hnot : b ∉ after.filterMap f := (List.nodup_cons.mp hafter).1
  have hnil : ∀ cs : List α, b ∉ cs.filterMap f → (cs.filter fun c => f c = some b) = [] := by
    intro cs hcs
    rw [List.filter_eq_nil_iff]
    intro c hc
    rw [decide_eq_true_eq]
    intro hf
    exact hcs (List.mem_filterMap.mpr ⟨c, hc, hf⟩)
  have hb' : b ∉ before.filterMap f := fun hm => hbefore hm List.mem_cons_self
  rw [List.filter_append, List.filter_cons, hnil before hb', hnil after hnot]
  simp [hb]

/-! ## Types -/

variable {s : Set} {names : Option (List String)} {t : Tree} {d : Document} {f : File}

/-- The block of an emitted type is in the document, and it alone has its name. -/
theorem block_mem_document (ht : s.tree names = .ok t) (hd : t.toDocument = .ok (some d))
    (hf : f ∈ s.targets names) {D : DeclaredType} (hD : D ∈ f.emittedTypes s.names) :
    ∃ b, D.block? s.names = some b ∧ b.typeName? = some (reference s.names D.full).shown ∧
      d.blocks.filter (fun k => k.typeName? = some (reference s.names D.full).shown) = [b] := by
  obtain ⟨i, hi, he⟩ := exists_item_of_type ht hf hD
  obtain ⟨l, hl⟩ := mem_document hd hi
  have hblock : ∃ b, D.block? s.names = some b ∧ b ∈ blocksOf l i ∧
      b.typeName? = some (reference s.names D.full).shown := by
    unfold DeclaredType.block?
    rw [he]
    obtain ⟨fields, oneofs, rfl⟩ | ⟨values, rfl⟩ := DeclaredType.item?_eq_some he
    · exact ⟨_, rfl, List.mem_cons_self, rfl⟩
    · exact ⟨_, rfl, List.mem_cons_self, rfl⟩
  obtain ⟨b, hb, hmem, hname⟩ := hblock
  exact ⟨b, hb, hname, filter_eq_singleton (nodup_typeNames hd) (hl b hmem) hname⟩

/-- The declared fields of a message are those of its fields, one by one. -/
theorem getElem?_fieldDeclarations {table : NameTable} {full : String} {nested : List Message}
    (fields : List Field) : ∀ (declared : List Schema.Field),
      fieldDeclarations table full nested fields = .ok declared → ∀ (k : Nat) (g : Field),
        fields[k]? = some g →
          ∃ h, declared[k]? = some h ∧ g.declaration table full nested = .ok h := by
  induction fields with
  | nil =>
    intro declared h k g hg
    cases hg
  | cons f fields ih =>
    intro declared h k g hg
    rw [fieldDeclarations] at h
    obtain ⟨first, hfirst, h⟩ := bind_eq_ok h
    obtain ⟨others, hothers, h⟩ := bind_eq_ok h
    cases h
    cases k with
    | zero =>
      cases hg
      exact ⟨first, rfl, hfirst⟩
    | succ k => exact ih others hothers k g hg

theorem declaration_of_refersTo {table : NameTable} {scope : String} {m : Message} {g : Field}
    {full : String} (hg : g.RefersTo scope m full) {h : Schema.Field}
    (hh : g.declaration table (fullName scope m.name) m.nested = .ok h) :
    h = { name := g.name, typeName := reference table full,
          isRepeated := g.label == .repeated } := by
  obtain ⟨hscalar, hmap, hname⟩ := hg
  unfold Field.declaration at hh
  rw [hmap] at hh
  dsimp only at hh
  obtain ⟨n, hn, hh⟩ := bind_eq_ok hh
  cases hh
  unfold Field.resolvedType at hn
  rw [hscalar, hname] at hn
  cases hn
  rfl

/-- The line of a field that refers to a type. -/
theorem printedField_of_refersTo {table : NameTable} {scope : String} {m : Message} {g : Field}
    {full : String} (hg : g.RefersTo scope m full) {h : Schema.Field}
    (hh : g.declaration table (fullName scope m.name) m.nested = .ok h) :
    printedField h = { name := fieldName g.name.shown,
                       type := if g.label = .repeated then "[" ++ printedReference table full ++ "]"
                               else printedReference table full } := by
  rw [declaration_of_refersTo hg hh]
  unfold printedField printedType printedReference
  by_cases hr : g.label = .repeated <;> simp [hr]

/-- A message has two objects with the same lines, and the line of a field that refers to
a type prints the reference. -/
theorem lines_of_block (ht : s.tree names = .ok t) (hd : t.toDocument = .ok (some d))
    (hf : f ∈ s.targets names) {scope : String} {m : Message}
    (hm : .message scope m ∈ f.emittedTypes s.names) :
    ∃ name lines unions,
      (DeclaredType.message scope m).block? s.names = some (.object .type name lines unions) ∧
      .object .type name lines unions ∈ d.blocks ∧
      .object .input (name ++ "Input") lines unions ∈ d.blocks ∧
      ∀ (k : Nat) (g : Field) (full : String), m.fields[k]? = some g → g.RefersTo scope m full →
        lines[k]? = some
          { name := fieldName g.name.shown,
            type := if g.label = .repeated then "[" ++ printedReference s.names full ++ "]"
                    else printedReference s.names full } := by
  obtain ⟨i, hi, he⟩ := exists_item_of_type ht hf hm
  obtain ⟨l, hl⟩ := mem_document hd hi
  unfold DeclaredType.block?
  rw [he]
  obtain ⟨fields, oneofs, hfields, -, rfl⟩ := DeclaredType.item?_message he
  refine ⟨_, _, _, rfl, hl _ List.mem_cons_self, hl _ (by simp [blocksOf, inputName]), ?_⟩
  intro k g full hk hg
  obtain ⟨h, hh, hdecl⟩ := getElem?_fieldDeclarations _ _ hfields k g hk
  rw [List.getElem?_map, hh, Option.map_some, printedField_of_refersTo hg hdecl]

/-! ## Services -/

/-- The operations of an emitted service under a root that it needs are in the document. -/
theorem operations_mem_document (ht : s.tree names = .ok t) (hd : t.toDocument = .ok (some d))
    (hf : f ∈ s.targets names) {v : Service} (hv : v ∈ f.emittedServices) {m : Method}
    (hm : m ∈ v.methods) :
    ∃ keyword, .operation keyword (rootOf m.name.shown)
      (v.lines s.names (rootOf m.name.shown)) ∈ d.blocks := by
  obtain ⟨i, hi, he⟩ := exists_item_of_service ht hf hv
  -- The ledger decides on the keyword of the block only.
  obtain ⟨l, hl⟩ := mem_document hd hi
  obtain ⟨declared, hdeclared, rfl⟩ := Service.item?_eq_some he
  generalize hroot : rootOf m.name.shown = r
  have hops : operations r { name := v.name, methods := declared } = v.lines s.names r := by
    rw [mapM_methodDeclaration _ _ hdeclared]
    unfold operations Service.lines
    rw [List.filter_map, List.map_map]
    rfl
  have hne : v.lines s.names r ≠ [] := by
    apply List.ne_nil_of_mem
    apply List.mem_map_of_mem
    exact List.mem_filter.mpr ⟨hm, by simp [hroot]⟩
  have hblock : .operation (keywordIn l r) r (v.lines s.names r) ∈
      operationBlocks l r { name := v.name, methods := declared } := by
    unfold operationBlocks
    rw [hops, if_neg hne]
    exact List.mem_singleton_self _
  refine ⟨keywordIn l r, hl _ ?_⟩
  cases r with
  | query => exact List.mem_append_left _ hblock
  | mutation => exact List.mem_append_right _ hblock

end ProtoSdl.Descriptor
