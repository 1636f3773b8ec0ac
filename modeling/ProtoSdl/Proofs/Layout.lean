import ProtoSdl.Proofs.FirstUses
import ProtoSdl.Proofs.Operations

/-!
  Layout — the text of a document, chunk by chunk and line by line

  Templates decide where a document has line breaks. What the text of a document should
  be is told here item by item, in lines, and compared with what is read back from it:

    1. `chunksOf` lists the chunks of an item, and `chunksOfItems` those of items one
       after the other. A chunk with a body is `framed`: a line that opens it, the lines of
       the body and a line with the closing brace. The keyword of a root type depends on
       the procedures of earlier items (`rootKeyword`).
    2. `isChunk_chunksOf` — where no name in an item holds a line break, each line of a
       chunk is filled: even an empty name has something before it. Names of octets are
       printed as literals, which hold no line break.
    3. `chunks_of_text` — a document ends in one line break, and what stands before it is
       cut at the blank lines into the declarations of well-known types and the chunks of
       the items, in this order.
-/

namespace ProtoSdl

open Schema

/-- Whether the name holds no line break, if it is a text. -/
def Name.IsLine (n : Name) : Prop := ∀ s, n = .text s → Text.IsLine s

/-- Whether no name that an item holds has a line break. -/
def Schema.Item.HasLines : Item → Prop
  | .message m =>
    m.name.IsLine ∧ (∀ f ∈ m.fields, f.name.IsLine ∧ f.typeName.IsLine) ∧
      ∀ o ∈ m.oneofs, o.name.IsLine ∧ ∀ n ∈ o.members, n.IsLine
  | .enumeration e => e.name.IsLine ∧ ∀ v ∈ e.values, v.IsLine
  | .service s => ∀ p ∈ s.methods, p.name.IsLine ∧ p.request.IsLine ∧ p.response.IsLine
  | .unknown _ => True

theorem Name.isLine_text (s : String) : (Name.text s).IsLine ↔ Text.IsLine s := by
  constructor
  · exact fun h => h s rfl
  · rintro h r ⟨⟩
    exact h

/-- What is printed for the name holds no line break. -/
theorem Name.IsLine.shown {n : Name} (h : n.IsLine) : Text.IsLine n.shown := by
  cases n with
  | text s => exact h s rfl
  | octets bs => exact Text.newline_not_mem_octetLiteral bs

namespace Sdl

/-! ## The chunks of items -/

/-- The lines of a chunk with a body. -/
def framed (keyword name : String) (body : List String) : List String :=
  (keyword ++ " " ++ name ++ " \x7b") :: body ++ ["\x7d"]

/-- The lines between the braces of a message: one for each field and two for each oneof
group. -/
def bodyLines (m : Message) : List String :=
  m.fields.map (fun f => "\t" ++ fieldName f.name.shown ++ ": " ++ printedType f) ++
    m.oneofs.flatMap fun o =>
      ["\t# oneof " ++ o.name.shown ++ ": " ++ ", ".intercalate (o.members.map Name.shown),
       "\t" ++ o.name.shown ++ ": " ++ " | ".intercalate (o.members.map (memberType m))]

/-- The keyword of a root type after the earlier items. -/
def rootKeyword (earlier : List Item) (r : RootType) : String :=
  if (earlier.flatMap methodsOf).any fun p => rootOf p.name.shown = r then "extend type" else "type"

/-- The chunk of a service under one root, if it files a procedure there. -/
def rootChunks (earlier : List Item) (r : RootType) (s : Service) : List (List String) :=
  match s.methods.filter fun p => rootOf p.name.shown = r with
  | [] => []
  | filed =>
    [framed (rootKeyword earlier r) r.name (filed.map fun p =>
      "  " ++ p.name.shown ++ "(" ++ printedName p.request ++ ": " ++ printedName p.request ++
        "): " ++ printedName p.response)]

/-- The chunks of an item that comes after the earlier ones. -/
def chunksOf (earlier : List Item) : Item → List (List String)
  | .message m =>
    [framed "type" m.name.shown (bodyLines m),
     framed "input" (m.name.shown ++ "Input") (bodyLines m)]
  | .enumeration e => [framed "enum" e.name.shown (e.values.map fun v => "\t" ++ v.shown)]
  | .service s => rootChunks earlier .query s ++ rootChunks earlier .mutation s
  | .unknown _ => []

/-- The chunks of items that come after the earlier ones. -/
def chunksOfItems : List Item → List Item → List (List String)
  | _, [] => []
  | earlier, i :: rest => chunksOf earlier i ++ chunksOfItems (earlier ++ [i]) rest

/-! ## Blocks as chunks -/

theorem contains_servedRoots_item (r : RootType) (i : Item) :
    (servedRoots i).contains r = (methodsOf i).any fun p => rootOf p.name.shown = r := by
  cases i with
  | message m => rfl
  | enumeration e => rfl
  | unknown kind => rfl
  | service s =>
    have hmethods : methodsOf (.service s) = s.methods := List.append_nil _
    rw [contains_servedRoots, hmethods, Bool.eq_iff_iff]
    simp [operations]

/-- A root type is open after items if one of their procedures is filed under it. -/
theorem text_keywordIn (earlier : List Item) (r : RootType) :
    (keywordIn (({} : Ledger).after (earlier.flatMap actsOf)) r).text = rootKeyword earlier r := by
  have hopen : (({} : Ledger).after (earlier.flatMap actsOf)).roots.contains r.name =
      (earlier.flatMap methodsOf).any fun p => rootOf p.name.shown = r := by
    rw [contains_roots_after, List.any_flatMap]
    simp only [← contains_servedRoots_item, ← contains_root_actsOf]
    rw [Bool.eq_iff_iff]
    simp
  unfold keywordIn rootKeyword
  rw [hopen]
  split <;> rfl

theorem lines_operationBlocks (earlier : List Item) (r : RootType) (s : Service) :
    (operationBlocks (({} : Ledger).after (earlier.flatMap actsOf)) r s).map Block.lines =
      rootChunks earlier r s := by
  unfold operationBlocks rootChunks operations
  cases s.methods.filter fun p => rootOf p.name.shown = r with
  | nil => rfl
  | cons p ps =>
    rw [← text_keywordIn]
    simp only [List.map_cons, reduceCtorEq, if_false, List.map_nil, Block.lines, List.map_map]
    rfl

/-- The blocks of an item have the lines of its chunks. -/
theorem lines_blocksOf (earlier : List Item) (i : Item) :
    (blocksOf (({} : Ledger).after (earlier.flatMap actsOf)) i).map Block.lines =
      chunksOf earlier i := by
  cases i with
  | unknown kind => rfl
  | service s =>
    show (operationBlocks _ .query s ++ operationBlocks _ .mutation s).map Block.lines = _
    rw [List.map_append, lines_operationBlocks, lines_operationBlocks]
    rfl
  | enumeration e =>
    simp only [blocksOf, enumerationBlock, List.map_cons, List.map_nil, Block.lines, List.map_map]
    rfl
  | message m =>
    have hbody : (m.fields.map printedField).map FieldLine.render ++
        (m.oneofs.map (unionLine m)).flatMap UnionLine.render = bodyLines m := by
      rw [List.map_map, List.flatMap_map]
      rfl
    simp only [blocksOf, List.map_cons, List.map_nil, Block.lines, List.cons_append, hbody]
    rfl

theorem lines_blocksOfItems (items earlier : List Item) :
    (blocksOfItems (({} : Ledger).after (earlier.flatMap actsOf)) items).map Block.lines =
      chunksOfItems earlier items := by
  induction items generalizing earlier with
  | nil => rfl
  | cons i items ih =>
    rw [blocksOfItems, List.map_append, lines_blocksOf, ← Ledger.after_concat, ih]
    rfl

/-! ## Filled lines -/

theorem isLine_fieldName {s : String} (h : Text.IsLine s) : Text.IsLine (fieldName s) := by
  unfold fieldName
  split
  · rename_i rest hs
    unfold Text.IsLine at h ⊢
    rw [hs] at h
    rw [String.toList_ofList]
    exact fun hm => h (List.mem_cons_of_mem _ hm)
  · exact h

theorem isLine_typeName {s : String} (h : Text.IsLine s) : Text.IsLine (typeName s) := by
  have hall : ∀ p ∈ scalars, Text.IsLine p.2 := by decide +kernel
  unfold typeName
  cases hs : scalars.lookup s with
  | none => exact h
  | some g =>
    obtain ⟨before, after, he, -⟩ := List.lookup_eq_some_iff.mp hs
    refine hall (s, g) ?_
    rw [he]
    simp

theorem isLine_printedName {n : Name} (h : n.IsLine) : Text.IsLine (printedName n) := by
  unfold printedName
  cases hw : wellKnown? n.shown with
  | none => exact isLine_typeName h.shown
  | some w => exact (isLine_wellKnown ((wellKnown?_eq_some_iff _ _).mp hw)).1

theorem isLine_printedType {f : Field} (h : f.typeName.IsLine) : Text.IsLine (printedType f) := by
  have hname := isLine_printedName h
  have hmap : Text.IsLine mapTypeName := by decide
  have hopen : Text.IsLine "[" := by decide
  have hclose : Text.IsLine "]" := by decide
  unfold printedType
  split
  · exact hmap
  · split
    · exact (hopen.append hname).append hclose
    · exact hname

/-- The type that a oneof group shows is that of a field, or the name of the member. -/
theorem isLine_memberType {m : Message} (hm : ∀ f ∈ m.fields, f.typeName.IsLine) {n : Name}
    (h : n.IsLine) : Text.IsLine (memberType m n) := by
  apply isLine_typeName
  cases hf : m.field? n with
  | none => exact h.shown
  | some f => exact (hm f (List.mem_of_find?_eq_some hf)).shown

theorem isChunk_framed {keyword name : String} {body : List String}
    (hkeyword : Text.IsFilled keyword) (hname : Text.IsLine name)
    (hbody : ∀ s ∈ body, Text.IsFilled s) : Text.IsChunk (framed keyword name body) := by
  refine ⟨by simp [framed], fun s hs => ?_⟩
  have hspace : Text.IsLine " " := by decide
  have hopen : Text.IsLine " \x7b" := by decide
  have hclose : Text.IsFilled "\x7d" := by decide
  rcases List.mem_append.mp hs with hs | hs
  · rcases List.mem_cons.mp hs with rfl | hs
    · exact ((hkeyword.append hspace).append hname).append hopen
    · exact hbody s hs
  · obtain rfl := List.mem_singleton.mp hs
    exact hclose

theorem isFilled_bodyLines {m : Message} (h : (Item.message m).HasLines) :
    ∀ s ∈ bodyLines m, Text.IsFilled s := by
  obtain ⟨-, hfields, honeofs⟩ := h
  have htab : Text.IsFilled "\t" := by decide
  have hcomment : Text.IsFilled "\t# oneof " := by decide
  have hcolon : Text.IsLine ": " := by decide
  have hcomma : Text.IsLine ", " := by decide
  have hbar : Text.IsLine " | " := by decide
  intro s hs
  rcases List.mem_append.mp hs with hs | hs
  · obtain ⟨f, hf, rfl⟩ := List.mem_map.mp hs
    obtain ⟨hname, htype⟩ := hfields f hf
    exact ((htab.append (isLine_fieldName hname.shown)).append hcolon).append
      (isLine_printedType htype)
  · obtain ⟨o, ho, hs⟩ := List.mem_flatMap.mp hs
    obtain ⟨hname, hmembers⟩ := honeofs o ho
    rcases List.mem_cons.mp hs with rfl | hs
    · refine ((hcomment.append hname.shown).append hcolon).append (hcomma.intercalate ?_)
      intro s hs
      obtain ⟨n, hn, rfl⟩ := List.mem_map.mp hs
      exact (hmembers n hn).shown
    · obtain rfl := List.mem_singleton.mp hs
      refine ((htab.append hname.shown).append hcolon).append (hbar.intercalate ?_)
      intro s hs
      obtain ⟨n, hn, rfl⟩ := List.mem_map.mp hs
      exact isLine_memberType (fun f hf => (hfields f hf).2) (hmembers n hn)

theorem isChunk_rootChunks (earlier : List Item) (r : RootType) {s : Service}
    (h : (Item.service s).HasLines) : ∀ lines ∈ rootChunks earlier r s, Text.IsChunk lines := by
  have hkeyword : Text.IsFilled (rootKeyword earlier r) := by
    unfold rootKeyword
    split <;> decide
  have hroot : Text.IsLine r.name := by cases r <;> decide
  have hindent : Text.IsFilled "  " := by decide
  have hopen : Text.IsLine "(" := by decide
  have hcolon : Text.IsLine ": " := by decide
  have hclose : Text.IsLine "): " := by decide
  intro lines hlines
  unfold rootChunks at hlines
  split at hlines
  · cases hlines
  · obtain rfl := List.mem_singleton.mp hlines
    refine isChunk_framed hkeyword hroot fun line hline => ?_
    obtain ⟨p, hp, rfl⟩ := List.mem_map.mp hline
    obtain ⟨hname, hrequest, hresponse⟩ := h p (List.mem_filter.mp hp).1
    have hrequest := isLine_printedName hrequest
    exact ((((((hindent.append hname.shown).append hopen).append hrequest).append hcolon).append
      hrequest).append hclose).append (isLine_printedName hresponse)

/-- The chunks of an item have filled lines only. -/
theorem isChunk_chunksOf (earlier : List Item) {i : Item} (h : i.HasLines) :
    ∀ lines ∈ chunksOf earlier i, Text.IsChunk lines := by
  have htype : Text.IsFilled "type" := by decide
  have hinput : Text.IsFilled "input" := by decide
  have henum : Text.IsFilled "enum" := by decide
  have htwin : Text.IsLine "Input" := by decide
  have htab : Text.IsFilled "\t" := by decide
  intro lines hlines
  cases i with
  | message m =>
    have hbody := isFilled_bodyLines h
    rcases List.mem_cons.mp hlines with rfl | hlines
    · exact isChunk_framed htype h.1.shown hbody
    · obtain rfl := List.mem_singleton.mp hlines
      exact isChunk_framed hinput (h.1.shown.append htwin) hbody
  | enumeration e =>
    obtain rfl := List.mem_singleton.mp hlines
    refine isChunk_framed henum h.1.shown fun s hs => ?_
    obtain ⟨v, hv, rfl⟩ := List.mem_map.mp hs
    exact htab.append (h.2 v hv).shown
  | service s =>
    rcases List.mem_append.mp hlines with hlines | hlines
    · exact isChunk_rootChunks earlier .query h lines hlines
    · exact isChunk_rootChunks earlier .mutation h lines hlines
  | unknown kind => cases hlines

theorem isChunk_chunksOfItems (items earlier : List Item) (h : ∀ i ∈ items, i.HasLines) :
    ∀ lines ∈ chunksOfItems earlier items, Text.IsChunk lines := by
  induction items generalizing earlier with
  | nil => exact nofun
  | cons i items ih =>
    intro lines hlines
    rcases List.mem_append.mp hlines with hlines | hlines
    · exact isChunk_chunksOf earlier (h i List.mem_cons_self) lines hlines
    · exact ih _ (fun j hj => h j (List.mem_cons_of_mem _ hj)) lines hlines

/-! ## Documents -/

/-- A document in which no name holds a line break ends in one line break, and cut at its blank
lines it gives the declarations of the well-known types and the chunks of the items. -/
theorem chunks_of_text {t : Tree} {d : Document} (h : t.toDocument = .ok (some d))
    (hlines : ∀ i ∈ t.items, i.HasLines) :
    ∃ body, d.text = body ++ "\n" ∧ Text.hasSuffix "\n" body = false ∧
      Text.chunks body =
        (usedInOrder t.items).reverse.map (fun u => ["type " ++ u.2.name ++ " " ++ u.2.body]) ++
          chunksOfItems [] t.items := by
  have hpieces : d.blocks.map Block.lines =
      (usedInOrder t.items).reverse.map (fun u => ["type " ++ u.2.name ++ " " ++ u.2.body]) ++
        chunksOfItems [] t.items := by
    rw [blocks_of_toDocument h, List.map_append, List.map_map, ← lines_blocksOfItems]
    rfl
  have hrender : d.blocks.map Block.render = (d.blocks.map Block.lines).map "\n".intercalate := by
    rw [List.map_map]
    rfl
  have hne : d.blocks.map Block.lines ≠ [] := by
    rw [blocks_of_toDocument h]
    simp [blocksOfItems_ne_nil_of_toDocument h]
  have hchunks : ∀ lines ∈ d.blocks.map Block.lines, Text.IsChunk lines := by
    intro lines hl
    rw [hpieces] at hl
    rcases List.mem_append.mp hl with hl | hl
    · obtain ⟨u, hu, rfl⟩ := List.mem_map.mp hl
      have hdeclared := ((mem_usedInOrder_iff t u).mp (List.mem_reverse.mp hu)).1
      refine ⟨List.cons_ne_nil _ _, fun s hs => ?_⟩
      obtain rfl := List.mem_singleton.mp hs
      exact isFilled_declaration hdeclared
    · exact isChunk_chunksOfItems t.items [] hlines lines hl
  refine ⟨renderBlocks d.blocks, rfl, ?_, ?_⟩
  · unfold renderBlocks
    rw [hrender]
    exact Text.not_hasSuffix_intercalate hne hchunks
  · unfold renderBlocks
    rw [hrender, Text.chunks_intercalate hne hchunks, hpieces]

/-- A schema with a oneof group, an enumeration with an empty value, a name of octets of which
one is a line break, and a service with both roots. -/
def gateTree : Tree :=
  { dialect := "proto3",
    declarations :=
      [.message
        { name := "Gate",
          fields := [{ name := ".side", typeName := "int32", isRepeated := true },
                     { name := "at", typeName := "google.protobuf.Timestamp" }],
          oneofs := [{ name := "way", members := ["at", "none"] }] } [],
       .package "gates" [
        .enumeration { name := "State", values := ["", .octets [255, 10]] },
        .service
          { name := "Gates",
            methods := [⟨"OpenGate", "Gate", "State"⟩, ⟨"GetGate", "Id", "Gate"⟩] }]] }

/-- The chunks and lines of this schema's document. -/
theorem chunks_of_text_gateTree :
    (∀ i ∈ gateTree.items, i.HasLines) ∧
    ∃ d body, gateTree.toDocument = .ok (some d) ∧ d.text = body ++ "\n" ∧
      Text.chunks body =
        [["type Timestamp \x7b seconds: Int, nanos: Int \x7d"],
         ["type Gate \x7b", "\tside: [Int]", "\tat: Timestamp", "\t# oneof way: at, none",
          "\tway: google.protobuf.Timestamp | none", "\x7d"],
         ["input GateInput \x7b", "\tside: [Int]", "\tat: Timestamp", "\t# oneof way: at, none",
          "\tway: google.protobuf.Timestamp | none", "\x7d"],
         ["enum State \x7b", "\t", "\tb'\\xff\\n'", "\x7d"],
         ["type Query \x7b", "  GetGate(Id: Id): Gate", "\x7d"],
         ["type Mutation \x7b", "  OpenGate(Gate: Gate): State", "\x7d"]] := by
  have hitems : gateTree.items =
      [.message
        { name := "Gate",
          fields := [{ name := ".side", typeName := "int32", isRepeated := true },
                     { name := "at", typeName := "google.protobuf.Timestamp" }],
          oneofs := [{ name := "way", members := ["at", "none"] }] },
       .enumeration { name := "State", values := ["", .octets [255, 10]] },
       .service
        { name := "Gates",
          methods := [⟨"OpenGate", "Gate", "State"⟩, ⟨"GetGate", "Id", "Gate"⟩] }] := rfl
  have hlines : ∀ i ∈ gateTree.items, i.HasLines := by
    have hoctets : (Name.octets [255, 10]).IsLine := nofun
    rw [hitems]
    simp only [List.mem_cons, List.not_mem_nil, or_false, forall_eq_or_imp, forall_eq,
      Item.HasLines, Name.isLine_text, hoctets]
    decide
  obtain ⟨d, hd⟩ : ∃ d, gateTree.toDocument = .ok (some d) := ⟨_, rfl⟩
  obtain ⟨body, htext, -, hchunks⟩ := chunks_of_text hd hlines
  refine ⟨hlines, d, body, hd, htext, ?_⟩
  rw [hchunks]
  decide +kernel

end Sdl

end ProtoSdl
