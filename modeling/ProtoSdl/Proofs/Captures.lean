import ProtoSdl.Proofs.PrintedReferences

/-!
  Captures — when two types are printed under one name

  The package of a type is not printed, and the ledger takes the names of the types that
  a document defines and no others. So a document keeps apart what it defines itself:

    1. `nodup_declared` — no two emitted types have one name.
    2. `defined_types_print_differently` — two full names that are printed alike are the
       same, if both are those of emitted types or of well-known types in use. And what
       is printed for a full name is the same wherever it occurs.

  An imported type is printed and not taken. It may have the name of another one, and
  then a reader cannot tell which is meant (`exists_capture`).
-/

namespace ProtoSdl.Descriptor

open Schema (Item Tree isTypeName)
open Sdl

variable {s : Set} {names : Option (List String)} {t : Tree} {d : Document}

/-- Whether an emitted declaration of the target files declares the type. -/
def Set.Declares (s : Set) (names : Option (List String)) (full : String) : Prop :=
  ∃ f ∈ s.targets names, ∃ D ∈ f.emittedTypes s.names, D.full = full

/-- Whether something in the emitted declarations of the target files refers to the type. -/
inductive Set.Refers (s : Set) (names : Option (List String)) (full : String) : Prop where
  | field (f : File) (scope : String) (m : Message) (g : Field) (hf : f ∈ s.targets names)
      (hm : .message scope m ∈ f.emittedTypes s.names) (hg : g ∈ m.fields)
      (h : g.RefersTo scope m full)
  | request (f : File) (v : Service) (m : Method) (hf : f ∈ s.targets names)
      (hv : v ∈ f.emittedServices) (hm : m ∈ v.methods) (h : m.input = .text full)
  | response (f : File) (v : Service) (m : Method) (hf : f ∈ s.targets names)
      (hv : v ∈ f.emittedServices) (hm : m ∈ v.methods) (h : m.output = .text full)

/-- Whether the full name is that of a well-known type. -/
def IsWellKnown (full : String) : Prop := ∃ u ∈ wellKnownTypes, full = "." ++ u.1

/-- Whether the document of the target files defines the type itself. -/
def Set.Defines (s : Set) (names : Option (List String)) (full : String) : Prop :=
  s.Declares names full ∨ s.Refers names full ∧ IsWellKnown full

/-! ## Emitted types -/

/-- The name under which an item is declared. -/
def ownNames : Option Item → List String
  | some (.message m) => [m.name.shown]
  | some (.enumeration e) => [e.name.shown]
  | some (.service _) => []
  | some (.unknown _) => []
  | none => []

theorem ownNames_sublist (i : Item) :
    (ownNames (some i)).Sublist ((declaredNames i).map Name.shown) := by
  cases i with
  | message m => exact (List.nil_sublist _).cons_cons _
  | enumeration e => exact List.Sublist.refl _
  | service v => exact List.Sublist.refl _
  | unknown kind => exact List.Sublist.refl _

theorem ownNames_emittedItems (ht : s.tree names = .ok t) {f : File} (hf : f ∈ s.targets names) :
    (f.emittedItems s.names).flatMap ownNames =
      (f.emittedTypes s.names).map fun D => (reference s.names D.full).shown := by
  have htypes : ∀ Ds : List DeclaredType, (∀ D ∈ Ds, D ∈ f.emittedTypes s.names) →
      (Ds.map (DeclaredType.item? s.names)).flatMap ownNames =
        Ds.map fun D => (reference s.names D.full).shown := by
    intro Ds
    induction Ds with
    | nil => exact fun _ => rfl
    | cons D Ds ih =>
      intro h
      have hown : ownNames (D.item? s.names) = [(reference s.names D.full).shown] := by
        obtain ⟨i, -, hi⟩ := exists_item_of_type ht hf (h D List.mem_cons_self)
        rw [hi]
        obtain ⟨fields, oneofs, rfl⟩ | ⟨values, rfl⟩ := DeclaredType.item?_eq_some hi
        · rfl
        · rfl
      rw [List.map_cons, List.flatMap_cons, hown, ih fun E hE => h E (List.mem_cons_of_mem _ hE)]
      rfl
  have hservices : (f.emittedServices.map (Service.item? s.names)).flatMap ownNames = [] := by
    rw [List.flatMap_eq_nil_iff]
    intro i hi
    obtain ⟨v, -, rfl⟩ := List.mem_map.mp hi
    cases hv : v.item? s.names with
    | none => rfl
    | some i =>
      obtain ⟨methods, -, rfl⟩ := Service.item?_eq_some hv
      rfl
  unfold File.emittedItems
  rw [List.flatMap_append, htypes _ fun D hD => hD, hservices, List.append_nil]

/-- No two emitted types have one name. -/
theorem nodup_declared (ht : s.tree names = .ok t) (hd : t.toDocument = .ok (some d)) :
    (((s.targets names).flatMap (File.emittedTypes s.names)).map fun D =>
      (reference s.names D.full).shown).Nodup := by
  have hneeded : (neededNames t.items).Nodup := by
    rw [← (typeNames_perm hd).nodup_iff]
    exact nodup_typeNames hd
  -- The own names are some of the names that the items declare.
  have hitems : ((t.items.map some).flatMap ownNames).Nodup := by
    have hdeclared := (List.nodup_append'.mp hneeded).1
    rw [List.map_flatMap] at hdeclared
    rw [List.flatMap_map]
    refine hdeclared.sublist ?_
    generalize t.items = items
    induction items with
    | nil => exact List.Sublist.refl _
    | cons i items ih =>
      rw [List.flatMap_cons, List.flatMap_cons]
      exact (ownNames_sublist i).append ih
  rw [((items_of_tree ht).flatMap_right ownNames).nodup_iff, List.flatMap_assoc] at hitems
  rw [List.map_flatMap]
  have heq : (s.targets names).flatMap (fun f => (f.emittedItems s.names).flatMap ownNames) =
      (s.targets names).flatMap fun f =>
        (f.emittedTypes s.names).map fun D => (reference s.names D.full).shown :=
    List.flatMap_congr fun f hf => ownNames_emittedItems ht hf
  rwa [heq] at hitems

/-- Two emitted types that are printed alike have one full name. -/
theorem full_eq_of_declared (ht : s.tree names = .ok t) (hd : t.toDocument = .ok (some d))
    {D E : DeclaredType} (hD : D ∈ (s.targets names).flatMap (File.emittedTypes s.names))
    (hE : E ∈ (s.targets names).flatMap (File.emittedTypes s.names))
    (h : (reference s.names D.full).shown = (reference s.names E.full).shown) :
    D.full = E.full :=
  congrArg DeclaredType.full (List.inj_on_of_nodup_map (nodup_declared ht hd) hD hE h)

/-- The name of an emitted type can name a type, and is printed as it is shown. -/
theorem printedReference_of_mem_emittedTypes (ht : s.tree names = .ok t) {f : File}
    (hf : f ∈ s.targets names) {D : DeclaredType} (hD : D ∈ f.emittedTypes s.names) :
    isTypeName (reference s.names D.full) = true ∧
      printedReference s.names D.full = (reference s.names D.full).shown := by
  obtain ⟨i, hi, he⟩ := exists_item_of_type ht hf hD
  have hname := Schema.hasTypeName_of_mem_items hi
  have htype : isTypeName (reference s.names D.full) = true := by
    obtain ⟨fields, oneofs, rfl⟩ | ⟨values, rfl⟩ := DeclaredType.item?_eq_some he
    · exact hname
    · exact hname
  exact ⟨htype, printedName_of_isTypeName htype⟩

/-! ## Well-known types -/

theorem reference_wellKnown (table : NameTable) {u : String × WellKnownType}
    (hu : u ∈ wellKnownTypes) : reference table ("." ++ u.1) = .text u.1 := by
  have hall : ∀ u ∈ wellKnownTypes, Text.hasPrefix wellKnownPackage u.1 = true := by
    decide +kernel
  unfold reference
  rw [withoutDot_dot]
  dsimp only
  rw [if_pos (hall u hu)]

theorem printedReference_wellKnown (table : NameTable) {u : String × WellKnownType}
    (hu : u ∈ wellKnownTypes) : printedReference table ("." ++ u.1) = u.2.name := by
  have hw : wellKnown? u.1 = some u.2 := (wellKnown?_eq_some_iff _ _).mpr hu
  unfold printedReference printedName
  rw [reference_wellKnown table hu]
  dsimp only [Name.shown]
  rw [hw]

theorem wellKnown_name_injective {u v : String × WellKnownType} (hu : u ∈ wellKnownTypes)
    (hv : v ∈ wellKnownTypes) (h : u.2.name = v.2.name) : u = v := by
  have hnodup : (wellKnownTypes.map fun u => u.2.name).Nodup := by
    decide +kernel
  exact List.inj_on_of_nodup_map hnodup hu hv h

/-- The items of the target files use what the emitted declarations refer to. -/
theorem mem_usedNames_of_refers (ht : s.tree names = .ok t) {full : String}
    (h : s.Refers names full) : reference s.names full ∈ t.items.flatMap usedNames := by
  cases h with
  | field f scope m g hf hm hg h =>
    obtain ⟨i, hi, he⟩ := exists_item_of_type ht hf hm
    obtain ⟨declared, oneofs, hdeclared, -, rfl⟩ := DeclaredType.item?_message he
    obtain ⟨k, hk⟩ := List.mem_iff_getElem?.mp hg
    obtain ⟨r, hr, hdecl⟩ := getElem?_fieldDeclarations _ _ hdeclared k g hk
    rw [declaration_of_refersTo h hdecl] at hr
    let used : Schema.Field :=
      { name := g.name, typeName := reference s.names full, isRepeated := g.label == .repeated }
    refine List.mem_flatMap.mpr ⟨_, hi, List.mem_map.mpr ⟨used, ?_, rfl⟩⟩
    exact List.mem_filter.mpr ⟨List.mem_of_getElem? hr, rfl⟩
  | request f v m hf hv hm h =>
    obtain ⟨i, hi, he⟩ := exists_item_of_service ht hf hv
    obtain ⟨declared, hdeclared, rfl⟩ := Service.item?_eq_some he
    rw [mapM_methodDeclaration _ _ hdeclared] at hi
    refine List.mem_flatMap.mpr ⟨_, hi, List.mem_flatMap.mpr ⟨_, List.mem_map_of_mem hm, ?_⟩⟩
    rw [h]
    exact List.mem_cons_self
  | response f v m hf hv hm h =>
    obtain ⟨i, hi, he⟩ := exists_item_of_service ht hf hv
    obtain ⟨declared, hdeclared, rfl⟩ := Service.item?_eq_some he
    rw [mapM_methodDeclaration _ _ hdeclared] at hi
    refine List.mem_flatMap.mpr ⟨_, hi, List.mem_flatMap.mpr ⟨_, List.mem_map_of_mem hm, ?_⟩⟩
    rw [h]
    exact List.mem_cons_of_mem _ List.mem_cons_self

theorem mem_usedWellKnown (ht : s.tree names = .ok t) {u : String × WellKnownType}
    (hu : u ∈ wellKnownTypes) (h : s.Refers names ("." ++ u.1)) : u ∈ usedWellKnown t.items := by
  have hused := mem_usedNames_of_refers ht h
  rw [reference_wellKnown _ hu] at hused
  refine List.mem_filter.mpr ⟨hu, ?_⟩
  exact List.any_eq_true.mpr ⟨_, hused, by simp⟩

/-- No emitted type has the name of a well-known type in use. -/
theorem declared_ne_wellKnown (ht : s.tree names = .ok t) (hd : t.toDocument = .ok (some d))
    {f : File} (hf : f ∈ s.targets names) {D : DeclaredType} (hD : D ∈ f.emittedTypes s.names)
    {u : String × WellKnownType} (hu : u ∈ wellKnownTypes) (h : s.Refers names ("." ++ u.1)) :
    printedReference s.names D.full ≠ printedReference s.names ("." ++ u.1) := by
  rw [(printedReference_of_mem_emittedTypes ht hf hD).2, printedReference_wellKnown _ hu]
  have hneeded := nodup_typeNames hd
  rw [(typeNames_perm hd).nodup_iff] at hneeded
  obtain ⟨-, -, hdisjoint⟩ := List.nodup_append'.mp hneeded
  intro heq
  have hdeclared : (reference s.names D.full).shown ∈
      (t.items.flatMap declaredNames).map Name.shown := by
    obtain ⟨i, hi, he⟩ := exists_item_of_type ht hf hD
    apply List.mem_map_of_mem
    refine List.mem_flatMap.mpr ⟨i, hi, ?_⟩
    obtain ⟨fields, oneofs, rfl⟩ | ⟨values, rfl⟩ := DeclaredType.item?_eq_some he
    · exact List.mem_cons_self
    · exact List.mem_cons_self
  apply hdisjoint hdeclared
  rw [heq]
  exact List.mem_map_of_mem (mem_usedWellKnown ht hu h)

/-! ## Defined types -/

/-- Every full name is printed in one way, and two full names of types that the document
defines in different ways. -/
theorem defined_types_print_differently (ht : s.tree names = .ok t)
    (hd : t.toDocument = .ok (some d)) :
    (∀ f ∈ s.targets names, ∀ D ∈ f.emittedTypes s.names,
      ∃ b ∈ d.blocks, D.block? s.names = some b ∧
        b.typeName? = some (printedReference s.names D.full)) ∧
    (∀ f ∈ s.targets names, ∀ scope m, .message scope m ∈ f.emittedTypes s.names →
      ∃ name lines unions,
        (DeclaredType.message scope m).block? s.names = some (.object .type name lines unions) ∧
        .object .type name lines unions ∈ d.blocks ∧
        .object .input (name ++ "Input") lines unions ∈ d.blocks ∧
        ∀ (k : Nat) (g : Field) (full : String), m.fields[k]? = some g → g.RefersTo scope m full →
          lines[k]? = some
            { name := fieldName g.name.shown,
              type := if g.label = .repeated then "[" ++ printedReference s.names full ++ "]"
                      else printedReference s.names full }) ∧
    (∀ f ∈ s.targets names, ∀ v ∈ f.emittedServices, ∀ m ∈ v.methods, ∃ keyword,
      .operation keyword (rootOf m.name.shown) (v.lines s.names (rootOf m.name.shown)) ∈ d.blocks) ∧
    ∀ M N : String, s.Defines names M → s.Defines names N → M ≠ N →
      printedReference s.names M ≠ printedReference s.names N := by
  refine ⟨?_, ?_, ?_, ?_⟩
  · intro f hf D hD
    obtain ⟨b, hb, hname, hfilter⟩ := block_mem_document ht hd hf hD
    have hmem : b ∈ d.blocks := by
      apply List.mem_of_mem_filter
      rw [hfilter]
      exact List.mem_singleton_self b
    exact ⟨b, hmem, hb, by rw [hname, (printedReference_of_mem_emittedTypes ht hf hD).2]⟩
  · intro f hf scope m hm
    exact lines_of_block ht hd hf hm
  · intro f hf v hv m hm
    exact operations_mem_document ht hd hf hv hm
  · -- Each of the two is declared here or well-known.
    rintro M N (⟨f, hf, D, hD, rfl⟩ | ⟨hM, u, hu, rfl⟩) (⟨g, hg, E, hE, rfl⟩ | ⟨hN, w, hw, rfl⟩) hne
    · intro heq
      rw [(printedReference_of_mem_emittedTypes ht hf hD).2,
        (printedReference_of_mem_emittedTypes ht hg hE).2] at heq
      exact hne (full_eq_of_declared ht hd (List.mem_flatMap.mpr ⟨f, hf, hD⟩)
        (List.mem_flatMap.mpr ⟨g, hg, hE⟩) heq)
    · exact declared_ne_wellKnown ht hd hf hD hw hN
    · exact (declared_ne_wellKnown ht hd hg hE hu hM).symm
    · intro heq
      rw [printedReference_wellKnown _ hu, printedReference_wellKnown _ hw] at heq
      rw [wellKnown_name_injective hu hw heq] at hne
      exact hne rfl

/-! ## Imported types -/

def paintFile : File :=
  { name := "paint.proto", package := "paint", dialect := "proto3",
    messages := [{ name := "Color" }] }

def lightFile : File :=
  { name := "light.proto", package := "light", dialect := "proto3",
    messages := [{ name := "Color" }] }

def roomMessage : Message :=
  { name := "Room",
    fields := [{ name := "wall", number := 1, type := .message, typeName := ".paint.Color" },
               { name := "lamp", number := 2, type := .message, typeName := ".light.Color" },
               { name := "since", number := 3, type := .message,
                 typeName := ".google.protobuf.Timestamp" }] }

/-- A file that refers to two imported types of one name, and declares a third one. -/
def roomFile : File :=
  { name := "room.proto", package := "room", dialect := "proto3",
    messages := [roomMessage, { name := "Color" }] }

def roomSet : Set := ⟨[paintFile, lightFile, roomFile]⟩

def roomDeclared : Schema.Message :=
  { name := "Room",
    fields := [{ name := "wall", typeName := "Color" }, { name := "lamp", typeName := "Color" },
               { name := "since", typeName := "google.protobuf.Timestamp" }] }

def roomTree : Tree :=
  { dialect := "proto3",
    declarations := [.package "room" [.message roomDeclared [], .message { name := "Color" } []]] }

theorem tree_roomSet : roomSet.tree (some ["room.proto"]) = .ok roomTree := by
  have htree : roomSet.tree (some ["room.proto"]) =
      .ok ⟨"proto3", graft ["room"] (inSourceOrder [] [
        ([4, 0], .message roomDeclared (inSourceOrder [] [])),
        ([4, 1], .message { name := "Color" } (inSourceOrder [] []))]) []⟩ := rfl
  rw [htree]
  simp only [inSourceOrder_nil]
  rfl

theorem mem_emittedTypes_roomFile :
    .message ".room" roomMessage ∈ roomFile.emittedTypes roomSet.names := List.mem_cons_self

theorem defined_types_print_differently_roomSet :
    roomSet.Defines (some ["room.proto"]) ".room.Room" ∧
      roomSet.Defines (some ["room.proto"]) ".google.protobuf.Timestamp" ∧
      printedReference roomSet.names ".room.Room" ≠
        printedReference roomSet.names ".google.protobuf.Timestamp" := by
  have hroom : roomSet.Defines (some ["room.proto"]) ".room.Room" :=
    .inl ⟨roomFile, List.mem_cons_self, _, mem_emittedTypes_roomFile, rfl⟩
  have hsince : roomSet.Defines (some ["room.proto"]) ".google.protobuf.Timestamp" :=
    .inr ⟨.field roomFile ".room" roomMessage _ List.mem_cons_self mem_emittedTypes_roomFile
      (List.mem_cons_of_mem _ (List.mem_cons_of_mem _ List.mem_cons_self)) ⟨rfl, rfl, rfl⟩,
      ("google.protobuf.Timestamp", ⟨"Timestamp", "\x7b seconds: Int, nanos: Int \x7d"⟩),
      by decide +kernel, rfl⟩
  obtain ⟨d, hd⟩ : ∃ d, roomTree.toDocument = .ok (some d) := ⟨_, rfl⟩
  exact ⟨hroom, hsince, (defined_types_print_differently tree_roomSet hd).2.2.2 _ _ hroom hsince
    (by decide)⟩

/-- Two imported types may be printed under one name, and an imported one under that of a
type that the document declares; the full names of the set are different. -/
theorem exists_capture :
    (roomSet.names.map Prod.fst).Nodup ∧ roomSet.tree (some ["room.proto"]) = .ok roomTree ∧
      (∃ d, roomTree.toDocument = .ok (some d)) ∧
      roomSet.Declares (some ["room.proto"]) ".room.Color" ∧
      roomSet.Refers (some ["room.proto"]) ".paint.Color" ∧
      roomSet.Refers (some ["room.proto"]) ".light.Color" ∧
      ∀ full ∈ [".room.Color", ".paint.Color", ".light.Color"],
        printedReference roomSet.names full = "Color" := by
  refine ⟨by decide, tree_roomSet, ⟨_, rfl⟩, ?_, ?_, ?_, by decide +kernel⟩
  · have hcolor : .message ".room" { name := "Color" } ∈ roomFile.emittedTypes roomSet.names :=
      List.mem_cons_of_mem _ List.mem_cons_self
    exact ⟨roomFile, List.mem_cons_self, _, hcolor, rfl⟩
  · exact .field roomFile ".room" roomMessage _ List.mem_cons_self mem_emittedTypes_roomFile
      List.mem_cons_self ⟨rfl, rfl, rfl⟩
  · exact .field roomFile ".room" roomMessage _ List.mem_cons_self mem_emittedTypes_roomFile
      (List.mem_cons_of_mem _ List.mem_cons_self) ⟨rfl, rfl, rfl⟩

end ProtoSdl.Descriptor
