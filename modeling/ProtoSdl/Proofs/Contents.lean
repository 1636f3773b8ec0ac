import ProtoSdl.Proofs.DeclaredTypes

/-!
  Contents — what a tree holds of the files that it is made of

  A tree is read as a list of its declarations, each with its holders: the packages that
  lead to it from the root, and then the messages that enclose it. Types and oneof groups
  are left out of a message's outline.

    1. `Tree.located` reads a tree, and `File.contents` says what is expected of a file:
       all that it declares, under the path of its package. Nested map entries and what is
       in them are expected nowhere.
    2. The fields of a declared message are those of the descriptor, one by one and in
       their order (`outline_of_fieldDeclarations`).
    3. A message is declared with all that is nested in it (`located_of_message`), whatever
       the order in the source is.
    4. So a tree holds what the target files declare, as often as they declare it, and
       nothing else (`located_of_tree`).
-/

namespace ProtoSdl

open scoped List

namespace Schema

/-- A field without its type. -/
structure FieldOutline where
  name : Name
  isRepeated : Bool
  isMap : Bool
  deriving DecidableEq, Repr

/-- A message without the types of its fields and without oneof groups. -/
structure MessageOutline where
  name : Name
  fields : List FieldOutline
  deriving DecidableEq, Repr

/-- A declaration apart from what is in it. -/
inductive Outline where
  | message (m : MessageOutline)
  | enumeration (e : Enumeration)
  | service (s : Service)
  | unknown (kind name : String)
  deriving DecidableEq, Repr

/-- What a declaration may stand in. -/
inductive Holder where
  | package (name : String)
  | message (m : MessageOutline)
  deriving DecidableEq, Repr

/-- A declaration that is no package with its holders, the outermost first. -/
structure Located where
  holders : List Holder
  own : Outline
  deriving DecidableEq, Repr

def Field.outline (f : Field) : FieldOutline :=
  { name := f.name, isRepeated := f.isRepeated, isMap := f.isMap }

def Message.outline (m : Message) : MessageOutline :=
  { name := m.name, fields := m.fields.map Field.outline }

mutual

/-- The declaration and all declarations in it; a package has no part of its own. -/
def Declaration.located (holders : List Holder) : Declaration → List Located
  | .package name children => locatedAll (holders ++ [.package name]) children
  | .message m nested =>
    { holders, own := .message m.outline } :: locatedAll (holders ++ [.message m.outline]) nested
  | .enumeration e => [{ holders, own := .enumeration e }]
  | .service s => [{ holders, own := .service s }]
  | .unknown kind name => [{ holders, own := .unknown kind name }]

/-- The declarations and all declarations in them. -/
def locatedAll (holders : List Holder) : List Declaration → List Located
  | [] => []
  | d :: rest => d.located holders ++ locatedAll holders rest

end

/-- The declarations of a tree with their holders. -/
def Tree.located (t : Tree) : List Located := locatedAll [] t.declarations

theorem locatedAll_eq_flatMap (holders : List Holder) (ds : List Declaration) :
    locatedAll holders ds = ds.flatMap (Declaration.located holders) := by
  induction ds with
  | nil => rfl
  | cons d ds ih => rw [locatedAll, ih, List.flatMap_cons]

theorem locatedAll_append (holders : List Holder) (ds es : List Declaration) :
    locatedAll holders (ds ++ es) = locatedAll holders ds ++ locatedAll holders es := by
  rw [locatedAll_eq_flatMap, locatedAll_eq_flatMap, locatedAll_eq_flatMap, List.flatMap_append]

/-- The order of siblings does not matter. -/
theorem locatedAll_perm {ds es : List Declaration} (h : ds ~ es) (holders : List Holder) :
    locatedAll holders ds ~ locatedAll holders es := by
  rw [locatedAll_eq_flatMap, locatedAll_eq_flatMap]
  exact h.flatMap_right _

end Schema

namespace Descriptor

open Schema (Declaration Holder Located Tree locatedAll)

/-! ## What is expected of a file -/

/-- A field of the message with this full name is a map if its type name is the full name
of a map entry nested in the message. -/
def Field.outline (full : String) (nested : List Message) (f : Field) : Schema.FieldOutline :=
  { name := f.name
    isRepeated := f.label == .repeated
    isMap := nested.any fun e => e.isMapEntry && f.typeName == .text (fullName full e.name) }

def Message.outline (table : NameTable) (scope : String) (m : Message) : Schema.MessageOutline :=
  { name := reference table (fullName scope m.name)
    fields := m.fields.map (Field.outline (fullName scope m.name) m.nested) }

def Method.outline (table : NameTable) (m : Method) : Schema.Method :=
  { name := m.name
    request := reference table m.input.shown
    response := reference table m.output.shown }

def Service.outline (table : NameTable) (s : Service) : Schema.Service :=
  { name := s.name, methods := s.methods.map (Method.outline table) }

/-- The contents of enumerations in a scope. -/
def enumerationContents (table : NameTable) (scope : String) (holders : List Holder)
    (es : List Enumeration) : List Located :=
  es.map fun e =>
    { holders
      own := .enumeration { name := reference table (fullName scope e.name), values := e.values } }

mutual

/-- The contents of a message: itself and, with the message as one more holder, what is
nested in it. -/
def Message.contents (table : NameTable) (scope : String) (holders : List Holder) :
    Message → List Located
  | ⟨name, fields, nested, enumerations, oneofs, mapEntry⟩ =>
    let own := Message.outline table scope ⟨name, fields, nested, enumerations, oneofs, mapEntry⟩
    let inside := holders ++ [.message own]
    { holders, own := .message own } ::
      (nestedContents table (fullName scope name) inside nested ++
        enumerationContents table (fullName scope name) inside enumerations)

/-- The contents of nested messages; map entries are passed over with all that is in them. -/
def nestedContents (table : NameTable) (scope : String) (holders : List Holder) :
    List Message → List Located
  | [] => []
  | m :: rest =>
    (if m.isMapEntry then [] else m.contents table scope holders) ++
      nestedContents table scope holders rest

end

/-- The packages that a file's declarations stand in. -/
def File.holders (f : File) : List Holder := (packagePath f.package.shown).map .package

/-- The contents of a file. -/
def File.contents (table : NameTable) (f : File) : List Located :=
  f.messages.flatMap (Message.contents table f.scope f.holders) ++
    enumerationContents table f.scope f.holders f.enumerations ++
    f.services.map fun s => { holders := f.holders, own := .service (s.outline table) }

/-! ## Declarations -/

variable {table : NameTable} {full : String} {nested : List Message}

theorem isSome_mapEntry? (full : String) (nested : List Message) (typeName : Name) :
    ( mapEntry? full nested typeName).isSome =
      nested.any fun e => e.isMapEntry && typeName == .text (fullName full e.name) := by
  unfold mapEntry?
  rw [List.isSome_find?, List.any_reverse]
  congr 1
  funext e
  rw [Bool.beq_comm]

theorem outline_of_declaration {f : Field} {d : Schema.Field}
    (h : f.declaration table full nested = .ok d) : d.outline = f.outline full nested := by
  have hmap := isSome_mapEntry? full nested f.typeName
  unfold Field.declaration at h
  unfold Field.outline
  rw [← hmap]
  split at h
  · rename_i entry hentry
    split at h
    · obtain ⟨typeName, -, h⟩ := bind_eq_ok h
      cases h
      rw [hentry]
      rfl
    · cases h
  · rename_i hentry
    obtain ⟨typeName, -, h⟩ := bind_eq_ok h
    cases h
    rw [hentry]
    rfl

/-- A declared message has a field for each field of the descriptor, in the same order. -/
theorem outline_of_fieldDeclarations {fields : List Field} : ∀ {declared : List Schema.Field},
    fieldDeclarations table full nested fields = .ok declared →
      declared.map Schema.Field.outline = fields.map (Field.outline full nested) := by
  induction fields with
  | nil =>
    intro declared h
    cases h
    rfl
  | cons f fields ih =>
    intro declared h
    rw [fieldDeclarations] at h
    obtain ⟨first, hfirst, h⟩ := bind_eq_ok h
    obtain ⟨others, hothers, h⟩ := bind_eq_ok h
    cases h
    rw [List.map_cons, List.map_cons, outline_of_declaration hfirst, ih hothers]

theorem located_of_enumerations (table : NameTable) (scope : String) (holders : List Holder)
    (es : List Enumeration) :
    locatedAll holders (es.map (·.declaration table scope)) =
      enumerationContents table scope holders es := by
  induction es with
  | nil => rfl
  | cons e es ih =>
    rw [List.map_cons, locatedAll, ih]
    rfl

mutual

/-- A message is declared with all that is nested in it. -/
theorem located_of_message (c : Context) : ∀ (m : Message) (scope : String) (path : List Int)
    (holders : List Holder) (d : Declaration), m.declaration c scope path = .ok d →
      d.located holders ~ m.contents c.table scope holders
  | ⟨name, fields, nested, enumerations, oneofs, mapEntry⟩, scope, path, holders, d, h => by
    obtain ⟨inner, declared, groups, children, hinner, hdeclared, -, rfl, hsorted⟩ :=
      Message.declaration_eq_ok h
    have hown : Schema.Message.outline
        { name := reference c.table (fullName scope name), fields := declared, oneofs := groups } =
          Message.outline c.table scope ⟨name, fields, nested, enumerations, oneofs, mapEntry⟩ := by
      unfold Schema.Message.outline Message.outline
      rw [outline_of_fieldDeclarations hdeclared]
    rw [Declaration.located, Message.contents, hown]
    refine List.Perm.cons _ ((Schema.locatedAll_perm hsorted _).trans ?_)
    rw [Schema.locatedAll_append, located_of_enumerations]
    exact (located_of_nested c nested (fullName scope name) path 0 _ inner hinner).append_right _

/-- So are messages that are nested side by side; map entries are not declared. -/
theorem located_of_nested (c : Context) : ∀ (ms : List Message) (scope : String)
    (path : List Int) (index : Nat) (holders : List Holder) (ds : List (List Int × Declaration)),
      nestedDeclarations c scope path index ms = .ok ds →
        locatedAll holders (ds.map Prod.snd) ~ nestedContents c.table scope holders ms
  | [], scope, path, index, holders, ds, h => by
    rw [nestedDeclarations] at h
    cases h
    exact List.Perm.nil
  | m :: rest, scope, path, index, holders, ds, h => by
    rw [nestedDeclarations] at h
    rw [nestedContents]
    split at h
    · rename_i hentry
      rw [if_pos hentry, List.nil_append]
      exact located_of_nested c rest scope path (index + 1) holders ds h
    · rename_i hentry
      obtain ⟨first, hfirst, h⟩ := bind_eq_ok h
      obtain ⟨others, hothers, h⟩ := bind_eq_ok h
      cases h
      rw [if_neg hentry, List.map_cons, locatedAll]
      exact (located_of_message c m scope _ holders first hfirst).append
        (located_of_nested c rest scope path (index + 1) holders others hothers)

end

/-! ## Files -/

theorem located_of_messages (c : Context) (scope : String) (holders : List Holder)
    (ms : List Message) : ∀ (index : Nat) (ds : List (List Int × Declaration)),
      messageDeclarations c scope index ms = .ok ds →
        locatedAll holders (ds.map Prod.snd) ~ ms.flatMap (Message.contents c.table scope holders) := by
  induction ms with
  | nil =>
    intro index ds h
    cases h
    exact List.Perm.nil
  | cons m ms ih =>
    intro index ds h
    rw [messageDeclarations] at h
    obtain ⟨first, hfirst, h⟩ := bind_eq_ok h
    obtain ⟨others, hothers, h⟩ := bind_eq_ok h
    cases h
    rw [List.map_cons, locatedAll, List.flatMap_cons]
    exact (located_of_message c m scope _ holders first hfirst).append (ih (index + 1) others hothers)

theorem located_of_services (holders : List Holder) (ss : List Service) :
    ∀ ds : List Declaration, ss.mapM (Service.declaration table) = .ok ds →
      locatedAll holders ds =
        ss.map fun s => { holders, own := .service (s.outline table) } := by
  induction ss with
  | nil =>
    intro ds h
    cases h
    rfl
  | cons s ss ih =>
    intro ds h
    rw [List.mapM_cons] at h
    obtain ⟨first, hfirst, h⟩ := bind_eq_ok h
    obtain ⟨others, hothers, h⟩ := bind_eq_ok h
    cases h
    obtain ⟨methods, hmethods, hfirst⟩ := bind_eq_ok hfirst
    cases hfirst
    rw [mapM_methodDeclaration _ _ hmethods, locatedAll, ih others hothers]
    rfl

/-- The declarations of a file are its contents. -/
theorem located_of_file {f : File} {ds : List Declaration} (h : f.declarations table = .ok ds) :
    locatedAll f.holders ds ~ f.contents table := by
  obtain ⟨messages, services, hmessages, hservices, hsorted⟩ := File.declarations_eq_ok h
  refine (Schema.locatedAll_perm hsorted _).trans ?_
  rw [Schema.locatedAll_append, Schema.locatedAll_append, located_of_enumerations,
    located_of_services _ _ _ hservices]
  have hperm := located_of_messages _ _ f.holders _ _ _ hmessages
  exact (hperm.append_right _).append_right _

/-! ## Sets -/

/-- A tree is read package by package, and the path tells the holders. -/
theorem isReading_locatedAll : IsReading fun path => locatedAll (path.map .package) where
  append _ := Schema.locatedAll_append _
  package path name children := by
    show locatedAll (path.map .package ++ [.package name]) children ++ [] = _
    rw [List.append_nil, List.map_append, List.map_singleton]

/-- Grafting files adds their contents and moves nothing. -/
theorem located_of_graftFiles (files : List File) :
    ∀ ds ds' : List Declaration, graftFiles table files ds = .ok ds' →
      locatedAll [] ds' ~ locatedAll [] ds ++ files.flatMap (File.contents table) := by
  induction files with
  | nil =>
    intro ds ds' h
    cases h
    rw [List.flatMap_nil, List.append_nil]
  | cons f files ih =>
    intro ds ds' h
    obtain ⟨new, hnew, h⟩ := graftFiles_cons_eq_ok h
    have hgraft := isReading_locatedAll.graft (packagePath f.package.shown) new [] ds
    have hfirst := hgraft.trans ((located_of_file hnew).append_left _)
    refine (ih _ ds' h).trans ?_
    rw [List.flatMap_cons, ← List.append_assoc]
    exact hfirst.append_right _

/-- A tree holds the contents of its target files, and nothing else. -/
theorem located_of_tree {s : Set} {names : Option (List String)} {t : Tree}
    (h : s.tree names = .ok t) :
    t.located ~ (s.targets names).flatMap (File.contents s.names) :=
  located_of_graftFiles _ [] t.declarations (Set.graftFiles_of_tree h)

/-- A message with a map, with an enumeration in it, and with a message in it. -/
def shipMessage : Message :=
  { name := "Ship",
    fields := [{ name := "crew", number := 1, label := .repeated, type := .message,
                 typeName := ".sea.port.Ship.CrewEntry" },
               { name := "decks", number := 2, label := .repeated, type := .message,
                 typeName := ".sea.port.Ship.Deck" }],
    nested := [{ name := "CrewEntry", mapEntry := some true,
                 fields := [{ name := "key", number := 1, type := .string },
                            { name := "value", number := 2, type := .string }] },
               { name := "Deck" }],
    enumerations := [{ name := "State", values := ["AFLOAT", "SUNK"] }] }

def harborFile : File :=
  { name := "harbor.proto", package := "sea.port", dialect := "proto3", messages := [shipMessage],
    services := [{ name := "Pilot", methods := [{ name := "GetShip", input := ".sea.Buoy",
                                                  output := ".sea.port.Ship" }] }],
    locations := [{ path := [6, 0], span := [2, 0, 4, 1] }, { path := [4, 0], span := [6, 0, 9, 1] }] }

def buoyFile : File :=
  { name := "buoy.proto", package := "sea", dialect := "proto3", messages := [{ name := "Buoy" }] }

def tideFile : File :=
  { name := "tide.proto", package := "sea", dialect := "proto3", messages := [{ name := "Tide" }] }

def shipOutline : Schema.MessageOutline :=
  { name := "Ship", fields := [⟨"crew", true, true⟩, ⟨"decks", true, false⟩] }

def harborContents : List Located :=
  [⟨[.package "sea", .package "port"], .message shipOutline⟩,
   ⟨[.package "sea", .package "port", .message shipOutline], .message ⟨"Ship_Deck", []⟩⟩,
   ⟨[.package "sea", .package "port", .message shipOutline],
     .enumeration ⟨"Ship_State", ["AFLOAT", "SUNK"]⟩⟩,
   ⟨[.package "sea", .package "port"], .service ⟨"Pilot", [⟨"GetShip", "Buoy", "Ship"⟩]⟩⟩,
   ⟨[.package "sea"], .message ⟨"Buoy", []⟩⟩]

theorem located_of_tree_harborFile :
    ∃ t, Set.tree ⟨[tideFile, harborFile, buoyFile]⟩ (some ["harbor.proto", "buoy.proto"]) = .ok t ∧
      t.located ~ harborContents := by
  obtain ⟨t, ht⟩ : ∃ t, Set.tree ⟨[tideFile, harborFile, buoyFile]⟩
      (some ["harbor.proto", "buoy.proto"]) = .ok t := ⟨_, rfl⟩
  have hcontents : (Set.targets ⟨[tideFile, harborFile, buoyFile]⟩
      (some ["harbor.proto", "buoy.proto"])).flatMap
        (File.contents (Set.names ⟨[tideFile, harborFile, buoyFile]⟩)) = harborContents := by decide
  refine ⟨t, ht, ?_⟩
  rw [← hcontents]
  exact located_of_tree ht

end Descriptor
end ProtoSdl
