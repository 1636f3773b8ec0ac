import ProtoSdl.Descriptor.SchemaTree

/-!
  Imports — what the files of a set that are not converted can change

  The tree of a set is made of its target files. All other files are there for the
  references of the targets: they add to the name table and have no other way into the
  tree.

    1. `NameTable.Agree.file` — a table is asked for nothing but what a file mentions: the
       full names that it declares and the names by which its fields and its remote
       procedures refer to types. So two tables that agree on them give the same
       declarations, or the same fault.
    2. `Enlarged` is the relation of two lists of files, of which the second has some more
       files anywhere. If the added files declare nothing of what a target mentions, the
       tables of the two sets agree on that (`Enlarged.find?_names`), and the targets are
       the same (`Enlarged.filter`).
    3. So files that are apart from the targets do not change the tree, whatever their
       dialects, their services, their locations and their faults are
       (`tree_of_enlarged`).

  There is one exception to 3. The chains of the name table are joined for all files alike,
  and a nested enumeration whose name is no text cannot be joined to one
  (`exists_import_that_matters`).
-/

namespace ProtoSdl.Descriptor

open Schema (Declaration)

/-! ## What a file mentions -/

mutual

/-- The names by which the fields of a message and of all messages in it refer to types. -/
def Message.references : Message → List Name
  | ⟨_, fields, nested, _, _, _⟩ => fields.map Field.typeName ++ nestedReferences nested

/-- The names by which the fields of messages refer to types, at any depth. -/
def nestedReferences : List Message → List Name
  | [] => []
  | m :: rest => m.references ++ nestedReferences rest

end

/-- The names by which a service refers to types. -/
def Service.references (s : Service) : List Name :=
  s.methods.flatMap fun m => [m.input, m.output]

/-- The full names that a table lists. -/
def NameTable.keys (t : NameTable) : List Name := t.map fun entry => .text entry.1

/-- The full names that a file declares and the names by which it refers to types. -/
def File.mentions (f : File) : List Name :=
  f.names.keys ++ (nestedReferences f.messages ++ f.services.flatMap Service.references)

theorem mem_nestedReferences {ms : List Message} {m : Message} (hm : m ∈ ms) {f : Field}
    (hf : f ∈ m.fields) : f.typeName ∈ nestedReferences ms := by
  induction ms with
  | nil => cases hm
  | cons n ms ih =>
    rw [nestedReferences]
    rcases List.mem_cons.mp hm with rfl | hm
    · apply List.mem_append_left
      obtain ⟨name, fields, nested, enumerations, oneofs, mapEntry⟩ := m
      rw [Message.references]
      exact List.mem_append_left _ (List.mem_map_of_mem hf)
    · exact List.mem_append_right _ (ih hm)

theorem mapM_congr {ε α β : Type} {f g : α → Except ε β} {as : List α}
    (h : ∀ a ∈ as, f a = g a) : as.mapM f = as.mapM g := by
  induction as with
  | nil => rfl
  | cons a as ih =>
    rw [List.mapM_cons, List.mapM_cons, h a List.mem_cons_self,
      ih fun b hb => h b (List.mem_cons_of_mem _ hb)]

/-! ## Tables that agree -/

namespace NameTable

/-- Whether two tables give the same to each text among the names. -/
def Agree (t u : NameTable) (names : List Name) : Prop :=
  ∀ full, .text full ∈ names → t.find? full = u.find? full

variable {t u : NameTable} {names more : List Name} {l : List Location}

theorem keys_cons (entry : String × Name) (t : NameTable) :
    keys (entry :: t) = .text entry.1 :: t.keys := rfl

theorem keys_enumerationNames (scope chain : String) (es : List Enumeration) :
    keys (enumerationNames scope chain es) = es.map fun e => .text (fullName scope e.name) :=
  List.map_map

theorem keys_topEnumerationNames (scope : String) (es : List Enumeration) :
    keys (topEnumerationNames scope es) = es.map fun e => .text (fullName scope e.name) :=
  List.map_map

theorem keys_append (t u : NameTable) : keys (t ++ u) = t.keys ++ u.keys := List.map_append

theorem find?_append (t u : NameTable) (full : String) :
    find? (t ++ u) full = (u.find? full).or (t.find? full) := by
  unfold find?
  rw [List.reverse_append, List.lookup_append]

theorem find?_eq_none {full : String} (h : .text full ∉ t.keys) : t.find? full = none := by
  unfold find?
  rw [List.lookup_eq_none_iff]
  intro entry hentry
  rw [bne_iff_ne]
  rintro rfl
  exact h (List.mem_map_of_mem (List.mem_reverse.mp hentry))

namespace Agree

theorem mono (h : t.Agree u more) (hsub : names ⊆ more) : t.Agree u names :=
  fun full hfull => h full (hsub hfull)

theorem left (h : t.Agree u (names ++ more)) : t.Agree u names :=
  h.mono (List.subset_append_left _ _)

theorem right (h : t.Agree u (names ++ more)) : t.Agree u more :=
  h.mono (List.subset_append_right _ _)

theorem reference (h : t.Agree u names) {full : String} (hfull : .text full ∈ names) :
    reference t full = reference u full := by
  unfold Descriptor.reference
  rw [h full hfull]

theorem resolvedReference (h : t.Agree u names) {name : Name} (hname : name ∈ names) :
    resolvedReference t name = resolvedReference u name := by
  cases name with
  | text full =>
    show Except.ok (Descriptor.reference t full) = Except.ok (Descriptor.reference u full)
    rw [h.reference hname]
  | octets bs => rfl

theorem resolvedType (h : t.Agree u names) {f : Field} (hf : f.typeName ∈ names) :
    f.resolvedType t = f.resolvedType u := by
  unfold Field.resolvedType
  rw [h.resolvedReference hf]

/-- A field asks for its own type, or for that of the values in a map entry. -/
theorem field {nested : List Message} (h : t.Agree u (nestedReferences nested)) {f : Field}
    (hf : t.Agree u [f.typeName]) (full : String) :
    f.declaration t full nested = f.declaration u full nested := by
  unfold Field.declaration
  cases hentry : mapEntry? full nested f.typeName with
  | none =>
    dsimp only
    rw [hf.resolvedType List.mem_cons_self]
  | some entry =>
    dsimp only
    cases hvalue : entry.fields.find? fun v => v.number == mapValueNumber with
    | none => rfl
    | some value =>
      have hnested : entry ∈ nested := List.mem_reverse.mp (List.mem_of_find?_eq_some hentry)
      have hfields : value ∈ entry.fields := List.mem_of_find?_eq_some hvalue
      dsimp only
      rw [h.resolvedType (mem_nestedReferences hnested hfields)]

theorem fields {nested : List Message} (h : t.Agree u (nestedReferences nested))
    {fs : List Field} (hfs : t.Agree u (fs.map Field.typeName)) (full : String) :
    fieldDeclarations t full nested fs = fieldDeclarations u full nested fs := by
  induction fs with
  | nil => rfl
  | cons f fs ih =>
    rw [List.map_cons] at hfs
    have hfirst : t.Agree u [f.typeName] :=
      hfs.mono (List.cons_subset_cons _ (List.nil_subset _))
    have hrest : t.Agree u (fs.map Field.typeName) := hfs.mono (List.subset_cons_self _ _)
    rw [fieldDeclarations, fieldDeclarations, h.field hfirst, ih hrest]

/-- Enumerations of a scope have the same declarations in the same places. -/
theorem enumerations {scope : String} {es : List Enumeration}
    (h : t.Agree u (es.map fun e => .text (fullName scope e.name)))
    (path : List Int) (number : Int) (index : Nat) :
    placeFrom (·.declaration t scope) path number index es =
      placeFrom (·.declaration u scope) path number index es := by
  induction es generalizing index with
  | nil => rfl
  | cons e es ih =>
    have hfirst : e.declaration t scope = e.declaration u scope := by
      unfold Enumeration.declaration
      rw [h.reference List.mem_cons_self]
    rw [placeFrom, placeFrom, hfirst, ih (h.mono (List.subset_cons_self _ _))]

mutual

/-- A message asks for the full names of itself and of what is nested in it, and for its
references. -/
theorem message : ∀ (m : Message) (scope chain : String) (path : List Int),
    t.Agree u (keys (m.names scope chain)) → t.Agree u m.references →
      m.declaration ⟨t, l⟩ scope path = m.declaration ⟨u, l⟩ scope path
  | ⟨name, fs, nested, es, oneofs, mapEntry⟩, scope, chain, path, hnames, hreferences => by
    rw [Message.names, keys_cons, keys_append] at hnames
    rw [Message.references] at hreferences
    have hown := hnames.reference List.mem_cons_self
    have hinside := hnames.mono (List.subset_cons_self _ _)
    have hnested := nestedMessages nested (fullName scope name) _ path 0 hinside.left
      hreferences.right
    have henums := enumerations (keys_enumerationNames _ _ es ▸ hinside.right) path
      nestedEnumerationNumber 0
    have hfields := hreferences.right.fields hreferences.left (fullName scope name)
    rw [Message.declaration, Message.declaration]
    dsimp only
    rw [hnested, henums, hfields, hown]

/-- So do messages that are nested side by side. -/
theorem nestedMessages : ∀ (ms : List Message) (scope chain : String) (path : List Int)
    (index : Nat), t.Agree u (keys (messageNames scope chain ms)) →
      t.Agree u (nestedReferences ms) →
        nestedDeclarations ⟨t, l⟩ scope path index ms =
          nestedDeclarations ⟨u, l⟩ scope path index ms
  | [], _, _, _, _, _, _ => rfl
  | m :: rest, scope, chain, path, index, hnames, hreferences => by
    rw [messageNames, keys_append] at hnames
    rw [nestedReferences] at hreferences
    have hfirst := message m scope chain (path ++ [nestedNumber, (index : Int)]) hnames.left
      hreferences.left
    have hrest := nestedMessages rest scope chain path (index + 1) hnames.right hreferences.right
    rw [nestedDeclarations, nestedDeclarations]
    dsimp only
    rw [hrest, hfirst]

end

/-- The messages of a file have the same declarations. -/
theorem messages {scope chain : String} {ms : List Message}
    (hnames : t.Agree u (keys (messageNames scope chain ms)))
    (hreferences : t.Agree u (nestedReferences ms)) (index : Nat) :
    messageDeclarations ⟨t, l⟩ scope index ms =
      messageDeclarations ⟨u, l⟩ scope index ms := by
  induction ms generalizing index with
  | nil => rfl
  | cons m ms ih =>
    rw [messageNames, keys_append] at hnames
    rw [nestedReferences] at hreferences
    rw [messageDeclarations, messageDeclarations, ih hnames.right hreferences.right,
      message m scope chain _ hnames.left hreferences.left]

/-- Services ask for the types of their requests and responses. -/
theorem services {ss : List Service} (h : t.Agree u (ss.flatMap Service.references)) :
    ss.mapM (Service.declaration t) = ss.mapM (Service.declaration u) := by
  apply mapM_congr
  intro s hs
  unfold Service.declaration
  rw [mapM_congr]
  intro m hm
  have hinput : m.input ∈ ss.flatMap Service.references :=
    List.mem_flatMap.mpr ⟨s, hs, List.mem_flatMap.mpr ⟨m, hm, List.mem_cons_self⟩⟩
  have houtput : m.output ∈ ss.flatMap Service.references :=
    List.mem_flatMap.mpr ⟨s, hs, List.mem_flatMap.mpr
      ⟨m, hm, List.mem_cons_of_mem _ List.mem_cons_self⟩⟩
  unfold Method.declaration
  rw [h.resolvedReference hinput, h.resolvedReference houtput]

/-- A file asks for what it mentions. -/
theorem file {f : File} (h : t.Agree u f.mentions) : f.declarations t = f.declarations u := by
  have hnames : t.Agree u f.names.keys := h.left
  rw [File.names, keys_append] at hnames
  have hmessages := messages (l := f.locations) hnames.left h.right.left 0
  have henums := enumerations (keys_topEnumerationNames _ f.enumerations ▸ hnames.right) []
    enumerationNumber 0
  unfold File.declarations
  dsimp only
  rw [hmessages, henums, services h.right.right]

/-- Files are added to a tree in the same way under tables that agree on what they mention. -/
theorem files {fs : List File} (h : ∀ f ∈ fs, t.Agree u f.mentions) (ds : List Declaration) :
    graftFiles t fs ds = graftFiles u fs ds := by
  induction fs generalizing ds with
  | nil => rfl
  | cons f fs ih =>
    have hrest := ih fun g hg => h g (List.mem_cons_of_mem _ hg)
    rw [graftFiles, graftFiles, file (h f List.mem_cons_self)]
    simp only [hrest]

end Agree
end NameTable

/-! ## Sets with more files -/

/-- The second list has the files of the first one in their order and, anywhere among them,
more files of a kind. -/
inductive Enlarged (isAdded : File → Prop) : List File → List File → Prop
  | nil : Enlarged isAdded [] []
  | keep (f : File) {files larger : List File} (h : Enlarged isAdded files larger) :
      Enlarged isAdded (f :: files) (f :: larger)
  | add (g : File) {files larger : List File} (hg : isAdded g) (h : Enlarged isAdded files larger) :
      Enlarged isAdded files (g :: larger)

/-- Whether a file is none that is to be converted and declares nothing that one of the
targets mentions. -/
structure File.IsApart (g : File) (names : List String) (targets : List File) : Prop where
  notNamed : ∀ n ∈ names, g.name ≠ .text n
  undeclared : ∀ f ∈ targets, ∀ name ∈ f.mentions, name ∉ g.names.keys

variable {isAdded : File → Prop} {s s' : Set} {names : List String}

namespace Enlarged

/-- The added files do not change the entry of what none of them declares. -/
theorem find?_names {files larger : List File} (h : Enlarged isAdded files larger) {full : String}
    (hadded : ∀ g, isAdded g → .text full ∉ g.names.keys) :
    NameTable.find? (larger.flatMap File.names) full =
      NameTable.find? (files.flatMap File.names) full := by
  induction h with
  | nil => rfl
  | keep f h ih =>
    rw [List.flatMap_cons, List.flatMap_cons, NameTable.find?_append, NameTable.find?_append, ih]
  | add g hg h ih =>
    rw [List.flatMap_cons, NameTable.find?_append, ih, NameTable.find?_eq_none (hadded g hg),
      Option.or_none]

theorem sublist {files larger : List File} (h : Enlarged isAdded files larger) :
    files.Sublist larger := by
  induction h with
  | nil => exact .slnil
  | keep f h ih => exact ih.cons_cons f
  | add g hg h ih => exact ih.cons g

theorem filter {files larger : List File} (h : Enlarged isAdded files larger) {p : File → Bool}
    (hadded : ∀ g, isAdded g → p g = false) : larger.filter p = files.filter p := by
  induction h with
  | nil => rfl
  | keep f h ih => rw [List.filter_cons, List.filter_cons, ih]
  | add g hg h ih => rw [List.filter_cons, ih, hadded g hg, if_neg Bool.false_ne_true]

end Enlarged

/-- Files apart from the targets do not change the tree, as long as the names of all nested
enumerations are texts. Else there is no tree: the fault is that of a dialect, or the name. -/
theorem tree_of_enlarged
    (h : Enlarged (File.IsApart · names (s.targets (some names))) s.files s'.files) :
    s'.tree (some names) =
      if s'.isNameable then s.tree (some names)
      else dialectOf (s.targets (some names)) >>= fun _ => .error .enumerationNotText := by
  have htargets : s'.targets (some names) = s.targets (some names) := by
    apply h.filter
    intro g hg
    rw [Bool.eq_false_iff]
    intro hmem
    obtain ⟨n, hn, he⟩ := List.mem_map.mp (List.contains_iff_mem.mp hmem)
    exact hg.notNamed n hn he.symm
  -- A look-up for a target passes the added files by, wherever they stand.
  have hagree : ∀ f ∈ s.targets (some names), s'.names.Agree s.names f.mentions :=
    fun f hf full hfull => h.find?_names fun g hg => hg.undeclared f hf _ hfull
  unfold Set.tree Set.nameTable
  rw [htargets]
  by_cases hs' : s'.isNameable = true
  · have hs : s.isNameable = true := by
      unfold Set.isNameable at hs' ⊢
      rw [List.all_eq_true] at hs' ⊢
      exact fun f hf => hs' f (h.sublist.subset hf)
    rw [if_pos hs', if_pos hs', if_pos hs]
    have hfiles := NameTable.Agree.files hagree []
    show (dialectOf _ >>= fun _ => graftFiles s'.names _ [] >>= _) =
      (dialectOf _ >>= fun _ => graftFiles s.names _ [] >>= _)
    rw [hfiles]
  · rw [if_neg hs', if_neg hs']
    rfl

def lockFile : File :=
  { name := "lock.proto", package := "lock", dialect := "proto3", messages := [{ name := "Key" }] }

def doorFile : File :=
  { name := "door.proto", package := "door", dialect := "proto3",
    messages := [{ name := "Door",
                   fields := [{ name := "key", number := 1, type := .message,
                                typeName := ".lock.Key" }] }] }

/-- A file of another dialect, in which a map has no values and a field points to no group. -/
def rustyFile : File :=
  { name := "rusty.proto", package := "lock", dialect := "proto2",
    messages := [{ name := "Hinge",
                   fields := [{ name := "spots", number := 1, label := .repeated, type := .message,
                                typeName := ".lock.Hinge.SpotsEntry" },
                              { name := "oil", number := 2, type := .string, oneofIndex := some 7 }],
                   nested := [{ name := "SpotsEntry", mapEntry := some true }] }],
    services := [{ name := "Squeak" }],
    locations := [{ path := [4, 0], span := [0, 0] }] }

/-- A file with a nested enumeration whose name is the octet 255. -/
def glyphFile : File :=
  { name := "glyph.proto", package := "glyph", dialect := "proto3",
    messages := [{ name := "Glyph", enumerations := [{ name := .octets [255] }] }] }

theorem tree_of_enlarged_doorFile :
    Set.tree ⟨[rustyFile]⟩ none = .error .mapWithoutValue ∧
      ∃ t, Set.tree ⟨[lockFile, doorFile]⟩ (some ["door.proto"]) = .ok t ∧
        Set.tree ⟨[rustyFile, lockFile, doorFile, rustyFile]⟩ (some ["door.proto"]) = .ok t := by
  have hrusty : rustyFile.IsApart ["door.proto"] [doorFile] := ⟨by decide, by decide⟩
  have htree := tree_of_enlarged (s := ⟨[lockFile, doorFile]⟩)
    (.add _ hrusty (.keep _ (.keep _ (.add _ hrusty .nil))))
  exact ⟨rfl, _, rfl, htree⟩

/-- An added file without effect on what the targets mention can still take the tree away. -/
theorem exists_import_that_matters :
    ∃ (s s' : Set) (names : List String),
      Enlarged (File.IsApart · names (s.targets (some names))) s.files s'.files ∧
        (∃ t, s.tree (some names) = .ok t) ∧
        s'.tree (some names) = .error .enumerationNotText := by
  have hglyph : glyphFile.IsApart ["door.proto"] [doorFile] := ⟨by decide, by decide⟩
  exact ⟨⟨[lockFile, doorFile]⟩, ⟨[glyphFile, lockFile, doorFile]⟩, ["door.proto"],
    .add _ hglyph (.keep _ (.keep _ .nil)), ⟨_, rfl⟩, rfl⟩

end ProtoSdl.Descriptor
