import ProtoSdl.Proofs.Refusals
import ProtoSdl.Proofs.SourceOrders

/-!
  Relocations — what other locations change

  Locations decide on the order of siblings and on nothing else. With other ones a file has
  the same fault as before, or the same declarations with siblings in another order:

    1. `Agree` relates two results: the same fault, or values that are related.
    2. `agree_of_message` and `agree_of_file` say so of the declarations of a message and of a
       file, up to a `Reordering`.
    3. `agree_of_tree` says so of the trees of two sets. Packages stay where they are, since
       files are grafted one after the other: two lists of declarations are `Aligned` if they
       have the same packages in the same places.

  `source_order_of_file` puts this together with what the order is.
-/

namespace ProtoSdl

namespace Schema.Reordering

open scoped List

variable {ds es fs gs : List Declaration}

theorem append_right (h : Reordering ds es) (fs : List Declaration) :
    Reordering (ds ++ fs) (es ++ fs) := by
  induction h with
  | nil => exact .refl fs
  | cons d rest ih => exact .cons d ih
  | package name children rest ihc ih => exact .package name children ih
  | message own nested rest ihc ih => exact .message own nested ih
  | swap d e ds => exact .swap d e (ds ++ fs)
  | trans first second ih ih' => exact ih.trans ih'

theorem append_left (ds : List Declaration) (h : Reordering fs gs) :
    Reordering (ds ++ fs) (ds ++ gs) := by
  induction ds with
  | nil => exact h
  | cons d ds ih => exact .cons d ih

theorem append (h : Reordering ds es) (h' : Reordering fs gs) :
    Reordering (ds ++ fs) (es ++ gs) := (h.append_right fs).trans (append_left es h')

theorem of_perm (h : ds ~ es) : Reordering ds es := by
  induction h with
  | nil => exact .nil
  | cons d rest ih => exact .cons d ih
  | swap d e ds => exact .swap e d ds
  | trans first second ih ih' => exact ih.trans ih'

end Schema.Reordering

namespace Descriptor

open Schema (Declaration Reordering Tree)
open scoped List

/-! ## Results that agree -/

/-- The same fault, or values that are related. -/
def Agree {α β : Type} (R : α → β → Prop) : Except Fault α → Except Fault β → Prop
  | .ok a, .ok b => R a b
  | .error e, .error e' => e = e'
  | .ok _, .error _ => False
  | .error _, .ok _ => False

namespace Agree

variable {α β γ δ : Type} {R : α → β → Prop} {S : γ → δ → Prop}

theorem bind' {x : Except Fault α} {y : Except Fault β} {f : α → Except Fault γ}
    {g : β → Except Fault δ} (h : Agree R x y) (hf : ∀ a b, R a b → Agree S (f a) (g b)) :
    Agree S (x >>= f) (y >>= g) := by
  cases x with
  | error e =>
    cases y with
    | error e' => exact h
    | ok b => exact absurd h id
  | ok a =>
    cases y with
    | error e' => exact absurd h id
    | ok b => exact hf a b h

/-- Two computations that agree have values that are related, where they have values. -/
theorem with_values {x : Except Fault α} {y : Except Fault β} (h : Agree R x y) :
    Agree (fun a b => R a b ∧ x = .ok a ∧ y = .ok b) x y := by
  cases x with
  | error e =>
    cases y with
    | error e' => exact h
    | ok b => exact absurd h id
  | ok a =>
    cases y with
    | error e' => exact absurd h id
    | ok b => exact ⟨h, rfl, rfl⟩

/-- After the same result two computations agree where they agree on each value. -/
theorem bind_same {x : Except Fault α} {f : α → Except Fault γ} {g : α → Except Fault δ}
    (hf : ∀ a, Agree S (f a) (g a)) : Agree S (x >>= f) (x >>= g) := by
  cases x with
  | error e => exact rfl
  | ok a => exact hf a

end Agree

/-! ## Messages -/

/-- Siblings that are reordered before they are sorted, by whatever locations, are reordered
afterwards. -/
theorem reordering_inSourceOrder {locations locations' : List Location}
    {siblings siblings' : List (List Int × Declaration)}
    (h : Reordering (siblings.map Prod.snd) (siblings'.map Prod.snd)) :
    Reordering (inSourceOrder locations siblings) (inSourceOrder locations' siblings') :=
  ((Reordering.of_perm (inSourceOrder_perm _ _)).trans h).trans
    (Reordering.of_perm (inSourceOrder_perm _ _).symm)

mutual

theorem agree_of_message (table : NameTable) (locations locations' : List Location) :
    ∀ (m : Message) (scope : String) (path : List Int),
      Agree (fun d d' => Reordering [d] [d'])
        (m.declaration ⟨table, locations⟩ scope path) (m.declaration ⟨table, locations'⟩ scope path)
  | ⟨name, fields, nested, enumerations, oneofs, mapEntry⟩, scope, path => by
    rw [Message.declaration, Message.declaration]
    refine (agree_of_nested table locations locations' nested (fullName scope name) path 0).bind'
      fun inner inner' hinner => ?_
    refine Agree.bind_same fun declared => Agree.bind_same fun groups => ?_
    refine .message _ (reordering_inSourceOrder ?_) .nil
    rw [List.map_append, List.map_append]
    exact hinner.append_right _

theorem agree_of_nested (table : NameTable) (locations locations' : List Location) :
    ∀ (ms : List Message) (scope : String) (path : List Int) (index : Nat),
      Agree (fun ds ds' => Reordering (ds.map Prod.snd) (ds'.map Prod.snd))
        (nestedDeclarations ⟨table, locations⟩ scope path index ms)
        (nestedDeclarations ⟨table, locations'⟩ scope path index ms)
  | [], scope, path, index => by
    rw [nestedDeclarations, nestedDeclarations]
    exact Reordering.nil
  | m :: rest, scope, path, index => by
    rw [nestedDeclarations, nestedDeclarations]
    split
    · exact agree_of_nested table locations locations' rest scope path (index + 1)
    · refine (agree_of_message table locations locations' m scope _).bind' fun d d' hd => ?_
      refine (agree_of_nested table locations locations' rest scope path (index + 1)).bind'
        fun others others' hothers => ?_
      exact hd.append hothers

end

/-! ## Files -/

theorem agree_of_messages (table : NameTable) (locations locations' : List Location)
    (scope : String) (ms : List Message) : ∀ index : Nat,
      Agree (fun ds ds' => Reordering (ds.map Prod.snd) (ds'.map Prod.snd))
        (messageDeclarations ⟨table, locations⟩ scope index ms)
        (messageDeclarations ⟨table, locations'⟩ scope index ms) := by
  induction ms with
  | nil => exact fun _ => Reordering.nil
  | cons m ms ih =>
    intro index
    refine (agree_of_message table locations locations' m scope _).bind' fun d d' hd => ?_
    exact (ih (index + 1)).bind' fun others others' hothers => hd.append hothers

/-- With other locations a file has the same fault, or its declarations in another order. -/
theorem agree_of_file (table : NameTable) (f : File) (locations : List Location) :
    Agree Reordering (f.declarations table)
      (File.declarations table { f with locations := locations }) := by
  unfold File.declarations
  refine (agree_of_messages table f.locations locations f.scope f.messages 0).bind'
    fun messages messages' hmessages => ?_
  refine Agree.bind_same fun services => ?_
  refine reordering_inSourceOrder ?_
  rw [List.map_append, List.map_append, List.map_append, List.map_append]
  exact (hmessages.append_right _).append_right _

/-! ## Packages -/

/-- The lists have the same packages in the same places, and between them the same declarations
with siblings in another order. -/
inductive Aligned : List Declaration → List Declaration → Prop where
  | nil : Aligned [] []
  | package (name : String) {cs ks ds es : List Declaration} (children : Aligned cs ks)
      (rest : Aligned ds es) : Aligned (.package name cs :: ds) (.package name ks :: es)
  | between {new new' ds es : List Declaration} (h : Reordering new new')
      (hnew : ∀ d ∈ new, d.isPackage = false) (hnew' : ∀ d ∈ new', d.isPackage = false)
      (rest : Aligned ds es) : Aligned (new ++ ds) (new' ++ es)

namespace Aligned

variable {ds es fs gs : List Declaration}

theorem reordering (h : Aligned ds es) : Reordering ds es := by
  induction h with
  | nil => exact .nil
  | package name children rest ihc ih => exact .package name ihc ih
  | between h hnew hnew' rest ih => exact h.append ih

theorem append (h : Aligned ds es) (h' : Aligned fs gs) : Aligned (ds ++ fs) (es ++ gs) := by
  induction h with
  | nil => exact h'
  | package name children rest ihc ih => exact .package name children ih
  | between h hnew hnew' rest ih =>
    rw [List.append_assoc, List.append_assoc]
    exact .between h hnew hnew' ih

theorem enter_append {name : String} {change : List Declaration → List Declaration}
    {new : List Declaration} (hnew : ∀ d ∈ new, d.isPackage = false) (ds : List Declaration) :
    enter name change (new ++ ds) = new ++ enter name change ds := by
  induction new with
  | nil => rfl
  | cons d new ih =>
    have hrest := ih fun e he => hnew e (List.mem_cons_of_mem d he)
    have hd := hnew d List.mem_cons_self
    cases d with
    | package n children => cases hd
    | message m nested => exact congrArg _ hrest
    | enumeration e => exact congrArg _ hrest
    | service s => exact congrArg _ hrest
    | unknown kind n => exact congrArg _ hrest

/-- The same package is entered in both lists. -/
theorem enter {name : String} {change change' : List Declaration → List Declaration}
    (hchange : ∀ cs ks, Aligned cs ks → Aligned (change cs) (change' ks)) (h : Aligned ds es) :
    Aligned (enter name change ds) (enter name change' es) := by
  induction h with
  | nil => exact .package name (hchange [] [] .nil) .nil
  | package n children rest ihc ih =>
    rw [Descriptor.enter, Descriptor.enter]
    split
    · exact .package n (hchange _ _ children) rest
    · exact .package n children ih
  | between h hnew hnew' rest ih =>
    rw [enter_append hnew, enter_append hnew']
    exact .between h hnew hnew' ih

theorem graft {new new' : List Declaration} (hnew : Aligned new new') (path : List String) :
    ∀ ds es, Aligned ds es → Aligned (graft path new ds) (graft path new' es) := by
  induction path with
  | nil => exact fun ds es h => h.append hnew
  | cons name path ih => exact fun ds es h => h.enter ih

end Aligned

/-! ## Sets -/

/-- Whether the second file is the first one with other locations. -/
def File.IsRelocated (f g : File) : Prop := g = { f with locations := g.locations }

/-- What does not depend on locations is the same of all files. -/
theorem map_of_relocated {α : Type} {read : File → α}
    (hread : ∀ (f : File) locations, read { f with locations := locations } = read f)
    {files files' : List File} (h : List.Forall₂ File.IsRelocated files files') :
    files'.map read = files.map read := by
  induction h with
  | nil => rfl
  | cons hfile rest ih =>
    rw [List.map_cons, List.map_cons, ih, hfile, hread]

theorem targets_of_relocated {s s' : Set} (h : List.Forall₂ File.IsRelocated s.files s'.files)
    (names : Option (List String)) :
    List.Forall₂ File.IsRelocated (s.targets names) (s'.targets names) := by
  unfold Set.targets
  cases names with
  | none => exact h
  | some names =>
    refine List.rel_filter (fun f g hfile => ?_) h
    rw [hfile]

theorem dialectOf_of_relocated {files files' : List File}
    (h : List.Forall₂ File.IsRelocated files files') : dialectOf files' = dialectOf files := by
  induction h with
  | nil => rfl
  | cons hfile rest ih =>
    rw [dialectOf, dialectOf, ih, hfile]

theorem agree_of_graftFiles (table : NameTable) {files files' : List File}
    (h : List.Forall₂ File.IsRelocated files files') : ∀ ds ds' : List Declaration,
      Aligned ds ds' →
        Agree Aligned (graftFiles table files ds) (graftFiles table files' ds') := by
  induction h with
  | nil => exact fun ds ds' hds => hds
  | @cons f g files files' hfile rest ih =>
    intro ds ds' hds
    rw [graftFiles, graftFiles, hfile]
    refine Agree.bind_same fun package => ?_
    refine (agree_of_file table f g.locations).with_values.bind' fun new new' hnew => ?_
    obtain ⟨hnew, hf, hg⟩ := hnew
    have haligned := Aligned.between hnew (items_of_file hf).1 (items_of_file hg).1 .nil
    rw [List.append_nil, List.append_nil] at haligned
    exact ih _ _ (haligned.graft _ _ _ hds)

/-- With other locations a set has the same fault, or a tree of the same dialect with the same
declarations, siblings in another order. -/
theorem agree_of_tree {s s' : Set} (h : List.Forall₂ File.IsRelocated s.files s'.files)
    (names : Option (List String)) :
    Agree (fun t t' : Tree => t.dialect = t'.dialect ∧ Reordering t.declarations t'.declarations)
      (s.tree names) (s'.tree names) := by
  have hnames : s'.names = s.names := by
    unfold Set.names
    rw [List.flatMap_def, List.flatMap_def, map_of_relocated (fun _ _ => rfl) h]
  have hnameable : s'.isNameable = s.isNameable := by
    have hmap : s'.files.map (fun f => nestedNameable f.messages) =
        s.files.map fun f => nestedNameable f.messages := map_of_relocated (fun _ _ => rfl) h
    have hall : ∀ fs : List File, (fs.all fun f => nestedNameable f.messages) =
        (fs.map fun f => nestedNameable f.messages).all id := by
      intro fs
      rw [List.all_map]
      rfl
    unfold Set.isNameable
    rw [hall, hall, hmap]
  have htargets := targets_of_relocated h names
  unfold Set.tree Set.nameTable
  dsimp only
  rw [hnames, hnameable, dialectOf_of_relocated htargets]
  refine Agree.bind_same fun dialect => Agree.bind_same fun table => ?_
  refine (agree_of_graftFiles table htargets [] [] .nil).bind' fun ds ds' hds => ?_
  exact ⟨rfl, hds.reordering⟩

/-- The declarations of a file are in source order at every depth, and with other locations the
file has the same declarations in another order. -/
theorem source_order_of_file {table : NameTable} {f : File} {ds : List Declaration}
    (h : f.declarations table = .ok ds) :
    f.IsInSourceOrder table ds ∧
      ∀ locations, ∃ ds', File.declarations table { f with locations := locations } = .ok ds' ∧
        Reordering ds ds' := by
  refine ⟨isInSourceOrder_of_file h, fun locations => ?_⟩
  have hagree := agree_of_file table f locations
  rw [h] at hagree
  cases hother : File.declarations table { f with locations := locations } with
  | error e =>
    rw [hother] at hagree
    exact absurd hagree id
  | ok ds' =>
    rw [hother] at hagree
    exact ⟨ds', rfl, hagree⟩

/-- A message with a map entry, a message and an enumeration in it, which stands between a
service and an enumeration. One location has a short span, and one comes too late. -/
def lakeFile : File :=
  { name := "lake.proto", dialect := "proto3",
    messages :=
      [{ name := "Boat",
         nested := [{ name := "CrewEntry", mapEntry := some true }, { name := "Oar" }],
         enumerations := [{ name := "State" }] }],
    enumerations := [{ name := "Depth" }],
    services := [{ name := "Ferry" }],
    locations := [{ path := [5, 0], span := [1] }, { path := [6, 0], span := [2, 0, 3] },
                  { path := [4, 0], span := [4, 0, 9, 1] },
                  { path := [4, 0], span := [1, 0, 9, 1] },
                  { path := [4, 0, 4, 0], span := [5, 2, 30] },
                  { path := [4, 0, 3, 1], span := [5, 32, 50] }] }

def lakeTable : NameTable := Set.names ⟨[lakeFile]⟩

def lakeDeclarations : List Declaration :=
  [.service { name := "Ferry" },
   .message { name := "Boat" }
     [.enumeration { name := "Boat_State" }, .message { name := "Boat_Oar" } []],
   .enumeration { name := "Depth" }]

theorem declarations_lakeFile : lakeFile.declarations lakeTable = .ok lakeDeclarations := by
  have hdeclarations : lakeFile.declarations lakeTable =
      .ok (inSourceOrder lakeFile.locations
        [([4, 0], .message { name := "Boat" } (inSourceOrder lakeFile.locations
            [([4, 0, 3, 1], .message { name := "Boat_Oar" } (inSourceOrder lakeFile.locations [])),
             ([4, 0, 4, 0], .enumeration { name := "Boat_State" })])),
         ([5, 0], .enumeration { name := "Depth" }),
         ([6, 0], .service { name := "Ferry" })]) := rfl
  rw [hdeclarations]
  simp [inSourceOrder, List.mergeSort, positionOf, Location.position, Position.le, lakeFile,
    lakeDeclarations]

/-- Without locations the declarations of the lake are the same in another order. -/
theorem source_order_of_file_lakeFile :
    lakeFile.declarations lakeTable = .ok lakeDeclarations ∧
      lakeFile.IsInSourceOrder lakeTable lakeDeclarations ∧
      ∃ ds, File.declarations lakeTable { lakeFile with locations := [] } = .ok ds ∧
        Reordering lakeDeclarations ds := by
  obtain ⟨horder, hlocations⟩ := source_order_of_file declarations_lakeFile
  exact ⟨declarations_lakeFile, horder, hlocations []⟩

end Descriptor

end ProtoSdl
