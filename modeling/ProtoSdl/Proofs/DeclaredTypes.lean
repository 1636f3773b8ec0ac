import ProtoSdl.Proofs.ItemNames
import ProtoSdl.Descriptor.SchemaTree
import Mathlib.Data.List.Perm.Basic

/-!
  Declared types — what of a descriptor set is emitted

  A tree takes the parts of its files apart, sorts them, and hangs them under shared
  packages; the walk over the tree takes some out again. Here the same is said of the
  descriptors alone:

    1. `Message.types` lists a message and the types nested in it, map entries left
       out, and of the rest only those that a test on full names keeps, each with what
       is nested in it.
    2. The items of a message's declaration are those of its types under the test
       whether a full name can name a type (`items_of_message`), whatever the order in
       the source is.
    3. Whatever is read off a tree sibling by sibling and package by package, grafting
       adds the reading of the new declarations and moves nothing else
       (`IsReading.graft`). So grafting a file adds the items of the file, unless it
       belongs to the reserved package (`items_of_graft_file`).
    4. So the items of a set's tree are those of the types and services of its target
       files (`items_of_tree`), up to their order.
-/

namespace ProtoSdl.Descriptor

open Schema (Declaration Item Tree isTypeName packageItems nestedItems)
open scoped List

/-- A message or an enumeration, with the scope that it is declared in. -/
inductive DeclaredType where
  | message (scope : String) (m : Message)
  | enumeration (scope : String) (e : Enumeration)

namespace DeclaredType

def full : DeclaredType → String
  | message scope m => fullName scope m.name
  | enumeration scope e => fullName scope e.name

/-- The item of the type; none where the descriptor is at fault. -/
def item? (table : NameTable) : DeclaredType → Option Item
  | message scope m =>
    match fieldDeclarations table (fullName scope m.name) m.nested m.fields,
        oneofGroups m.fields m.oneofs with
    | .ok fields, .ok oneofs =>
      some (.message { name := reference table (fullName scope m.name), fields, oneofs })
    | _, _ => none
  | enumeration scope e =>
    some (.enumeration { name := reference table (fullName scope e.name), values := e.values })

theorem item?_message {table : NameTable} {scope : String} {m : Message} {i : Item}
    (h : (message scope m).item? table = some i) :
    ∃ fields oneofs,
      fieldDeclarations table (fullName scope m.name) m.nested m.fields = .ok fields ∧
        oneofGroups m.fields m.oneofs = .ok oneofs ∧
          i = .message { name := reference table (fullName scope m.name), fields, oneofs } := by
  simp only [item?] at h
  split at h
  · rename_i fields oneofs hfields honeofs
    exact ⟨fields, oneofs, hfields, honeofs, (Option.some.inj h).symm⟩
  · cases h

/-- The item of a type has the name that a reference to the type becomes. -/
theorem item?_eq_some {table : NameTable} {D : DeclaredType} {i : Item}
    (h : D.item? table = some i) :
    (∃ fields oneofs, i = .message { name := reference table D.full, fields, oneofs }) ∨
      ∃ values, i = .enumeration { name := reference table D.full, values } := by
  cases D with
  | message scope m =>
    obtain ⟨fields, oneofs, -, -, rfl⟩ := item?_message h
    exact .inl ⟨fields, oneofs, rfl⟩
  | enumeration scope e => exact .inr ⟨e.values, (Option.some.inj h).symm⟩

end DeclaredType

/-- The item of a service; none where the descriptor is at fault. -/
def Service.item? (table : NameTable) (s : Service) : Option Item :=
  match s.methods.mapM (Method.declaration table) with
  | .ok methods => some (.service { name := s.name, methods })
  | .error _ => none

theorem Service.item?_eq_some {table : NameTable} {s : Service} {i : Item}
    (h : s.item? table = some i) :
    ∃ methods, s.methods.mapM (Method.declaration table) = .ok methods ∧
      i = .service { name := s.name, methods } := by
  unfold Service.item? at h
  split at h
  · rename_i methods hmethods
    exact ⟨methods, hmethods, (Option.some.inj h).symm⟩
  · cases h

/-- The enumerations of a scope whose full names are kept. -/
def enumerationTypes (keep : String → Bool) (scope : String) (es : List Enumeration) :
    List DeclaredType :=
  (es.map (DeclaredType.enumeration scope)).filter fun d => keep d.full

mutual

/-- A message and the types nested in it whose full names are kept. -/
def Message.types (keep : String → Bool) (scope : String) : Message → List DeclaredType
  | ⟨name, fields, nested, enumerations, oneofs, mapEntry⟩ =>
    .message scope ⟨name, fields, nested, enumerations, oneofs, mapEntry⟩ ::
      (nestedTypes keep (fullName scope name) nested ++
        enumerationTypes keep (fullName scope name) enumerations)

/-- The kept types of the messages of a scope; map entries are no types. -/
def nestedTypes (keep : String → Bool) (scope : String) : List Message → List DeclaredType
  | [] => []
  | m :: rest =>
    (if m.isMapEntry then [] else if keep (fullName scope m.name) then m.types keep scope else [])
      ++ nestedTypes keep scope rest

end

/-- The types of a file whose full names are kept. -/
def File.types (keep : String → Bool) (f : File) : List DeclaredType :=
  (f.messages.flatMap fun m =>
    if keep (fullName f.scope m.name) then m.types keep f.scope else []) ++
    enumerationTypes keep f.scope f.enumerations

/-- Whether the full name becomes one that can name a type. -/
def isVisible (table : NameTable) (full : String) : Bool := isTypeName (reference table full)

/-- Whether the file belongs to the reserved package. -/
def File.isReserved (f : File) : Bool :=
  (packagePath f.package.shown).head? == some Schema.reservedPackage

/-- The types of the file that are emitted. -/
def File.emittedTypes (table : NameTable) (f : File) : List DeclaredType :=
  if f.isReserved then [] else f.types (isVisible table)

/-- The services of the file that are emitted. -/
def File.emittedServices (f : File) : List Service :=
  if f.isReserved then [] else f.services.filter fun s => isTypeName s.name

/-- The items that are emitted of the file. -/
def File.emittedItems (table : NameTable) (f : File) : List (Option Item) :=
  (f.emittedTypes table).map (DeclaredType.item? table) ++
    f.emittedServices.map (Service.item? table)

/-! ## Walks over siblings -/

theorem bind_eq_ok {ε α β : Type} {x : Except ε α} {f : α → Except ε β} {b : β}
    (h : x >>= f = .ok b) : ∃ a, x = .ok a ∧ f a = .ok b := by
  cases x with
  | error e => cases h
  | ok a => exact ⟨a, rfl, h⟩

theorem nestedItems_eq_flatMap (ds : List Declaration) :
    nestedItems ds = ds.flatMap fun d => if isTypeName d.name then d.items else [] := by
  induction ds with
  | nil => rfl
  | cons d ds ih => rw [nestedItems, ih, List.flatMap_cons]

/-- Siblings are visited one by one, so their order only moves the items. -/
theorem nestedItems_perm {ds es : List Declaration} (h : ds ~ es) :
    nestedItems ds ~ nestedItems es := by
  rw [nestedItems_eq_flatMap, nestedItems_eq_flatMap]
  exact h.flatMap_right _

/-- Without packages a package's declarations are visited like nested ones. -/
theorem packageItems_eq_nestedItems {ds : List Declaration} (h : ∀ d ∈ ds, d.isPackage = false) :
    packageItems ds = nestedItems ds := by
  induction ds with
  | nil => rfl
  | cons d ds ih =>
    rw [packageItems, nestedItems, h d List.mem_cons_self,
      ih fun e he => h e (List.mem_cons_of_mem _ he), Bool.false_or]

theorem map_snd_placeFrom {α : Type} (declare : α → Declaration) (path : List Int) (number : Int)
    (index : Nat) (as : List α) :
    (placeFrom declare path number index as).map Prod.snd = as.map declare := by
  induction as generalizing index with
  | nil => rfl
  | cons a as ih => rw [placeFrom, List.map_cons, ih, List.map_cons]

/-- The items of enumerations that are declared side by side. -/
theorem items_of_enumerations (table : NameTable) (scope : String) (es : List Enumeration) :
    (nestedItems (es.map (·.declaration table scope))).map some =
      (enumerationTypes (isVisible table) scope es).map (DeclaredType.item? table) := by
  induction es with
  | nil => rfl
  | cons e es ih =>
    unfold enumerationTypes at ih ⊢
    rw [List.map_cons, nestedItems, List.map_append, ih, List.map_cons, List.filter_cons]
    show (if isVisible table (fullName scope e.name) then _ else []).map some ++ _ = _
    unfold DeclaredType.full
    dsimp only
    split <;> rfl

/-! ## Declarations taken apart -/

/-- What a message declares: itself, and what is nested in it in some order. -/
theorem Message.declaration_eq_ok {c : Context} {m : Message} {scope : String} {path : List Int}
    {d : Declaration} (h : m.declaration c scope path = .ok d) :
    ∃ inner fields oneofs nested,
      nestedDeclarations c (fullName scope m.name) path 0 m.nested = .ok inner ∧
      fieldDeclarations c.table (fullName scope m.name) m.nested m.fields = .ok fields ∧
      oneofGroups m.fields m.oneofs = .ok oneofs ∧
      d = .message { name := reference c.table (fullName scope m.name), fields, oneofs } nested ∧
      nested ~ inner.map Prod.snd ++
        m.enumerations.map (·.declaration c.table (fullName scope m.name)) := by
  obtain ⟨name, fields, nested, enumerations, oneofs, mapEntry⟩ := m
  rw [Message.declaration] at h
  obtain ⟨inner, hinner, h⟩ := bind_eq_ok h
  obtain ⟨declared, hdeclared, h⟩ := bind_eq_ok h
  obtain ⟨groups, hgroups, h⟩ := bind_eq_ok h
  cases h
  refine ⟨inner, declared, groups, _, hinner, hdeclared, hgroups, rfl, ?_⟩
  have hsorted := inSourceOrder_perm c.locations (inner ++
    placeFrom (·.declaration c.table (fullName scope name)) path nestedEnumerationNumber 0
      enumerations)
  rw [List.map_append, map_snd_placeFrom] at hsorted
  exact hsorted

/-- The declared procedures of a service are those of its methods, one by one. -/
theorem mapM_methodDeclaration {table : NameTable} (ms : List Method) :
    ∀ declared : List Schema.Method, ms.mapM (Method.declaration table) = .ok declared →
      declared = ms.map fun m => { name := m.name, request := reference table m.input.shown,
                                   response := reference table m.output.shown } := by
  have hresolved : ∀ (n : Name) (r : Name), resolvedReference table n = .ok r →
      r = reference table n.shown := by
    intro n r h
    cases n with
    | text full =>
      cases h
      rfl
    | octets bs => cases h
  induction ms with
  | nil =>
    intro declared h
    cases h
    rfl
  | cons m ms ih =>
    intro declared h
    rw [List.mapM_cons] at h
    obtain ⟨first, hfirst, h⟩ := bind_eq_ok h
    obtain ⟨others, hothers, h⟩ := bind_eq_ok h
    cases h
    obtain ⟨request, hrequest, hfirst⟩ := bind_eq_ok hfirst
    obtain ⟨response, hresponse, hfirst⟩ := bind_eq_ok hfirst
    cases hfirst
    rw [List.map_cons, ← ih others hothers, hresolved _ _ hrequest, hresolved _ _ hresponse]

/-- What a file declares, in some order. -/
theorem File.declarations_eq_ok {table : NameTable} {f : File} {ds : List Declaration}
    (h : f.declarations table = .ok ds) :
    ∃ messages services,
      messageDeclarations ⟨table, f.locations⟩ f.scope 0 f.messages = .ok messages ∧
      f.services.mapM (Service.declaration table) = .ok services ∧
      ds ~ messages.map Prod.snd ++ f.enumerations.map (·.declaration table f.scope) ++
        services := by
  unfold File.declarations at h
  obtain ⟨messages, hmessages, h⟩ := bind_eq_ok h
  obtain ⟨services, hservices, h⟩ := bind_eq_ok h
  cases h
  refine ⟨messages, services, hmessages, hservices, ?_⟩
  -- The declarations of all three kinds are sorted together.
  have hsorted := inSourceOrder_perm f.locations (messages ++
    placeFrom (·.declaration table f.scope) [] enumerationNumber 0 f.enumerations ++
      placeFrom id [] serviceNumber 0 services)
  rw [List.map_append, List.map_append, map_snd_placeFrom, map_snd_placeFrom,
    List.map_id] at hsorted
  exact hsorted

/-- The first of the files is grafted, and then the others. -/
theorem graftFiles_cons_eq_ok {table : NameTable} {f : File} {files : List File}
    {ds ds' : List Declaration} (h : graftFiles table (f :: files) ds = .ok ds') :
    ∃ new, f.declarations table = .ok new ∧
      graftFiles table files (graft (packagePath f.package.shown) new ds) = .ok ds' := by
  rw [graftFiles] at h
  obtain ⟨package, hpackage, h⟩ := bind_eq_ok h
  obtain ⟨new, hnew, h⟩ := bind_eq_ok h
  have hshown : package = f.package.shown := by
    cases hp : f.package with
    | text s =>
      rw [hp] at hpackage
      cases hpackage
      rfl
    | octets bs =>
      rw [hp] at hpackage
      cases hpackage
  subst hshown
  exact ⟨new, hnew, h⟩

/-- A tree comes from grafting the target files, one after the other. -/
theorem Set.graftFiles_of_tree {s : Set} {names : Option (List String)} {t : Tree}
    (h : s.tree names = .ok t) :
    graftFiles s.names (s.targets names) [] = .ok t.declarations := by
  unfold Set.tree at h
  obtain ⟨dialect, hdialect, h⟩ := bind_eq_ok h
  obtain ⟨table, htable, h⟩ := bind_eq_ok h
  obtain ⟨ds, hds, h⟩ := bind_eq_ok h
  cases h
  unfold Set.nameTable at htable
  split at htable
  · cases htable
    exact hds
  · cases htable

/-! ## Messages -/

mutual

/-- The declaration of a message has the items of its types. -/
theorem items_of_message (c : Context) : ∀ (m : Message) (scope : String) (path : List Int)
    (d : Declaration), m.declaration c scope path = .ok d →
      d.isPackage = false ∧ d.name = reference c.table (fullName scope m.name) ∧
        d.items.map some ~ (m.types (isVisible c.table) scope).map (DeclaredType.item? c.table)
  | ⟨name, fields, nested, enumerations, oneofs, mapEntry⟩, scope, path, d, h => by
    obtain ⟨inner, declared, groups, children, hinner, hdeclared, hgroups, rfl, hsorted⟩ :=
      Message.declaration_eq_ok h
    refine ⟨rfl, rfl, ?_⟩
    -- What is nested is sorted by its place in the source, which only moves the items.
    have hsorted := nestedItems_perm hsorted
    rw [Schema.nestedItems_append] at hsorted
    have hnested := items_of_nested c nested (fullName scope name) path 0 inner hinner
    rw [Declaration.items, Message.types, List.map_cons, List.map_cons]
    have hown : DeclaredType.item? c.table
        (.message scope ⟨name, fields, nested, enumerations, oneofs, mapEntry⟩) =
          some (.message { name := reference c.table (fullName scope name), fields := declared,
                           oneofs := groups }) := by
      unfold DeclaredType.item?
      dsimp only
      rw [hdeclared, hgroups]
    rw [hown, List.map_append]
    refine ((hsorted.map some).trans ?_).cons _
    rw [List.map_append, items_of_enumerations]
    exact hnested.append_right _

/-- The declarations of nested messages have the items of their types. -/
theorem items_of_nested (c : Context) : ∀ (ms : List Message) (scope : String) (path : List Int)
    (index : Nat) (ds : List (List Int × Declaration)),
      nestedDeclarations c scope path index ms = .ok ds →
        (nestedItems (ds.map Prod.snd)).map some ~
          (nestedTypes (isVisible c.table) scope ms).map (DeclaredType.item? c.table)
  | [], scope, path, index, ds, h => by
    rw [nestedDeclarations] at h
    cases h
    exact List.Perm.nil
  | m :: rest, scope, path, index, ds, h => by
    rw [nestedDeclarations] at h
    rw [nestedTypes]
    split at h
    · rename_i hentry
      rw [if_pos hentry, List.nil_append]
      exact items_of_nested c rest scope path (index + 1) ds h
    · rename_i hentry
      obtain ⟨first, hfirst, h⟩ := bind_eq_ok h
      obtain ⟨others, hothers, h⟩ := bind_eq_ok h
      cases h
      obtain ⟨-, hname, hitems⟩ := items_of_message c m scope _ first hfirst
      have hrest := items_of_nested c rest scope path (index + 1) others hothers
      rw [if_neg hentry, List.map_cons, nestedItems, List.map_append, List.map_append, hname]
      refine List.Perm.append ?_ hrest
      show (if isVisible c.table (fullName scope m.name) then first.items else []).map some ~ _
      split
      · exact hitems
      · exact List.Perm.nil

end

/-! ## Files -/

/-- The declarations of a file's messages have the items of their types. -/
theorem items_of_messages (c : Context) (scope : String) (ms : List Message) :
    ∀ (index : Nat) (ds : List (List Int × Declaration)),
      messageDeclarations c scope index ms = .ok ds →
        (∀ d ∈ ds.map Prod.snd, d.isPackage = false) ∧
          (nestedItems (ds.map Prod.snd)).map some ~
            (ms.flatMap fun m => if isVisible c.table (fullName scope m.name)
              then m.types (isVisible c.table) scope else []).map (DeclaredType.item? c.table) := by
  induction ms with
  | nil =>
    intro index ds h
    cases h
    exact ⟨nofun, List.Perm.nil⟩
  | cons m ms ih =>
    intro index ds h
    rw [messageDeclarations] at h
    obtain ⟨first, hfirst, h⟩ := bind_eq_ok h
    obtain ⟨others, hothers, h⟩ := bind_eq_ok h
    cases h
    obtain ⟨hpackage, hname, hitems⟩ := items_of_message c m scope _ first hfirst
    obtain ⟨hpackages, hrest⟩ := ih (index + 1) others hothers
    rw [List.map_cons, nestedItems, List.map_append, List.flatMap_cons, List.map_append, hname]
    refine ⟨List.forall_mem_cons.mpr ⟨hpackage, hpackages⟩, List.Perm.append ?_ hrest⟩
    show (if isVisible c.table (fullName scope m.name) then first.items else []).map some ~ _
    split
    · exact hitems
    · exact List.Perm.nil

/-- The declarations of services have the items of the services that are visited. -/
theorem items_of_services (table : NameTable) (ss : List Service) :
    ∀ ds : List Declaration, ss.mapM (Service.declaration table) = .ok ds →
      (∀ d ∈ ds, d.isPackage = false) ∧
        (nestedItems ds).map some =
          (ss.filter fun s => isTypeName s.name).map (Service.item? table) := by
  induction ss with
  | nil =>
    intro ds h
    cases h
    exact ⟨nofun, rfl⟩
  | cons s ss ih =>
    intro ds h
    rw [List.mapM_cons] at h
    obtain ⟨first, hfirst, h⟩ := bind_eq_ok h
    obtain ⟨others, hothers, h⟩ := bind_eq_ok h
    cases h
    obtain ⟨methods, hmethods, hfirst⟩ := bind_eq_ok hfirst
    cases hfirst
    obtain ⟨hpackages, hrest⟩ := ih others hothers
    refine ⟨List.forall_mem_cons.mpr ⟨rfl, hpackages⟩, ?_⟩
    have hown : s.item? table = some (.service { name := s.name, methods }) := by
      unfold Service.item?
      rw [hmethods]
    rw [nestedItems, List.map_append, hrest, List.filter_cons]
    show (if isTypeName s.name then _ else []).map some ++ _ = _
    split
    · rw [List.map_cons, hown]
      rfl
    · rfl

/-- The declarations of a file have the items of its types and services. -/
theorem items_of_file {table : NameTable} {f : File} {ds : List Declaration}
    (h : f.declarations table = .ok ds) :
    (∀ d ∈ ds, d.isPackage = false) ∧
      (packageItems ds).map some ~ (f.types (isVisible table)).map (DeclaredType.item? table) ++
        (f.services.filter fun s => isTypeName s.name).map (Service.item? table) := by
  obtain ⟨messages, services, hmessages, hservices, hsorted⟩ := File.declarations_eq_ok h
  obtain ⟨hpm, hitems⟩ := items_of_messages _ _ _ _ _ hmessages
  obtain ⟨hps, hserved⟩ := items_of_services _ _ _ hservices
  have hpackages : ∀ d ∈ ds, d.isPackage = false := by
    intro d hd
    rw [hsorted.mem_iff, List.mem_append, List.mem_append] at hd
    rcases hd with (hd | hd) | hd
    · exact hpm d hd
    · obtain ⟨e, -, rfl⟩ := List.mem_map.mp hd
      rfl
    · exact hps d hd
  refine ⟨hpackages, ?_⟩
  rw [packageItems_eq_nestedItems hpackages]
  refine ((nestedItems_perm hsorted).map some).trans ?_
  rw [Schema.nestedItems_append, Schema.nestedItems_append, List.map_append, List.map_append,
    items_of_enumerations, hserved]
  unfold File.types
  rw [List.map_append]
  exact (hitems.append_right _).append_right _

/-! ## Packages -/

/-- Entering a package changes the first one of the name, or adds one at the end. -/
theorem enter_eq (name : String) (change : List Declaration → List Declaration)
    (ds : List Declaration) :
    (∃ before children after, ds = before ++ .package name children :: after ∧
        enter name change ds = before ++ .package name (change children) :: after) ∨
      enter name change ds = ds ++ [.package name (change [])] := by
  induction ds with
  | nil => exact .inr rfl
  | cons d ds ih =>
    -- A declaration that is not the package is passed over.
    have hskip : enter name change (d :: ds) = d :: enter name change ds →
        (∃ before children after, d :: ds = before ++ .package name children :: after ∧
          enter name change (d :: ds) = before ++ .package name (change children) :: after) ∨
        enter name change (d :: ds) = d :: ds ++ [.package name (change [])] := by
      intro h
      rcases ih with ⟨before, children, after, hds, he⟩ | he
      · exact .inl ⟨d :: before, children, after, by rw [hds]; rfl, by rw [h, he]; rfl⟩
      · exact .inr (by rw [h, he]; rfl)
    cases d with
    | package n children =>
      by_cases hn : n = name
      · subst hn
        exact .inl ⟨[], children, ds, rfl, by rw [enter, if_pos rfl]; rfl⟩
      · exact hskip (by rw [enter, if_neg hn])
    | message m nested => exact hskip rfl
    | enumeration e => exact hskip rfl
    | service s => exact hskip rfl
    | unknown kind n => exact hskip rfl

/-- A reading of the declarations under a path of packages that takes siblings one by one
and a package by its children. -/
structure IsReading {α : Type} (read : List String → List Declaration → List α) : Prop where
  append : ∀ path ds es, read path (ds ++ es) = read path ds ++ read path es
  package : ∀ path name children,
    read path [.package name children] = read (path ++ [name]) children

namespace IsReading

variable {α : Type} {read : List String → List Declaration → List α}

theorem nil (h : IsReading read) (path : List String) : read path [] = [] := by
  have happend := h.append path [] []
  rw [List.append_nil] at happend
  exact List.self_eq_append_left.mp happend

/-- Entering a package adds what the change adds to its children. -/
theorem enter (h : IsReading read) {p : List String} {name : String}
    {change : List Declaration → List Declaration} {new : List α}
    (hchange : ∀ ds, read (p ++ [name]) (change ds) ~ read (p ++ [name]) ds ++ new)
    (ds : List Declaration) : read p (enter name change ds) ~ read p ds ++ new := by
  have hsplit : ∀ before children after, read p (before ++ .package name children :: after) =
      read p before ++ (read (p ++ [name]) children ++ read p after) := by
    intro before children after
    rw [h.append, ← h.package, ← h.append p [_] after]
    rfl
  rcases enter_eq name change ds with ⟨before, children, after, rfl, he⟩ | he
  · rw [he, hsplit, hsplit, List.append_assoc, List.append_assoc]
    refine List.Perm.append_left _ (((hchange children).append_right _).trans ?_)
    -- The new part stands inside the package and is moved behind what follows it.
    rw [List.append_assoc]
    exact List.perm_append_comm.append_left _
  · have hempty := hchange []
    rw [h.nil, List.nil_append] at hempty
    rw [he, h.append, h.package]
    exact hempty.append_left _

/-- Grafting adds what the new declarations are read as at the end of the path. -/
theorem graft (h : IsReading read) (path : List String) (new : List Declaration) :
    ∀ (above : List String) (ds : List Declaration),
      read above (graft path new ds) ~ read above ds ++ read (above ++ path) new := by
  induction path with
  | nil =>
    intro above ds
    rw [graft_nil, h.append, List.append_nil]
  | cons name path ih =>
    intro above ds
    refine h.enter (fun ds => ?_) ds
    have hinside := ih (above ++ [name]) ds
    rw [List.append_assoc, List.singleton_append] at hinside
    exact hinside

end IsReading

/-- The items of packages do not depend on the path. -/
theorem isReading_packageItems : IsReading fun _ => packageItems where
  append _ := Schema.packageItems_append
  package _ _ children := List.append_nil (packageItems children)

/-- Grafting adds the items of the new declarations. -/
theorem items_of_graft (path : List String) (new ds : List Declaration) :
    packageItems (graft path new ds) ~ packageItems ds ++ packageItems new :=
  isReading_packageItems.graft path new [] ds

/-- The declarations that the walk over a schema begins with. -/
def unreserved (ds : List Declaration) : List Declaration := ds.filter fun d => !d.isReserved

theorem unreserved_append (ds es : List Declaration) :
    unreserved (ds ++ es) = unreserved ds ++ unreserved es := List.filter_append ..

theorem unreserved_package (name : String) (children ds : List Declaration) :
    unreserved (.package name children :: ds) =
      if name = Schema.reservedPackage then unreserved ds
      else .package name children :: unreserved ds := by
  unfold unreserved Declaration.isReserved
  rw [List.filter_cons]
  by_cases h : name = Schema.reservedPackage <;> simp [h]

theorem unreserved_of_not_package {ds : List Declaration} (h : ∀ d ∈ ds, d.isPackage = false) :
    unreserved ds = ds := by
  refine List.filter_eq_self.mpr fun d hd => ?_
  have hp := h d hd
  cases d with
  | package n children => cases hp
  | message m nested => rfl
  | enumeration e => rfl
  | service s => rfl
  | unknown kind n => rfl

/-- Entering another package commutes with leaving the reserved one out. -/
theorem unreserved_enter {name : String} (hname : name ≠ Schema.reservedPackage)
    (change : List Declaration → List Declaration) (ds : List Declaration) :
    unreserved (enter name change ds) = enter name change (unreserved ds) := by
  induction ds with
  | nil =>
    show unreserved [.package name (change [])] = _
    rw [unreserved_package, if_neg hname]
    rfl
  | cons d ds ih =>
    cases d with
    | package n children =>
      rw [unreserved_package]
      by_cases hn : n = name
      · subst hn
        rw [enter, if_pos rfl, unreserved_package, if_neg hname, if_neg hname, enter, if_pos rfl]
      · rw [enter, if_neg hn, unreserved_package, ih]
        split
        · rfl
        · rw [enter, if_neg hn]
    | message m nested => exact congrArg _ ih
    | enumeration e => exact congrArg _ ih
    | service s => exact congrArg _ ih
    | unknown kind n => exact congrArg _ ih

/-- Of a schema's declarations those in the reserved package have no items. -/
theorem items_of_graft_unreserved {path : List String} {new : List Declaration}
    (hnew : ∀ d ∈ new, d.isPackage = false) (ds : List Declaration) :
    packageItems (unreserved (graft path new ds)) ~ packageItems (unreserved ds) ++
      if path.head? == some Schema.reservedPackage then [] else packageItems new := by
  cases path with
  | nil =>
    rw [graft_nil, unreserved_append, Schema.packageItems_append, unreserved_of_not_package hnew]
    exact List.Perm.refl _
  | cons name path =>
    rw [graft_cons, List.head?_cons]
    by_cases hr : name = Schema.reservedPackage
    · -- The walk sees the same declarations as before.
      rw [if_pos (by simp [hr]), List.append_nil]
      rcases enter_eq name (graft path new) ds with ⟨before, children, after, rfl, he⟩ | he
      · rw [he, unreserved_append, unreserved_append, unreserved_package, unreserved_package,
          if_pos hr, if_pos hr]
      · rw [he, unreserved_append, unreserved_package, if_pos hr]
        exact List.Perm.of_eq (congrArg packageItems (List.append_nil _))
    · rw [if_neg (by simp [hr]), unreserved_enter hr]
      exact isReading_packageItems.enter (p := []) (items_of_graft path new) _

/-! ## Sets -/

/-- Grafting a file adds the items that are emitted of it. -/
theorem items_of_graft_file {table : NameTable} {f : File} {new : List Declaration}
    (h : f.declarations table = .ok new) (ds : List Declaration) :
    (packageItems (unreserved (graft (packagePath f.package.shown) new ds))).map some ~
      (packageItems (unreserved ds)).map some ++ f.emittedItems table := by
  obtain ⟨hpackages, hitems⟩ := items_of_file h
  refine ((items_of_graft_unreserved hpackages ds).map some).trans ?_
  rw [List.map_append]
  refine List.Perm.append_left _ ?_
  unfold File.emittedItems File.emittedTypes File.emittedServices File.isReserved
  split
  · exact List.Perm.nil
  · exact hitems

theorem items_of_graftFiles {table : NameTable} (files : List File) :
    ∀ ds ds' : List Declaration, graftFiles table files ds = .ok ds' →
      (packageItems (unreserved ds')).map some ~
        (packageItems (unreserved ds)).map some ++ files.flatMap (File.emittedItems table) := by
  induction files with
  | nil =>
    intro ds ds' h
    cases h
    rw [List.flatMap_nil, List.append_nil]
  | cons f files ih =>
    intro ds ds' h
    obtain ⟨new, hnew, h⟩ := graftFiles_cons_eq_ok h
    refine (ih _ ds' h).trans ?_
    rw [List.flatMap_cons, ← List.append_assoc]
    exact (items_of_graft_file hnew ds).append_right _

/-- The items of a set's tree are those of the types and the services that are emitted
of its target files. -/
theorem items_of_tree {s : Set} {names : Option (List String)} {t : Tree}
    (h : s.tree names = .ok t) :
    t.items.map some ~ (s.targets names).flatMap (File.emittedItems s.names) :=
  items_of_graftFiles _ [] t.declarations (Set.graftFiles_of_tree h)

variable {s : Set} {names : Option (List String)} {t : Tree} {f : File}

theorem exists_item_of_type (h : s.tree names = .ok t) (hf : f ∈ s.targets names)
    {d : DeclaredType} (hd : d ∈ f.emittedTypes s.names) :
    ∃ i ∈ t.items, d.item? s.names = some i := by
  have hitem : d.item? s.names ∈ t.items.map some := by
    rw [(items_of_tree h).mem_iff]
    apply List.mem_flatMap.mpr
    exact ⟨f, hf, List.mem_append_left _ (List.mem_map_of_mem hd)⟩
  obtain ⟨i, hi, he⟩ := List.mem_map.mp hitem
  exact ⟨i, hi, he.symm⟩

theorem exists_item_of_service (h : s.tree names = .ok t) (hf : f ∈ s.targets names)
    {v : Service} (hv : v ∈ f.emittedServices) : ∃ i ∈ t.items, v.item? s.names = some i := by
  have hitem : v.item? s.names ∈ t.items.map some := by
    rw [(items_of_tree h).mem_iff]
    apply List.mem_flatMap.mpr
    exact ⟨f, hf, List.mem_append_right _ (List.mem_map_of_mem hv)⟩
  obtain ⟨i, hi, he⟩ := List.mem_map.mp hitem
  exact ⟨i, hi, he.symm⟩

end ProtoSdl.Descriptor
