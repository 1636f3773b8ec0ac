import ProtoSdl.Proofs.DeclaredTypes

/-!
  Merged packages — the files of a set share the packages that they name

  A tree has packages where its files name them. Files that name the same package, or
  packages with a common beginning, meet in the same places of the tree:

    1. `IsMerged` says that no two siblings are packages of one name, at any level: in
       packages, and in messages too. Files bring no packages with them
       (`isUnpackaged_of_file`), and grafting what has none keeps the rest merged
       (`isMerged_graft`).
    2. `packageAt?` walks down a path by the first package of each name. In merged
       declarations it finds the one place that the path leads to (`leadsTo_iff`).
    3. Grafting creates the places on its path and no others, and adds what it grafts to
       the declarations at the end of the path, behind what is there (`at_graft`).

  `packages_merged` says what follows for the tree of a set, by induction over its files.
-/

namespace ProtoSdl

namespace Schema

/-- The names of the packages among siblings. -/
def packageNames (ds : List Declaration) : List String :=
  ds.filterMap fun d =>
    match d with
    | .package name _ => some name
    | _ => none

/-- The siblings that are no packages. -/
def ownDeclarations (ds : List Declaration) : List Declaration := ds.filter fun d => !d.isPackage

/-- Whether the path of packages leads from the siblings to others. -/
inductive LeadsTo : List Declaration → List String → List Declaration → Prop
  | here (ds : List Declaration) : LeadsTo ds [] ds
  | down {ds children inner : List Declaration} {name : String} {path : List String} :
    .package name children ∈ ds → LeadsTo children path inner → LeadsTo ds (name :: path) inner

/-- Whether the second list has all siblings at one place at or below the first. -/
inductive IsLevel : List Declaration → List Declaration → Prop
  | here (ds : List Declaration) : IsLevel ds ds
  | package {ds children siblings : List Declaration} {name : String} :
    .package name children ∈ ds → IsLevel children siblings → IsLevel ds siblings
  | message {ds nested siblings : List Declaration} {own : Message} :
    .message own nested ∈ ds → IsLevel nested siblings → IsLevel ds siblings

/-- Whether no two siblings are packages of one name, at any level. -/
def IsMerged (ds : List Declaration) : Prop :=
  ∀ siblings, IsLevel ds siblings → (packageNames siblings).Nodup

/-- Whether there are no packages among the declarations, at any level. -/
def IsUnpackaged (ds : List Declaration) : Prop :=
  ∀ siblings, IsLevel ds siblings → ∀ d ∈ siblings, d.isPackage = false

/-- The children of the first package of this name. -/
def children? (name : String) : List Declaration → Option (List Declaration)
  | [] => none
  | .package n children :: rest => if n = name then some children else children? name rest
  | _ :: rest => children? name rest

/-- What the path leads to by the first package of each name. -/
def packageAt? : List String → List Declaration → Option (List Declaration)
  | [], ds => some ds
  | name :: path, ds => (children? name ds).bind (packageAt? path)

/-- The declarations at the end of the path that are no packages. -/
def ownAt (path : List String) (ds : List Declaration) : List Declaration :=
  ownDeclarations ((packageAt? path ds).getD [])

variable {ds es children : List Declaration} {name : String} {path : List String}

theorem packageNames_append (ds es : List Declaration) :
    packageNames (ds ++ es) = packageNames ds ++ packageNames es := List.filterMap_append

theorem ownDeclarations_append (ds es : List Declaration) :
    ownDeclarations (ds ++ es) = ownDeclarations ds ++ ownDeclarations es := List.filter_append ..

theorem mem_packageNames : name ∈ packageNames ds ↔ ∃ children, .package name children ∈ ds := by
  unfold packageNames
  rw [List.mem_filterMap]
  constructor
  · rintro ⟨d, hd, h⟩
    cases d with
    | package n children =>
      cases h
      exact ⟨children, hd⟩
    | message m nested => cases h
    | enumeration e => cases h
    | service s => cases h
    | unknown kind n => cases h
  · rintro ⟨children, hd⟩
    exact ⟨_, hd, rfl⟩

theorem packageNames_eq_nil (h : ∀ d ∈ ds, d.isPackage = false) : packageNames ds = [] := by
  rw [List.eq_nil_iff_forall_not_mem]
  intro name hname
  obtain ⟨children, hd⟩ := mem_packageNames.mp hname
  cases h _ hd

theorem ownDeclarations_eq_self (h : ∀ d ∈ ds, d.isPackage = false) : ownDeclarations ds = ds :=
  List.filter_eq_self.mpr fun d hd => by simp [h d hd]

/-! ## Merged declarations -/

theorem isMerged_iff : IsMerged ds ↔ (packageNames ds).Nodup ∧
    (∀ name children, .package name children ∈ ds → IsMerged children) ∧
    ∀ own nested, .message own nested ∈ ds → IsMerged nested := by
  constructor
  · intro h
    exact ⟨h ds (.here ds), fun _ _ hd siblings hs => h siblings (.package hd hs),
      fun _ _ hd siblings hs => h siblings (.message hd hs)⟩
  · rintro ⟨hnames, hpackages, hmessages⟩ siblings hs
    cases hs with
    | here => exact hnames
    | package hd hs => exact hpackages _ _ hd siblings hs
    | message hd hs => exact hmessages _ _ hd siblings hs

theorem isMerged_nil : IsMerged [] := by
  rw [isMerged_iff]
  simp [packageNames]

/-- Whether there are packages is decided by each of the siblings. -/
theorem isUnpackaged_iff : IsUnpackaged ds ↔ ∀ d ∈ ds, d.isPackage = false ∧
    ∀ own nested, d = .message own nested → IsUnpackaged nested := by
  constructor
  · intro h d hd
    refine ⟨h ds (.here ds) d hd, ?_⟩
    rintro own nested rfl siblings hs
    exact h siblings (.message hd hs)
  · intro h siblings hs
    cases hs with
    | here => exact fun d hd => (h d hd).1
    | package hd hs => cases (h _ hd).1
    | message hd hs => exact (h _ hd).2 _ _ rfl siblings hs

theorem IsUnpackaged.isMerged (h : IsUnpackaged ds) : IsMerged ds := by
  intro siblings hs
  rw [packageNames_eq_nil (h siblings hs)]
  exact List.nodup_nil

/-- Declarations without packages keep what they are added to merged. -/
theorem IsMerged.append (h : IsMerged ds) (hes : IsUnpackaged es) : IsMerged (ds ++ es) := by
  obtain ⟨hnames, hpackages, hmessages⟩ := isMerged_iff.mp h
  obtain ⟨-, hpackages', hmessages'⟩ := isMerged_iff.mp hes.isMerged
  refine isMerged_iff.mpr ⟨?_, fun n c hd => ?_, fun own nested hd => ?_⟩
  · rw [packageNames_append, packageNames_eq_nil (hes es (.here es)), List.append_nil]
    exact hnames
  · rcases List.mem_append.mp hd with hd | hd
    · exact hpackages n c hd
    · exact hpackages' n c hd
  · rcases List.mem_append.mp hd with hd | hd
    · exact hmessages own nested hd
    · exact hmessages' own nested hd

theorem children?_of_mem (h : (packageNames ds).Nodup) (hd : .package name children ∈ ds) :
    children? name ds = some children := by
  induction ds with
  | nil => cases hd
  | cons d ds ih =>
    cases d with
    | package n c =>
      have hcons : (n :: packageNames ds).Nodup := h
      obtain ⟨hn, htail⟩ := List.nodup_cons.mp hcons
      rw [children?]
      rcases List.mem_cons.mp hd with he | hd
      · cases he
        rw [if_pos rfl]
      · -- A later package of the name excludes this one.
        have hne : n ≠ name := by
          rintro rfl
          exact hn (mem_packageNames.mpr ⟨children, hd⟩)
        rw [if_neg hne]
        exact ih htail hd
    | message m nested => exact ih h (by simpa using hd)
    | enumeration e => exact ih h (by simpa using hd)
    | service s => exact ih h (by simpa using hd)
    | unknown kind n => exact ih h (by simpa using hd)

theorem mem_of_children? (h : children? name ds = some children) :
    .package name children ∈ ds := by
  induction ds with
  | nil => cases h
  | cons d ds ih =>
    cases d with
    | package n c =>
      rw [children?] at h
      split at h
      · rename_i hn
        cases h
        rw [hn]
        exact List.mem_cons_self
      · exact List.mem_cons_of_mem _ (ih h)
    | message m nested => exact List.mem_cons_of_mem _ (ih h)
    | enumeration e => exact List.mem_cons_of_mem _ (ih h)
    | service s => exact List.mem_cons_of_mem _ (ih h)
    | unknown kind n => exact List.mem_cons_of_mem _ (ih h)

/-- In merged declarations a path leads to one place. -/
theorem leadsTo_iff (h : IsMerged ds) {inner : List Declaration} :
    LeadsTo ds path inner ↔ packageAt? path ds = some inner := by
  induction path generalizing ds with
  | nil =>
    rw [packageAt?]
    constructor
    · rintro ⟨⟩
      rfl
    · rintro ⟨⟩
      exact .here _
  | cons name path ih =>
    obtain ⟨hnames, hpackages, -⟩ := isMerged_iff.mp h
    rw [packageAt?, Option.bind_eq_some_iff]
    constructor
    · intro hl
      cases hl with
      | down hd hl => exact ⟨_, children?_of_mem hnames hd, (ih (hpackages _ _ hd)).mp hl⟩
    · rintro ⟨children, hc, hi⟩
      have hd := mem_of_children? hc
      exact .down hd ((ih (hpackages _ _ hd)).mpr hi)

end Schema

namespace Descriptor

open Schema (Declaration Tree IsMerged IsLevel LeadsTo packageNames ownDeclarations children?
  packageAt? ownAt isMerged_iff IsUnpackaged isUnpackaged_iff)

/-! ## Entering a package -/

section Enter

variable {name other : String} {change : List Declaration → List Declaration}
  {ds children new : List Declaration} {path : List String}

theorem ownDeclarations_enter (name : String) (change : List Declaration → List Declaration)
    (ds : List Declaration) : ownDeclarations (enter name change ds) = ownDeclarations ds := by
  rcases enter_eq name change ds with ⟨before, children, after, rfl, he⟩ | he
  · rw [he]
    simp [ownDeclarations, Schema.Declaration.isPackage]
  · rw [he]
    simp [ownDeclarations, Schema.Declaration.isPackage]

theorem children?_enter_self (name : String) (change : List Declaration → List Declaration)
    (ds : List Declaration) :
    children? name (enter name change ds) = some (change ((children? name ds).getD [])) := by
  induction ds with
  | nil => simp [enter, children?]
  | cons d ds ih =>
    cases d with
    | package n c => by_cases hn : n = name <;> simp [enter, children?, hn, ih]
    | message m nested => exact ih
    | enumeration e => exact ih
    | service s => exact ih
    | unknown kind n => exact ih

theorem children?_enter_of_ne (h : other ≠ name) (ds : List Declaration) :
    children? other (enter name change ds) = children? other ds := by
  induction ds with
  | nil => simp [enter, children?, Ne.symm h]
  | cons d ds ih =>
    cases d with
    | package n c =>
      by_cases hn : n = name
      · subst hn
        simp [enter, children?, Ne.symm h]
      · simp [enter, children?, hn, ih]
    | message m nested => exact ih
    | enumeration e => exact ih
    | service s => exact ih
    | unknown kind n => exact ih

/-- Entering a package that is there changes no names, and a new one is added at the end. -/
theorem packageNames_enter (name : String) (change : List Declaration → List Declaration)
    (ds : List Declaration) :
    packageNames (enter name change ds) =
      if name ∈ packageNames ds then packageNames ds else packageNames ds ++ [name] := by
  induction ds with
  | nil => simp [enter, packageNames]
  | cons d ds ih =>
    cases d with
    | package n c =>
      have hnames : ∀ c es, packageNames (.package n c :: es) = n :: packageNames es :=
        fun _ _ => rfl
      by_cases hn : n = name
      · subst hn
        rw [enter, if_pos rfl, hnames, hnames, if_pos List.mem_cons_self]
      · rw [enter, if_neg hn, hnames, hnames, ih]
        by_cases hm : name ∈ packageNames ds <;> simp [hm, Ne.symm hn]
    | message m nested => exact ih
    | enumeration e => exact ih
    | service s => exact ih
    | unknown kind n => exact ih

/-- What is there after a package is entered was there, or is the package. -/
theorem mem_enter {d : Declaration} (hd : d ∈ enter name change ds) :
    d ∈ ds ∨ ∃ children, d = .package name (change children) ∧
      (children = [] ∨ .package name children ∈ ds) := by
  rcases enter_eq name change ds with ⟨before, children, after, rfl, he⟩ | he
  · rw [he] at hd
    rcases List.mem_append.mp hd with hd | hd
    · exact .inl (List.mem_append_left _ hd)
    · rcases List.mem_cons.mp hd with rfl | hd
      · exact .inr ⟨children, rfl, .inr (by simp)⟩
      · exact .inl (List.mem_append_right _ (List.mem_cons_of_mem _ hd))
  · rw [he] at hd
    rcases List.mem_append.mp hd with hd | hd
    · exact .inl hd
    · exact .inr ⟨[], List.mem_singleton.mp hd, .inl rfl⟩

/-- Entering a package keeps declarations merged if the change does. -/
theorem isMerged_enter (h : IsMerged ds) (hchange : ∀ es, IsMerged es → IsMerged (change es)) :
    IsMerged (enter name change ds) := by
  obtain ⟨hnames, hpackages, hmessages⟩ := isMerged_iff.mp h
  refine isMerged_iff.mpr ⟨?_, fun n c hd => ?_, fun own nested hd => ?_⟩
  · rw [packageNames_enter]
    split
    · exact hnames
    · rename_i hnew
      rw [List.nodup_append]
      refine ⟨hnames, List.pairwise_singleton _ name, fun n hn m hm => ?_⟩
      rw [List.mem_singleton.mp hm]
      rintro rfl
      exact hnew hn
  · rcases mem_enter hd with hd | ⟨children, he, hfrom⟩
    · exact hpackages n c hd
    · cases he
      rcases hfrom with rfl | hd
      · exact hchange [] Schema.isMerged_nil
      · exact hchange children (hpackages name children hd)
  · rcases mem_enter hd with hd | ⟨children, he, -⟩
    · exact hmessages own nested hd
    · cases he

/-! ## Grafting -/

/-- Grafting declarations without packages keeps what is there merged. -/
theorem isMerged_graft (hnew : IsUnpackaged new) (path : List String) :
    ∀ ds, IsMerged ds → IsMerged (graft path new ds) := by
  induction path with
  | nil => exact fun ds h => h.append hnew
  | cons name path ih => exact fun ds h => isMerged_enter h ih

theorem children?_append (hnew : IsUnpackaged new) (ds : List Declaration) :
    children? name (ds ++ new) = children? name ds := by
  have hnone : children? name new = none := by
    rw [Option.eq_none_iff_forall_ne_some]
    intro children h
    cases hnew new (.here new) _ (Schema.mem_of_children? h)
  induction ds with
  | nil => exact hnone
  | cons d ds ih =>
    cases d with
    | package n c => by_cases hn : n = name <;> simp [children?, hn, ih]
    | message m nested => exact ih
    | enumeration e => exact ih
    | service s => exact ih
    | unknown kind n => exact ih

/-- What is at the end of a path after grafting: the places of the grafted path are there, and
at its end the new declarations are behind the others. -/
theorem at_graft (hnew : IsUnpackaged new) (path : List String) :
    ∀ (ds : List Declaration) (target : List String),
      ((packageAt? target (graft path new ds)).isSome ↔
        (packageAt? target ds).isSome ∨ target <+: path) ∧
      ownAt target (graft path new ds) =
        ownAt target ds ++ if target = path then new else [] := by
  induction path with
  | nil =>
    intro ds target
    cases target with
    | nil =>
      refine ⟨by simp [packageAt?], ?_⟩
      show ownDeclarations (ds ++ new) = ownDeclarations ds ++ new
      rw [Schema.ownDeclarations_append, Schema.ownDeclarations_eq_self (hnew new (.here new))]
    | cons name target =>
      unfold ownAt packageAt?
      rw [graft_nil, children?_append hnew]
      simp
  | cons name path ih =>
    intro ds target
    rw [graft_cons]
    cases target with
    | nil =>
      refine ⟨by simp [packageAt?], ?_⟩
      show ownDeclarations (enter name _ ds) = ownDeclarations ds ++ []
      rw [ownDeclarations_enter, List.append_nil]
    | cons other target =>
      by_cases hname : other = name
      · subst hname
        obtain ⟨hsome, hitems⟩ := ih ((children? other ds).getD []) target
        unfold ownAt at hitems ⊢
        rw [packageAt?, children?_enter_self, Option.bind_some, packageAt?, hsome, hitems]
        -- Where the package is new, nothing is below it yet.
        cases children? other ds with
        | some children => simp [List.cons_prefix_cons]
        | none =>
          cases target with
          | nil => simp [packageAt?, ownDeclarations]
          | cons n target => simp [packageAt?, children?, List.cons_prefix_cons]
      · unfold ownAt
        rw [packageAt?, children?_enter_of_ne hname, packageAt?]
        simp [hname, List.cons_prefix_cons]

end Enter

/-! ## Files -/

mutual

/-- A message has no packages in it. -/
theorem isUnpackaged_of_message (c : Context) : ∀ (m : Message) (scope : String)
    (path : List Int) (d : Declaration), m.declaration c scope path = .ok d →
      d.isPackage = false ∧ ∀ own nested, d = .message own nested → IsUnpackaged nested
  | ⟨name, _, ms, _, _, _⟩, scope, path, d, h => by
    obtain ⟨inner, fields, oneofs, children, hinner, -, -, rfl, hsorted⟩ :=
      Message.declaration_eq_ok h
    refine ⟨rfl, ?_⟩
    rintro own nested ⟨⟩
    rw [isUnpackaged_iff]
    intro e he
    rw [hsorted.mem_iff, List.mem_append] at he
    rcases he with he | he
    · exact isUnpackaged_of_nested c ms (fullName scope name) path 0 inner hinner e he
    · obtain ⟨enumeration, -, rfl⟩ := List.mem_map.mp he
      exact ⟨rfl, nofun⟩

theorem isUnpackaged_of_nested (c : Context) : ∀ (ms : List Message) (scope : String)
    (path : List Int) (index : Nat) (ds : List (List Int × Declaration)),
      nestedDeclarations c scope path index ms = .ok ds → ∀ d ∈ ds.map Prod.snd,
        d.isPackage = false ∧ ∀ own nested, d = .message own nested → IsUnpackaged nested
  | [], scope, path, index, ds, h => by
    rw [nestedDeclarations] at h
    cases h
    exact nofun
  | m :: rest, scope, path, index, ds, h => by
    rw [nestedDeclarations] at h
    split at h
    · exact isUnpackaged_of_nested c rest scope path (index + 1) ds h
    · obtain ⟨first, hfirst, h⟩ := bind_eq_ok h
      obtain ⟨others, hothers, h⟩ := bind_eq_ok h
      cases h
      rw [List.map_cons, List.forall_mem_cons]
      exact ⟨isUnpackaged_of_message c m scope _ first hfirst,
        isUnpackaged_of_nested c rest scope path (index + 1) others hothers⟩

end

theorem isUnpackaged_of_messages (c : Context) (scope : String) (ms : List Message) :
    ∀ (index : Nat) (ds : List (List Int × Declaration)),
      messageDeclarations c scope index ms = .ok ds → IsUnpackaged (ds.map Prod.snd) := by
  induction ms with
  | nil =>
    intro index ds h
    cases h
    exact isUnpackaged_iff.mpr nofun
  | cons m ms ih =>
    intro index ds h
    rw [messageDeclarations] at h
    obtain ⟨first, hfirst, h⟩ := bind_eq_ok h
    obtain ⟨others, hothers, h⟩ := bind_eq_ok h
    cases h
    rw [isUnpackaged_iff, List.map_cons, List.forall_mem_cons]
    exact ⟨isUnpackaged_of_message c m scope _ first hfirst,
      isUnpackaged_iff.mp (ih (index + 1) others hothers)⟩

theorem isUnpackaged_of_services (table : NameTable) (ss : List Service) :
    ∀ ds : List Declaration, ss.mapM (Service.declaration table) = .ok ds → IsUnpackaged ds := by
  induction ss with
  | nil =>
    intro ds h
    cases h
    exact isUnpackaged_iff.mpr nofun
  | cons v ss ih =>
    intro ds h
    rw [List.mapM_cons] at h
    obtain ⟨first, hfirst, h⟩ := bind_eq_ok h
    obtain ⟨others, hothers, h⟩ := bind_eq_ok h
    cases h
    obtain ⟨methods, -, hfirst⟩ := bind_eq_ok hfirst
    cases hfirst
    rw [isUnpackaged_iff, List.forall_mem_cons]
    exact ⟨⟨rfl, nofun⟩, isUnpackaged_iff.mp (ih others hothers)⟩

/-- Files bring no packages with them. -/
theorem isUnpackaged_of_file {table : NameTable} {f : File} {ds : List Declaration}
    (h : f.declarations table = .ok ds) : IsUnpackaged ds := by
  obtain ⟨messages, services, hmessages, hservices, hsorted⟩ := File.declarations_eq_ok h
  have hm := isUnpackaged_iff.mp (isUnpackaged_of_messages _ _ _ _ _ hmessages)
  have hs := isUnpackaged_iff.mp (isUnpackaged_of_services _ _ _ hservices)
  rw [isUnpackaged_iff]
  intro d hd
  rw [hsorted.mem_iff, List.mem_append, List.mem_append] at hd
  rcases hd with (hd | hd) | hd
  · exact hm d hd
  · obtain ⟨e, -, rfl⟩ := List.mem_map.mp hd
    exact ⟨rfl, nofun⟩
  · exact hs d hd

/-! ## Sets -/

/-- A file that is grafted names its package by a text. -/
theorem package_of_graftFiles {table : NameTable} {f : File} {files : List File}
    {ds ds' : List Declaration} (h : graftFiles table (f :: files) ds = .ok ds') :
    ∃ package, f.package = .text package := by
  rw [graftFiles] at h
  obtain ⟨package, hpackage, -⟩ := bind_eq_ok h
  cases hp : f.package with
  | text package => exact ⟨package, rfl⟩
  | octets bs =>
    rw [hp] at hpackage
    cases hpackage

/-- A package is told by its path. -/
theorem packagePath_inj {package other : String} (h : packagePath package = packagePath other) :
    package = other := by
  unfold packagePath at h
  split at h
  · rename_i hp
    split at h
    · rename_i ho
      rw [hp, ho]
    · exact absurd h.symm (Text.split_ne_nil '.' other)
  · split at h
    · exact absurd h (Text.split_ne_nil '.' package)
    · calc package = (String.ofList ['.']).intercalate (Text.split '.' package) :=
            (Text.intercalate_split '.' package).symm
        _ = (String.ofList ['.']).intercalate (Text.split '.' other) := by rw [h]
        _ = other := Text.intercalate_split '.' other

theorem isMerged_of_graftFiles {table : NameTable} (files : List File) :
    ∀ ds ds' : List Declaration, graftFiles table files ds = .ok ds' →
      IsMerged ds → IsMerged ds' := by
  induction files with
  | nil =>
    intro ds ds' h hds
    cases h
    exact hds
  | cons f files ih =>
    intro ds ds' h hds
    obtain ⟨new, hnew, h⟩ := graftFiles_cons_eq_ok h
    exact ih _ ds' h (isMerged_graft (isUnpackaged_of_file hnew) _ ds hds)

/-- The places after grafting files are those that were there and those on the paths of the
files' packages. -/
theorem isSome_packageAt?_graftFiles {table : NameTable} (files : List File)
    (path : List String) : ∀ ds ds' : List Declaration, graftFiles table files ds = .ok ds' →
      ((packageAt? path ds').isSome ↔ (packageAt? path ds).isSome ∨
        ∃ f ∈ files, ∃ package, f.package = .text package ∧ path <+: packagePath package) := by
  induction files with
  | nil =>
    intro ds ds' h
    cases h
    simp
  | cons f files ih =>
    intro ds ds' h
    obtain ⟨package, hpackage⟩ := package_of_graftFiles h
    obtain ⟨new, hnew, h⟩ := graftFiles_cons_eq_ok h
    rw [ih _ ds' h, (at_graft (isUnpackaged_of_file hnew) _ ds path).1, hpackage]
    simp [hpackage, or_assoc]

/-- The declarations at the end of a package's path after grafting files are those that were
there, and behind them those of the files with the package. -/
theorem ownAt_graftFiles {table : NameTable} (files : List File) (package : String) :
    ∀ ds ds' : List Declaration, graftFiles table files ds = .ok ds' →
      ∃ declared, List.Forall₂ (fun f ds => f.declarations table = .ok ds)
          (files.filter fun f => f.package = .text package) declared ∧
        ownAt (packagePath package) ds' = ownAt (packagePath package) ds ++ declared.flatten := by
  induction files with
  | nil =>
    intro ds ds' h
    cases h
    exact ⟨[], .nil, (List.append_nil _).symm⟩
  | cons f files ih =>
    intro ds ds' h
    obtain ⟨other, hother⟩ := package_of_graftFiles h
    obtain ⟨new, hnew, h⟩ := graftFiles_cons_eq_ok h
    obtain ⟨declared, hdeclared, hown⟩ := ih _ ds' h
    rw [(at_graft (isUnpackaged_of_file hnew) _ ds _).2, hother] at hown
    by_cases hp : other = package
    · subst hp
      refine ⟨new :: declared, ?_, ?_⟩
      · rw [List.filter_cons, if_pos (by simp [hother])]
        exact .cons hnew hdeclared
      · rw [hown]
        simp
    · -- Another package has another path.
      have hpath : packagePath package ≠ packagePath other :=
        fun h => hp (packagePath_inj h).symm
      refine ⟨declared, ?_, ?_⟩
      · rw [List.filter_cons, if_neg (by simp [hother, hp])]
        exact hdeclared
      · rw [hown]
        simp [hpath]

/-- The packages of a set's tree are merged: no two siblings are packages of one name, at any
level. The paths of packages in the tree are the beginnings of the paths of the packages that
its target files name. At the end of the path of a package stand, besides packages, the
declarations of the target files with this package, file after file. -/
theorem packages_merged {s : Set} {names : Option (List String)} {t : Tree}
    (h : s.tree names = .ok t) :
    (∀ siblings, IsLevel t.declarations siblings → (packageNames siblings).Nodup) ∧
    (∀ path, path ≠ [] → ((∃ inner, LeadsTo t.declarations path inner) ↔
      ∃ f ∈ s.targets names, ∃ package, f.package = .text package ∧ package ≠ "" ∧
        path <+: Text.split '.' package)) ∧
    ∀ package inner, LeadsTo t.declarations (packagePath package) inner →
      ∃ declared, List.Forall₂ (fun f ds => f.declarations s.names = .ok ds)
          ((s.targets names).filter fun f => f.package = .text package) declared ∧
        ownDeclarations inner = declared.flatten := by
  have hgraft := Set.graftFiles_of_tree h
  have hmerged := isMerged_of_graftFiles _ _ _ hgraft Schema.isMerged_nil
  refine ⟨hmerged, fun path hpath => ?_, fun package inner hinner => ?_⟩
  · have hsome := isSome_packageAt?_graftFiles _ path _ _ hgraft
    have hempty : packageAt? path [] = none := by
      cases path with
      | nil => exact absurd rfl hpath
      | cons name path => rfl
    simp only [Schema.leadsTo_iff hmerged, ← Option.isSome_iff_exists, hsome, hempty]
    constructor
    · rintro (h | ⟨f, hf, package, hpackage, hprefix⟩)
      · cases h
      · unfold packagePath at hprefix
        split at hprefix
        · exact absurd (List.prefix_nil.mp hprefix) hpath
        · rename_i hne
          exact ⟨f, hf, package, hpackage, hne, hprefix⟩
    · rintro ⟨f, hf, package, hpackage, hne, hprefix⟩
      refine .inr ⟨f, hf, package, hpackage, ?_⟩
      rw [packagePath, if_neg hne]
      exact hprefix
  · obtain ⟨declared, hdeclared, hown⟩ := ownAt_graftFiles _ package _ _ hgraft
    refine ⟨declared, hdeclared, ?_⟩
    have hempty : ownAt (packagePath package) [] = [] := by
      cases packagePath package with
      | nil => rfl
      | cons name path => rfl
    rw [hempty, List.nil_append, ownAt, (Schema.leadsTo_iff hmerged).mp hinner] at hown
    exact hown

/-- A message of this file is called like a package that other files name. -/
def basinFile : File :=
  { name := "basin.proto", package := "port", dialect := "proto3",
    messages := [{ name := "dock" }] }

def pierFile : File :=
  { name := "pier.proto", package := "port.dock", dialect := "proto3",
    messages := [{ name := "Pier" }] }

def craneFile : File :=
  { name := "crane.proto", package := "port.dock", dialect := "proto3",
    services := [{ name := "Crane" }] }

/-- Files that share packages, and one that declares nothing. -/
def portSet : Set :=
  ⟨[pierFile, basinFile, { name := "sea.proto", package := "sea", dialect := "proto3" },
    craneFile]⟩

def portTree : Tree :=
  { dialect := "proto3",
    declarations :=
      [.package "port" [.package "dock" [.message { name := "Pier" } [],
                                         .service { name := "Crane" }],
                        .message { name := "dock" } []],
       .package "sea" []] }

theorem tree_portSet : portSet.tree none = .ok portTree := by
  have htree : portSet.tree none =
      .ok ⟨"proto3", graft ["port", "dock"] (inSourceOrder [] [
          ([6, 0], .service { name := "Crane" })])
        (graft ["sea"] (inSourceOrder [] [])
          (graft ["port"] (inSourceOrder [] [
            ([4, 0], .message { name := "dock" } (inSourceOrder [] []))])
            (graft ["port", "dock"] (inSourceOrder [] [
              ([4, 0], .message { name := "Pier" } (inSourceOrder [] []))]) [])))⟩ := rfl
  rw [htree]
  simp only [inSourceOrder_nil]
  rfl

/-- The message does not stand for the package of its name, and the file without declarations
has a package all the same. -/
theorem packages_merged_portSet :
    portSet.tree none = .ok portTree ∧
      (∀ siblings, IsLevel portTree.declarations siblings → (packageNames siblings).Nodup) ∧
      (∃ inner, LeadsTo portTree.declarations ["sea"] inner) ∧
      ∃ declared, List.Forall₂ (fun f ds => f.declarations portSet.names = .ok ds)
          [pierFile, craneFile] declared ∧
        [.message { name := "Pier" } [], .service { name := "Crane" }] = declared.flatten := by
  obtain ⟨hmerged, hpaths, hown⟩ := packages_merged tree_portSet
  refine ⟨tree_portSet, hmerged, (hpaths ["sea"] (by simp)).mpr ?_, ?_⟩
  · exact ⟨{ name := "sea.proto", package := "sea", dialect := "proto3" },
      List.mem_cons_of_mem _ (List.mem_cons_of_mem _ List.mem_cons_self), "sea", rfl, by decide,
      by decide⟩
  · exact hown "port.dock" _ (.down List.mem_cons_self (.down List.mem_cons_self (.here _)))

end Descriptor

end ProtoSdl
