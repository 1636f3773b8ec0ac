import ProtoSdl.Proofs.Imports
import ProtoSdl.Proofs.Verdict

/-!
  Faults — which sets have no tree, and which fault is told

  A set may be at fault in several places. The faults of a set make one list in the order
  in which they are met, and the list decides whether there is a tree:

    1. `Meets` says that a computation fails with the first fault of a list, and succeeds
       if there is none. Computations one after the other meet their lists one after the
       other (`Meets.bind`).
    2. `Message.reached` lists a message behind all that are nested in it, map entries left
       out with what is in them. A message at fault is told after the messages in it, and
       of the message itself the fields come first and then the groups
       (`meets_messageDeclaration`).
    3. `Set.faults` puts the faults of the dialects first, then that of the name table,
       then those of the files (`meets_tree`).

  Where all names are texts that have to be, only map entries without values and groups that
  do not exist are left (`faults_of_texts`). Then the fault of a set is that of the first
  message of which one is told, and `Message.Tells` reads it off the message alone:
  `fails_iff_at_fault`.
-/

namespace ProtoSdl.Descriptor

open Schema (Declaration Tree)

/-! ## Computations and lists of faults -/

/-- The computation fails with the first of the faults, and succeeds if there is none. -/
def Meets {α : Type} (x : Except Fault α) (faults : List Fault) : Prop :=
  match x with
  | .ok _ => faults = []
  | .error e => faults.head? = some e

namespace Meets

variable {α β : Type} {x : Except Fault α} {faults : List Fault}

theorem ok (a : α) : Meets (.ok a) [] := rfl

theorem error (e : Fault) : Meets (.error e : Except Fault α) [e] := rfl

/-- What follows is met only where there was no fault before. -/
theorem bind {f : α → Except Fault β} {others : List Fault} (h : Meets x faults)
    (hf : ∀ a, Meets (f a) others) : Meets (x >>= f) (faults ++ others) := by
  cases x with
  | ok a =>
    have hnone : faults = [] := h
    rw [hnone]
    exact hf a
  | error e =>
    have hfirst : faults.head? = some e := h
    show (faults ++ others).head? = some e
    rw [List.head?_append, hfirst, Option.some_or]

/-- What follows without a fault. -/
theorem map {f : α → Except Fault β} (h : Meets x faults) (hf : ∀ a, Meets (f a) []) :
    Meets (x >>= f) faults := by
  have hboth := h.bind hf
  rw [List.append_nil] at hboth
  exact hboth

theorem mapM {f : α → Except Fault β} {g : α → List Fault} (h : ∀ a, Meets (f a) (g a))
    (as : List α) : Meets (as.mapM f) (as.flatMap g) := by
  induction as with
  | nil => exact ok []
  | cons a as ih =>
    rw [List.mapM_cons, List.flatMap_cons]
    exact (h a).bind fun b => ih.map fun bs => ok (b :: bs)

theorem error_iff (h : Meets x faults) (e : Fault) : x = .error e ↔ faults.head? = some e := by
  cases x with
  | ok a =>
    have hnone : faults = [] := h
    simp [hnone]
  | error e' =>
    have hfirst : faults.head? = some e' := h
    simp [hfirst]

theorem ok_iff (h : Meets x faults) : (∃ a, x = .ok a) ↔ faults = [] := by
  cases x with
  | ok a =>
    have hnone : faults = [] := h
    simp [hnone]
  | error e =>
    have hfirst : faults.head? = some e := h
    constructor
    · rintro ⟨a, ⟨⟩⟩
    · rintro rfl
      cases hfirst

end Meets

/-! ## What may be at fault -/

/-- The fault of a name that has to be a text. -/
def textFaults (e : Fault) (n : Name) : List Fault := if n.isText then [] else [e]

/-- The fault of the name of a field's type; scalar types have no fault. -/
def Field.typeFaults (f : Field) : List Fault :=
  match f.type.scalarName? with
  | some _ => []
  | none => textFaults .referenceNotText f.typeName

/-- The fault of a field in the message with this full name. -/
def Field.faults (full : String) (nested : List Message) (f : Field) : List Fault :=
  match mapEntry? full nested f.typeName with
  | some entry =>
    match entry.fields.find? fun v => v.number == mapValueNumber with
    | some value => value.typeFaults
    | none => [.mapWithoutValue]
  | none => f.typeFaults

/-- The group that the field points to, if there is none of so many. -/
def Field.outside? (count : Nat) (f : Field) : Option Int :=
  f.group?.filter fun i => i < 0 || (count : Int) ≤ i

/-- The faults of fields that point to groups which do not exist. -/
def Message.groupFaults (m : Message) : List Fault :=
  (m.fields.filterMap (Field.outside? m.oneofs.length)).map .noSuchOneof

/-- The faults of a message in a scope, without those of what is nested in it. -/
def Message.ownFaults (scope : String) (m : Message) : List Fault :=
  m.fields.flatMap (Field.faults (fullName scope m.name) m.nested) ++ m.groupFaults

mutual

/-- The messages that are declared with a message, each with its scope: those nested in it,
and then the message. -/
def Message.reached (scope : String) : Message → List (String × Message)
  | ⟨name, fields, nested, enumerations, oneofs, mapEntry⟩ =>
    nestedReached (fullName scope name) nested ++
      [(scope, ⟨name, fields, nested, enumerations, oneofs, mapEntry⟩)]

/-- The messages that are declared with nested messages; map entries are not. -/
def nestedReached (scope : String) : List Message → List (String × Message)
  | [] => []
  | m :: rest => (if m.isMapEntry then [] else m.reached scope) ++ nestedReached scope rest

end

/-- The messages that are declared with a file. -/
def File.reached (f : File) : List (String × Message) :=
  f.messages.flatMap (Message.reached f.scope)

/-- The messages that are declared with the target files of a set. -/
def Set.reached (s : Set) (names : Option (List String)) : List (String × Message) :=
  (s.targets names).flatMap File.reached

def Method.faults (m : Method) : List Fault :=
  textFaults .referenceNotText m.input ++ textFaults .referenceNotText m.output

def Service.faults (s : Service) : List Fault := s.methods.flatMap Method.faults

def File.faults (f : File) : List Fault :=
  textFaults .packageNotText f.package ++
    ((f.reached.flatMap fun r => r.2.ownFaults r.1) ++ f.services.flatMap Service.faults)

/-- The fault of the first dialect that is not a third version; no later one is asked for. -/
def dialectFaults (files : List File) : List Fault :=
  match files.find? fun f => !f.isThirdVersion with
  | some f => textFaults .dialectNotText f.dialect
  | none => []

/-- The faults of a set, in the order in which they are met. -/
def Set.faults (s : Set) (names : Option (List String)) : List Fault :=
  dialectFaults (s.targets names) ++
    ((if s.isNameable then [] else [.enumerationNotText]) ++
      (s.targets names).flatMap File.faults)

/-! ## Fields and groups -/

theorem meets_require (e : Fault) (n : Name) : Meets (n.require e) (textFaults e n) := by
  cases n with
  | text s => exact .ok s
  | octets bs => exact .error e

theorem meets_resolvedReference (table : NameTable) (n : Name) :
    Meets (resolvedReference table n) (textFaults .referenceNotText n) :=
  (meets_require _ n).map fun full => .ok (reference table full)

theorem meets_resolvedType (table : NameTable) (f : Field) :
    Meets (f.resolvedType table) f.typeFaults := by
  unfold Field.resolvedType Field.typeFaults
  cases f.type.scalarName? with
  | some scalar => exact .ok _
  | none => exact meets_resolvedReference table f.typeName

theorem meets_fieldDeclaration (table : NameTable) (full : String) (nested : List Message)
    (f : Field) : Meets (f.declaration table full nested) (f.faults full nested) := by
  unfold Field.declaration Field.faults
  cases mapEntry? full nested f.typeName with
  | none => exact (meets_resolvedType table f).map fun _ => .ok _
  | some entry =>
    dsimp only
    cases entry.fields.find? fun v => v.number == mapValueNumber with
    | none => exact .error .mapWithoutValue
    | some value => exact (meets_resolvedType table value).map fun _ => .ok _

theorem meets_fieldDeclarations (table : NameTable) (full : String) (nested : List Message)
    (fields : List Field) :
    Meets (fieldDeclarations table full nested fields)
      (fields.flatMap (Field.faults full nested)) := by
  induction fields with
  | nil => exact .ok []
  | cons f fields ih =>
    rw [fieldDeclarations, List.flatMap_cons]
    exact (meets_fieldDeclaration table full nested f).bind fun first =>
      ih.map fun others => .ok (first :: others)

theorem meets_oneofGroups (m : Message) : Meets (oneofGroups m.fields m.oneofs) m.groupFaults := by
  have houtside : m.fields.filterMap (Field.outside? m.oneofs.length) =
      (m.fields.filterMap Field.group?).filter
        fun i => i < 0 || (m.oneofs.length : Int) ≤ i := by
    rw [List.filter_filterMap]
    rfl
  unfold oneofGroups Message.groupFaults
  rw [houtside, ← List.head?_filter]
  cases (m.fields.filterMap Field.group?).filter fun i => i < 0 || (m.oneofs.length : Int) ≤ i with
  | nil => exact .ok _
  | cons i rest => exact rfl

/-! ## Messages -/

mutual

/-- A message meets the faults of the messages that are declared with it. -/
theorem meets_messageDeclaration (c : Context) : ∀ (m : Message) (scope : String)
    (path : List Int), Meets (m.declaration c scope path)
      ((m.reached scope).flatMap fun r => r.2.ownFaults r.1)
  | ⟨name, fields, nested, enumerations, oneofs, mapEntry⟩, scope, path => by
    have hnested := meets_nestedDeclarations c nested (fullName scope name) path 0
    have hfields := meets_fieldDeclarations c.table (fullName scope name) nested fields
    have hgroups := meets_oneofGroups ⟨name, fields, nested, enumerations, oneofs, mapEntry⟩
    rw [Message.declaration, Message.reached, List.flatMap_append, List.flatMap_singleton]
    exact hnested.bind fun _ => hfields.bind fun _ => hgroups.map fun _ => .ok _

theorem meets_nestedDeclarations (c : Context) : ∀ (ms : List Message) (scope : String)
    (path : List Int) (index : Nat), Meets (nestedDeclarations c scope path index ms)
      ((nestedReached scope ms).flatMap fun r => r.2.ownFaults r.1)
  | [], scope, path, index => by
    rw [nestedDeclarations, nestedReached]
    exact .ok []
  | m :: rest, scope, path, index => by
    have hrest := meets_nestedDeclarations c rest scope path (index + 1)
    have hfirst := meets_messageDeclaration c m scope (path ++ [nestedNumber, (index : Int)])
    rw [nestedDeclarations, nestedReached, List.flatMap_append]
    split
    · exact hrest
    · exact hfirst.bind fun _ => hrest.map fun _ => .ok _

end

theorem meets_messageDeclarations (c : Context) (scope : String) (ms : List Message) :
    ∀ index : Nat, Meets (messageDeclarations c scope index ms)
      ((ms.flatMap (Message.reached scope)).flatMap fun r => r.2.ownFaults r.1) := by
  induction ms with
  | nil => exact fun _ => .ok []
  | cons m ms ih =>
    intro index
    rw [messageDeclarations, List.flatMap_cons, List.flatMap_append]
    exact (meets_messageDeclaration c m scope _).bind fun _ => (ih (index + 1)).map fun _ => .ok _

/-! ## Files and sets -/

theorem meets_methodDeclaration (table : NameTable) (m : Method) :
    Meets (m.declaration table) m.faults :=
  (meets_resolvedReference table m.input).bind fun _ =>
    (meets_resolvedReference table m.output).map fun _ => .ok _

theorem meets_serviceDeclaration (table : NameTable) (s : Service) :
    Meets (s.declaration table) s.faults :=
  (Meets.mapM (meets_methodDeclaration table) s.methods).map fun _ => .ok _

theorem meets_fileDeclarations (table : NameTable) (f : File) :
    Meets (f.declarations table)
      ((f.reached.flatMap fun r => r.2.ownFaults r.1) ++ f.services.flatMap Service.faults) :=
  (meets_messageDeclarations _ f.scope f.messages 0).bind fun _ =>
    (Meets.mapM (meets_serviceDeclaration table) f.services).map fun _ => .ok _

theorem meets_graftFiles (table : NameTable) (files : List File) :
    ∀ ds : List Declaration, Meets (graftFiles table files ds) (files.flatMap File.faults) := by
  induction files with
  | nil => exact fun ds => .ok ds
  | cons f files ih =>
    intro ds
    rw [graftFiles, List.flatMap_cons, File.faults, List.append_assoc]
    exact (meets_require _ f.package).bind fun _ =>
      (meets_fileDeclarations table f).bind fun _ => ih _

theorem meets_dialectOf (files : List File) : Meets (dialectOf files) (dialectFaults files) := by
  induction files with
  | nil => exact .ok _
  | cons f files ih =>
    unfold dialectFaults at ih ⊢
    rw [dialectOf, List.find?_cons]
    cases hd : f.dialect with
    | octets bs =>
      have hf : f.isThirdVersion = false := by
        unfold File.isThirdVersion
        rw [hd]
      simp only [hf, Bool.not_false, hd]
      exact .error .dialectNotText
    | text dialect =>
      have hf : f.isThirdVersion = Text.hasSuffix "3" (declaredDialect dialect) := by
        unfold File.isThirdVersion
        rw [hd]
        rfl
      rw [hf, Name.require_text, pure_bind]
      cases Text.hasSuffix "3" (declaredDialect dialect) with
      | true => exact ih
      | false =>
        simp only [Bool.not_false, hd]
        exact .ok _

/-- A set meets its faults. -/
theorem meets_tree (s : Set) (names : Option (List String)) :
    Meets (s.tree names) (s.faults names) := by
  have htable : Meets s.nameTable (if s.isNameable then [] else [.enumerationNotText]) := by
    unfold Set.nameTable
    split
    · exact .ok _
    · exact .error _
  exact (meets_dialectOf _).bind fun _ => htable.bind fun table =>
    (meets_graftFiles table _ []).map fun _ => .ok _

/-! ## Messages that are reached -/

/-- Whether the one message, in its scope, has the other, in its own scope, for itself or for a
message that is declared with it: nested at any depth, with no map entry on the way. -/
inductive Message.Reaches : String → Message → String → Message → Prop
  | here (scope : String) (m : Message) : Message.Reaches scope m scope m
  | nested {scope inner : String} {m n k : Message} : n ∈ m.nested → n.isMapEntry = false →
      Message.Reaches (fullName scope m.name) n inner k → Message.Reaches scope m inner k

/-- Whether the message, in its scope, is declared with a target file. -/
def Set.Reaches (s : Set) (names : Option (List String)) (scope : String) (m : Message) : Prop :=
  ∃ f ∈ s.targets names, ∃ top ∈ f.messages, top.Reaches f.scope scope m

mutual

theorem reaches_of_mem_reached : ∀ (m : Message) (scope : String) (r : String × Message),
    r ∈ m.reached scope → m.Reaches scope r.1 r.2
  | ⟨name, fields, nested, enumerations, oneofs, mapEntry⟩, scope, r, h => by
    rw [Message.reached] at h
    rcases List.mem_append.mp h with h | h
    · obtain ⟨n, hn, hentry, hr⟩ := reaches_of_mem_nestedReached nested _ r h
      exact .nested hn hentry hr
    · rw [List.mem_singleton.mp h]
      exact .here scope _

theorem reaches_of_mem_nestedReached : ∀ (ms : List Message) (scope : String)
    (r : String × Message), r ∈ nestedReached scope ms →
      ∃ n ∈ ms, n.isMapEntry = false ∧ n.Reaches scope r.1 r.2
  | [], scope, r, h => by
    rw [nestedReached] at h
    cases h
  | m :: rest, scope, r, h => by
    rw [nestedReached] at h
    rcases List.mem_append.mp h with h | h
    · split at h
      · cases h
      · rename_i hentry
        exact ⟨m, List.mem_cons_self, Bool.eq_false_iff.mpr hentry,
          reaches_of_mem_reached m scope r h⟩
    · obtain ⟨n, hn, hr⟩ := reaches_of_mem_nestedReached rest scope r h
      exact ⟨n, List.mem_cons_of_mem m hn, hr⟩

end

theorem mem_nestedReached {ms : List Message} {n : Message} (hn : n ∈ ms)
    (hentry : n.isMapEntry = false) {scope : String} {r : String × Message}
    (h : r ∈ n.reached scope) : r ∈ nestedReached scope ms := by
  induction ms with
  | nil => cases hn
  | cons m ms ih =>
    rw [nestedReached]
    rcases List.mem_cons.mp hn with rfl | hn
    · rw [if_neg (by simp [hentry])]
      exact List.mem_append_left _ h
    · exact List.mem_append_right _ (ih hn)

/-- The list has the messages that are reached. -/
theorem mem_reached_iff {m k : Message} {scope inner : String} :
    (inner, k) ∈ m.reached scope ↔ m.Reaches scope inner k := by
  constructor
  · exact reaches_of_mem_reached m scope (inner, k)
  · intro h
    induction h with
    | here scope m =>
      obtain ⟨name, fields, nested, enumerations, oneofs, mapEntry⟩ := m
      rw [Message.reached]
      exact List.mem_append_right _ (List.mem_singleton_self _)
    | @nested scope inner m n k hn hentry _ ih =>
      obtain ⟨name, fields, nested, enumerations, oneofs, mapEntry⟩ := m
      rw [Message.reached]
      exact List.mem_append_left _ (mem_nestedReached hn hentry ih)

theorem Set.mem_reached_iff {s : Set} {names : Option (List String)} {scope : String}
    {m : Message} : (scope, m) ∈ s.reached names ↔ s.Reaches names scope m := by
  unfold Set.reached File.reached Set.Reaches
  simp only [List.mem_flatMap, Descriptor.mem_reached_iff]

theorem references_subset_of_mem {ms : List Message} {n : Message} (hn : n ∈ ms) :
    n.references ⊆ nestedReferences ms := by
  induction ms with
  | nil => cases hn
  | cons m ms ih =>
    rw [nestedReferences]
    rcases List.mem_cons.mp hn with rfl | hn
    · exact List.subset_append_left _ _
    · exact List.Subset.trans (ih hn) (List.subset_append_right _ _)

/-- A message refers to the types to which the messages that it reaches refer. -/
theorem references_subset_of_reaches {m k : Message} {scope inner : String}
    (h : m.Reaches scope inner k) : k.references ⊆ m.references := by
  induction h with
  | here scope m => exact List.Subset.refl _
  | @nested scope inner m n k hn _ _ ih =>
    obtain ⟨name, fields, nested, enumerations, oneofs, mapEntry⟩ := m
    rw [Message.references]
    have hnested := List.Subset.trans ih (references_subset_of_mem hn)
    exact List.Subset.trans hnested (List.subset_append_right _ _)

/-! ## Sets in which all names are texts that have to be -/

/-- The fault of a field that refers to a map entry without values. -/
def Field.mapFaults (full : String) (nested : List Message) (f : Field) : List Fault :=
  match mapEntry? full nested f.typeName with
  | some entry =>
    match entry.fields.find? fun v => v.number == mapValueNumber with
    | some _ => []
    | none => [.mapWithoutValue]
  | none => []

/-- The faults of the fields that refer to map entries without values. -/
def Message.mapFaults (scope : String) (m : Message) : List Fault :=
  m.fields.flatMap (Field.mapFaults (fullName scope m.name) m.nested)

/-- Whether a field of the message refers to a map entry without values: its type name is the
full name of a nested map entry, and the last one of this name has no field for them. -/
def Message.HasMapWithoutValue (scope : String) (m : Message) : Prop :=
  ∃ f ∈ m.fields, ∃ before entry after, m.nested = before ++ entry :: after ∧
    entry.isMapEntry = true ∧
    f.typeName = .text (fullName (fullName scope m.name) entry.name) ∧
    (∀ n ∈ after, n.isMapEntry = true →
      f.typeName ≠ .text (fullName (fullName scope m.name) n.name)) ∧
    ∀ v ∈ entry.fields, v.number ≠ mapValueNumber

/-- Whether the field, not optional in itself, points to a group of this index, and there is none
among so many. -/
def Field.PointsOutside (count : Nat) (f : Field) (i : Int) : Prop :=
  f.oneofIndex = some i ∧ f.isProto3Optional = false ∧ (i < 0 ∨ (count : Int) ≤ i)

def Message.PointsOutside (m : Message) (i : Int) : Prop :=
  ∃ f ∈ m.fields, f.PointsOutside m.oneofs.length i

/-- The fault that is told of a message: a map entry without values, and where there is none the
group that the first field points to which points to none. -/
inductive Message.Tells (scope : String) (m : Message) : Fault → Prop
  | map : m.HasMapWithoutValue scope → m.Tells scope .mapWithoutValue
  | group {before after : List Field} {f : Field} {i : Int} :
      ¬ m.HasMapWithoutValue scope → m.fields = before ++ f :: after →
      f.PointsOutside m.oneofs.length i →
      (∀ g ∈ before, ∀ k, ¬ g.PointsOutside m.oneofs.length k) → m.Tells scope (.noSuchOneof i)

/-- All names are texts that have to be: those of nested enumerations, and of the target files
the dialects, the packages and the references to types. -/
structure Set.HasTexts (s : Set) (names : Option (List String)) : Prop where
  enumerations : s.isNameable = true
  dialects : ∀ f ∈ s.targets names, f.dialect.isText = true
  packages : ∀ f ∈ s.targets names, f.package.isText = true
  fields : ∀ f ∈ s.targets names, ∀ n ∈ nestedReferences f.messages, n.isText = true
  methods : ∀ f ∈ s.targets names, ∀ n ∈ f.services.flatMap Service.references, n.isText = true

theorem textFaults_eq_nil {e : Fault} {n : Name} (h : n.isText = true) : textFaults e n = [] :=
  if_pos h

theorem Field.typeFaults_eq_nil {f : Field} (h : f.typeName.isText = true) :
    f.typeFaults = [] := by
  unfold Field.typeFaults
  cases f.type.scalarName? with
  | some scalar => rfl
  | none => exact textFaults_eq_nil h

/-- The last nested map entry of the name. -/
theorem mapEntry?_eq_some_iff {full : String} {nested : List Message} {typeName : Name}
    {entry : Message} : mapEntry? full nested typeName = some entry ↔
      ∃ before after, nested = before ++ entry :: after ∧ entry.isMapEntry = true ∧
        typeName = .text (fullName full entry.name) ∧
        ∀ n ∈ after, n.isMapEntry = true → typeName ≠ .text (fullName full n.name) := by
  unfold mapEntry?
  rw [List.find?_eq_some_iff_append]
  constructor
  · rintro ⟨hentry, after, before, hreverse, hafter⟩
    refine ⟨before.reverse, after.reverse, ?_, ?_⟩
    · have hnested := congrArg List.reverse hreverse
      simpa using hnested
    · simp only [Bool.and_eq_true, beq_iff_eq] at hentry
      refine ⟨hentry.1, hentry.2.symm, fun n hn hmap => ?_⟩
      have hnot := hafter n (List.mem_reverse.mp hn)
      simp only [hmap, Bool.true_and, Bool.not_eq_true', beq_eq_false_iff_ne] at hnot
      exact hnot.symm
  · rintro ⟨before, after, rfl, hmap, hname, hafter⟩
    refine ⟨by simp [hmap, hname], after.reverse, before.reverse, by simp, fun n hn => ?_⟩
    have hnot := hafter n (List.mem_reverse.mp hn)
    cases hentry : n.isMapEntry with
    | false => rfl
    | true => simpa [hentry] using fun he => hnot hentry he.symm

theorem Field.mem_mapFaults {full : String} {nested : List Message} {f : Field} {e : Fault} :
    e ∈ f.mapFaults full nested ↔ e = .mapWithoutValue ∧ ∃ entry,
      mapEntry? full nested f.typeName = some entry ∧
        ∀ v ∈ entry.fields, v.number ≠ mapValueNumber := by
  unfold Field.mapFaults
  cases mapEntry? full nested f.typeName with
  | none => simp
  | some entry =>
    dsimp only
    cases hvalue : entry.fields.find? fun v => v.number == mapValueNumber with
    | none =>
      rw [List.find?_eq_none] at hvalue
      simpa using fun _ => hvalue
    | some value =>
      have hnumber := List.find?_some hvalue
      simp only [beq_iff_eq] at hnumber
      have hmem := List.mem_of_find?_eq_some hvalue
      simpa using fun _ => ⟨value, hmem, hnumber⟩

theorem mem_mapFaults {scope : String} {m : Message} {e : Fault} :
    e ∈ m.mapFaults scope ↔ e = .mapWithoutValue ∧ m.HasMapWithoutValue scope := by
  unfold Message.mapFaults
  simp only [List.mem_flatMap, Field.mem_mapFaults, mapEntry?_eq_some_iff]
  constructor
  · rintro ⟨f, hf, rfl, entry, ⟨before, after, hnested, hentry, hname, hafter⟩, hvalue⟩
    exact ⟨rfl, f, hf, before, entry, after, hnested, hentry, hname, hafter, hvalue⟩
  · rintro ⟨rfl, f, hf, before, entry, after, hnested, hentry, hname, hafter, hvalue⟩
    exact ⟨f, hf, rfl, entry, ⟨before, after, hnested, hentry, hname, hafter⟩, hvalue⟩

theorem outside?_eq_some_iff {count : Nat} {f : Field} {i : Int} :
    f.outside? count = some i ↔ f.PointsOutside count i := by
  unfold Field.outside? Field.group? Field.PointsOutside
  rw [Option.filter_eq_some_iff]
  cases f.isProto3Optional <;> simp

/-- The first fault of a message's groups is that of the first field which points to none. -/
theorem head?_groupFaults_iff {m : Message} {e : Fault} :
    m.groupFaults.head? = some e ↔ ∃ i before f after, m.fields = before ++ f :: after ∧
      f.PointsOutside m.oneofs.length i ∧
      (∀ g ∈ before, ∀ k, ¬ g.PointsOutside m.oneofs.length k) ∧ e = .noSuchOneof i := by
  unfold Message.groupFaults
  rw [List.head?_map, List.head?_filterMap, Option.map_eq_some_iff]
  simp only [List.findSome?_eq_some_iff, Option.eq_none_iff_forall_ne_some, ne_eq,
    outside?_eq_some_iff]
  constructor
  · rintro ⟨i, ⟨before, f, after, hfields, hf, hbefore⟩, rfl⟩
    exact ⟨i, before, f, after, hfields, hf, hbefore, rfl⟩
  · rintro ⟨i, before, f, after, hfields, hf, hbefore, rfl⟩
    exact ⟨i, ⟨before, f, after, hfields, hf, hbefore⟩, rfl⟩

/-- The first fault of a message is the one that is told of it. -/
theorem head?_faults_iff {scope : String} {m : Message} {e : Fault} :
    (m.mapFaults scope ++ m.groupFaults).head? = some e ↔ m.Tells scope e := by
  rw [List.head?_append]
  by_cases hmap : m.HasMapWithoutValue scope
  · have hmem : .mapWithoutValue ∈ m.mapFaults scope := mem_mapFaults.mpr ⟨rfl, hmap⟩
    have hhead : (m.mapFaults scope).head? = some .mapWithoutValue := by
      rw [List.head?_eq_some_head (List.ne_nil_of_mem hmem)]
      exact congrArg some (mem_mapFaults.mp (List.head_mem _)).1
    rw [hhead, Option.some_or]
    constructor
    · rintro ⟨⟩
      exact .map hmap
    · rintro (_ | hnone)
      · rfl
      · exact absurd hmap hnone
  · have hnil : m.mapFaults scope = [] := by
      rw [List.eq_nil_iff_forall_not_mem]
      exact fun e he => hmap (mem_mapFaults.mp he).2
    rw [hnil, List.head?_nil, Option.none_or, head?_groupFaults_iff]
    constructor
    · rintro ⟨i, before, f, after, hfields, hf, hbefore, rfl⟩
      exact .group hmap hfields hf hbefore
    · rintro (hsome | ⟨-, hfields, hf, hbefore⟩)
      · exact absurd hsome hmap
      · exact ⟨_, _, _, _, hfields, hf, hbefore, rfl⟩

/-- Something is told of a message exactly when it is at fault. -/
theorem exists_tells_iff {scope : String} {m : Message} :
    (∃ e, m.Tells scope e) ↔ m.HasMapWithoutValue scope ∨ ∃ i, m.PointsOutside i := by
  constructor
  · rintro ⟨e, hmap | ⟨-, hfields, hf, -⟩⟩
    · exact .inl hmap
    · exact .inr ⟨_, _, by simp [hfields], hf⟩
  · intro h
    have hne : m.mapFaults scope ++ m.groupFaults ≠ [] := by
      rcases h with hmap | ⟨i, f, hf, hi⟩
      · exact List.append_ne_nil_of_left_ne_nil
          (List.ne_nil_of_mem (mem_mapFaults.mpr ⟨rfl, hmap⟩)) _
      · apply List.append_ne_nil_of_right_ne_nil
        apply List.ne_nil_of_mem
        exact List.mem_map_of_mem (List.mem_filterMap.mpr ⟨f, hf, outside?_eq_some_iff.mpr hi⟩)
    exact ⟨_, head?_faults_iff.mp (List.head?_eq_some_head hne)⟩

/-- A field is at fault only as a map field if its reference and those of nested fields are
texts. -/
theorem Field.faults_of_texts {full : String} {nested : List Message} {f : Field}
    (hf : f.typeName.isText = true) (hnested : ∀ n ∈ nestedReferences nested, n.isText = true) :
    f.faults full nested = f.mapFaults full nested := by
  unfold Field.faults Field.mapFaults
  cases hentry : mapEntry? full nested f.typeName with
  | none => exact Field.typeFaults_eq_nil hf
  | some entry =>
    dsimp only
    cases hvalue : entry.fields.find? fun v => v.number == mapValueNumber with
    | none => rfl
    | some value =>
      -- The entry is nested in the message, and its references are among the nested ones.
      obtain ⟨before, after, rfl, -⟩ := mapEntry?_eq_some_iff.mp hentry
      apply Field.typeFaults_eq_nil
      apply hnested
      exact mem_nestedReferences (by simp) (List.mem_of_find?_eq_some hvalue)

/-- A message whose references are texts is at fault in its map fields and its groups only. -/
theorem ownFaults_of_texts {scope : String} {m : Message}
    (h : ∀ n ∈ m.references, n.isText = true) :
    m.ownFaults scope = m.mapFaults scope ++ m.groupFaults := by
  obtain ⟨name, fields, nested, enumerations, oneofs, mapEntry⟩ := m
  rw [Message.references] at h
  refine congrArg (· ++ _) (List.flatMap_congr fun f hf => ?_)
  exact Field.faults_of_texts (h _ (List.mem_append_left _ (List.mem_map_of_mem hf)))
    fun n hn => h n (List.mem_append_right _ hn)

/-- A set in which all names are texts that have to be is at fault in its messages only. -/
theorem faults_of_texts {s : Set} {names : Option (List String)} (h : s.HasTexts names) :
    s.faults names =
      (s.reached names).flatMap fun r => r.2.mapFaults r.1 ++ r.2.groupFaults := by
  have hdialects : dialectFaults (s.targets names) = [] := by
    unfold dialectFaults
    cases hf : (s.targets names).find? fun f => !f.isThirdVersion with
    | none => rfl
    | some f => exact textFaults_eq_nil (h.dialects f (List.mem_of_find?_eq_some hf))
  have hmethods : ∀ f ∈ s.targets names, f.services.flatMap Service.faults = [] := by
    intro f hf
    simp only [List.flatMap_eq_nil_iff, Service.faults]
    intro v hv m hm
    have hreference : ∀ n ∈ [m.input, m.output], n.isText = true := fun n hn =>
      h.methods f hf n (List.mem_flatMap.mpr ⟨v, hv, List.mem_flatMap.mpr ⟨m, hm, hn⟩⟩)
    unfold Method.faults
    rw [textFaults_eq_nil (hreference m.input (by simp)),
      textFaults_eq_nil (hreference m.output (by simp)), List.append_nil]
  have hfiles : ∀ f ∈ s.targets names, f.faults =
      f.reached.flatMap fun r => r.2.mapFaults r.1 ++ r.2.groupFaults := by
    intro f hf
    unfold File.faults
    rw [textFaults_eq_nil (h.packages f hf), hmethods f hf, List.append_nil, List.nil_append]
    refine List.flatMap_congr fun r hr => ownFaults_of_texts fun n hn => ?_
    obtain ⟨top, htop, hr⟩ := List.mem_flatMap.mp hr
    have hreferences := references_subset_of_reaches (mem_reached_iff.mp hr)
    exact h.fields f hf n (references_subset_of_mem htop (hreferences hn))
  unfold Set.faults Set.reached
  rw [hdialects, if_pos h.enumerations, List.nil_append, List.nil_append,
    List.flatMap_congr hfiles, List.flatMap_assoc]

/-- A set has no tree exactly when it has a fault, and the fault that is told is the first one:
after those of the dialects and of the name table those of the target files in their order, each
with the message that is at fault behind the messages in it. Where all names are texts that
have to be, what is told is the fault of the first message of which one is told, so that a set
has no tree exactly when a message that is reached has a map entry without values or points to a
group that does not exist. -/
theorem fails_iff_at_fault (s : Set) (names : Option (List String)) :
    (∀ e, s.tree names = .error e ↔ (s.faults names).head? = some e) ∧
    ((∃ t, s.tree names = .ok t) ↔ s.faults names = []) ∧
    (∀ scope m, (scope, m) ∈ s.reached names ↔ s.Reaches names scope m) ∧
    (s.HasTexts names →
      (∀ e, s.tree names = .error e ↔ ∃ before scope m after,
        s.reached names = before ++ (scope, m) :: after ∧ m.Tells scope e ∧
          ∀ r ∈ before, ∀ e', ¬ r.2.Tells r.1 e') ∧
      ((∃ e, s.tree names = .error e) ↔ ∃ scope m, s.Reaches names scope m ∧
        (m.HasMapWithoutValue scope ∨ ∃ i, m.PointsOutside i))) := by
  have hmeets := meets_tree s names
  refine ⟨hmeets.error_iff, hmeets.ok_iff, fun scope m => Set.mem_reached_iff, fun htexts => ?_⟩
  have hfaults := faults_of_texts htexts
  have htold : ∀ e, s.tree names = .error e ↔ ∃ before scope m after,
      s.reached names = before ++ (scope, m) :: after ∧ m.Tells scope e ∧
        ∀ r ∈ before, ∀ e', ¬ r.2.Tells r.1 e' := by
    intro e
    rw [hmeets.error_iff, hfaults, List.head?_flatMap, List.findSome?_eq_some_iff]
    simp only [head?_faults_iff, Option.eq_none_iff_forall_ne_some, ne_eq, Prod.exists]
  refine ⟨htold, ?_⟩
  simp only [← exists_tells_iff]
  constructor
  · rintro ⟨e, he⟩
    obtain ⟨before, scope, m, after, hreached, htells, -⟩ := (htold e).mp he
    exact ⟨scope, m, Set.mem_reached_iff.mp (by simp [hreached]), e, htells⟩
  · rintro ⟨scope, m, hm, e, htells⟩
    have hmem : e ∈ s.faults names := by
      rw [hfaults]
      apply List.mem_flatMap.mpr
      exact ⟨(scope, m), Set.mem_reached_iff.mpr hm, List.mem_of_head? (head?_faults_iff.mpr htells)⟩
    exact ⟨_, (hmeets.error_iff _).mpr (List.head?_eq_some_head (List.ne_nil_of_mem hmem))⟩

/-- A message with a map entry that has no values and points to a group that does not exist,
and with a message that points to another one. -/
def atlasMessage : Message :=
  { name := "Atlas",
    fields := [{ name := "pages", number := 1, label := .repeated, type := .message,
                 typeName := ".Atlas.PagesEntry" }],
    nested := [{ name := "PagesEntry", mapEntry := some true,
                 fields := [{ name := "key", number := 1, type := .int32,
                              oneofIndex := some 7 }] },
               { name := "Sheet", oneofs := ["side"],
                 fields := [{ name := "front", number := 1, type := .int32,
                              oneofIndex := some 1 }] }] }

def atlasSet : Set :=
  ⟨[{ name := "atlas.proto", dialect := "proto3", messages := [atlasMessage] }]⟩

/-- The nested message is told before the message that it is in, and the map entry is not
reached. -/
theorem fails_iff_at_fault_atlasSet :
    atlasSet.HasTexts none ∧ atlasSet.tree none = .error (.noSuchOneof 1) ∧
      ∃ before scope m after, atlasSet.reached none = before ++ (scope, m) :: after ∧
        m.Tells scope (.noSuchOneof 1) ∧ ∀ r ∈ before, ∀ e, ¬ r.2.Tells r.1 e := by
  have htexts : atlasSet.HasTexts none :=
    ⟨by decide, by decide, by decide, by decide, by decide⟩
  have hfaults : atlasSet.faults none = [.noSuchOneof 1, .mapWithoutValue] := by decide
  obtain ⟨herror, -, -, htold⟩ := fails_iff_at_fault atlasSet none
  have htree : atlasSet.tree none = .error (.noSuchOneof 1) := by
    rw [herror, hfaults]
    rfl
  exact ⟨htexts, htree, ((htold htexts).1 _).mp htree⟩

def stoneMessage : Message :=
  { name := "Stone", fields := [{ name := "weight", number := 1, type := .int32 }] }

/-- A file without faults, and one with a nested enumeration whose name is no text. -/
def runeSet : Set :=
  ⟨[{ name := "stone.proto", package := "quarry", dialect := "proto3",
      messages := [stoneMessage] },
    { name := "rune.proto", package := "old", dialect := "proto3",
      messages := [{ name := "Rune", enumerations := [{ name := .octets [255] }] }] }]⟩

/-- A set may have no tree although no message of its target files is at fault. -/
theorem exists_failure_without_fault :
    ∃ (s : Set) (names : Option (List String)),
      (∀ scope m, s.Reaches names scope m →
        ¬ m.HasMapWithoutValue scope ∧ ∀ i, ¬ m.PointsOutside i) ∧
      s.tree names = .error .enumerationNotText := by
  refine ⟨runeSet, some ["stone.proto"], fun scope m hm => ?_, rfl⟩
  have hreached : runeSet.reached (some ["stone.proto"]) = [(".quarry", stoneMessage)] := by rfl
  rw [← Set.mem_reached_iff, hreached, List.mem_singleton] at hm
  cases hm
  constructor
  · rintro ⟨f, -, before, entry, after, hnested, -⟩
    simp [stoneMessage] at hnested
  · rintro i ⟨f, hf, hindex, -⟩
    obtain rfl : f = { name := "weight", number := 1, type := .int32 } :=
      List.mem_singleton.mp hf
    cases hindex

end ProtoSdl.Descriptor
