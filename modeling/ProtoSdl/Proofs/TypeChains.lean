import ProtoSdl.Proofs.DeclaredTypes
import Mathlib.Data.List.Nodup

/-!
  Type chains — what a full name becomes

  The table of a set gives each type the chain of its enclosing messages and itself.
  A chain does not depend on the other files of the set, and every chain below one
  top-level name begins like this name. If the full names of a set are distinct:

    1. `find?_of_mem` — the table finds for a full name what stands next to it.
    2. `exists_name_of_mem_exportedTypes` — a reference to a type below a top-level name
       that begins with an uppercase letter becomes the chain of the type, in any set
       that has the file.
    3. `mem_emittedTypes_of_mem_exportedTypes` — the walk leaves out no such type.

  References to the well-known package are told by the beginning of a full name.
  `not_wellKnown_of_unreserved` says that no type outside the reserved package is
  mistaken for one of them.
-/

namespace ProtoSdl.Descriptor

open Schema (isTypeName)
open Sdl (BeginsUppercase)

/-! ## Lookups -/

theorem find?_of_mem {table : NameTable} (hd : (table.map Prod.fst).Nodup) {full : String}
    {n : Name} (h : (full, n) ∈ table) : table.find? full = some n := by
  obtain ⟨before, after, rfl⟩ := List.append_of_mem h
  refine NameTable.find?_eq_some_iff.mpr ⟨before, after, rfl, ?_⟩
  -- Nothing behind the entry has its full name, since no two entries have.
  intro p hp hfull
  rw [List.map_append, List.map_cons, List.nodup_append] at hd
  obtain ⟨-, hd, -⟩ := hd
  apply (List.nodup_cons.mp hd).1
  exact List.mem_map.mpr ⟨p, hp, hfull⟩

/-! ## Chains -/

/-- Whether nothing or a separator comes after a name in a chain. -/
def IsChainRest (r : String) : Prop := r = "" ∨ ∃ x, r = nestingSeparator ++ x

mutual

theorem chain_of_mem_types {keep : String → Bool} : ∀ (m : Message) (scope chain : String),
    ∀ d ∈ m.types keep scope, ∃ r r' : String, d.full = fullName scope m.name ++ r ∧
      IsChainRest r' ∧ (d.full, Name.text (chain ++ m.name.shown ++ r')) ∈ m.names scope chain
  | ⟨name, fields, nested, enumerations, oneofs, mapEntry⟩, scope, chain, d, h => by
    rw [Message.types] at h
    rw [Message.names]
    -- The type is the message, nested in one of its messages, or one of its enumerations.
    rcases List.mem_cons.mp h with rfl | h
    · refine ⟨"", "", String.append_empty.symm, .inl rfl, ?_⟩
      rw [String.append_empty]
      exact List.mem_cons_self
    · rcases List.mem_append.mp h with h | h
      · obtain ⟨r, r', hfull, hmem⟩ := chain_of_mem_nestedTypes nested (fullName scope name)
          (chain ++ name.shown ++ nestingSeparator) d h
        refine ⟨r, nestingSeparator ++ r', hfull, .inr ⟨r', rfl⟩, ?_⟩
        rw [← String.append_assoc]
        exact List.mem_cons_of_mem _ (List.mem_append_left _ hmem)
      · obtain ⟨e, he, rfl⟩ := List.mem_map.mp (List.mem_of_mem_filter h)
        refine ⟨"." ++ e.name.shown, nestingSeparator ++ e.name.shown, ?_, .inr ⟨_, rfl⟩, ?_⟩
        · exact String.append_assoc
        · rw [← String.append_assoc]
          exact List.mem_cons_of_mem _ (List.mem_append_right _ (List.mem_map_of_mem he))

theorem chain_of_mem_nestedTypes {keep : String → Bool} : ∀ (ms : List Message)
    (scope chain : String), ∀ d ∈ nestedTypes keep scope ms, ∃ r r' : String,
      d.full = scope ++ r ∧ (d.full, Name.text (chain ++ r')) ∈ messageNames scope chain ms
  | [], scope, chain, d, h => by simp [nestedTypes] at h
  | m :: rest, scope, chain, d, h => by
    rw [nestedTypes] at h
    rw [messageNames]
    rcases List.mem_append.mp h with h | h
    · have hm : d ∈ m.types keep scope := by
        split at h
        · cases h
        · split at h
          · exact h
          · cases h
      obtain ⟨r, r', hfull, -, hmem⟩ := chain_of_mem_types m scope chain d hm
      refine ⟨"." ++ m.name.shown ++ r, m.name.shown ++ r', ?_, ?_⟩
      · rw [hfull, fullName, String.append_assoc, String.append_assoc, String.append_assoc]
      · rw [← String.append_assoc]
        exact List.mem_append_left _ hmem
    · obtain ⟨r, r', hfull, hmem⟩ := chain_of_mem_nestedTypes rest scope chain d h
      exact ⟨r, r', hfull, List.mem_append_right _ hmem⟩

end

theorem mem_messageNames {ms : List Message} {m : Message} (hm : m ∈ ms) {scope chain : String}
    {p : String × Name} (h : p ∈ m.names scope chain) : p ∈ messageNames scope chain ms := by
  obtain ⟨before, after, rfl⟩ := List.append_of_mem hm
  rw [messageNames_append, messageNames]
  exact List.mem_append_right _ (List.mem_append_left _ h)

/-! ## Visited types -/

mutual

/-- Where all types are visible the walk leaves nothing out. -/
theorem types_of_visible {keep : String → Bool} : ∀ (m : Message) (scope : String),
    (∀ d ∈ m.types (fun _ => true) scope, keep d.full = true) →
      m.types keep scope = m.types (fun _ => true) scope
  | ⟨name, fields, nested, enumerations, oneofs, mapEntry⟩, scope, h => by
    rw [Message.types] at h
    have hnested := nestedTypes_of_visible nested (fullName scope name) fun d hd =>
      h d (List.mem_cons_of_mem _ (List.mem_append_left _ hd))
    have henums : enumerationTypes keep (fullName scope name) enumerations =
        enumerationTypes (fun _ => true) (fullName scope name) enumerations := by
      apply List.filter_congr
      intro d hd
      apply h d
      apply List.mem_cons_of_mem
      apply List.mem_append_right
      exact List.mem_filter.mpr ⟨hd, rfl⟩
    rw [Message.types, Message.types, hnested, henums]

theorem nestedTypes_of_visible {keep : String → Bool} : ∀ (ms : List Message) (scope : String),
    (∀ d ∈ nestedTypes (fun _ => true) scope ms, keep d.full = true) →
      nestedTypes keep scope ms = nestedTypes (fun _ => true) scope ms
  | [], _, _ => rfl
  | m :: rest, scope, h => by
    rw [nestedTypes] at h
    have hrest := nestedTypes_of_visible rest scope fun d hd => h d (List.mem_append_right _ hd)
    rw [nestedTypes, nestedTypes, hrest]
    by_cases hentry : m.isMapEntry = true
    · rw [if_pos hentry, if_pos hentry]
    · rw [if_neg hentry, if_pos rfl] at h
      -- The message is one of its own types, so the test keeps it.
      have hm := types_of_visible m scope fun d hd => h d (List.mem_append_left _ hd)
      have hown : keep (fullName scope m.name) = true := by
        apply h (.message scope m)
        apply List.mem_append_left
        cases m
        exact List.mem_cons_self
      rw [if_neg hentry, if_neg hentry, if_pos hown, if_pos rfl, hm]

end

/-! ## The well-known package -/

/-- What stands before the first separator is determined by the whole. -/
theorem eq_of_append_separator {α : Type} [DecidableEq α] {sep : α} {as bs x y : List α}
    (ha : sep ∉ as) (hb : sep ∉ bs) (h : as ++ sep :: x = bs ++ sep :: y) : as = bs := by
  have htake : ∀ cs z : List α, sep ∉ cs → (cs ++ sep :: z).takeWhile (fun c => c ≠ sep) = cs := by
    intro cs z hc
    have hall : ∀ c ∈ cs, decide (c ≠ sep) = true := by
      intro c hcs
      rw [decide_eq_true_eq]
      rintro rfl
      exact hc hcs
    rw [List.takeWhile_append_of_pos hall, List.takeWhile_cons_of_neg (by simp), List.append_nil]
  rw [← htake as x ha, ← htake bs y hb, h]

theorem withoutDot_dot (s : String) : withoutDot ("." ++ s) = s := by
  unfold withoutDot
  have hl : ("." ++ s).toList = '.' :: s.toList := by
    rw [String.toList_append]
    rfl
  rw [hl]
  exact String.ofList_toList

/-- The characters of a dotted name begin with its first piece and go on after a dot. -/
theorem toList_append_dot (package x : String) :
    ∃ first rest, (Text.split '.' package).head? = some first ∧ '.' ∉ first.toList ∧
      (package ++ "." ++ x).toList = first.toList ++ '.' :: rest := by
  cases hs : Text.split '.' package with
  | nil => exact absurd hs (Text.split_ne_nil _ _)
  | cons first others =>
    have hfirst : '.' ∉ first.toList := Text.not_mem_of_mem_split (by rw [hs]; simp)
    have hjoin := Text.intercalate_split '.' package
    rw [hs] at hjoin
    have hdot : ".".toList = ['.'] := rfl
    rw [String.toList_append, String.toList_append, hdot, ← hjoin]
    cases others with
    | nil => exact ⟨first, x.toList, rfl, hfirst, by simp⟩
    | cons second others =>
      refine ⟨first, ['.'].intercalate ((second :: others).map String.toList) ++ '.' :: x.toList,
        rfl, hfirst, ?_⟩
      rw [String.toList_intercalate, List.map_cons, List.map_cons, List.intercalate_cons_cons]
      simp

/-- Outside the reserved package a full name is one of the well-known package at most by its
own beginning. -/
theorem not_wellKnown_of_head {f : File} (hf : f.isReserved = false) {name : String}
    (hn : name.toList.head? ≠ some 'g') :
    Text.hasPrefix wellKnownPackage (withoutDot (f.scope ++ "." ++ name)) = false := by
  rw [Bool.eq_false_iff, ne_eq, Text.hasPrefix_iff]
  rintro ⟨rest, hrest⟩
  have hkey : wellKnownPackage.toList =
      Schema.reservedPackage.toList ++ '.' :: "protobuf.".toList := rfl
  rw [hkey, List.append_assoc, List.cons_append] at hrest
  by_cases hp : f.package = .text ""
  · -- The name stands first, and so begins with the package.
    have hfull : f.scope ++ "." ++ name = "." ++ name := by
      rw [File.scope, if_pos hp, String.empty_append]
    rw [hfull, withoutDot_dot] at hrest
    rw [← hrest] at hn
    exact hn rfl
  · have hfull : f.scope ++ "." ++ name = "." ++ (f.package.shown ++ "." ++ name) := by
      rw [File.scope, if_neg hp]
      simp only [String.append_assoc]
    rw [hfull, withoutDot_dot] at hrest
    obtain ⟨first, others, hhead, hdot, hl⟩ := toList_append_dot f.package.shown name
    rw [hl] at hrest
    have hfirst : Schema.reservedPackage.toList = first.toList :=
      eq_of_append_separator (by decide) hdot hrest
    -- Then the file would belong to the reserved package.
    have hsplit : packagePath f.package.shown = Text.split '.' f.package.shown := by
      unfold packagePath
      split
      · rename_i he
        rw [he] at hhead
        cases hhead
        exact absurd hfirst (by decide)
      · rfl
    unfold File.isReserved at hf
    rw [hsplit, hhead, String.toList_inj.mp hfirst] at hf
    simp at hf

/-- No full name outside the reserved package is one of the well-known package. -/
theorem not_wellKnown_of_unreserved {f : File} (hf : f.isReserved = false) {top r : String}
    (ht : BeginsUppercase top) :
    Text.hasPrefix wellKnownPackage (withoutDot (f.scope ++ "." ++ top ++ r)) = false := by
  rw [String.append_assoc]
  refine not_wellKnown_of_head hf fun hg => ?_
  have hu := ht.append r
  unfold BeginsUppercase at hu
  rw [hg] at hu
  have hg : Text.isUppercase 'g' = true := hu
  exact absurd hg (by decide +kernel)

/-! ## References to declared types -/

/-- A reference to a type becomes what the table says of the type. -/
theorem reference_of_mem {table : NameTable} (hd : (table.map Prod.fst).Nodup) {full : String}
    {n : Name} (h : (full, n) ∈ table)
    (hw : Text.hasPrefix wellKnownPackage (withoutDot full) = false) :
    reference table full = n := by
  unfold reference
  dsimp only
  rw [hw, find?_of_mem hd h]
  rfl

/-- The types of a file below the top-level names that begin with an uppercase letter. -/
def File.exportedTypes (f : File) : List DeclaredType :=
  (f.messages.filter fun m => isTypeName (.text m.name.shown)).flatMap
      (Message.types (fun _ => true) f.scope) ++
    (f.enumerations.filter fun e => isTypeName (.text e.name.shown)).map
      (DeclaredType.enumeration f.scope)

theorem mem_names {s : Set} {f : File} (hf : f ∈ s.files) {p : String × Name} (h : p ∈ f.names) :
    p ∈ s.names := List.mem_flatMap.mpr ⟨f, hf, h⟩

theorem self_mem_types (keep : String → Bool) (scope : String) (m : Message) :
    .message scope m ∈ m.types keep scope := by
  cases m
  rw [Message.types]
  exact List.mem_cons_self

/-- An exported type has one name of a type, whatever set its file is in. -/
theorem exists_name_of_mem_exportedTypes {f : File} (hf : f.isReserved = false) {d : DeclaredType}
    (h : d ∈ f.exportedTypes) :
    ∃ chain : String, BeginsUppercase chain ∧
      ∀ s : Set, f ∈ s.files → (s.names.map Prod.fst).Nodup →
        reference s.names d.full = .text chain := by
  rcases List.mem_append.mp h with h | h
  · obtain ⟨m, hm, hd⟩ := List.mem_flatMap.mp h
    obtain ⟨hm, hu⟩ := List.mem_filter.mp hm
    have hu : BeginsUppercase m.name.shown := hu
    obtain ⟨r, r', hfull, -, hmem⟩ := chain_of_mem_types m f.scope "" d hd
    rw [String.empty_append] at hmem
    refine ⟨m.name.shown ++ r', hu.append r', fun s hs hdistinct => ?_⟩
    apply reference_of_mem hdistinct
    · apply mem_names hs
      apply List.mem_append_left
      exact mem_messageNames hm hmem
    · rw [hfull]
      exact not_wellKnown_of_unreserved hf hu
  · obtain ⟨e, he, rfl⟩ := List.mem_map.mp h
    obtain ⟨he, hu⟩ := List.mem_filter.mp he
    have hu : BeginsUppercase e.name.shown := hu
    have hname : e.name = .text e.name.shown := by
      cases hn : e.name with
      | text s => rfl
      | octets bs =>
        rw [hn] at hu
        exact absurd rfl (hu.ne_literal bs)
    refine ⟨e.name.shown, hu, fun s hs hdistinct => ?_⟩
    rw [← hname]
    apply reference_of_mem hdistinct
    · apply mem_names hs
      apply List.mem_append_right
      exact List.mem_map_of_mem he
    · have hfull : (DeclaredType.enumeration f.scope e).full =
          f.scope ++ "." ++ e.name.shown ++ "" := String.append_empty.symm
      rw [hfull]
      exact not_wellKnown_of_unreserved hf hu

/-- All exported types are emitted. -/
theorem mem_emittedTypes_of_mem_exportedTypes {s : Set} {f : File} (hs : f ∈ s.files)
    (hdistinct : (s.names.map Prod.fst).Nodup) (hf : f.isReserved = false) {d : DeclaredType}
    (h : d ∈ f.exportedTypes) : d ∈ f.emittedTypes s.names := by
  have hvisible : ∀ d ∈ f.exportedTypes, isVisible s.names d.full = true := by
    intro d hd
    obtain ⟨chain, hu, hname⟩ := exists_name_of_mem_exportedTypes hf hd
    unfold isVisible
    rw [hname s hs hdistinct]
    exact hu
  unfold File.emittedTypes File.types
  rw [hf, if_neg (by simp)]
  rcases List.mem_append.mp h with hmessage | henum
  · obtain ⟨m, hm, hd⟩ := List.mem_flatMap.mp hmessage
    have hbelow : ∀ d ∈ m.types (fun _ => true) f.scope, d ∈ f.exportedTypes := fun d hd =>
      List.mem_append_left _ (List.mem_flatMap.mpr ⟨m, hm, hd⟩)
    have hall := types_of_visible m f.scope fun d hd => hvisible d (hbelow d hd)
    have hown : isVisible s.names (fullName f.scope m.name) = true :=
      hvisible (.message f.scope m) (hbelow _ (self_mem_types _ f.scope m))
    apply List.mem_append_left
    refine List.mem_flatMap.mpr ⟨m, List.mem_of_mem_filter hm, ?_⟩
    rw [if_pos hown, hall]
    exact hd
  · apply List.mem_append_right
    refine List.mem_filter.mpr ⟨?_, hvisible d h⟩
    obtain ⟨e, he, rfl⟩ := List.mem_map.mp henum
    exact List.mem_map_of_mem (List.mem_of_mem_filter he)

end ProtoSdl.Descriptor
