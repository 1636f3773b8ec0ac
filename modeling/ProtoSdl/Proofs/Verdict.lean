import ProtoSdl.Proofs.FirstUses
import ProtoSdl.Proofs.PrintedReferences

/-!
  Verdict — what becomes of a descriptor set

  A set that has a tree is refused for its dialect, refused for a name, converted into
  nothing or converted into a document. Three questions are answered by its descriptors:

    1. Is it refused for its dialect? One target file that is not written in a third version
       is enough, wherever it stands (`unsupportedSyntax_iff_of_tree`).
    2. Is there nothing to write? The top-level declarations of the target files decide, each
       by itself (`toDocument_eq_none_iff_of_tree`).
    3. What is nested in a message and written? All of it or nothing, by the first letter of
       the message at the top: the chain of a nested type begins as that one does
       (`isTypeName_reference_of_mem_types`).

  `verdict_of_tree` puts the answers together.
-/

namespace ProtoSdl

namespace Sdl

open Schema

/-! ## Schemas -/

/-- A schema is refused for its dialect exactly when this is not supported. -/
theorem toDocument_unsupportedSyntax_iff {t : Tree} {x : String} :
    t.toDocument = .error (.unsupportedSyntax x) ↔
      isSupported t.dialect = false ∧ x = t.dialect := by
  unfold Tree.toDocument
  by_cases hd : isSupported t.dialect = true
  · rw [if_pos hd, hd]
    cases he : emitItems t.items {} with
    | ok bs l => simp
    | error e l =>
      have hcases := error_of_emitItems he
      simp only [Except.error.injEq, Bool.true_eq_false, false_and, iff_false]
      rintro rfl
      simp at hcases
  · rw [if_neg hd]
    simp [hd, eq_comm]

/-- Services without procedures have no blocks and ask nothing of the ledger. -/
theorem emitItems_of_idle {items : List Item} (l : Ledger)
    (h : ∀ i ∈ items, ∃ name, i = .service { name, methods := [] }) :
    emitItems items l = .ok [] l := by
  induction items with
  | nil => rfl
  | cons i items ih =>
    obtain ⟨name, rfl⟩ := h i List.mem_cons_self
    have hrest := ih fun j hj => h j (List.mem_cons_of_mem _ hj)
    show EStateM.bind (emitItems items) _ l = _
    rw [EStateM.bind, hrest]
    rfl

/-- A schema has nothing to write exactly when all of its items are services without
procedures. -/
theorem toDocument_eq_none_iff {t : Tree} :
    t.toDocument = .ok none ↔
      isSupported t.dialect = true ∧
        ∀ i ∈ t.items, ∃ name, i = .service { name, methods := [] } := by
  constructor
  · intro h
    obtain ⟨hd, hok, -, -, hdoc⟩ := of_toDocument_eq h
    have hblocks := (assemble_eq_none_iff _ _).mp hdoc.symm
    refine ⟨hd, fun i hi => ?_⟩
    obtain ⟨l, hl⟩ := Descriptor.mem_blocksOfItems hi {}
    rw [hblocks] at hl
    have hnil : blocksOf l i = [] := List.eq_nil_iff_forall_not_mem.mpr fun b hb => nomatch hl b hb
    cases i with
    | message m => cases hnil
    | enumeration e => cases hnil
    | unknown kind => exact absurd (hok _ hi) id
    | service s =>
      refine ⟨s.name, ?_⟩
      rw [← methods_eq_nil_of_blocksOf hnil]
  · rintro ⟨hd, hidle⟩
    unfold Tree.toDocument
    rw [if_pos hd, emitItems_of_idle {} hidle]
    rfl

end Sdl

namespace Descriptor

open Schema (Tree Item isTypeName HasTypeName)
open Sdl (isSupported BeginsUppercase Document)

/-! ## Dialects -/

/-- Whether the file is written in a third version. -/
def File.isThirdVersion (f : File) : Bool :=
  match f.dialect with
  | .text dialect => isSupported (declaredDialect dialect)
  | .octets _ => false

/-- The dialect of files is supported exactly when all of them are written in a third version;
if not, it is that of the first which is not. -/
theorem dialectOf_cases {files : List File} {x : String} (h : dialectOf files = .ok x) :
    (isSupported x = true ∧ ∀ f ∈ files, f.isThirdVersion = true) ∨
      (isSupported x = false ∧ ∃ before f after dialect, files = before ++ f :: after ∧
        (∀ g ∈ before, g.isThirdVersion = true) ∧ f.isThirdVersion = false ∧
        f.dialect = .text dialect ∧ x = declaredDialect dialect) := by
  induction files with
  | nil =>
    cases h
    exact .inl ⟨by decide, nofun⟩
  | cons f files ih =>
    rw [dialectOf] at h
    obtain ⟨dialect, hdialect, h⟩ := bind_eq_ok h
    have htext : f.dialect = .text dialect := by
      cases hf : f.dialect with
      | text s =>
        rw [hf] at hdialect
        cases hdialect
        rfl
      | octets bs =>
        rw [hf] at hdialect
        cases hdialect
    have hversion : f.isThirdVersion = isSupported (declaredDialect dialect) := by
      unfold File.isThirdVersion
      rw [htext]
    by_cases hsuffix : Text.hasSuffix "3" (declaredDialect dialect) = true
    · rw [if_pos hsuffix] at h
      have hfirst : f.isThirdVersion = true := hversion.trans hsuffix
      rcases ih h with ⟨hx, hall⟩ | ⟨hx, before, g, after, d, rfl, hbefore, hg, hd⟩
      · exact .inl ⟨hx, List.forall_mem_cons.mpr ⟨hfirst, hall⟩⟩
      · exact .inr ⟨hx, f :: before, g, after, d, rfl,
          List.forall_mem_cons.mpr ⟨hfirst, hbefore⟩, hg, hd⟩
    · rw [if_neg hsuffix] at h
      cases h
      have hx : isSupported (declaredDialect dialect) = false := Bool.eq_false_iff.mpr hsuffix
      exact .inr ⟨hx, [], f, files, dialect, rfl, nofun, hversion.trans hx, htext, rfl⟩

theorem Set.dialect_of_tree {s : Set} {names : Option (List String)} {t : Tree}
    (h : s.tree names = .ok t) : dialectOf (s.targets names) = .ok t.dialect := by
  unfold Set.tree at h
  obtain ⟨dialect, hdialect, h⟩ := bind_eq_ok h
  obtain ⟨table, -, h⟩ := bind_eq_ok h
  obtain ⟨ds, -, h⟩ := bind_eq_ok h
  cases h
  exact hdialect

/-! ## Top-level declarations -/

/-- A declaration of a file that stands in no message. -/
inductive TopLevel where
  | message (m : Message)
  | enumeration (e : Enumeration)
  | service (s : Service)

namespace TopLevel

/-- The name of the declaration; a message is called by what is shown of its name. -/
def name : TopLevel → Name
  | message m => .text m.name.shown
  | enumeration e => e.name
  | service s => s.name

/-- Whether the declaration is a service without procedures. -/
def isIdle : TopLevel → Bool
  | message _ => false
  | enumeration _ => false
  | service s => s.methods.isEmpty

end TopLevel

/-- The top-level declarations of a file. -/
def File.topLevel (f : File) : List TopLevel :=
  f.messages.map .message ++ f.enumerations.map .enumeration ++ f.services.map .service

section Names

variable {s : Set} {f : File}

/-- A chain can name a type exactly when it begins with a name that can. -/
theorem isTypeName_chain (top : String) {r : String} (hr : IsChainRest r) :
    isTypeName (.text (top ++ r)) = isTypeName (.text top) := by
  show (top ++ r).toList.head?.any Text.isUppercase = top.toList.head?.any Text.isUppercase
  rw [String.toList_append]
  cases htop : top.toList with
  | cons c cs => rfl
  | nil =>
    rcases hr with rfl | ⟨x, rfl⟩
    · rfl
    · have hseparator : nestingSeparator.toList = ['_'] := rfl
      rw [String.toList_append, hseparator]
      show Text.isUppercase '_' = false
      decide

theorem isTypeName_of_head {n : String} (h : n.toList.head? = some 'g') :
    isTypeName (.text n) = false := by
  show n.toList.head?.any Text.isUppercase = false
  rw [h]
  decide

/-- The reference to a type of the well-known package can name no type. -/
theorem isTypeName_reference_of_hasPrefix (table : NameTable) {full : String}
    (h : Text.hasPrefix wellKnownPackage (withoutDot full) = true) :
    isTypeName (reference table full) = false := by
  unfold reference
  dsimp only
  rw [if_pos h]
  obtain ⟨rest, hrest⟩ := (Text.hasPrefix_iff _ _).mp h
  apply isTypeName_of_head
  rw [← hrest]
  rfl

/-- All types below one top-level message have a name that can name a type, or none of them
has: the name of the message decides, and not the names in between. -/
theorem isTypeName_reference_of_mem_types (hs : f ∈ s.files)
    (hdistinct : (s.names.map Prod.fst).Nodup) (hf : f.isReserved = false) {m : Message}
    (hm : m ∈ f.messages) {D : DeclaredType} (hD : D ∈ m.types (fun _ => true) f.scope) :
    isTypeName (reference s.names D.full) = isTypeName (.text m.name.shown) := by
  obtain ⟨r, r', hfull, hr', hmem⟩ := chain_of_mem_types m f.scope "" D hD
  rw [String.empty_append] at hmem
  have hnames : (D.full, Name.text (m.name.shown ++ r')) ∈ s.names :=
    mem_names hs (List.mem_append_left _ (mem_messageNames hm hmem))
  by_cases hw : Text.hasPrefix wellKnownPackage (withoutDot D.full) = true
  · rw [isTypeName_reference_of_hasPrefix _ hw]
    -- A type that is taken for a well-known one stands below a small letter.
    cases htop : isTypeName (.text m.name.shown) with
    | false => rfl
    | true =>
      have hnot := not_wellKnown_of_unreserved (r := r) hf htop
      rw [hfull] at hw
      exact absurd hw (Bool.eq_false_iff.mp hnot)
  · rw [reference_of_mem hdistinct hnames (Bool.eq_false_iff.mpr hw), isTypeName_chain _ hr']

/-- A top-level enumeration has its own name. -/
theorem isTypeName_reference_of_mem_enumerations (hs : f ∈ s.files)
    (hdistinct : (s.names.map Prod.fst).Nodup) (hf : f.isReserved = false) {e : Enumeration}
    (he : e ∈ f.enumerations) :
    isTypeName (reference s.names (fullName f.scope e.name)) = isTypeName e.name := by
  have hnames : (fullName f.scope e.name, e.name) ∈ s.names :=
    mem_names hs (List.mem_append_right _ (List.mem_map_of_mem he))
  by_cases hw : Text.hasPrefix wellKnownPackage (withoutDot (fullName f.scope e.name)) = true
  · have hhead : e.name.shown.toList.head? = some 'g' := by
      by_contra hg
      exact absurd hw (Bool.eq_false_iff.mp (not_wellKnown_of_head hf hg))
    rw [isTypeName_reference_of_hasPrefix _ hw]
    cases hname : e.name with
    | text n =>
      rw [hname] at hhead
      exact (isTypeName_of_head hhead).symm
    | octets bs =>
      rw [hname] at hhead
      unfold Name.shown at hhead
      rw [Text.toList_octetLiteral] at hhead
      exact absurd (Option.some.inj hhead) (by decide)
  · rw [reference_of_mem hdistinct hnames (Bool.eq_false_iff.mpr hw)]

end Names

section Trees

variable {s : Set} {names : Option (List String)} {t : Tree}

theorem mem_files_of_mem_targets {f : File} (hf : f ∈ s.targets names) : f ∈ s.files := by
  unfold Set.targets at hf
  cases names with
  | none => exact hf
  | some names => exact List.mem_of_mem_filter hf

/-- A set is refused for a dialect exactly when a target file is not written in a third
version; the dialect is that of the first such file. -/
theorem unsupportedSyntax_iff_of_tree (ht : s.tree names = .ok t) :
    ((∃ x, t.toDocument = .error (.unsupportedSyntax x)) ↔
      ∃ f ∈ s.targets names, f.isThirdVersion = false) ∧
    ∀ x, t.toDocument = .error (.unsupportedSyntax x) →
      ∃ before f after dialect, s.targets names = before ++ f :: after ∧
        (∀ g ∈ before, g.isThirdVersion = true) ∧ f.isThirdVersion = false ∧
        f.dialect = .text dialect ∧ x = declaredDialect dialect := by
  simp only [Sdl.toDocument_unsupportedSyntax_iff]
  rcases dialectOf_cases (Set.dialect_of_tree ht) with ⟨hd, hall⟩ | ⟨hd, hfirst⟩
  · refine ⟨⟨?_, ?_⟩, ?_⟩
    · rintro ⟨x, hfalse, -⟩
      exact absurd (hd.symm.trans hfalse) (by decide)
    · rintro ⟨f, hf, hnot⟩
      exact absurd ((hall f hf).symm.trans hnot) (by decide)
    · rintro x ⟨hfalse, -⟩
      exact absurd (hd.symm.trans hfalse) (by decide)
  · refine ⟨⟨fun _ => ?_, fun _ => ⟨_, hd, rfl⟩⟩, fun x hx => ?_⟩
    · obtain ⟨before, f, after, dialect, hfiles, -, hf, -⟩ := hfirst
      exact ⟨f, by simp [hfiles], hf⟩
    · rw [hx.2]
      exact hfirst

theorem isSupported_dialect_iff (ht : s.tree names = .ok t) :
    isSupported t.dialect = true ↔ ∀ f ∈ s.targets names, f.isThirdVersion = true := by
  rcases dialectOf_cases (Set.dialect_of_tree ht) with ⟨hd, hall⟩ | ⟨hd, hfirst⟩
  · exact ⟨fun _ => hall, fun _ => hd⟩
  · obtain ⟨before, f, after, dialect, hfiles, -, hf, -⟩ := hfirst
    refine ⟨fun htrue => absurd (hd.symm.trans htrue) (by decide), fun hall => ?_⟩
    exact absurd (hf.symm.trans (hall f (by simp [hfiles]))) (by decide)

/-! ## What is left out -/

/-- Emitted types stand below top-level declarations with a type name. -/
theorem topLevel_of_mem_emittedTypes {f : File} (hs : f ∈ s.files)
    (hdistinct : (s.names.map Prod.fst).Nodup) {D : DeclaredType}
    (hD : D ∈ f.emittedTypes s.names) :
    f.isReserved = false ∧ ∃ d ∈ f.topLevel, isTypeName d.name = true ∧ d.isIdle = false := by
  unfold File.emittedTypes at hD
  split at hD
  · cases hD
  · rename_i hreserved
    have hf : f.isReserved = false := Bool.eq_false_iff.mpr hreserved
    refine ⟨hf, ?_⟩
    rcases List.mem_append.mp hD with hD | hD
    · obtain ⟨m, hm, hD⟩ := List.mem_flatMap.mp hD
      refine ⟨.message m, ?_, ?_, rfl⟩
      · exact List.mem_append_left _ (List.mem_append_left _ (List.mem_map_of_mem hm))
      · split at hD
        · rename_i hvisible
          have hown := isTypeName_reference_of_mem_types hs hdistinct hf hm
            (self_mem_types _ f.scope m)
          exact hown.symm.trans hvisible
        · cases hD
    · obtain ⟨hD, hvisible⟩ := List.mem_filter.mp hD
      obtain ⟨e, he, rfl⟩ := List.mem_map.mp hD
      refine ⟨.enumeration e, ?_, ?_, rfl⟩
      · exact List.mem_append_left _ (List.mem_append_right _ (List.mem_map_of_mem he))
      · exact (isTypeName_reference_of_mem_enumerations hs hdistinct hf he).symm.trans hvisible

/-- A top-level message or enumeration with a type name is emitted. -/
theorem exists_emitted_of_topLevel {f : File} (hs : f ∈ s.files)
    (hdistinct : (s.names.map Prod.fst).Nodup) (hf : f.isReserved = false) {d : TopLevel}
    (hd : d ∈ f.topLevel) (hname : isTypeName d.name = true) :
    (∃ D, D ∈ f.emittedTypes s.names) ∨ ∃ v ∈ f.emittedServices, d = .service v := by
  cases d with
  | message m =>
    have hm : m ∈ f.messages := by simpa [File.topLevel] using hd
    refine .inl ⟨.message f.scope m, mem_emittedTypes_of_mem_exportedTypes hs hdistinct hf ?_⟩
    apply List.mem_append_left
    exact List.mem_flatMap.mpr ⟨m, List.mem_filter.mpr ⟨hm, hname⟩, self_mem_types _ _ m⟩
  | enumeration e =>
    have he : e ∈ f.enumerations := by simpa [File.topLevel] using hd
    refine .inl ⟨.enumeration f.scope e, ?_⟩
    unfold File.emittedTypes
    rw [hf, if_neg (by decide)]
    apply List.mem_append_right
    refine List.mem_filter.mpr ⟨List.mem_map_of_mem he, ?_⟩
    exact (isTypeName_reference_of_mem_enumerations hs hdistinct hf he).trans hname
  | service v =>
    have hv : v ∈ f.services := by simpa [File.topLevel] using hd
    refine .inr ⟨v, ?_, rfl⟩
    unfold File.emittedServices
    rw [hf, if_neg (by decide)]
    exact List.mem_filter.mpr ⟨hv, hname⟩

/-- An emitted service has as many procedures as its descriptor. -/
theorem methods_of_item? {table : NameTable} {v : Service} {i : Item}
    (h : v.item? table = some i) :
    ∃ methods, i = .service { name := v.name, methods } ∧ (methods = [] ↔ v.methods = []) := by
  obtain ⟨declared, hdeclared, rfl⟩ := Service.item?_eq_some h
  refine ⟨declared, rfl, ?_⟩
  rw [mapM_methodDeclaration _ _ hdeclared, List.map_eq_nil_iff]

/-- There is nothing to write exactly when each top-level declaration of the target files is in
the reserved package, has no type name, or is a service without procedures. -/
theorem toDocument_eq_none_iff_of_tree (hdistinct : (s.names.map Prod.fst).Nodup)
    (ht : s.tree names = .ok t) :
    t.toDocument = .ok none ↔
      (∀ f ∈ s.targets names, f.isThirdVersion = true) ∧
        ∀ f ∈ s.targets names, ∀ d ∈ f.topLevel,
          f.isReserved = true ∨ isTypeName d.name = false ∨ d.isIdle = true := by
  rw [Sdl.toDocument_eq_none_iff, isSupported_dialect_iff ht]
  refine and_congr_right fun _ => ⟨fun hidle f hf d hd => ?_, fun hout i hi => ?_⟩
  · cases hreserved : f.isReserved with
    | true => exact .inl rfl
    | false =>
      cases hname : isTypeName d.name with
      | false => exact .inr (.inl rfl)
      | true =>
        refine .inr (.inr ?_)
        rcases exists_emitted_of_topLevel (mem_files_of_mem_targets hf) hdistinct hreserved hd hname
          with ⟨D, hD⟩ | ⟨v, hv, rfl⟩
        · obtain ⟨i, hi, he⟩ := exists_item_of_type ht hf hD
          obtain ⟨name, rfl⟩ := hidle i hi
          rcases DeclaredType.item?_eq_some he with ⟨_, _, h⟩ | ⟨_, h⟩ <;> cases h
        · obtain ⟨i, hi, he⟩ := exists_item_of_service ht hf hv
          obtain ⟨name, rfl⟩ := hidle i hi
          obtain ⟨methods, hmethods, hnil⟩ := methods_of_item? he
          cases hmethods
          exact List.isEmpty_iff.mpr (hnil.mp rfl)
  · have hitem : some i ∈ t.items.map some := List.mem_map_of_mem hi
    rw [(items_of_tree ht).mem_iff] at hitem
    obtain ⟨f, hf, hitem⟩ := List.mem_flatMap.mp hitem
    rcases List.mem_append.mp hitem with hitem | hitem
    · obtain ⟨D, hD, -⟩ := List.mem_map.mp hitem
      obtain ⟨hreserved, d, hd, hname, hbusy⟩ :=
        topLevel_of_mem_emittedTypes (mem_files_of_mem_targets hf) hdistinct hD
      rcases hout f hf d hd with h | h | h
      · exact absurd (hreserved.symm.trans h) (by decide)
      · exact absurd (hname.symm.trans h) (by decide)
      · exact absurd (hbusy.symm.trans h) (by decide)
    · obtain ⟨v, hv, he⟩ := List.mem_map.mp hitem
      unfold File.emittedServices at hv
      split at hv
      · cases hv
      · rename_i hreserved
        obtain ⟨hv, hname⟩ := List.mem_filter.mp hv
        have hd : TopLevel.service v ∈ f.topLevel :=
          List.mem_append_right _ (List.mem_map_of_mem hv)
        obtain ⟨methods, rfl, hnil⟩ := methods_of_item? he
        rcases hout f hf _ hd with h | h | h
        · exact absurd h hreserved
        · exact absurd (hname.symm.trans h) (by decide)
        · rw [hnil.mpr (List.isEmpty_iff.mp h)]
          exact ⟨v.name, rfl⟩

/-! ## What is nested -/

/-- Below a message without a type name nothing is visited. -/
theorem not_visited_of_mem_types (hdistinct : (s.names.map Prod.fst).Nodup)
    {f : File} (hf : f ∈ s.targets names) (hreserved : f.isReserved = false) {m : Message}
    (hm : m ∈ f.messages) {D : DeclaredType} (hD : D ∈ m.types (fun _ => true) f.scope)
    (hname : isTypeName (.text m.name.shown) = false) :
    ∀ i ∈ t.items, D.item? s.names ≠ some i := by
  intro i hi he
  have hown := isTypeName_reference_of_mem_types (mem_files_of_mem_targets hf) hdistinct hreserved
    hm hD
  have htype := Schema.hasTypeName_of_mem_items hi
  have htrue : isTypeName (reference s.names D.full) = true := by
    obtain ⟨fields, oneofs, rfl⟩ | ⟨values, rfl⟩ := DeclaredType.item?_eq_some he
    · exact htype
    · exact htype
  exact absurd ((htrue.symm.trans hown).trans hname) (by decide)

/-- Where all names of a table are texts, so are references. -/
theorem exists_text_of_reference {table : NameTable} (h : ∀ p ∈ table, p.2.isText = true)
    (full : String) : ∃ chain, reference table full = .text chain := by
  unfold reference
  dsimp only
  split
  · exact ⟨_, rfl⟩
  · cases hfind : table.find? full with
    | none => exact ⟨_, rfl⟩
    | some n =>
      unfold NameTable.find? at hfind
      obtain ⟨before, after, he, -⟩ := List.lookup_eq_some_iff.mp hfind
      have hmem : (full, n) ∈ table.reverse := by simp [he]
      have htext := h _ (List.mem_reverse.mp hmem)
      cases n with
      | text chain => exact ⟨chain, rfl⟩
      | octets bs => cases htext

/-- Where all names of declared types are texts, the type names of an item begin with an
uppercase letter. -/
theorem beginsUppercase_of_mem_declaredNames (htext : ∀ p ∈ s.names, p.2.isText = true)
    (ht : s.tree names = .ok t) {i : Item} (hi : i ∈ t.items) {n : Name}
    (hn : n ∈ Sdl.declaredNames i) : BeginsUppercase n.shown := by
  have htype := Schema.hasTypeName_of_mem_items hi
  have hitem : some i ∈ t.items.map some := List.mem_map_of_mem hi
  rw [(items_of_tree ht).mem_iff] at hitem
  obtain ⟨f, hf, hitem⟩ := List.mem_flatMap.mp hitem
  rcases List.mem_append.mp hitem with hitem | hitem
  · obtain ⟨D, -, he⟩ := List.mem_map.mp hitem
    obtain ⟨chain, hchain⟩ := exists_text_of_reference htext D.full
    rcases DeclaredType.item?_eq_some he with ⟨fields, oneofs, rfl⟩ | ⟨values, rfl⟩
    · have hbegins : BeginsUppercase chain := by
        have htrue : isTypeName (reference s.names D.full) = true := htype
        rwa [hchain] at htrue
      rw [hchain] at hn
      rcases List.mem_cons.mp hn with rfl | hn
      · exact hbegins
      · obtain rfl := List.mem_singleton.mp hn
        exact hbegins.append "Input"
    · have htrue : isTypeName (reference s.names D.full) = true := htype
      rw [hchain] at hn htrue
      obtain rfl := List.mem_singleton.mp hn
      exact htrue
  · obtain ⟨v, -, he⟩ := List.mem_map.mp hitem
    obtain ⟨methods, rfl, -⟩ := methods_of_item? he
    cases hn

/-- Then so do all type names of the document. -/
theorem beginsUppercase_of_typeName (htext : ∀ p ∈ s.names, p.2.isText = true)
    (ht : s.tree names = .ok t) {d : Document} (hd : t.toDocument = .ok (some d)) {b : Sdl.Block}
    (hb : b ∈ d.blocks) {n : String} (hn : b.typeName? = some n) : BeginsUppercase n := by
  have hmem : n ∈ Sdl.neededNames t.items := by
    rw [← (Sdl.typeNames_perm hd).mem_iff]
    exact List.mem_filterMap.mpr ⟨b, hb, hn⟩
  rcases List.mem_append.mp hmem with hmem | hmem
  · obtain ⟨k, hk, rfl⟩ := List.mem_map.mp hmem
    obtain ⟨i, hi, hk⟩ := List.mem_flatMap.mp hk
    exact beginsUppercase_of_mem_declaredNames htext ht hi hk
  · obtain ⟨u, hu, rfl⟩ := List.mem_map.mp hmem
    exact Sdl.beginsUppercase_wellKnown (List.mem_of_mem_filter hu)

/-- A set that has a tree is refused for a dialect exactly when a target file is not written in
a third version. Otherwise it is converted into nothing exactly when each top-level declaration
of the target files is in the reserved package, has no type name, or is a service without
procedures. In a document each type below a message with a type name has a block of its own,
and a type below another message is not visited and has no block. -/
theorem verdict_of_tree (hdistinct : (s.names.map Prod.fst).Nodup) (ht : s.tree names = .ok t) :
    ((∃ x, t.toDocument = .error (.unsupportedSyntax x)) ↔
      ∃ f ∈ s.targets names, f.isThirdVersion = false) ∧
    ((∀ f ∈ s.targets names, f.isThirdVersion = true) →
      (t.toDocument = .ok none ↔
        ∀ f ∈ s.targets names, ∀ d ∈ f.topLevel,
          f.isReserved = true ∨ isTypeName d.name = false ∨ d.isIdle = true)) ∧
    ∀ d, t.toDocument = .ok (some d) →
      ∀ f ∈ s.targets names, f.isReserved = false → ∀ m ∈ f.messages,
        ∀ D ∈ m.types (fun _ => true) f.scope,
          (isTypeName (.text m.name.shown) = true →
            ∃ b, D.block? s.names = some b ∧ d.blocks.filter
              (fun k => k.typeName? = some (reference s.names D.full).shown) = [b]) ∧
          (isTypeName (.text m.name.shown) = false →
            (∀ i ∈ t.items, D.item? s.names ≠ some i) ∧
            ((∀ p ∈ s.names, p.2.isText = true) →
              ∀ b ∈ d.blocks, b.typeName? ≠ some (reference s.names D.full).shown)) := by
  refine ⟨(unsupportedSyntax_iff_of_tree ht).1, fun hall => ?_,
    fun d hd f hf hreserved m hm D hD => ?_⟩
  · rw [toDocument_eq_none_iff_of_tree hdistinct ht]
    exact and_iff_right hall
  · have hs := mem_files_of_mem_targets hf
    refine ⟨fun hname => ?_, fun hname => ⟨?_, fun htext b hb hbn => ?_⟩⟩
    · have hexported : D ∈ f.exportedTypes := List.mem_append_left _
        (List.mem_flatMap.mpr ⟨m, List.mem_filter.mpr ⟨hm, hname⟩, hD⟩)
      have hemitted := mem_emittedTypes_of_mem_exportedTypes hs hdistinct hreserved hexported
      obtain ⟨b, hb, -, hfilter⟩ := block_mem_document ht hd hf hemitted
      exact ⟨b, hb, hfilter⟩
    · exact not_visited_of_mem_types hdistinct hf hreserved hm hD hname
    · have hbegins := beginsUppercase_of_typeName htext ht hd hb hbn
      have hown := isTypeName_reference_of_mem_types hs hdistinct hreserved hm hD
      obtain ⟨chain, hchain⟩ := exists_text_of_reference htext D.full
      rw [hchain] at hbegins hown
      exact absurd ((hown.symm.trans hbegins).symm.trans hname) (by decide)

end Trees

/-- A message with a type name and one without, each with a message of the other kind in it,
and a service without procedures. -/
def cityFile : File :=
  { name := "city.proto", package := "city", dialect := "proto3",
    messages := [{ name := "Street", nested := [{ name := "house" }] },
                 { name := "draft", nested := [{ name := "Plan" }] }],
    services := [{ name := "Idle" }] }

def letterFile : File :=
  { name := "letter.proto", package := "google.mail", dialect := "proto3",
    messages := [{ name := "Letter" }] }

def citySet : Set := ⟨[cityFile, letterFile]⟩

def cityTree : Tree :=
  { dialect := "proto3",
    declarations :=
      [.package "city" [.message { name := "Street" } [.message { name := "Street_house" } []],
                        .message { name := "draft" } [.message { name := "draft_Plan" } []],
                        .service { name := "Idle" }],
       .package "google" [.package "mail" [.message { name := "Letter" } []]]] }

theorem tree_citySet : citySet.tree none = .ok cityTree := by
  have htree : citySet.tree none =
      .ok ⟨"proto3", graft ["google", "mail"] (inSourceOrder [] [
          ([4, 0], .message { name := "Letter" } (inSourceOrder [] []))])
        (graft ["city"] (inSourceOrder [] [
          ([4, 0], .message { name := "Street" } (inSourceOrder [] [
            ([4, 0, 3, 0], .message { name := "Street_house" } (inSourceOrder [] []))])),
          ([4, 1], .message { name := "draft" } (inSourceOrder [] [
            ([4, 1, 3, 0], .message { name := "draft_Plan" } (inSourceOrder [] []))])),
          ([6, 0], .service { name := "Idle" })]) [])⟩ := rfl
  rw [htree]
  simp only [inSourceOrder_nil]
  rfl

/-- The house has a block for the street that it is in, and the plan has none for the draft. -/
theorem verdict_of_tree_citySet :
    (citySet.names.map Prod.fst).Nodup ∧ citySet.tree none = .ok cityTree ∧
      (¬ ∃ x, cityTree.toDocument = .error (.unsupportedSyntax x)) ∧
      cityTree.toDocument ≠ .ok none ∧
      ∃ d, cityTree.toDocument = .ok (some d) ∧
        (∃ b, d.blocks.filter (fun k => k.typeName? = some "Street_house") = [b]) ∧
        ∀ b ∈ d.blocks, b.typeName? ≠ some "draft_Plan" := by
  have hdistinct : (citySet.names.map Prod.fst).Nodup := by decide
  have hthird : ∀ f ∈ citySet.targets none, f.isThirdVersion = true := by decide
  have htext : ∀ p ∈ citySet.names, p.2.isText = true := by decide
  obtain ⟨hdialect, hnone, hnested⟩ := verdict_of_tree hdistinct tree_citySet
  obtain ⟨d, hd⟩ : ∃ d, cityTree.toDocument = .ok (some d) := ⟨_, rfl⟩
  have hcity := hnested d hd cityFile List.mem_cons_self (by decide)
  refine ⟨hdistinct, tree_citySet, ?_, ?_, d, hd, ?_, ?_⟩
  · rw [hdialect]
    rintro ⟨f, hf, hnot⟩
    exact absurd ((hthird f hf).symm.trans hnot) (by decide)
  · rw [ne_eq, hnone hthird]
    intro hall
    have hstreet := hall cityFile List.mem_cons_self (.message _) List.mem_cons_self
    exact absurd hstreet (by decide)
  · have hhouse := (hcity _ List.mem_cons_self (.message ".city.Street" { name := "house" })
      (List.mem_cons_of_mem _ List.mem_cons_self)).1 (by decide)
    obtain ⟨b, -, hb⟩ := hhouse
    exact ⟨b, hb⟩
  · have hplan := (hcity _ (List.mem_cons_of_mem _ List.mem_cons_self)
      (.message ".city.draft" { name := "Plan" })
      (List.mem_cons_of_mem _ List.mem_cons_self)).2 (by decide)
    exact hplan.2 htext

end Descriptor

end ProtoSdl
