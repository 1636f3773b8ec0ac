import ProtoSdl.Proofs.Emission
import ProtoSdl.Proofs.OctetLiterals

/-!
  Item names — what the names of visited declarations look like when printed

  Everything that a walk visits and that is not a package has a name that begins with
  an uppercase letter (`hasTypeName_of_mem_items`). So no printed type name of a
  schema is a scalar, the key of a well-known type, or the literal of a name of
  octets, and two claimed names that look alike are the same name (`shown_inj`):

    - a text that begins with an uppercase letter is no literal, which begins with
      `b`;
    - the input twin of a name of octets ends in a letter, and a literal in a mark;
    - two literals that look alike have the same octets.
-/

namespace ProtoSdl.Schema

open Sdl

/-- Whether the item's name can name a type. -/
def HasTypeName : Item → Prop
  | .message m => isTypeName m.name = true
  | .enumeration e => isTypeName e.name = true
  | .service s => isTypeName s.name = true
  | .unknown _ => True

mutual

theorem hasTypeName_of_mem_declaration : ∀ (d : Declaration),
    (d.isPackage || isTypeName d.name) = true → ∀ i ∈ d.items, HasTypeName i
  | .package _ children, _, i, hi => by
    rw [Declaration.items] at hi
    exact hasTypeName_of_mem_packageItems children i hi
  | .message m nested, h, i, hi => by
    rw [Declaration.items] at hi
    rcases List.mem_cons.mp hi with rfl | hi
    · have hn : isTypeName m.name = true := by
        simpa [Declaration.isPackage, Declaration.name] using h
      exact hn
    · exact hasTypeName_of_mem_nestedItems nested i hi
  | .enumeration e, h, i, hi => by
    rw [Declaration.items] at hi
    obtain rfl := List.mem_singleton.mp hi
    have hn : isTypeName e.name = true := by simpa [Declaration.isPackage, Declaration.name] using h
    exact hn
  | .service s, h, i, hi => by
    rw [Declaration.items] at hi
    obtain rfl := List.mem_singleton.mp hi
    have hn : isTypeName s.name = true := by simpa [Declaration.isPackage, Declaration.name] using h
    exact hn
  | .unknown kind name, _, i, hi => by
    rw [Declaration.items] at hi
    obtain rfl := List.mem_singleton.mp hi
    trivial

theorem hasTypeName_of_mem_packageItems : ∀ (ds : List Declaration),
    ∀ i ∈ packageItems ds, HasTypeName i
  | [], i, hi => by simp [packageItems] at hi
  | d :: ds, i, hi => by
    rw [packageItems] at hi
    rcases List.mem_append.mp hi with hi | hi
    · split at hi
      · rename_i hd
        exact hasTypeName_of_mem_declaration d hd i hi
      · cases hi
    · exact hasTypeName_of_mem_packageItems ds i hi

theorem hasTypeName_of_mem_nestedItems : ∀ (ds : List Declaration),
    ∀ i ∈ nestedItems ds, HasTypeName i
  | [], i, hi => by simp [nestedItems] at hi
  | d :: ds, i, hi => by
    rw [nestedItems] at hi
    rcases List.mem_append.mp hi with hi | hi
    · split at hi
      · rename_i hd
        exact hasTypeName_of_mem_declaration d (by simp [hd]) i hi
      · cases hi
    · exact hasTypeName_of_mem_nestedItems ds i hi

end

theorem hasTypeName_of_mem_items {t : Tree} {i : Item} (h : i ∈ t.items) : HasTypeName i :=
  hasTypeName_of_mem_packageItems _ i h

end ProtoSdl.Schema

namespace ProtoSdl.Sdl

open Schema

/-- Whether the text begins with an uppercase letter. -/
def BeginsUppercase (s : String) : Prop := s.toList.head?.any Text.isUppercase = true

theorem BeginsUppercase.append {s : String} (h : BeginsUppercase s) (r : String) :
    BeginsUppercase (s ++ r) := by
  unfold BeginsUppercase at h ⊢
  rw [String.toList_append]
  cases hs : s.toList with
  | nil => simp [hs] at h
  | cons c cs =>
    rw [hs] at h
    exact h

theorem BeginsUppercase.ne_literal_append {s : String} (h : BeginsUppercase s) (bs : List UInt8)
    (r : String) : s ≠ Text.octetLiteral bs ++ r := by
  rintro rfl
  unfold BeginsUppercase at h
  rw [String.toList_append, Text.toList_octetLiteral] at h
  -- A literal begins with a small letter.
  have hb : Text.isUppercase 'b' = true := h
  exact absurd hb (by decide)

theorem BeginsUppercase.ne_literal {s : String} (h : BeginsUppercase s) (bs : List UInt8) :
    s ≠ Text.octetLiteral bs := by
  have hne := h.ne_literal_append bs ""
  rwa [String.append_empty] at hne

/-- Whether the text is neither a protobuf scalar nor the key of a well-known type. -/
def IsOwnName (s : String) : Prop := s ∉ scalars.map Prod.fst ++ wellKnownTypes.map Prod.fst

theorem printedName_of_isOwnName {n : Name} (h : IsOwnName n.shown) : printedName n = n.shown := by
  unfold IsOwnName at h
  rw [List.mem_append, not_or] at h
  obtain ⟨hscalar, hkey⟩ := h
  have hw : wellKnown? n.shown = none := by
    unfold wellKnown?
    rw [List.lookup_eq_none_iff]
    intro u hu
    rw [bne_iff_ne]
    intro he
    exact hkey (he ▸ List.mem_map_of_mem hu)
  unfold printedName
  rw [hw]
  exact typeName_of_not_scalar hscalar

theorem BeginsUppercase.isOwnName {s : String} (h : BeginsUppercase s) : IsOwnName s := by
  -- Scalars and keys begin with small letters.
  have hall : ∀ s ∈ scalars.map Prod.fst ++ wellKnownTypes.map Prod.fst, ¬ BeginsUppercase s := by
    unfold BeginsUppercase
    decide +kernel
  exact fun hs => hall s hs h

/-- The second character of a literal is a mark, and that of no scalar or key is. -/
theorem isOwnName_octetLiteral (bs : List UInt8) : IsOwnName (Text.octetLiteral bs) := by
  have hall : ∀ s ∈ scalars.map Prod.fst ++ wellKnownTypes.map Prod.fst,
      s.toList[1]? ≠ some '"' ∧ s.toList[1]? ≠ some '\'' := by
    decide +kernel
  intro hs
  obtain ⟨hquote, happos⟩ := hall _ hs
  rw [Text.toList_octetLiteral] at hquote happos
  rcases Text.octetMark_cases bs with hm | hm
  · rw [hm] at hquote
    simp at hquote
  · rw [hm] at happos
    simp at happos

/-- A name that can name a type is printed as it is shown. -/
theorem printedName_of_isTypeName {n : Name} (h : isTypeName n = true) :
    printedName n = n.shown := by
  apply printedName_of_isOwnName
  cases n with
  | text s => exact BeginsUppercase.isOwnName h
  | octets bs => exact isOwnName_octetLiteral bs

/-- The names that a document can claim. -/
inductive Claimable : Name → Prop where
  | text {s : String} (h : BeginsUppercase s) : Claimable (.text s)
  | octets (bs : List UInt8) : Claimable (.octets bs)
  | input (bs : List UInt8) : Claimable (.text (Text.octetLiteral bs ++ "Input"))

theorem octetLiteral_ne_input (bs cs : List UInt8) :
    Text.octetLiteral bs ≠ Text.octetLiteral cs ++ "Input" := by
  intro h
  -- The one ends in a mark, the other in a letter.
  have hl := congrArg (fun s : String => s.toList.reverse.head?) h
  have hi : "Input".toList = ['I', 'n', 'p', 'u', 't'] := rfl
  simp only [String.toList_append, Text.toList_octetLiteral, hi, List.reverse_append] at hl
  have ht : Text.octetMark bs = 't' := by simpa using hl
  rcases Text.octetMark_cases bs with hm | hm <;> rw [hm] at ht <;> exact absurd ht (by decide)

/-- Two claimable names that look alike are the same. -/
theorem shown_inj {m n : Name} (hm : Claimable m) (hn : Claimable n) (h : m.shown = n.shown) :
    m = n := by
  -- Names of different kinds do not look alike, and within a kind the looks decide.
  cases hm with
  | text hs =>
    cases hn with
    | text ht => exact congrArg Name.text h
    | octets cs => exact absurd h (hs.ne_literal cs)
    | input cs => exact absurd h (hs.ne_literal_append cs "Input")
  | octets bs =>
    cases hn with
    | text ht => exact absurd h.symm (ht.ne_literal bs)
    | octets cs => rw [Text.octetLiteral_injective h]
    | input cs => exact absurd h (octetLiteral_ne_input bs cs)
  | input bs =>
    cases hn with
    | text ht => exact absurd h.symm (ht.ne_literal_append bs "Input")
    | octets cs => exact absurd h.symm (octetLiteral_ne_input cs bs)
    | input cs => exact congrArg Name.text h

/-- A name that an item of a schema declares is claimable. -/
theorem claimable_of_mem_declaredNames {i : Item} (hi : HasTypeName i) {n : Name}
    (hn : n ∈ declaredNames i) : Claimable n := by
  cases i with
  | message m =>
    have hm : isTypeName m.name = true := hi
    rcases List.mem_cons.mp hn with rfl | hn
    · cases hname : m.name with
      | text s => exact .text (by rwa [hname] at hm)
      | octets bs => exact .octets bs
    · obtain rfl := List.mem_singleton.mp hn
      unfold inputName
      cases hname : m.name with
      | text s =>
        rw [hname] at hm
        exact .text (BeginsUppercase.append hm "Input")
      | octets bs => exact .input bs
  | enumeration e =>
    have he : isTypeName e.name = true := hi
    obtain rfl := List.mem_singleton.mp hn
    cases hname : e.name with
    | text s => exact .text (by rwa [hname] at he)
    | octets bs => exact .octets bs
  | service s => cases hn
  | unknown kind => cases hn

theorem beginsUppercase_wellKnown {key : String} {w : WellKnownType}
    (h : (key, w) ∈ wellKnownTypes) : BeginsUppercase w.name := by
  have hall : ∀ u ∈ wellKnownTypes, BeginsUppercase u.2.name := by
    unfold BeginsUppercase
    decide
  exact hall (key, w) h

/-- The short name of a well-known type is claimable. -/
theorem claimable_wellKnown {key : String} {w : WellKnownType} (h : (key, w) ∈ wellKnownTypes) :
    Claimable (.text w.name) := .text (beginsUppercase_wellKnown h)

end ProtoSdl.Sdl
