import ProtoSdl.Sdl.Document

/-!
  Packages — that they leave no trace in a document

  A package holds declarations and is none itself. What is written for a schema does
  not depend on how its declarations are spread over packages:

    1. `Tree.flattened` is the schema without packages: the reserved one is left out and
       the declarations of every other one stand in its place, at any depth. What is
       nested in a message stays as it is.
    2. `Tree.packageText` is the text of a schema written package by package, with a text
       for each declaration, a text for each top-level package joined from those, and
       the whole joined from these. `writes_topTexts` says that it has the blocks of
       the document and no others, however often texts are joined on the way.
    3. `packages_leave_no_trace` — a schema and its flattened form have the same document,
       or the same failure, in both ways of writing.

  A run that fails leaves a ledger behind, so two computations are compared with the
  ledgers that they end with (`Writes`).
-/

namespace ProtoSdl

namespace Schema

mutual

/-- What stands in the place of the declaration when packages are taken apart. -/
def Declaration.unpacked : Declaration → List Declaration
  | .package _ children => unpack children
  | .message m nested => [.message m nested]
  | .enumeration e => [.enumeration e]
  | .service s => [.service s]
  | .unknown kind name => [.unknown kind name]

/-- The declarations with all packages among them taken apart. -/
def unpack : List Declaration → List Declaration
  | [] => []
  | d :: rest => d.unpacked ++ unpack rest

end

/-- The schema without packages. -/
def Tree.flattened (t : Tree) : Tree :=
  { t with declarations := unpack (t.declarations.filter fun d => !d.isReserved) }

mutual

theorem isPackage_unpacked : ∀ d : Declaration, ∀ e ∈ d.unpacked, e.isPackage = false
  | .package _ children => isPackage_unpack children
  | .message _ _ => by simp [Declaration.unpacked, Declaration.isPackage]
  | .enumeration _ => by simp [Declaration.unpacked, Declaration.isPackage]
  | .service _ => by simp [Declaration.unpacked, Declaration.isPackage]
  | .unknown _ _ => by simp [Declaration.unpacked, Declaration.isPackage]

/-- No packages are left among declarations that are taken apart. -/
theorem isPackage_unpack : ∀ ds : List Declaration, ∀ e ∈ unpack ds, e.isPackage = false
  | [] => by simp [unpack]
  | d :: rest => by
    intro e he
    rw [unpack] at he
    rcases List.mem_append.mp he with he | he
    · exact isPackage_unpacked d e he
    · exact isPackage_unpack rest e he

end

mutual

theorem packageItems_unpacked : ∀ d : Declaration,
    packageItems d.unpacked = if d.isPackage || isTypeName d.name then d.items else []
  | .package _ children => packageItems_unpack children
  | .message _ _ => List.append_nil _
  | .enumeration _ => List.append_nil _
  | .service _ => List.append_nil _
  | .unknown _ _ => List.append_nil _

/-- Taking packages apart changes nothing of the walk. -/
theorem packageItems_unpack : ∀ ds : List Declaration, packageItems (unpack ds) = packageItems ds
  | [] => rfl
  | d :: rest => by
    rw [unpack, packageItems_append, packageItems_unpacked d, packageItems_unpack rest,
      packageItems]

end

/-- A schema and its flattened form have the same items. -/
theorem items_flattened (t : Tree) : t.flattened.items = t.items := by
  have hkept : t.flattened.declarations.filter (fun d => !d.isReserved) =
      t.flattened.declarations := by
    refine List.filter_eq_self.mpr fun d hd => ?_
    have hp := isPackage_unpack _ d hd
    cases d with
    | package name children => cases hp
    | message m nested => rfl
    | enumeration e => rfl
    | service s => rfl
    | unknown kind name => rfl
  unfold Tree.items
  rw [hkept]
  exact packageItems_unpack _

end Schema

namespace Sdl

open Schema

/-! ## Writing package by package -/

/-- What stands between two texts of a document. -/
def blankLine : String := "\n\n"

/-- One text joined from texts, if there are any. -/
def joined (texts : List String) : List String :=
  if texts.isEmpty then [] else [blankLine.intercalate texts]

/-- The texts of a declaration if it is visited, and none otherwise. -/
def visited (isVisited : Bool) (texts : Emit (List String)) : Emit (List String) :=
  if isVisited then texts else pure []

mutual

/-- The texts of a declaration that is visited. The blocks of one declaration are one
text. -/
def declarationTexts : Declaration → Emit (List String)
  | .package _ children => packageTexts children
  | .message m nested => do
    claim [m.name, .text (inputName m.name)]
    let own ← messageBlocks m
    let others ← nestedTexts nested
    return joined (own.map Block.render) ++ others
  | .enumeration e => do
    claim [e.name]
    return [(enumerationBlock e).render]
  | .service s => do
    let blocks ← serviceBlocks s
    return joined (blocks.map Block.render)
  | .unknown kind _ => throw (.unknownKind kind)

/-- The texts of a package's declarations. -/
def packageTexts : List Declaration → Emit (List String)
  | [] => return []
  | d :: rest => do
    let first ← visited (d.isPackage || isTypeName d.name) (declarationTexts d)
    let others ← packageTexts rest
    return first ++ others

/-- The texts of the declarations nested in a message. -/
def nestedTexts : List Declaration → Emit (List String)
  | [] => return []
  | d :: rest => do
    let first ← visited (isTypeName d.name) (declarationTexts d)
    let others ← nestedTexts rest
    return first ++ others

end

/-- The texts of a schema's declarations, one for each package that has any. -/
def topTexts : List Declaration → Emit (List String)
  | [] => return []
  | .package name children :: rest =>
    if name = reservedPackage then topTexts rest
    else do
      let texts ← packageTexts children
      let others ← topTexts rest
      return joined texts ++ others
  | d :: rest => do
    let first ← visited (isTypeName d.name) (declarationTexts d)
    let others ← topTexts rest
    return first ++ others

/-! ## Texts and blocks -/

/-- The texts are joined from the blocks, each of them from some. -/
structure IsJoin (texts : List String) (blocks : List Block) : Prop where
  eq_nil_iff : texts = [] ↔ blocks = []
  intercalate_eq : blankLine.intercalate texts = renderBlocks blocks

namespace IsJoin

/-- Blocks that are rendered one by one. -/
theorem render (blocks : List Block) : IsJoin (blocks.map Block.render) blocks :=
  ⟨List.map_eq_nil_iff, rfl⟩

theorem nil : IsJoin [] [] := render []

theorem append {texts others : List String} {blocks more : List Block} (h : IsJoin texts blocks)
    (h' : IsJoin others more) : IsJoin (texts ++ others) (blocks ++ more) := by
  -- A separator stands between the two only if there is something on both sides.
  by_cases ht : texts = []
  · rw [ht, h.eq_nil_iff.mp ht]
    exact h'
  · by_cases ho : others = []
    · rw [ho, h'.eq_nil_iff.mp ho, List.append_nil, List.append_nil]
      exact h
    · have hb : blocks.map Block.render ≠ [] := by
        rw [ne_eq, List.map_eq_nil_iff, ← h.eq_nil_iff]
        exact ht
      have hm : more.map Block.render ≠ [] := by
        rw [ne_eq, List.map_eq_nil_iff, ← h'.eq_nil_iff]
        exact ho
      refine ⟨?_, ?_⟩
      · rw [List.append_eq_nil_iff, List.append_eq_nil_iff, h.eq_nil_iff, h'.eq_nil_iff]
      · rw [String.intercalate_append_of_ne_nil ht ho, h.intercalate_eq, h'.intercalate_eq,
          renderBlocks, renderBlocks, renderBlocks, List.map_append,
          String.intercalate_append_of_ne_nil hb hm]
        rfl

/-- Texts that are joined once more. -/
theorem joined {texts : List String} {blocks : List Block} (h : IsJoin texts blocks) :
    IsJoin (joined texts) blocks := by
  unfold Sdl.joined
  split
  · rename_i ht
    rw [List.isEmpty_iff.mp ht] at h
    exact h
  · rename_i ht
    rw [List.isEmpty_iff] at ht
    refine ⟨?_, ?_⟩
    · rw [← h.eq_nil_iff]
      simp [ht]
    · rw [String.intercalate_singleton]
      exact h.intercalate_eq

end IsJoin

/-- The one result has the texts of the other's blocks and the same ledger, or both have the
same failure. -/
inductive SameOutcome : EStateM.Result ConversionError Ledger (List String) →
    EStateM.Result ConversionError Ledger (List Block) → Prop where
  | ok {texts : List String} {blocks : List Block} (l : Ledger) (h : IsJoin texts blocks) :
      SameOutcome (.ok texts l) (.ok blocks l)
  | error (e : ConversionError) (l : Ledger) : SameOutcome (.error e l) (.error e l)

/-- The first computation writes the texts of the blocks that the second one emits. -/
def Writes (x : Emit (List String)) (y : Emit (List Block)) : Prop :=
  ∀ l, SameOutcome (x l) (y l)

namespace Writes

theorem pure' {texts : List String} {blocks : List Block} (h : IsJoin texts blocks) :
    Writes (pure texts) (pure blocks) := fun l => .ok l h

theorem throw' (e : ConversionError) : Writes (throw e) (throw e) := fun l => .error e l

/-- Both go on after the same computation. -/
theorem bind_same {α : Type} (x : Emit α) {f : α → Emit (List String)} {g : α → Emit (List Block)}
    (h : ∀ a, Writes (f a) (g a)) : Writes (x >>= f) (x >>= g) := by
  intro l
  show SameOutcome (EStateM.bind x f l) (EStateM.bind x g l)
  unfold EStateM.bind
  cases x l with
  | ok a s => exact h a s
  | error e s => exact .error e s

theorem bind {x : Emit (List String)} {y : Emit (List Block)} {f : List String → Emit (List String)}
    {g : List Block → Emit (List Block)} (h : Writes x y)
    (hf : ∀ texts blocks, IsJoin texts blocks → Writes (f texts) (g blocks)) :
    Writes (x >>= f) (y >>= g) := by
  intro l
  show SameOutcome (EStateM.bind x f l) (EStateM.bind y g l)
  unfold EStateM.bind
  have hl := h l
  generalize x l = r, y l = r' at hl
  cases hl with
  | ok s hj => exact hf _ _ hj s
  | error e s => exact .error e s

/-- One after the other, the texts of the first joined once more or not. -/
theorem append {x x' : Emit (List String)} {y y' : Emit (List Block)}
    {group : List String → List String}
    (hgroup : ∀ texts blocks, IsJoin texts blocks → IsJoin (group texts) blocks)
    (h : Writes x y) (h' : Writes x' y') :
    Writes (do return group (← x) ++ (← x')) (do return (← y) ++ (← y')) :=
  h.bind fun texts blocks hj =>
    h'.bind fun _ _ hj' => pure' ((hgroup texts blocks hj).append hj')

/-- What is not visited has neither texts nor items. -/
theorem visited {x : Emit (List String)} {items : List Item} (h : Writes x (emitItems items))
    (isVisited : Bool) :
    Writes (visited isVisited x) (emitItems (if isVisited then items else [])) := by
  cases isVisited with
  | true => exact h
  | false => exact pure' .nil

end Writes

/-! ## The walk -/

mutual

theorem writes_declarationTexts : ∀ d : Declaration, Writes (declarationTexts d) (emitItems d.items)
  | .package _ children => writes_packageTexts children
  | .message m nested => by
    have hnested := writes_nestedTexts nested
    show Writes (declarationTexts (.message m nested)) (emitItems (.message m :: nestedItems nested))
    simp only [declarationTexts, emitItems, emitItem, bind_assoc]
    refine .bind_same _ fun _ => .bind_same _ fun own => ?_
    exact hnested.bind fun _ _ h => .pure' ((IsJoin.render own).joined.append h)
  | .enumeration e => by
    simp only [declarationTexts, Declaration.items, emitItems, emitItem, bind_assoc, pure_bind]
    exact .bind_same _ fun _ => .pure' (.render [enumerationBlock e])
  | .service s => by
    simp only [declarationTexts, Declaration.items, emitItems, emitItem, pure_bind, List.append_nil]
    exact .bind_same _ fun blocks => .pure' (IsJoin.render blocks).joined
  | .unknown kind name => .throw' (.unknownKind kind)

/-- The texts of a package's declarations have the blocks of its items. -/
theorem writes_packageTexts : ∀ ds : List Declaration,
    Writes (packageTexts ds) (emitItems (packageItems ds))
  | [] => .pure' .nil
  | d :: rest => by
    have hrest := writes_packageTexts rest
    have hd := writes_declarationTexts d
    rw [packageTexts, packageItems, emitItems_append]
    exact .append (fun _ _ h => h) (hd.visited _) hrest

theorem writes_nestedTexts : ∀ ds : List Declaration,
    Writes (nestedTexts ds) (emitItems (nestedItems ds))
  | [] => .pure' .nil
  | d :: rest => by
    have hrest := writes_nestedTexts rest
    have hd := writes_declarationTexts d
    rw [nestedTexts, nestedItems, emitItems_append]
    exact .append (fun _ _ h => h) (hd.visited _) hrest

end

/-- The texts of a schema have the blocks of its items, although a package is joined to one
text first. -/
theorem writes_topTexts (ds : List Declaration) :
    Writes (topTexts ds) (emitItems (packageItems (ds.filter fun d => !d.isReserved))) := by
  induction ds with
  | nil => exact .pure' .nil
  | cons d rest ih =>
    -- Outside packages a declaration is written as it is inside.
    have hother : d.isPackage = false → Writes
        (do return (← visited (isTypeName d.name) (declarationTexts d)) ++ (← topTexts rest))
        (emitItems (packageItems (d :: rest.filter fun d => !d.isReserved))) := by
      intro hp
      rw [packageItems, emitItems_append, hp, Bool.false_or]
      exact .append (fun _ _ h => h) ((writes_declarationTexts d).visited _) ih
    cases d with
    | package name children =>
      rw [topTexts, List.filter_cons]
      by_cases hr : name = reservedPackage
      · rw [if_pos hr, if_neg (by simp [Declaration.isReserved, hr])]
        exact ih
      · rw [if_neg hr, if_pos (by simp [Declaration.isReserved, hr]), packageItems,
          emitItems_append]
        exact .append (fun _ _ h => h.joined) (writes_packageTexts children) ih
    | message m nested => exact hother rfl
    | enumeration e => exact hother rfl
    | service s => exact hother rfl
    | unknown kind name => exact hother rfl

end Sdl

open Sdl

/-- The text of a schema, written package by package. -/
def Schema.Tree.packageText (t : Schema.Tree) : Except ConversionError (Option String) :=
  if isSupported t.dialect then
    match topTexts t.declarations {} with
    | .ok texts l =>
      .ok (if texts.isEmpty then none
        else some (blankLine.intercalate (l.wellKnown.map WellKnownType.declaration ++ texts) ++
          "\n"))
    | .error e _ => .error e
  else .error (.unsupportedSyntax t.dialect)

namespace Schema

/-- Well-known types are declared in a line each. -/
theorem isJoin_wellKnown (ts : List WellKnownType) :
    IsJoin (ts.map WellKnownType.declaration) (ts.map .wellKnown) := by
  have hline : WellKnownType.declaration = Block.render ∘ Block.wellKnown := by
    funext t
    exact (String.intercalate_singleton (s := "\n")).symm
  rw [hline, ← List.map_map]
  exact .render _

/-- A schema that is written package by package has the text of its document. -/
theorem packageText_eq (t : Tree) :
    t.packageText = t.toDocument.map (Option.map Document.text) := by
  unfold Tree.packageText Tree.toDocument
  split
  · have houtcome := writes_topTexts t.declarations {}
    unfold Tree.items
    generalize topTexts t.declarations {} = r, emitItems _ {} = r' at houtcome
    cases houtcome with
    | ok l h =>
      have hall := (isJoin_wellKnown l.wellKnown).append h
      rename_i texts blocks
      dsimp only
      unfold assemble
      by_cases ht : texts = []
      · rw [ht, h.eq_nil_iff.mp ht]
        rfl
      · have hb : ¬ blocks = [] := fun hb => ht (h.eq_nil_iff.mpr hb)
        rw [if_neg (by simpa using ht), if_neg (by simpa using hb), hall.intercalate_eq]
        rfl
    | error e l => rfl
  · rfl

/-- Packages leave no trace: a schema and its flattened form, which has none, are written as
the same text, or as none, or fail in the same way. -/
theorem packages_leave_no_trace (t : Tree) :
    (∀ d ∈ t.flattened.declarations, d.isPackage = false) ∧
      t.flattened.toDocument = t.toDocument ∧ t.flattened.packageText = t.packageText ∧
      t.packageText = t.toDocument.map (Option.map Document.text) := by
  have hdocument : t.flattened.toDocument = t.toDocument := by
    unfold Tree.toDocument
    rw [items_flattened]
    rfl
  refine ⟨isPackage_unpack _, hdocument, ?_, packageText_eq t⟩
  rw [packageText_eq, packageText_eq, hdocument]

end Schema

end ProtoSdl
