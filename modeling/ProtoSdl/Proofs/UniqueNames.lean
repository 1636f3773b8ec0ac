import ProtoSdl.Proofs.FirstOccurrences
import ProtoSdl.Proofs.ItemNames

/-!
  Unique names — which type names a document defines, and how often

  A document defines a type name with every object, enumeration and well-known type
  in it, and with the first block of a root type; a block that extends a root type
  defines nothing. What a schema needs defined can be read off its items:

    1. `neededNames` are the names that the items declare and the short names of the
       well-known types that they use, and `neededRoots` the root types that they
       file operations under. A document defines these names and no others, each as
       often as it is needed (`definedNames_perm`).
    2. The ledger takes the needed names and nothing else (`claims_perm`), so a schema
       is refused for a repeated name exactly when one of them is needed twice.
    3. The ledger keeps the open root types apart from the taken names. So a name that
       is defined twice in a document is that of a root type, and of a declared type
       of that name: `definedNames_nodup_iff` tells when this happens.
-/

namespace ProtoSdl.Sdl

open Schema
open scoped List

/-- The name of the type that the block declares; an operation block declares none. -/
def Block.typeName? : Block → Option String
  | wellKnown t => some t.name
  | object _ name _ _ => some name
  | enumeration name _ => some name
  | operation _ _ _ => none

/-- The root type that the block is the first one of. -/
def Block.openedRoot? : Block → Option RootType
  | operation .declare root _ => some root
  | operation .extend _ _ => none
  | wellKnown _ => none
  | object _ _ _ _ => none
  | enumeration _ _ => none

/-- The type name that the block defines. -/
def Block.definedName? (b : Block) : Option String :=
  b.typeName?.or (b.openedRoot?.map RootType.name)

/-- The type names that the document defines, in the order of its blocks. -/
def Document.definedNames (d : Document) : List String := d.blocks.filterMap Block.definedName?

/-- The well-known types that the items use, with their keys. -/
def usedWellKnown (items : List Item) : List (String × WellKnownType) :=
  wellKnownTypes.filter fun u => (items.flatMap usedNames).any fun n => n.shown == u.1

/-- The type names that a document of the items has to define, the root types apart. -/
def neededNames (items : List Item) : List String :=
  (items.flatMap declaredNames).map Name.shown ++ (usedWellKnown items).map fun u => u.2.name

/-- The root types that a document of the items has to define. -/
def neededRoots (items : List Item) : List RootType :=
  [.query, .mutation].filter fun r => items.any fun i => (servedRoots i).contains r

/-! ## Well-known types in the order of use -/

/-- The names that the acts use. -/
def actUses (acts : List Act) : List Name :=
  acts.filterMap fun
    | .use n => some n
    | .take _ => none
    | .root _ => none

/-- The names that the acts take. -/
def actTakes (acts : List Act) : List Name :=
  acts.filterMap fun
    | .take n => some n
    | .use _ => none
    | .root _ => none

@[simp] theorem actUses_append (acts others : List Act) :
    actUses (acts ++ others) = actUses acts ++ actUses others := List.filterMap_append

@[simp] theorem actTakes_append (acts others : List Act) :
    actTakes (acts ++ others) = actTakes acts ++ actTakes others := List.filterMap_append

theorem actUses_actsOf (i : Item) : actUses (actsOf i) = usedNames i := by
  simp [actUses, actsOf, List.filterMap_append, List.filterMap_map]

theorem actTakes_actsOf (i : Item) : actTakes (actsOf i) = declaredNames i := by
  simp [actTakes, actsOf, List.filterMap_append, List.filterMap_map]

theorem actUses_flatMap (items : List Item) :
    actUses (items.flatMap actsOf) = items.flatMap usedNames := by
  induction items with
  | nil => rfl
  | cons i items ih => rw [List.flatMap_cons, actUses_append, ih, actUses_actsOf, List.flatMap_cons]

theorem actTakes_flatMap (items : List Item) :
    actTakes (items.flatMap actsOf) = items.flatMap declaredNames := by
  induction items with
  | nil => rfl
  | cons i items ih =>
    rw [List.flatMap_cons, actTakes_append, ih, actTakes_actsOf, List.flatMap_cons]

theorem nodup_wellKnownTypes : (wellKnownTypes.map Prod.fst).Nodup := by decide +kernel

/-- A key of the table finds its own type. -/
theorem wellKnown?_eq_some_iff (key : String) (w : WellKnownType) :
    wellKnown? key = some w ↔ (key, w) ∈ wellKnownTypes := by
  unfold wellKnown?
  constructor
  · intro h
    obtain ⟨before, after, he, -⟩ := List.lookup_eq_some_iff.mp h
    rw [he]
    simp
  · intro h
    have hall : ∀ u ∈ wellKnownTypes, wellKnownTypes.lookup u.1 = some u.2 := by decide +kernel
    exact hall _ h

/-- The well-known type that the name stands for, with its key. -/
def wellKnownUse? (n : Name) : Option (String × WellKnownType) :=
  (wellKnown? n.shown).map (n.shown, ·)

theorem wellKnownUse?_eq_some_iff (n : Name) (u : String × WellKnownType) :
    wellKnownUse? n = some u ↔ n.shown = u.1 ∧ wellKnown? u.1 = some u.2 := by
  unfold wellKnownUse?
  rw [Option.map_eq_some_iff]
  constructor
  · rintro ⟨w, hw, rfl⟩
    exact ⟨rfl, hw⟩
  · rintro ⟨hn, hw⟩
    rw [hn]
    exact ⟨u.2, hw, rfl⟩

/-- The first uses of acts are the first uses of each type that is not yet known. -/
theorem firstUses_eq (known : List String) (acts : List Act) :
    firstUses known acts =
      (((actUses acts).filterMap wellKnownUse?).filter fun u => !known.contains u.1).eraseDups := by
  -- By induction on the acts, for all known keys, since a first use makes its key known.
  induction acts generalizing known with
  | nil => rfl
  | cons a acts ih =>
    cases a with
    | take n => exact ih known
    | root r => exact ih known
    | use n =>
      have hcons : actUses (.use n :: acts) = n :: actUses acts := rfl
      rw [hcons, firstUses]
      cases hw : wellKnown? n.shown with
      | none =>
        rw [List.filterMap_cons_none (by simp [wellKnownUse?, hw])]
        exact ih known
      | some w =>
        have huse : wellKnownUse? n = some (n.shown, w) := by simp [wellKnownUse?, hw]
        rw [List.filterMap_cons_some huse]
        dsimp only
        by_cases hk : known.contains n.shown = true
        · rw [if_pos hk, List.filter_cons_of_neg (by simpa using hk), ih]
        · rw [if_neg hk, List.filter_cons_of_pos (by simpa using hk), List.eraseDups_cons, ih,
            List.filter_filter]
          congr 2
          -- A later use is the same as this one exactly when it has its key.
          apply List.filter_congr
          intro u hu
          obtain ⟨m, -, hm⟩ := List.mem_filterMap.mp hu
          have hkey : (u == (n.shown, w)) = (u.1 == n.shown) := by
            rw [Bool.eq_iff_iff, beq_iff_eq, beq_iff_eq]
            constructor
            · exact fun he => congrArg Prod.fst he
            · intro he
              have hlook := ((wellKnownUse?_eq_some_iff m u).mp hm).2
              rw [he, hw, Option.some.injEq] at hlook
              exact Prod.ext he hlook.symm
          rw [hkey, List.contains_cons, Bool.not_or]

/-- A first use is that of a well-known type whose key is new and used. -/
theorem mem_firstUses_iff (acts : List Act) (known : List String) (u : String × WellKnownType) :
    u ∈ firstUses known acts ↔
      u.1 ∉ known ∧ wellKnown? u.1 = some u.2 ∧ ∃ n ∈ actUses acts, n.shown = u.1 := by
  have hnew : (!known.contains u.1) = true ↔ u.1 ∉ known := by simp
  rw [firstUses_eq, List.mem_eraseDups, List.mem_filter, List.mem_filterMap, hnew]
  constructor
  · rintro ⟨⟨n, hn, huse⟩, hk⟩
    obtain ⟨hshown, hw⟩ := (wellKnownUse?_eq_some_iff n u).mp huse
    exact ⟨hk, hw, n, hn, hshown⟩
  · rintro ⟨hk, hw, n, hn, hshown⟩
    exact ⟨⟨n, hn, (wellKnownUse?_eq_some_iff n u).mpr ⟨hshown, hw⟩⟩, hk⟩

/-- No key is used for the first time twice. -/
theorem nodup_firstUses (acts : List Act) (known : List String) :
    (firstUses known acts).Nodup := by
  rw [firstUses_eq]
  exact nodup_eraseDups _

/-- The first uses of a schema are the well-known types that its items use. -/
theorem firstUses_perm (items : List Item) :
    (firstUses [] (items.flatMap actsOf)).Perm (usedWellKnown items) := by
  refine (List.perm_ext_iff_of_nodup (nodup_firstUses _ _) ?_).mpr fun u => ?_
  · exact (List.Nodup.of_map _ nodup_wellKnownTypes).filter _
  · rw [mem_firstUses_iff, actUses_flatMap, usedWellKnown, List.mem_filter, List.any_eq_true,
      wellKnown?_eq_some_iff]
    simp

/-! ## Claimed and needed names -/

/-- Acts claim the names that they take and those of the well-known types that they
use first. -/
theorem claims_perm (acts : List Act) (known : List String) :
    (claims known acts).Perm
      (actTakes acts ++ (firstUses known acts).map fun u => Name.text u.2.name) := by
  induction acts generalizing known with
  | nil => exact List.Perm.nil
  | cons a acts ih =>
    cases a with
    | take n => exact (ih known).cons n
    | root r => exact ih known
    | use n =>
      simp only [claims, firstUses]
      cases wellKnown? n.shown with
      | none => exact ih known
      | some w =>
        dsimp only
        split
        · exact ih known
        · rw [List.map_cons]
          exact ((ih _).cons _).trans List.perm_middle.symm

/-- The names that a schema claims, as they are shown, are the needed ones. -/
theorem map_shown_claims_perm (t : Tree) :
    ((claims [] (treeActs t)).map Name.shown).Perm (neededNames t.items) := by
  have h := (claims_perm (treeActs t) []).map Name.shown
  rw [List.map_append, List.map_map] at h
  refine h.trans ?_
  unfold treeActs neededNames
  rw [actTakes_flatMap]
  exact ((firstUses_perm t.items).map _).append_left _

theorem claimable_of_mem_claims {t : Tree} {n : Name} (h : n ∈ claims [] (treeActs t)) :
    Claimable n := by
  rw [(claims_perm _ _).mem_iff, List.mem_append] at h
  rcases h with h | h
  · rw [treeActs, actTakes_flatMap, List.mem_flatMap] at h
    obtain ⟨i, hi, hn⟩ := h
    exact claimable_of_mem_declaredNames (hasTypeName_of_mem_items hi) hn
  · obtain ⟨u, hu, rfl⟩ := List.mem_map.mp h
    have hw := ((mem_firstUses_iff _ _ _).mp hu).2.1
    exact claimable_wellKnown ((wellKnown?_eq_some_iff _ _).mp hw)

/-- No claimed name repeats exactly when no needed one does. -/
theorem nodup_claims_iff (t : Tree) :
    (claims [] (treeActs t)).Nodup ↔ (neededNames t.items).Nodup := by
  rw [← (map_shown_claims_perm t).nodup_iff]
  constructor
  · intro h
    -- Different names that are claimed are shown differently.
    refine h.map_on fun m hm n hn he => ?_
    exact shown_inj (claimable_of_mem_claims hm) (claimable_of_mem_claims hn) he
  · exact List.Nodup.of_map _

/-! ## Defined names -/

/-- The root types that the items open when the ledger has these open already. -/
def newRoots (l : Ledger) (items : List Item) : List RootType :=
  [.query, .mutation].filter fun r =>
    !l.roots.contains r.name && items.any fun i => (servedRoots i).contains r

theorem newRoots_empty (items : List Item) : newRoots {} items = neededRoots items := by
  simp [newRoots, neededRoots]

/-- What a list gives under two partial functions of which one answers at a time. -/
theorem filterMap_or_perm {α β : Type} {f g h : α → Option β} {l : List α}
    (hf : ∀ a, f a = (g a).or (h a)) (hd : ∀ a, (g a).isSome = true → h a = none) :
    l.filterMap f ~ l.filterMap g ++ l.filterMap h := by
  induction l with
  | nil => exact List.Perm.nil
  | cons a l ih =>
    rw [List.filterMap_cons, List.filterMap_cons, List.filterMap_cons, hf a]
    cases hg : g a with
    | some b =>
      rw [hd a (by rw [hg]; rfl)]
      exact ih.cons b
    | none =>
      cases hh : h a with
      | some b => exact (ih.cons b).trans List.perm_middle.symm
      | none => exact ih

/-- A list is cut in two by two tests of which one holds at a time. -/
theorem filter_or_perm {α : Type} {p q r : α → Bool} {l : List α}
    (h : ∀ a, p a = (q a || r a)) (hd : ∀ a, q a = true → r a = false) :
    l.filter p ~ l.filter q ++ l.filter r := by
  rw [← List.filterMap_eq_filter, ← List.filterMap_eq_filter, ← List.filterMap_eq_filter]
  refine filterMap_or_perm (fun a => ?_) fun a ha => ?_
  · cases hq : q a <;> simp [Option.guard, h a, hq]
  · have hq : q a = true := by simpa [Option.guard] using ha
    simp [Option.guard, hd a hq]

theorem contains_root_actsOf (r : RootType) (i : Item) :
    (actsOf i).contains (.root r) = (servedRoots i).contains r := by
  simp [actsOf]

/-- The first item opens what it serves and is not open; the others open the rest. -/
theorem newRoots_cons (l : Ledger) (i : Item) (items : List Item) :
    (newRoots l (i :: items)).Perm (newRoots l [i] ++ newRoots (l.after (actsOf i)) items) := by
  unfold newRoots
  refine filter_or_perm (fun r => ?_) fun r hr => ?_
  · rw [contains_roots_after, contains_root_actsOf, List.any_cons, List.any_cons, List.any_nil,
      Bool.or_false]
    cases l.roots.contains r.name <;> cases (servedRoots i).contains r <;> rfl
  · rw [List.any_cons, List.any_nil, Bool.or_false, Bool.and_eq_true] at hr
    rw [contains_roots_after, contains_root_actsOf, hr.2, Bool.or_true, Bool.not_true,
      Bool.false_and]

/-- A service serves the roots under which it files operations. -/
theorem contains_servedRoots (r : RootType) (s : Service) :
    (servedRoots (.service s)).contains r = !(operations r s).isEmpty := by
  cases r <;> cases hops : operations _ s <;> simp [servedRoots, hops]

/-- An operation block opens its root type if it is the first one. -/
theorem openedRoots_operationBlocks (l : Ledger) (r : RootType) (s : Service) :
    (operationBlocks l r s).filterMap Block.openedRoot? =
      [r].filter fun r => !l.roots.contains r.name && (servedRoots (.service s)).contains r := by
  rw [List.filter_cons, contains_servedRoots]
  -- A service without operations under the root has no block there.
  unfold operationBlocks keywordIn
  cases hops : operations r s with
  | nil => simp
  | cons o os => cases l.roots.contains r.name <;> simp [Block.openedRoot?]

theorem openedRoots_blocksOf (l : Ledger) (i : Item) :
    (blocksOf l i).filterMap Block.openedRoot? = newRoots l [i] := by
  have hnone : ∀ i, servedRoots i = [] → newRoots l [i] = [] := by
    intro i h
    simp [newRoots, h]
  cases i with
  | message m => rw [hnone _ rfl]; rfl
  | enumeration e => rw [hnone _ rfl]; rfl
  | unknown kind => rw [hnone _ rfl]; rfl
  | service s =>
    show (operationBlocks l .query s ++ operationBlocks l .mutation s).filterMap _ = _
    rw [List.filterMap_append, openedRoots_operationBlocks, openedRoots_operationBlocks,
      ← List.filter_append]
    simp [newRoots]

/-- Each root type that the items need is opened once. -/
theorem openedRoots_blocksOfItems (items : List Item) (l : Ledger) :
    (blocksOfItems l items).filterMap Block.openedRoot? ~ newRoots l items := by
  induction items generalizing l with
  | nil => simp [blocksOfItems, newRoots]
  | cons i items ih =>
    rw [blocksOfItems, List.filterMap_append, openedRoots_blocksOf]
    exact ((ih _).append_left _).trans (newRoots_cons l i items).symm

/-- The blocks of items declare what the items declare. -/
theorem typeNames_blocksOfItems (items : List Item) (l : Ledger) :
    (blocksOfItems l items).filterMap Block.typeName? =
      (items.flatMap declaredNames).map Name.shown := by
  have hnone : ∀ l r s, (operationBlocks l r s).filterMap Block.typeName? = [] := by
    intro l r s
    unfold operationBlocks
    split <;> rfl
  induction items generalizing l with
  | nil => rfl
  | cons i items ih =>
    rw [blocksOfItems, List.filterMap_append, ih, List.flatMap_cons, List.map_append]
    congr 1
    cases i with
    | message m => rfl
    | enumeration e => rfl
    | unknown kind => rfl
    | service s =>
      show (operationBlocks l .query s ++ operationBlocks l .mutation s).filterMap _ = _
      rw [List.filterMap_append, hnone, hnone]
      rfl

section

variable {α : Type} {t : Tree} {d : Document}

/-- What a document has is what its items have, apart from what its declarations of
well-known types have. -/
theorem flatMap_blocks_of_toDocument {f : Block → List α} (hf : ∀ w, f (.wellKnown w) = [])
    (h : t.toDocument = .ok (some d)) :
    d.blocks.flatMap f = (blocksOfItems {} t.items).flatMap f := by
  obtain ⟨-, -, -, hblocks⟩ := of_toDocument_eq_ok h
  have hnone : ((firstUses [] (treeActs t)).map fun u => Block.wellKnown u.2).reverse.flatMap f =
      [] := by
    rw [List.flatMap_eq_nil_iff]
    intro b hb
    obtain ⟨u, -, rfl⟩ := List.mem_map.mp (List.mem_reverse.mp hb)
    exact hf u.2
  rw [hblocks, List.flatMap_append, hnone, List.nil_append]

theorem filterMap_blocks_of_toDocument {f : Block → Option α} (hf : ∀ w, f (.wellKnown w) = none)
    (h : t.toDocument = .ok (some d)) :
    d.blocks.filterMap f = (blocksOfItems {} t.items).filterMap f := by
  rw [List.filterMap_eq_flatMap_toList, List.filterMap_eq_flatMap_toList]
  exact flatMap_blocks_of_toDocument (fun w => by rw [hf w]; rfl) h

end

/-- A document declares the types that its schema needs, each as often as it is needed. -/
theorem typeNames_perm {t : Tree} {d : Document} (h : t.toDocument = .ok (some d)) :
    d.blocks.filterMap Block.typeName? ~ neededNames t.items := by
  obtain ⟨-, -, -, hblocks⟩ := of_toDocument_eq_ok h
  rw [hblocks, List.filterMap_append, List.filterMap_reverse, List.filterMap_map,
    typeNames_blocksOfItems]
  have hused : (firstUses [] (treeActs t)).filterMap (Block.typeName? ∘ fun u => .wellKnown u.2) =
      (firstUses [] (treeActs t)).map fun u => u.2.name := by
    show (firstUses [] (treeActs t)).filterMap (fun u => some u.2.name) = _
    exact congrFun List.filterMap_eq_map' _
  rw [hused]
  have hfirst := (firstUses_perm t.items).map fun u => u.2.name
  calc ((firstUses [] (treeActs t)).map fun u => u.2.name).reverse ++
        (t.items.flatMap declaredNames).map Name.shown
      ~ ((usedWellKnown t.items).map fun u => u.2.name) ++
        (t.items.flatMap declaredNames).map Name.shown :=
        ((List.reverse_perm _).trans hfirst).append_right _
    _ ~ neededNames t.items := List.perm_append_comm

/-- A document opens the root types that its schema needs. -/
theorem openedRoots_perm {t : Tree} {d : Document} (h : t.toDocument = .ok (some d)) :
    d.blocks.filterMap Block.openedRoot? ~ neededRoots t.items := by
  rw [filterMap_blocks_of_toDocument (fun _ => rfl) h, ← newRoots_empty]
  exact openedRoots_blocksOfItems t.items {}

/-- A document defines what its schema needs, each name as often as it is needed. -/
theorem definedNames_perm {t : Tree} {d : Document} (h : t.toDocument = .ok (some d)) :
    d.definedNames ~ neededNames t.items ++ (neededRoots t.items).map RootType.name := by
  have hcut : d.definedNames ~ d.blocks.filterMap Block.typeName? ++
      d.blocks.filterMap fun b => b.openedRoot?.map RootType.name := by
    refine filterMap_or_perm (fun b => rfl) fun b hb => ?_
    cases b with
    | operation keyword root operations => cases hb
    | wellKnown w => rfl
    | object keyword name fields unions => rfl
    | enumeration name values => rfl
  rw [← List.map_filterMap] at hcut
  exact hcut.trans ((typeNames_perm h).append ((openedRoots_perm h).map _))

/-- The types of a document have different names. -/
theorem nodup_typeNames {t : Tree} {d : Document} (h : t.toDocument = .ok (some d)) :
    (d.blocks.filterMap Block.typeName?).Nodup := by
  obtain ⟨-, -, hclaims, -⟩ := of_toDocument_eq_ok h
  rw [(typeNames_perm h).nodup_iff]
  exact (nodup_claims_iff t).mp hclaims

/-! ## When a name is defined twice -/

/-- A schema is refused for a repeated name exactly when it needs a name of a type twice.
A document defines what its schema needs, and it defines a name twice exactly when the
schema needs a type with the name of a root type that it needs. -/
theorem definedNames_nodup_iff (t : Tree) :
    (isSupported t.dialect = true → (∀ i ∈ t.items, IsEmittable i) →
      ((∃ n, t.toDocument = .error (.duplicateType n)) ↔ ¬ (neededNames t.items).Nodup)) ∧
      ∀ d, t.toDocument = .ok (some d) →
        d.definedNames ~ neededNames t.items ++ (neededRoots t.items).map RootType.name ∧
        (d.definedNames.Nodup ↔ ∀ r ∈ neededRoots t.items, r.name ∉ neededNames t.items) := by
  constructor
  · intro hd ht
    rw [← nodup_claims_iff, ← firstRepeat_nil_eq_none_iff, toDocument_eq hd ht]
    cases hr : firstRepeat [] (claims [] (treeActs t)) with
    | none => simp
    | some n => exact ⟨fun _ => nofun, fun _ => ⟨n, rfl⟩⟩
  · intro d h
    have hperm := definedNames_perm h
    obtain ⟨-, -, hclaims, -⟩ := of_toDocument_eq_ok h
    have hneeded := (nodup_claims_iff t).mp hclaims
    refine ⟨hperm, ?_⟩
    -- The types differ from each other, and so do the roots; a type and a root may clash.
    rw [hperm.nodup_iff, List.nodup_append']
    constructor
    · rintro ⟨-, -, hdisjoint⟩ r hr hn
      exact hdisjoint hn (List.mem_map_of_mem hr)
    · intro hroots
      refine ⟨hneeded, nodup_rootNames _, ?_⟩
      intro n hn hroot
      obtain ⟨r, hr, he⟩ := List.mem_map.mp hroot
      exact hroots r hr (he ▸ hn)

/-- A message with the name of the root type under which a service files its procedure. -/
def queryTree : Tree :=
  { dialect := "proto3",
    declarations :=
      [.message { name := "Query" } [],
       .service { name := "Users", methods := [⟨"GetUser", "Query", "Query"⟩] }] }

/-- The names of the types of this schema are different, and it is not refused; its document
defines a name twice. -/
theorem definedNames_nodup_iff_queryTree :
    isSupported queryTree.dialect = true ∧ (∀ i ∈ queryTree.items, IsEmittable i) ∧
      (¬ ∃ n, queryTree.toDocument = .error (.duplicateType n)) ∧
      ∃ d, queryTree.toDocument = .ok (some d) ∧ ¬ d.definedNames.Nodup := by
  have hd : isSupported queryTree.dialect = true := by decide
  have hitems : queryTree.items = [.message { name := "Query" },
      .service { name := "Users", methods := [⟨"GetUser", "Query", "Query"⟩] }] := rfl
  have ht : ∀ i ∈ queryTree.items, IsEmittable i := by
    rw [hitems]
    simp [IsEmittable]
  refine ⟨hd, ht, ?_, _, rfl, ?_⟩
  · rw [(definedNames_nodup_iff queryTree).1 hd ht, hitems]
    decide
  rw [((definedNames_nodup_iff queryTree).2 _ rfl).2]
  decide

/-- Documents do define names twice. -/
theorem exists_document_defining_twice :
    ¬ ∀ (t : Tree) (d : Document), isSupported t.dialect = true →
      t.toDocument = .ok (some d) → d.definedNames.Nodup := by
  intro h
  have hn := h queryTree _ (by decide) rfl
  revert hn
  decide

end ProtoSdl.Sdl
