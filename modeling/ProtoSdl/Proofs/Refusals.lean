import ProtoSdl.Proofs.FirstUses

/-!
  Refusals — which schemas are refused for a repeated name, and which name is reported

  A type name is claimed by a declaration when it is visited, and by a well-known type
  when it is used for the first time. The moments differ, but the claims of a schema
  make one list, and the list decides on a refusal:

    1. `claimedNames` reads the list off the items, without a ledger: an item claims what
       it declares, and then the short names of the well-known types that it uses and no
       item before it does. `claims_flatMap_actsOf` says that the ledger meets these.
    2. `refused_iff_claimed_twice` — a schema is refused for a repeated name exactly when
       one repeats in its list, and the name of the error is the first one that does.
    3. A `Reordering` puts siblings in another order, at any depth. It permutes the items
       and may change which name is reported, but not whether there is a refusal
       (`toDocument_ok_iff_of_reordering`).
-/

namespace ProtoSdl

namespace Schema

open scoped List

/-! ## Siblings in another order -/

/-- The lists hold the same declarations, with siblings in another order at any depth. -/
inductive Reordering : List Declaration → List Declaration → Prop where
  | nil : Reordering [] []
  | cons (d : Declaration) {ds es : List Declaration} (rest : Reordering ds es) :
      Reordering (d :: ds) (d :: es)
  | package (name : String) {cs ks ds es : List Declaration} (children : Reordering cs ks)
      (rest : Reordering ds es) : Reordering (.package name cs :: ds) (.package name ks :: es)
  | message (own : Message) {cs ks ds es : List Declaration} (nested : Reordering cs ks)
      (rest : Reordering ds es) : Reordering (.message own cs :: ds) (.message own ks :: es)
  | swap (d e : Declaration) (ds : List Declaration) : Reordering (d :: e :: ds) (e :: d :: ds)
  | trans {ds es fs : List Declaration} (first : Reordering ds es) (second : Reordering es fs) :
      Reordering ds fs

namespace Reordering

variable {ds es : List Declaration}

protected theorem refl (ds : List Declaration) : Reordering ds ds := by
  induction ds with
  | nil => exact .nil
  | cons d ds ih => exact .cons d ih

/-- Whether a declaration is visited is decided by its kind and its name, not by what it
holds. -/
theorem items_perm_cons {d e : Declaration} (hp : d.isPackage = e.isPackage)
    (hn : d.name = e.name) (hi : d.items ~ e.items)
    (h : packageItems ds ~ packageItems es ∧ nestedItems ds ~ nestedItems es) :
    packageItems (d :: ds) ~ packageItems (e :: es) ∧
      nestedItems (d :: ds) ~ nestedItems (e :: es) := by
  have hvisited : ∀ b : Bool, (if b then d.items else []) ~ if b then e.items else [] := by
    intro b
    cases b with
    | true => exact hi
    | false => exact .refl _
  rw [packageItems, packageItems, nestedItems, nestedItems, hp, hn]
  exact ⟨(hvisited _).append h.1, (hvisited _).append h.2⟩

/-- The same items are visited, as declarations of a package and as those of a message. -/
theorem items_perm (h : Reordering ds es) :
    packageItems ds ~ packageItems es ∧ nestedItems ds ~ nestedItems es := by
  induction h with
  | nil => exact ⟨.refl _, .refl _⟩
  | cons d rest ih => exact items_perm_cons rfl rfl (.refl _) ih
  | package name children rest ihc ih =>
    refine items_perm_cons rfl rfl ?_ ih
    rw [Declaration.items, Declaration.items]
    exact ihc.1
  | message own nested rest ihc ih =>
    refine items_perm_cons rfl rfl ?_ ih
    rw [Declaration.items, Declaration.items]
    exact ihc.2.cons _
  | swap d e ds =>
    simp only [packageItems, nestedItems, ← List.append_assoc]
    exact ⟨List.perm_append_comm.append_right _, List.perm_append_comm.append_right _⟩
  | trans first second ih ih' => exact ⟨ih.1.trans ih'.1, ih.2.trans ih'.2⟩

/-- A reordering leaves out the same reserved packages. -/
theorem filter_isReserved (h : Reordering ds es) :
    Reordering (ds.filter fun d => !d.isReserved) (es.filter fun d => !d.isReserved) := by
  induction h with
  | nil => exact .nil
  | cons d rest ih =>
    rw [List.filter_cons, List.filter_cons]
    split
    · exact .cons d ih
    · exact ih
  | package name children rest ihc ih =>
    simp only [List.filter_cons, Declaration.isReserved]
    split
    · exact .package name children ih
    · exact ih
  | message own nested rest ihc ih =>
    simp only [List.filter_cons, Declaration.isReserved, Bool.not_false, if_true]
    exact .message own nested ih
  | swap d e ds =>
    simp only [List.filter_cons]
    split
    · split
      · exact .swap d e _
      · exact .refl _
    · exact .refl _
  | trans first second ih ih' => exact ih.trans ih'

end Reordering

/-- A schema with reordered declarations has the same items, in another order. -/
theorem Reordering.tree_items_perm {t : Tree} {ds : List Declaration}
    (h : Reordering t.declarations ds) : t.items ~ { t with declarations := ds }.items :=
  h.filter_isReserved.items_perm.1

end Schema

namespace Sdl

open Schema
open scoped List

/-- The well-known types that the item uses and none of the earlier items does, in the order
of first use. -/
def newUses (earlier : List Item) (i : Item) : List (String × WellKnownType) :=
  ((wellKnownUses i).filter fun u => !(earlier.flatMap wellKnownUses).contains u).eraseDups

/-- The type names that the items claim after the earlier ones: those that an item declares
come first, then those of the well-known types that it is the first one to use. -/
def claimedNames (earlier : List Item) : List Item → List Name
  | [] => []
  | i :: rest =>
    declaredNames i ++ (newUses earlier i).map (fun u => .text u.2.name) ++
      claimedNames (earlier ++ [i]) rest

/-! ## The list of claims -/

/-- Acts that take nothing claim what they use first. -/
theorem claims_of_actTakes_eq_nil {acts : List Act} (h : actTakes acts = [])
    (known : List String) :
    claims known acts = (firstUses known acts).map fun u => .text u.2.name := by
  induction acts generalizing known with
  | nil => rfl
  | cons a acts ih =>
    cases a with
    | take n => cases h
    | root r => exact ih h known
    | use n =>
      simp only [claims, firstUses]
      cases wellKnown? n.shown with
      | none => exact ih h known
      | some w =>
        dsimp only
        split
        · exact ih h known
        · rw [List.map_cons, ih h]

theorem mem_wellKnownTypes_of_mem_wellKnownUses {i : Item} {u : String × WellKnownType}
    (h : u ∈ wellKnownUses i) : u ∈ wellKnownTypes := by
  obtain ⟨n, -, hn⟩ := List.mem_filterMap.mp h
  exact ((wellKnownUse?_eq_some_iff_text n u).mp hn).2

/-- The ledger knows the key of a well-known type once an item has used it. -/
theorem contains_keys_after {earlier : List Item} {u : String × WellKnownType}
    (hu : u ∈ wellKnownTypes) :
    (({} : Ledger).after (earlier.flatMap actsOf)).keys.contains u.1 =
      (earlier.flatMap wellKnownUses).contains u := by
  rw [(declared_after _ _).1, List.append_nil, firstUses_treeActs, Bool.eq_iff_iff,
    List.contains_iff_mem, List.contains_iff_mem, List.mem_reverse, List.mem_map, usedInOrder]
  constructor
  · rintro ⟨v, hv, he⟩
    rw [List.mem_eraseDups] at hv
    obtain ⟨i, -, hi⟩ := List.mem_flatMap.mp hv
    -- A key stands for one type.
    have hv' := mem_wellKnownTypes_of_mem_wellKnownUses hi
    exact List.inj_on_of_nodup_map nodup_wellKnownTypes hv' hu he ▸ hv
  · exact fun h => ⟨u, List.mem_eraseDups.mpr h, rfl⟩

/-- What an item claims after the earlier ones. -/
theorem claims_actsOf (earlier : List Item) (i : Item) :
    claims (({} : Ledger).after (earlier.flatMap actsOf)).keys (actsOf i) =
      declaredNames i ++ (newUses earlier i).map fun u => .text u.2.name := by
  have htakes : actTakes ((usedNames i).map .use ++ (servedRoots i).map .root) = [] := by
    simp [actTakes, List.filterMap_append, List.filterMap_map]
  have huses : actUses ((usedNames i).map .use ++ (servedRoots i).map .root) = usedNames i := by
    simp [actUses, List.filterMap_append, List.filterMap_map]
  rw [actsOf, List.append_assoc, claims_takes_append, claims_of_actTakes_eq_nil htakes,
    firstUses_eq, huses]
  have hknown : ∀ u ∈ wellKnownUses i,
      (!(({} : Ledger).after (earlier.flatMap actsOf)).keys.contains u.1) =
        !(earlier.flatMap wellKnownUses).contains u := by
    intro u hu
    rw [contains_keys_after (mem_wellKnownTypes_of_mem_wellKnownUses hu)]
  exact congrArg (declaredNames i ++ List.map _ ·.eraseDups) (List.filter_congr hknown)

/-- The ledger meets the claims of the items in the order of the list. -/
theorem claims_flatMap_actsOf (earlier items : List Item) :
    claims (({} : Ledger).after (earlier.flatMap actsOf)).keys (items.flatMap actsOf) =
      claimedNames earlier items := by
  induction items generalizing earlier with
  | nil => rfl
  | cons i items ih =>
    rw [List.flatMap_cons, claims_append, claims_actsOf, ← Ledger.after_concat, ih, claimedNames]

theorem claims_treeActs (t : Tree) : claims [] (treeActs t) = claimedNames [] t.items :=
  claims_flatMap_actsOf [] t.items

/-! ## The name that is reported -/

/-- The first repeated name is the one that is not new after names of which none repeats. -/
theorem firstRepeat_eq_some_iff (taken names : List Name) (n : Name) :
    firstRepeat taken names = some n ↔
      ∃ before after, names = before ++ n :: after ∧ firstRepeat taken before = none ∧
        n ∈ taken ++ before := by
  constructor
  · intro h
    induction names generalizing taken with
    | nil => cases h
    | cons m names ih =>
      rw [firstRepeat] at h
      split at h
      · rename_i hm
        obtain rfl := Option.some.inj h
        exact ⟨[], names, rfl, rfl, by simpa using hm⟩
      · rename_i hm
        obtain ⟨before, after, rfl, hnone, hn⟩ := ih _ h
        refine ⟨m :: before, after, rfl, ?_, by simpa using hn⟩
        rw [firstRepeat, if_neg hm, hnone]
  · rintro ⟨before, after, rfl, hnone, hn⟩
    rw [firstRepeat_append, hnone, Option.none_or, firstRepeat, if_pos hn]

theorem firstRepeat_nil_eq_some_iff (names : List Name) (n : Name) :
    firstRepeat [] names = some n ↔
      ∃ before after, names = before ++ n :: after ∧ before.Nodup ∧ n ∈ before := by
  simp only [firstRepeat_eq_some_iff, firstRepeat_nil_eq_none_iff, List.nil_append]

/-! ## Schemas that are not refused -/

/-- A schema is converted exactly when its dialect is supported, all of it can be emitted, and
it needs no name twice. -/
theorem toDocument_ok_iff (t : Tree) :
    (∃ o, t.toDocument = .ok o) ↔
      isSupported t.dialect = true ∧ (∀ i ∈ t.items, IsEmittable i) ∧
        (neededNames t.items).Nodup := by
  constructor
  · rintro ⟨o, h⟩
    obtain ⟨hd, ht, hclaims, -⟩ := of_toDocument_eq h
    exact ⟨hd, ht, (nodup_claims_iff t).mp hclaims⟩
  · rintro ⟨hd, ht, hneeded⟩
    rw [toDocument_eq hd ht,
      (firstRepeat_nil_eq_none_iff _).mpr ((nodup_claims_iff t).mpr hneeded)]
    exact ⟨_, rfl⟩

/-- Items in another order need the same names. -/
theorem neededNames_perm {items others : List Item} (h : items ~ others) :
    neededNames items ~ neededNames others := by
  have hused : usedWellKnown items = usedWellKnown others := by
    refine List.filter_congr fun u _ => ?_
    exact (h.flatMap_right usedNames).any_eq
  unfold neededNames
  rw [hused]
  exact ((h.flatMap_right declaredNames).map Name.shown).append_right _

/-- Whether a schema is converted does not depend on the order of its declarations. -/
theorem toDocument_ok_iff_of_reordering {t : Tree} {ds : List Declaration}
    (h : Reordering t.declarations ds) :
    (∃ o, { t with declarations := ds }.toDocument = .ok o) ↔ ∃ o, t.toDocument = .ok o := by
  have hitems := h.tree_items_perm
  rw [toDocument_ok_iff, toDocument_ok_iff, (neededNames_perm hitems).nodup_iff]
  simp only [hitems.mem_iff]

/-- A schema that can be emitted is refused exactly when its claims repeat a name, with the
first name that repeats an earlier one, and is converted otherwise. The order of siblings
does not decide on the refusal. -/
theorem refused_iff_claimed_twice {t : Tree} (hd : isSupported t.dialect = true)
    (ht : ∀ i ∈ t.items, IsEmittable i) :
    (∀ n, t.toDocument = .error (.duplicateType n) ↔
      ∃ before after, claimedNames [] t.items = before ++ n :: after ∧
        before.Nodup ∧ n ∈ before) ∧
    ((∃ n, t.toDocument = .error (.duplicateType n)) ↔ ¬ (claimedNames [] t.items).Nodup) ∧
    ((∃ o, t.toDocument = .ok o) ↔ (claimedNames [] t.items).Nodup) ∧
    ∀ ds, Reordering t.declarations ds →
      ((∃ o, { t with declarations := ds }.toDocument = .ok o) ↔ ∃ o, t.toDocument = .ok o) := by
  have hrun := toDocument_eq hd ht
  rw [claims_treeActs] at hrun
  refine ⟨fun n => ?_, ?_, ?_, fun ds h => toDocument_ok_iff_of_reordering h⟩
  · rw [← firstRepeat_nil_eq_some_iff, hrun]
    cases firstRepeat [] (claimedNames [] t.items) <;> simp
  · rw [← firstRepeat_nil_eq_none_iff, hrun]
    cases firstRepeat [] (claimedNames [] t.items) <;> simp
  · rw [← firstRepeat_nil_eq_none_iff, hrun]
    cases firstRepeat [] (claimedNames [] t.items) <;> simp

/-- A message that uses the well-known type of whose name another message is, and two
enumerations of one name. -/
def diaryTree : Tree :=
  { dialect := "proto3",
    declarations := [.package "diary" [
      .message
        { name := "Entry", fields := [{ name := "at", typeName := "google.protobuf.Timestamp" }] }
        [.enumeration { name := "Mood" }],
      .message { name := "Timestamp" } [],
      .enumeration { name := "Mood" }]] }

/-- The declarations of the diary, with the last two of its package in the other order. -/
def diaryReordered : List Declaration :=
  [.package "diary" [
    .message
      { name := "Entry", fields := [{ name := "at", typeName := "google.protobuf.Timestamp" }] }
      [.enumeration { name := "Mood" }],
    .enumeration { name := "Mood" },
    .message { name := "Timestamp" } []]]

/-- The diary is refused for the short name of the well-known type, and it is refused in the
other order too, there for the name of the enumerations. -/
theorem refused_iff_claimed_twice_diaryTree :
    isSupported diaryTree.dialect = true ∧ (∀ i ∈ diaryTree.items, IsEmittable i) ∧
      diaryTree.toDocument = .error (.duplicateType "Timestamp") ∧
      Reordering diaryTree.declarations diaryReordered ∧
      (¬ ∃ o, { diaryTree with declarations := diaryReordered }.toDocument = .ok o) ∧
      { diaryTree with declarations := diaryReordered }.toDocument =
        .error (.duplicateType "Mood") := by
  have hd : isSupported diaryTree.dialect = true := by decide
  have hitems : diaryTree.items =
      [.message { name := "Entry",
                  fields := [{ name := "at", typeName := "google.protobuf.Timestamp" }] },
       .enumeration { name := "Mood" }, .message { name := "Timestamp" },
       .enumeration { name := "Mood" }] := rfl
  have ht : ∀ i ∈ diaryTree.items, IsEmittable i := by
    rw [hitems]
    simp [IsEmittable, Name.isText]
  obtain ⟨hname, -, hok, horder⟩ := refused_iff_claimed_twice hd ht
  have hreordering : Reordering diaryTree.declarations diaryReordered :=
    .package "diary" (.cons _ (.swap _ _ [])) .nil
  have hclaims : claimedNames [] diaryTree.items =
      ["Entry", "EntryInput", "Timestamp", "Mood", "Timestamp", "TimestampInput", "Mood"] := by
    rw [hitems]
    decide +kernel
  refine ⟨hd, ht, ?_, hreordering, ?_, rfl⟩
  · rw [hname, hclaims]
    exact ⟨["Entry", "EntryInput", "Timestamp", "Mood"], ["TimestampInput", "Mood"], rfl,
      by decide, by decide⟩
  · rw [horder _ hreordering, hok, hclaims]
    decide

end Sdl

end ProtoSdl
