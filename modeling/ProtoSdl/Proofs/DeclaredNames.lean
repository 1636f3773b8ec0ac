import ProtoSdl.Proofs.DeclarationPlaces
import ProtoSdl.Proofs.FirstOccurrences
import ProtoSdl.Proofs.Imports
import ProtoSdl.Proofs.TypeChains

/-!
  Declared names — the name table told by the places of declarations

  A declaration has a full name and a chain, both joined from the names on the way to it. The
  table is made by a recursion that knows no places and carries a scope and a chain along:

    1. `names_of_set` — the table lists the declarations in the order of their places, each
       with its full name and its chain. Scope and chain stay in step because one more
       message around a declaration adds one name to both (`entry_below`).
    2. `find?_names_iff` — so a full name has the chain of the last declaration with it.
    3. `isNameable_set_iff` — a set has no table if some enumeration in a message has a name
       that is no text. It has declarations all the same (`exists_declaration_without_table`).

  `nameTable_of_declarations` puts this together. If no two declarations have the same full
  name, each of them is the last with its own, and the order of the files does not matter.
-/

namespace ProtoSdl.Descriptor

open scoped List

variable {place : List Slot} {d : Declared}

/-! ## The entries of a walk -/

/-- The entry of a declaration in a scope below a chain of messages. -/
def Lineage.entry (scope chain : String) (l : Lineage) : String × Name :=
  (l.names.foldl fullName scope, .text (chain ++ l.joined))

theorem names_below (outer : Name) (l : Lineage) : (l.below outer).names = outer :: l.names := rfl

theorem names_ne_nil (l : Lineage) : l.names.map Name.shown ≠ [] := by
  simp [Lineage.names]

theorem joined_below (outer : Name) (l : Lineage) :
    (l.below outer).joined = outer.shown ++ nestingSeparator ++ l.joined := by
  unfold Lineage.joined
  rw [names_below, List.map_cons, String.intercalate_cons_of_ne_nil (names_ne_nil l)]

/-- Scope and chain are kept in step: one more message around a declaration is one more name
in both. -/
theorem entry_below (scope chain : String) (outer : Name) (l : Lineage) :
    (l.below outer).entry scope chain =
      l.entry (fullName scope outer) (chain ++ outer.shown ++ nestingSeparator) := by
  unfold Lineage.entry
  rw [names_below, List.foldl_cons, joined_below, ← String.append_assoc, ← String.append_assoc]

theorem entry_of_name (scope chain : String) (name : Name) (isEnumeration : Bool) :
    Lineage.entry scope chain { above := [], name, isEnumeration } =
      (fullName scope name, .text (chain ++ name.shown)) := by
  have hjoined : Lineage.joined { above := [], name, isEnumeration } = name.shown :=
    String.intercalate_singleton
  unfold Lineage.entry
  rw [hjoined]
  rfl

theorem map_zipIdx {α β : Type} (f : α → β) (as : List α) :
    (as.zipIdx.map fun a => f a.1) = as.map f := by
  conv => rhs; rw [← List.zipIdx_map_fst 0 as]
  rw [List.map_map]
  rfl

theorem names_of_enumerations (scope chain : String) (es : List Enumeration) :
    enumerationNames scope chain es =
      (enumerationWalk es).map fun p => p.2.entry scope chain := by
  have hentries : ∀ e : Enumeration × Nat,
      Lineage.entry scope chain { above := [], name := e.1.name, isEnumeration := true } =
        (fullName scope e.1.name, .text (chain ++ e.1.name.shown)) := fun e =>
    entry_of_name scope chain e.1.name true
  unfold enumerationNames enumerationWalk
  rw [← map_zipIdx, List.map_map]
  exact List.map_congr_left fun e _ => (hentries e).symm

mutual

/-- The names of a message are the entries of its walk. -/
theorem names_of_message : ∀ (m : Message) (scope chain : String),
    m.names scope chain = m.walk.map fun p => p.2.entry scope chain
  | ⟨name, fields, nested, enumerations, oneofs, mapEntry⟩, scope, chain => by
    rw [Message.names, Message.walk, List.map_cons, entry_of_name, List.map_map,
      names_of_messages nested 0, names_of_enumerations, ← List.map_append]
    congr 2
    funext p
    exact (entry_below scope chain name p.2).symm

theorem names_of_messages : ∀ (ms : List Message) (i : Nat) (scope chain : String),
    messageNames scope chain ms = (messageWalk i ms).map fun p => p.2.entry scope chain
  | [], _, _, _ => rfl
  | m :: ms, i, scope, chain => by
    rw [messageNames, messageWalk, List.map_append, List.map_map, names_of_message m,
      names_of_messages ms (i + 1)]
    rfl

end

theorem foldl_fullName {names : List Name} (hne : names ≠ []) (scope : String) :
    names.foldl fullName scope = scope ++ "." ++ ".".intercalate (names.map Name.shown) := by
  induction names generalizing scope with
  | nil => exact absurd rfl hne
  | cons n names ih =>
    rw [List.foldl_cons]
    by_cases hnames : names = []
    · subst hnames
      exact congrArg (scope ++ "." ++ ·) String.intercalate_singleton.symm
    · rw [ih hnames, List.map_cons, String.intercalate_cons_of_ne_nil (by simpa using hnames),
        fullName]
      simp only [String.append_assoc]

/-- The full name in the scope of a file begins with the package. -/
theorem full_eq (f : File) (l : Lineage) :
    Declared.full { package := f.package, lineage := l } = l.names.foldl fullName f.scope := by
  rw [foldl_fullName (by simp [Lineage.names])]
  unfold Declared.full File.scope
  dsimp only
  by_cases hp : f.package = .text ""
  · rw [if_pos hp, if_pos hp, List.nil_append, String.empty_append]
  · rw [if_neg hp, if_neg hp, List.singleton_append,
      String.intercalate_cons_of_ne_nil (names_ne_nil l)]
    simp only [String.append_assoc]

theorem names_of_file (f : File) :
    f.names = f.walk.map fun p =>
      (Declared.full { package := f.package, lineage := p.2 }, p.2.chain) := by
  unfold File.names File.walk
  rw [List.map_append, names_of_messages f.messages 0]
  congr 1
  · apply List.map_congr_left
    intro p hp
    have hchain : p.2.chain = .text p.2.joined := if_neg (not_top_of_mem_messageWalk hp)
    rw [full_eq, hchain, Lineage.entry, String.empty_append]
  · unfold enumerationWalk topEnumerationNames
    rw [← map_zipIdx, List.map_map]
    apply List.map_congr_left
    intro e he
    show _ = (Declared.full _, Lineage.chain _)
    rw [full_eq]
    rfl

/-- The table of a set lists what the walk meets. -/
theorem names_of_set (s : Set) : s.names = s.walk.map fun p => (p.2.full, p.2.lineage.chain) := by
  unfold Set.names Set.walk
  rw [List.map_flatMap, List.flatMap_def, List.flatMap_def, ← map_zipIdx]
  congr 2
  funext f
  rw [names_of_file, List.map_map]
  rfl

/-! ## Look-ups -/

/-- Whether the declaration is in the set, and no later one has its full name. -/
def Set.DeclaresLast (s : Set) (d : Declared) : Prop :=
  ∃ place, s.at? place = some d ∧
    ∀ other e, s.at? other = some e → e.full = d.full → other = place ∨ other < place

/-- A full name has the chain of the last declaration with this name, and no other. -/
theorem find?_names_iff (s : Set) (full : String) (name : Name) :
    s.names.find? full = some name ↔
      ∃ d, s.DeclaresLast d ∧ d.full = full ∧ d.lineage.chain = name := by
  have hordered := isOrdered_setWalk s
  rw [names_of_set, NameTable.find?_eq_some_iff]
  constructor
  · rintro ⟨before, after, hsplit, hafter⟩
    obtain ⟨first, rest, hwalk, -, hrest⟩ := List.map_eq_append_iff.mp hsplit
    obtain ⟨⟨place, d⟩, later, rfl, hd, rfl⟩ := List.map_eq_cons_iff.mp hrest
    obtain ⟨rfl, rfl⟩ := Prod.mk.inj hd
    refine ⟨d, ⟨place, (mem_setWalk s).mp (by simp [hwalk]), fun other e he hfull => ?_⟩, rfl, rfl⟩
    -- It is met before the declaration, or it is the declaration, since none comes later.
    have hmem := (mem_setWalk s).mpr he
    rw [hwalk] at hmem hordered
    rcases List.mem_append.mp hmem with hmem | hmem
    · exact .inr ((List.pairwise_append.mp hordered).2.2 _ hmem _ List.mem_cons_self)
    · rcases List.mem_cons.mp hmem with heq | hmem
      · exact .inl (congrArg Prod.fst heq)
      · exact absurd hfull (hafter _ (List.mem_map_of_mem hmem))
  · rintro ⟨d, ⟨place, hat, hlast⟩, rfl, rfl⟩
    obtain ⟨before, after, hsplit⟩ := List.append_of_mem ((mem_setWalk s).mpr hat)
    rw [hsplit] at hordered
    refine ⟨before.map _, after.map _, by rw [hsplit, List.map_append, List.map_cons], ?_⟩
    rintro p hp hfull
    obtain ⟨⟨other, e⟩, he, rfl⟩ := List.mem_map.mp hp
    have hlt : place < other :=
      List.rel_of_pairwise_cons (List.pairwise_append.mp hordered).2.1 he
    have hat' : s.at? other = some e := (mem_setWalk s).mp (by simp [hsplit, he])
    rcases hlast other e hat' hfull with rfl | hlt'
    · exact place_asymm hlt hlt
    · exact place_asymm hlt hlt'

/-- The full names that can be looked up are those of the declarations. -/
theorem isSome_find?_names_iff (s : Set) (full : String) :
    (s.names.find? full).isSome = true ↔ ∃ place d, s.at? place = some d ∧ d.full = full := by
  rw [NameTable.isSome_find?_iff, names_of_set, List.map_map, List.mem_map]
  constructor
  · rintro ⟨⟨place, d⟩, hd, hfull⟩
    exact ⟨place, d, (mem_setWalk s).mp hd, hfull⟩
  · rintro ⟨place, d, hat, hfull⟩
    exact ⟨(place, d), (mem_setWalk s).mpr hat, hfull⟩

/-- The entries of a table are its look-ups. -/
theorem mem_entries_iff {t : NameTable} {full : String} {name : Name} :
    (full, name) ∈ t.entries ↔ t.find? full = some name := by
  unfold NameTable.entries
  rw [List.mem_filterMap]
  constructor
  · rintro ⟨key, -, hkey⟩
    obtain ⟨short, hshort, heq⟩ := Option.map_eq_some_iff.mp hkey
    cases heq
    exact hshort
  · intro h
    have hkey : full ∈ t.map Prod.fst := NameTable.isSome_find?_iff.mp (by rw [h]; rfl)
    refine ⟨full, ?_, by rw [h]; rfl⟩
    rw [List.mem_mergeSort, List.mem_eraseDups]
    exact hkey

/-- No full name has two entries. -/
theorem nodup_entries (t : NameTable) : (t.entries.map Prod.fst).Nodup := by
  unfold NameTable.entries
  rw [List.Nodup, List.pairwise_map]
  have hkeys : ((t.map Prod.fst).eraseDups.mergeSort fun a b => decide (a ≤ b)).Nodup :=
    List.nodup_mergeSort.mpr (nodup_eraseDups _)
  refine List.Pairwise.filterMap _ (fun key key' hne p hp q hq => ?_) hkeys
  obtain ⟨-, -, rfl⟩ := Option.map_eq_some_iff.mp hp
  obtain ⟨-, -, rfl⟩ := Option.map_eq_some_iff.mp hq
  exact hne

/-! ## Sets without a table -/

/-- Whether the declaration is an enumeration in a message, and its name is no text. -/
def Lineage.IsUnjoinable (l : Lineage) : Prop :=
  l.isEnumeration = true ∧ l.above ≠ [] ∧ l.name.isText = false

mutual

theorem isNameable_iff : ∀ m : Message,
    m.isNameable = true ↔ ∀ p ∈ m.walk, p.2.isEnumeration = true → p.2.name.isText = true
  | ⟨name, fields, nested, enumerations, oneofs, mapEntry⟩ => by
    rw [Message.isNameable, Message.walk, Bool.and_eq_true, nestedNameable_iff nested 0,
      List.all_eq_true, List.forall_mem_cons, List.forall_mem_map, List.forall_mem_append]
    have henums : (∀ e ∈ enumerations, e.name.isText = true) ↔
        ∀ p ∈ enumerationWalk enumerations, p.2.isEnumeration = true → p.2.name.isText = true := by
      unfold enumerationWalk
      rw [List.forall_mem_map]
      conv => lhs; rw [← List.zipIdx_map_fst 0 enumerations]
      rw [List.forall_mem_map]
      exact ⟨fun h e he _ => h e he, fun h e he => h e he rfl⟩
    rw [henums]
    simp [Lineage.below]

theorem nestedNameable_iff : ∀ (ms : List Message) (i : Nat),
    nestedNameable ms = true ↔
      ∀ p ∈ messageWalk i ms, p.2.isEnumeration = true → p.2.name.isText = true
  | [], _ => by simp [nestedNameable, messageWalk]
  | m :: ms, i => by
    rw [nestedNameable, messageWalk, Bool.and_eq_true, isNameable_iff m,
      nestedNameable_iff ms (i + 1), List.forall_mem_append, List.forall_mem_map]
    rfl

end

theorem nestedNameable_file_iff (f : File) :
    nestedNameable f.messages = true ↔ ∀ p ∈ f.walk, ¬ p.2.IsUnjoinable := by
  unfold File.walk
  rw [nestedNameable_iff f.messages 0, List.forall_mem_append]
  constructor
  · intro h
    refine ⟨fun p hp hu => ?_, fun p hp hu => ?_⟩
    · exact absurd (h p hp hu.1) (by simp [hu.2.2])
    · obtain ⟨i, e, -, -, hl⟩ := (mem_enumerationWalk f.enumerations).mp hp
      exact hu.2.1 (by rw [hl])
  · intro h p hp henum
    rw [← Bool.not_eq_false]
    intro hname
    exact h.1 p hp ⟨henum, fun habove => not_top_of_mem_messageWalk hp ⟨henum, habove⟩, hname⟩

/-- A set has a table unless some enumeration in a message has a name that is no text. -/
theorem isNameable_set_iff (s : Set) :
    s.isNameable = true ↔ ∀ place d, s.at? place = some d → ¬ d.lineage.IsUnjoinable := by
  unfold Set.isNameable
  rw [List.all_eq_true]
  constructor
  · intro h place d hat
    obtain ⟨⟨f, i⟩, hf, hd⟩ := List.mem_flatMap.mp ((mem_setWalk s).mpr hat)
    obtain ⟨⟨rest, l⟩, hl, heq⟩ := List.mem_map.mp hd
    cases heq
    have hmem : f ∈ s.files := List.mem_of_getElem? (List.mem_zipIdx_iff_getElem?.mp hf)
    exact (nestedNameable_file_iff f).mp (h f hmem) _ hl
  · intro h f hf
    rw [nestedNameable_file_iff]
    rintro ⟨rest, l⟩ hl
    obtain ⟨i, hi⟩ := List.mem_iff_getElem?.mp hf
    apply h (.file i :: rest) { package := f.package, lineage := l }
    rw [← mem_setWalk]
    refine List.mem_flatMap.mpr ⟨(f, i), List.mem_zipIdx_iff_getElem?.mpr hi, ?_⟩
    exact List.mem_map.mpr ⟨_, hl, rfl⟩

/-! ## Distinct full names -/

/-- Whether no two declarations of the set have the same full name. -/
def Set.IsUnambiguous (s : Set) : Prop :=
  ∀ place other d e, s.at? place = some d → s.at? other = some e → d.full = e.full → place = other

/-- The declarations differ in their full names exactly if the table repeats none. -/
theorem isUnambiguous_iff (s : Set) : s.IsUnambiguous ↔ (s.names.map Prod.fst).Nodup := by
  rw [names_of_set, List.map_map]
  constructor
  · intro h
    rw [List.Nodup, List.pairwise_map]
    refine (isOrdered_setWalk s).imp_of_mem fun {p q} hp hq hlt hfull => ?_
    have hplace := h p.1 q.1 p.2 q.2 ((mem_setWalk s).mp hp) ((mem_setWalk s).mp hq) hfull
    rw [hplace] at hlt
    exact place_asymm hlt hlt
  · intro h place other d e hd he hfull
    have hsame := List.inj_on_of_nodup_map h ((mem_setWalk s).mpr hd) ((mem_setWalk s).mpr he) hfull
    exact congrArg Prod.fst hsame

/-- In whatever order the files come, distinct full names have their own chains. -/
theorem find?_of_perm {s s' : Set} (h : s.IsUnambiguous) (hs : s'.files ~ s.files)
    {place : List Slot} {d : Declared} (hat : s.at? place = some d) :
    s'.names.find? d.full = some d.lineage.chain := by
  have hnames : s'.names ~ s.names := hs.flatMap_right File.names
  apply find?_of_mem
  · exact (hnames.map Prod.fst).nodup_iff.mpr ((isUnambiguous_iff s).mp h)
  · rw [hnames.mem_iff, names_of_set]
    exact List.mem_map.mpr ⟨_, (mem_setWalk s).mpr hat, rfl⟩

/-- There is no table exactly if an enumeration in a message has a name that is no text. Else
the table has the full names of all declarations, map entries among them, and of nothing else;
each full name has the chain of the last declaration with this name in the order of places. The
entries of the table are its look-ups, each full name once. If the full names are distinct, every
declaration is found with its own chain, in whatever order the files come. -/
theorem nameTable_of_declarations (s : Set) :
    (∀ f, s.nameTable = .error f ↔
      f = .enumerationNotText ∧ ∃ place d, s.at? place = some d ∧ d.lineage.IsUnjoinable) ∧
    ∀ table, s.nameTable = .ok table →
      (∀ full, (table.find? full).isSome = true ↔
        ∃ place d, s.at? place = some d ∧ d.full = full) ∧
      (∀ full name, table.find? full = some name ↔
        ∃ d, s.DeclaresLast d ∧ d.full = full ∧ d.lineage.chain = name) ∧
      (∀ full name, (full, name) ∈ table.entries ↔ table.find? full = some name) ∧
      (table.entries.map Prod.fst).Nodup ∧
      (s.IsUnambiguous → ∀ s' : Set, s'.files ~ s.files →
        ∃ table', s'.nameTable = .ok table' ∧ ∀ place d, s.at? place = some d →
          table'.find? d.full = some d.lineage.chain) := by
  have hnameable := isNameable_set_iff s
  unfold Set.nameTable
  refine ⟨fun f => ?_, fun table htable => ?_⟩
  · by_cases hs : s.isNameable = true
    · rw [if_pos hs]
      refine ⟨nofun, ?_⟩
      rintro ⟨-, place, d, hat, hu⟩
      exact absurd hu (hnameable.mp hs place d hat)
    · rw [if_neg hs]
      have hexists : ∃ place d, s.at? place = some d ∧ d.lineage.IsUnjoinable := by
        rw [hnameable] at hs
        push Not at hs
        exact hs
      exact ⟨fun h => ⟨(Except.error.inj h).symm, hexists⟩, fun h => congrArg _ h.1.symm⟩
  · by_cases hs : s.isNameable = true
    · rw [if_pos hs] at htable
      obtain rfl := Except.ok.inj htable
      refine ⟨isSome_find?_names_iff s, find?_names_iff s, fun _ _ => mem_entries_iff,
        nodup_entries s.names, fun hdistinct s' hperm => ⟨s'.names, ?_, ?_⟩⟩
      · have hs' : s'.isNameable = true := hperm.all_eq.trans hs
        exact if_pos hs'
      · exact fun place d hat => find?_of_perm hdistinct hperm hat
    · rw [if_neg hs] at htable
      cases htable

def lampFile : File :=
  { name := "lamp.proto", package := "shop.desk", messages := [{ name := "Lamp" }] }

/-- A message by the name of a package, and a map entry in it. -/
def deskFile : File :=
  { name := "desk.proto", package := "shop",
    messages := [{ name := "desk",
                   nested := [{ name := "Lamp" }, { name := "LampsEntry", mapEntry := some true }],
                   enumerations := [{ name := "Wood" }] }] }

def toolFile : File :=
  { name := "tool.proto", package := "shop", messages := [{ name := "Lamp" }] }

/-- A message in a package and a message in a message have one full name, and the file that comes
later decides on its chain. -/
theorem nameTable_of_declarations_lampFile :
    (∃ d, Set.DeclaresLast ⟨[lampFile, deskFile]⟩ d ∧ d.full = ".shop.desk.Lamp" ∧
        d.lineage.chain = .text "desk_Lamp") ∧
      (∃ d, Set.DeclaresLast ⟨[deskFile, lampFile]⟩ d ∧ d.full = ".shop.desk.Lamp" ∧
        d.lineage.chain = .text "Lamp") ∧
      Set.IsUnambiguous ⟨[deskFile, toolFile]⟩ ∧
      ∃ table, Set.nameTable ⟨[toolFile, deskFile]⟩ = .ok table ∧
        table.find? ".shop.desk.LampsEntry" = some (.text "desk_LampsEntry") := by
  have hdistinct : Set.IsUnambiguous ⟨[deskFile, toolFile]⟩ :=
    (isUnambiguous_iff _).mpr (by decide +kernel)
  obtain ⟨-, hfirst⟩ := nameTable_of_declarations ⟨[lampFile, deskFile]⟩
  obtain ⟨-, hlast, -⟩ := hfirst _ rfl
  obtain ⟨-, hsecond⟩ := nameTable_of_declarations ⟨[deskFile, lampFile]⟩
  obtain ⟨-, hother, -⟩ := hsecond _ rfl
  obtain ⟨-, hthird⟩ := nameTable_of_declarations ⟨[deskFile, toolFile]⟩
  obtain ⟨-, -, -, -, horder⟩ := hthird _ rfl
  obtain ⟨table, htable, hown⟩ :=
    horder hdistinct ⟨[toolFile, deskFile]⟩ (List.Perm.swap deskFile toolFile [])
  exact ⟨(hlast ".shop.desk.Lamp" _).mp (by decide +kernel),
    (hother ".shop.desk.Lamp" _).mp (by decide +kernel), hdistinct, table, htable,
    hown [.file 0, .message 0, .message 1]
      ⟨.text "shop", [.text "desk"], .text "LampsEntry", false⟩ rfl⟩

/-- A set can declare a message and have no table to list it. -/
theorem exists_declaration_without_table :
    ∃ (s : Set) (place : List Slot) (d : Declared),
      s.at? place = some d ∧ d.full = ".glyph.Glyph" ∧ s.nameTable = .error .enumerationNotText :=
  ⟨⟨[glyphFile]⟩, [.file 0, .message 0], ⟨.text "glyph", [], .text "Glyph", false⟩, rfl,
    by decide +kernel, rfl⟩

end ProtoSdl.Descriptor
