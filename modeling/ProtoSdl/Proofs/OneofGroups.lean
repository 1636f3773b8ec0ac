import ProtoSdl.Proofs.Contents
import ProtoSdl.Proofs.PrintedReferences
import Mathlib.Data.List.Forall2

/-!
  Oneof groups — from the fields that point to a group to the lines that show it

  A descriptor keeps the membership with the fields, as the position of a oneof declaration;
  a declared message keeps it with the groups, as the names of their fields. A document looks
  each name up among the fields again, to show its type. With distinct field names nothing is
  lost on either way:

    1. `Message.groups` pairs each oneof declaration with the fields that point to its
       position, and then drops the declarations without any. A declared message has these
       groups (`oneofs_of_declaration`), and each field is in the group that it points to
       and in no other one (`groups_of_member`, `groups_of_other`).
    2. `UnionLine.Shows` says what a union line shows of a group: an entry for each member,
       from the member's own field. `unions_show_groups` says it of the lines of a message's
       two objects.

  `oneofs_from_fields_to_lines` puts the two ways together.
-/

namespace ProtoSdl

namespace Sdl

open Schema

/-! ## Union lines -/

/-- What a union line has for a member: the type of the field of this name, as it stands on
the field's own line unless this is a list, a map, or the short name of a well-known type,
whose place is taken by the key. -/
def ShowsMember (m : Message) (lines : List FieldLine) (member : Name) (entry : String) : Prop :=
  ∃ (i : Nat) (f : Field) (line : FieldLine),
    m.fields[i]? = some f ∧ f.name = member ∧ m.field? member = some f ∧
      lines[i]? = some line ∧ line.name = fieldName member.shown ∧
      (f.isRepeated = false → f.isMap = false → wellKnown? f.typeName.shown = none →
        entry = line.type) ∧
      ∀ w, wellKnown? f.typeName.shown = some w → entry = f.typeName.shown

/-- Whether the union line shows the group, with one entry for each member in order. -/
structure UnionLine.Shows (u : UnionLine) (m : Message) (lines : List FieldLine) (o : Oneof) :
    Prop where
  name : u.name = o.name.shown
  members : u.members = o.members.map Name.shown
  types : List.Forall₂ (ShowsMember m lines) o.members u.types

/-- The key of a well-known type is no scalar. -/
theorem typeName_of_wellKnown {s : String} {w : WellKnownType} (h : wellKnown? s = some w) :
    typeName s = s := by
  have hall : ∀ u ∈ wellKnownTypes, u.1 ∉ scalars.map Prod.fst := by decide +kernel
  exact typeName_of_not_scalar (hall (s, w) ((wellKnown?_eq_some_iff s w).mp h))

/-- With distinct names a field is found by its own name. -/
theorem field?_of_getElem? {m : Message} (hnames : (m.fields.map Field.name).Nodup) {i : Nat}
    {f : Field} (h : m.fields[i]? = some f) : m.field? f.name = some f := by
  have hmem := List.mem_of_getElem? h
  cases hfind : m.field? f.name with
  | none =>
    have hnot := List.find?_eq_none.mp hfind f hmem
    exact absurd (beq_self_eq_true f.name) hnot
  | some g =>
    unfold Message.field? at hfind
    have hname := List.find?_some hfind
    rw [beq_iff_eq] at hname
    rw [List.inj_on_of_nodup_map hnames (List.mem_of_find?_eq_some hfind) hmem hname]

theorem showsMember {m : Message} (hnames : (m.fields.map Field.name).Nodup) {member : Name}
    (h : member ∈ m.fields.map Field.name) :
    ShowsMember m (m.fields.map printedField) member (memberType m member) := by
  obtain ⟨f, hf, rfl⟩ := List.mem_map.mp h
  obtain ⟨i, hi⟩ := List.mem_iff_getElem?.mp hf
  have hfield := field?_of_getElem? hnames hi
  have hentry : memberType m f.name = typeName f.typeName.shown := by
    unfold memberType
    rw [hfield]
    rfl
  refine ⟨i, f, printedField f, hi, rfl, hfield, ?_, rfl, ?_, ?_⟩
  · rw [List.getElem?_map, hi]
    rfl
  · intro hrepeated hmap hw
    rw [hentry]
    unfold printedField printedType printedName
    rw [hmap, hrepeated, hw]
    rfl
  · intro w hw
    rw [hentry, typeName_of_wellKnown hw]

/-- The two objects of a message have the same lines, and among them a union line for each
group of the message. -/
theorem unions_show_groups {m : Message} (hnames : (m.fields.map Field.name).Nodup)
    (hmembers : ∀ o ∈ m.oneofs, ∀ n ∈ o.members, n ∈ m.fields.map Field.name) {l l' : Ledger}
    {bs : List Block} (h : messageBlocks m l = .ok bs l') :
    ∃ (lines : List FieldLine) (unions : List UnionLine),
      bs = [.object .type m.name.shown lines unions,
            .object .input (m.name.shown ++ "Input") lines unions] ∧
        List.Forall₂ (fun o u => u.Shows m lines o) m.oneofs unions := by
  obtain ⟨rfl, -⟩ := (Follows.messageBlocks m).eq_of_ok h
  refine ⟨_, _, rfl, ?_⟩
  rw [List.forall₂_map_right_iff, List.forall₂_same]
  intro o ho
  refine ⟨rfl, rfl, ?_⟩
  show List.Forall₂ _ o.members (o.members.map (memberType m))
  rw [List.forall₂_map_right_iff, List.forall₂_same]
  exact fun n hn => showsMember hnames (hmembers o ho n hn)

end Sdl

namespace Descriptor

open Schema (Declaration Oneof)
open Sdl (Ledger Block messageBlocks FieldLine UnionLine)

/-! ## Groups of fields -/

/-- Whether the field is a member of the oneof declaration at this position: it points there,
and not only because it records its presence. -/
def Field.IsMember (f : Field) (k : Nat) : Prop :=
  f.oneofIndex = some (k : Int) ∧ f.isProto3Optional = false

instance (f : Field) (k : Nat) : Decidable (f.IsMember k) := inferInstanceAs (Decidable (_ ∧ _))

/-- The group of a oneof declaration, with its position; none without members. -/
def group? (fields : List Field) (declared : Name × Nat) : Option Oneof :=
  match fields.filter (·.IsMember declared.2) with
  | [] => none
  | f :: rest => some { name := declared.1, members := (f :: rest).map Field.name }

/-- The groups of a message, in the order of the oneof declarations. -/
def Message.groups (m : Message) : List Oneof := m.oneofs.zipIdx.filterMap (group? m.fields)

theorem group?_eq_some_iff {fields : List Field} {declared : Name × Nat} {o : Oneof} :
    group? fields declared = some o ↔
      o = { name := declared.1,
            members := (fields.filter (·.IsMember declared.2)).map Field.name } ∧
        ∃ f ∈ fields, f.IsMember declared.2 := by
  unfold group?
  cases hfs : fields.filter (·.IsMember declared.2) with
  | nil =>
    refine ⟨nofun, ?_⟩
    rintro ⟨-, f, hf, hk⟩
    rw [List.filter_eq_nil_iff] at hfs
    exact absurd (decide_eq_true hk) (hfs f hf)
  | cons g rest =>
    have hg : g ∈ fields.filter (·.IsMember declared.2) := hfs ▸ List.mem_cons_self
    obtain ⟨hg, hk⟩ := List.mem_filter.mp hg
    refine ⟨fun h => ⟨(Option.some.inj h).symm, g, hg, of_decide_eq_true hk⟩, ?_⟩
    rintro ⟨rfl, -⟩
    rfl

theorem groupMembers_eq (fields : List Field) (k : Nat) :
    groupMembers fields k = (fields.filter (·.IsMember k)).map Field.name := by
  unfold groupMembers
  congr 1
  refine List.filter_congr fun f _ => ?_
  unfold Field.group? Field.IsMember
  by_cases hoptional : f.isProto3Optional = true <;> simp [hoptional, Bool.beq_eq_decide_eq]

theorem groupsFrom_eq (fields : List Field) (index : Nat) (names : List Name) :
    groupsFrom fields index names = (names.zipIdx index).filterMap (group? fields) := by
  induction names generalizing index with
  | nil => rfl
  | cons name names ih =>
    rw [groupsFrom, groupMembers_eq, ih, List.zipIdx_cons, List.filterMap_cons]
    unfold group?
    cases fields.filter (·.IsMember index) <;> rfl

/-! ## One group for each member -/

/-- The names of the members of a group are those of fields that point to its position. -/
theorem mem_members_iff {fields : List Field} (hnames : (fields.map Field.name).Nodup)
    {declared : Name × Nat} {o : Oneof} (h : group? fields declared = some o) {f : Field}
    (hf : f ∈ fields) : f.name ∈ o.members ↔ f.IsMember declared.2 := by
  obtain ⟨rfl, -⟩ := group?_eq_some_iff.mp h
  rw [List.mem_map]
  constructor
  · rintro ⟨g, hg, hname⟩
    obtain ⟨hg, hk⟩ := List.mem_filter.mp hg
    -- Only the field itself has this name.
    obtain rfl := List.inj_on_of_nodup_map hnames hg hf hname
    exact of_decide_eq_true hk
  · exact fun hk => ⟨f, List.mem_filter.mpr ⟨hf, decide_eq_true hk⟩, rfl⟩

variable {m : Message} {f : Field}

theorem mem_fieldNames_of_mem_groups {o : Oneof} (ho : o ∈ m.groups) {n : Name}
    (hn : n ∈ o.members) : n ∈ m.fields.map Field.name := by
  obtain ⟨declared, -, hgroup⟩ := List.mem_filterMap.mp ho
  obtain ⟨rfl, -⟩ := group?_eq_some_iff.mp hgroup
  exact (List.filter_sublist.map Field.name).subset hn

/-- A field that is a member of no declaration is in no group. -/
theorem groups_of_other (hnames : (m.fields.map Field.name).Nodup) (hf : f ∈ m.fields)
    (hnone : ∀ k, ¬ f.IsMember k) : ∀ o ∈ m.groups, f.name ∉ o.members := by
  intro o ho hmem
  obtain ⟨declared, -, hgroup⟩ := List.mem_filterMap.mp ho
  exact hnone declared.2 ((mem_members_iff hnames hgroup hf).mp hmem)

/-- What is asked of a value can be asked of what it comes from. -/
theorem filter_filterMap_of_eq {α β : Type} {g : α → Option β} {p : β → Bool} {q : α → Bool}
    {as : List α} (h : ∀ a ∈ as, ∀ b, g a = some b → p b = q a) :
    (as.filterMap g).filter p = (as.filter q).filterMap g := by
  induction as with
  | nil => rfl
  | cons a as ih =>
    have hrest := ih fun c hc => h c (List.mem_cons_of_mem a hc)
    cases hg : g a with
    | none => by_cases hq : q a = true <;> simp [hg, hq, hrest]
    | some b =>
      have hp := h a List.mem_cons_self b hg
      by_cases hq : q a = true <;> simp [hg, hq, hp, hrest]

/-- A member of a declaration is in the group of this declaration, once, and in no other
group. -/
theorem groups_of_member (hnames : (m.fields.map Field.name).Nodup) (hf : f ∈ m.fields) {k : Nat}
    (hk : f.IsMember k) {name : Name} (hname : m.oneofs[k]? = some name) :
    ∃ members, m.groups.filter (fun o => f.name ∈ o.members) = [{ name, members }] ∧
      members.count f.name = 1 := by
  have hgroup : group? m.fields (name, k) =
      some { name, members := (m.fields.filter (·.IsMember k)).map Field.name } :=
    group?_eq_some_iff.mpr ⟨rfl, f, hf, hk⟩
  refine ⟨(m.fields.filter (·.IsMember k)).map Field.name, ?_, ?_⟩
  · have hpositions : (m.oneofs.zipIdx.filterMap fun d => some d.2).Nodup := by
      have hsnd : (m.oneofs.zipIdx.filterMap fun d => some d.2) = m.oneofs.zipIdx.map Prod.snd :=
        congrFun List.filterMap_eq_map _
      rw [hsnd, List.zipIdx_map_snd]
      exact List.nodup_range'
    have hmem : (name, k) ∈ m.oneofs.zipIdx := List.mem_zipIdx_iff_getElem?.mpr hname
    have hdeclared := filter_eq_singleton hpositions hmem rfl
    unfold Message.groups
    rw [filter_filterMap_of_eq (q := fun d => some d.2 = some k), hdeclared,
      List.filterMap_cons_some hgroup, List.filterMap_nil]
    -- The field points to one position only.
    intro d _ o ho
    have hmem := mem_members_iff hnames ho hf
    refine decide_eq_decide.mpr (hmem.trans ⟨fun hd => ?_, fun hd => ?_⟩)
    · have hindex : (d.2 : Int) = k := Option.some.inj (hd.1.symm.trans hk.1)
      exact congrArg some (by omega)
    · rw [Option.some.inj hd]
      exact hk
  · have hsub := (List.filter_sublist (p := fun g : Field => g.IsMember k)
      (l := m.fields)).map Field.name
    exact List.count_eq_one_of_mem (hnames.sublist hsub)
      (List.mem_map_of_mem (List.mem_filter.mpr ⟨hf, decide_eq_true hk⟩))

/-! ## Declared messages -/

/-- The groups that are declared are those of the message, and no member points outside. -/
theorem oneofGroups_eq_ok {groups : List Oneof} (h : oneofGroups m.fields m.oneofs = .ok groups) :
    groups = m.groups ∧ ∀ f ∈ m.fields, ∀ i, f.oneofIndex = some i → f.isProto3Optional = false →
      ∃ (k : Nat) (name : Name), i = k ∧ m.oneofs[k]? = some name := by
  unfold oneofGroups at h
  split at h
  · cases h
  · rename_i hrange
    cases h
    refine ⟨groupsFrom_eq m.fields 0 m.oneofs, fun f hf i hi hoptional => ?_⟩
    have hgroup : f.group? = some i := by
      unfold Field.group?
      rw [hoptional, hi]
      rfl
    have hinside := List.find?_eq_none.mp hrange i (List.mem_filterMap.mpr ⟨f, hf, hgroup⟩)
    rw [Bool.or_eq_true, not_or, decide_eq_true_eq, decide_eq_true_eq] at hinside
    obtain ⟨hlow, hhigh⟩ := hinside
    have hlt : i.toNat < m.oneofs.length := by omega
    exact ⟨i.toNat, m.oneofs[i.toNat], by omega, List.getElem?_eq_getElem hlt⟩

/-- The groups of a declared message. -/
theorem oneofs_of_declaration {c : Context} {scope : String} {path : List Int} {d : Declaration}
    (h : m.declaration c scope path = .ok d) :
    ∃ own nested, d = .message own nested ∧
      own.fields.map Schema.Field.name = m.fields.map Field.name ∧ own.oneofs = m.groups ∧
      ∀ f ∈ m.fields, ∀ i, f.oneofIndex = some i → f.isProto3Optional = false →
        ∃ (k : Nat) (name : Name), i = k ∧ m.oneofs[k]? = some name := by
  obtain ⟨inner, fields, oneofs, nested, -, hfields, honeofs, rfl, -⟩ :=
    Message.declaration_eq_ok h
  have houtline := congrArg (List.map Schema.FieldOutline.name)
    (outline_of_fieldDeclarations hfields)
  rw [List.map_map, List.map_map] at houtline
  obtain ⟨hgroups, hinside⟩ := oneofGroups_eq_ok honeofs
  exact ⟨_, nested, rfl, houtline, hgroups, hinside⟩

/-- A declared message with distinct field names has the groups of its descriptor: each oneof
declaration with a member, in order, with its members in the order of the fields. A member of
a declaration is in the group of it alone, and a field that only records its presence is in
none. Where the message is printed, the union line of each group has an entry for each member,
from the member's own field. -/
theorem oneofs_from_fields_to_lines {c : Context} {scope : String} {path : List Int}
    {d : Declaration} (h : m.declaration c scope path = .ok d)
    (hnames : (m.fields.map Field.name).Nodup) :
    ∃ own nested, d = .message own nested ∧ own.oneofs = m.groups ∧
      (∀ f ∈ m.fields, ∀ i, f.oneofIndex = some i → f.isProto3Optional = false →
        ∃ (k : Nat) (name : Name) (members : List Name), i = k ∧ m.oneofs[k]? = some name ∧
          own.oneofs.filter (fun o => f.name ∈ o.members) = [{ name, members }] ∧
          members.count f.name = 1) ∧
      (∀ f ∈ m.fields, f.oneofIndex = none ∨ f.isProto3Optional = true →
        ∀ o ∈ own.oneofs, f.name ∉ o.members) ∧
      ∀ (l l' : Ledger) (bs : List Block), messageBlocks own l = .ok bs l' →
        ∃ (lines : List FieldLine) (unions : List UnionLine),
          bs = [.object .type own.name.shown lines unions,
                .object .input (own.name.shown ++ "Input") lines unions] ∧
          List.Forall₂ (fun o u => u.Shows own lines o) own.oneofs unions ∧
          ∀ b ∈ bs, ∃ first, b.lines = first ::
            lines.map (fun k => "\t" ++ k.name ++ ": " ++ k.type) ++
            unions.flatMap (fun u =>
              ["\t# oneof " ++ u.name ++ ": " ++ ", ".intercalate u.members,
               "\t" ++ u.name ++ ": " ++ " | ".intercalate u.types]) ++ ["\x7d"] := by
  obtain ⟨own, nested, rfl, hfields, hgroups, hinside⟩ := oneofs_of_declaration h
  refine ⟨own, nested, rfl, hgroups, ?_, ?_, ?_⟩
  · intro f hf i hi hoptional
    obtain ⟨k, name, rfl, hname⟩ := hinside f hf i hi hoptional
    obtain ⟨members, hfilter, hcount⟩ := groups_of_member hnames hf ⟨hi, hoptional⟩ hname
    rw [hgroups]
    exact ⟨k, name, members, rfl, hname, hfilter, hcount⟩
  · intro f hf hother
    rw [hgroups]
    refine groups_of_other hnames hf fun k hk => ?_
    rcases hother with hnone | hoptional
    · exact absurd (hnone.symm.trans hk.1) nofun
    · exact absurd (hoptional.symm.trans hk.2) (by decide)
  · intro l l' bs hbs
    have hmembers : ∀ o ∈ own.oneofs, ∀ n ∈ o.members, n ∈ own.fields.map Schema.Field.name := by
      intro o ho n hn
      rw [hgroups] at ho
      rw [hfields]
      exact mem_fieldNames_of_mem_groups ho hn
    obtain ⟨lines, unions, rfl, hshows⟩ :=
      Sdl.unions_show_groups (hfields ▸ hnames) hmembers hbs
    refine ⟨lines, unions, rfl, hshows, fun b hb => ?_⟩
    rcases List.mem_cons.mp hb with rfl | hb
    · exact ⟨_, rfl⟩
    · obtain rfl := List.mem_singleton.mp hb
      exact ⟨_, rfl⟩

/-- A message with two groups, with members of the one around one of the other, with a field
that only records its presence, and with a oneof declaration without a field in between. -/
def memberMessage : Message :=
  { name := "Member",
    fields :=
      [{ name := "mail", number := 1, type := .string, oneofIndex := some 0 },
       { name := "nick", number := 2, type := .string, oneofIndex := some 1,
         isProto3Optional := true },
       { name := "since", number := 3, type := .message,
         typeName := ".google.protobuf.Timestamp", oneofIndex := some 3 },
       { name := "phone", number := 4, type := .uint64, oneofIndex := some 0 }],
    oneofs := ["contact", "_nick", "unused", "proof"] }

def memberDeclared : Schema.Message :=
  { name := "Member",
    fields := [{ name := "mail", typeName := "string" }, { name := "nick", typeName := "string" },
               { name := "since", typeName := "google.protobuf.Timestamp" },
               { name := "phone", typeName := "uint64" }],
    oneofs := [{ name := "contact", members := ["mail", "phone"] },
               { name := "proof", members := ["since"] }] }

theorem declaration_memberMessage :
    memberMessage.declaration ⟨[], []⟩ "" [4, 0] = .ok (.message memberDeclared []) := by
  have hdeclaration : memberMessage.declaration ⟨[], []⟩ "" [4, 0] =
      .ok (.message memberDeclared (inSourceOrder [] [])) := rfl
  rw [hdeclaration, inSourceOrder_nil]
  rfl

/-- The group after the empty one keeps its name, and its line shows the key of its member. -/
theorem oneofs_from_fields_to_lines_memberMessage :
    (memberMessage.fields.map Field.name).Nodup ∧
      memberMessage.declaration ⟨[], []⟩ "" [4, 0] = .ok (.message memberDeclared []) ∧
      memberMessage.groups = [{ name := "contact", members := ["mail", "phone"] },
                              { name := "proof", members := ["since"] }] ∧
      (∀ o ∈ memberDeclared.oneofs, .text "nick" ∉ o.members) ∧
      ∃ bs l' lines unions, messageBlocks memberDeclared {} = .ok bs l' ∧
        bs = [.object .type "Member" lines unions, .object .input "MemberInput" lines unions] ∧
        List.Forall₂ (fun o u => u.Shows memberDeclared lines o) memberDeclared.oneofs unions := by
  have hnames : (memberMessage.fields.map Field.name).Nodup := by decide
  obtain ⟨own, nested, hown, hgroups, -, hother, hprinted⟩ :=
    oneofs_from_fields_to_lines declaration_memberMessage hnames
  cases hown
  obtain ⟨bs, l', hbs⟩ : ∃ bs l', messageBlocks memberDeclared {} = .ok bs l' := ⟨_, _, rfl⟩
  obtain ⟨lines, unions, hobjects, hshows, -⟩ := hprinted _ _ _ hbs
  refine ⟨hnames, declaration_memberMessage, hgroups.symm, ?_, bs, l', lines, unions, hbs,
    hobjects, hshows⟩
  exact hother (memberMessage.fields.get ⟨1, by decide⟩) (List.get_mem _ _) (.inr rfl)

end Descriptor

end ProtoSdl
