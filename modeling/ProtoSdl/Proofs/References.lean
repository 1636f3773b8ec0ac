import ProtoSdl.Proofs.PrintedReferences

/-!
  References — within a document and across documents

  A document and the documents of the files that it imports are written apart, from
  different descriptor sets. A reference is written down with the table of one set,
  and the type that it means is declared with the table of another.
  `references_name_emitted_types` says that the two agree: whatever refers to an
  exported type of a file prints the name of the type's own block in the document of
  the file, and no other type in that document has this name.

  Both sides go through one name, the chain of the type (`exists_name_of_mem_exportedTypes`).
  It begins with an uppercase letter, so neither the scalars nor the well-known types
  change it on the way to the page.
-/

namespace ProtoSdl.Descriptor

open Schema (Tree)
open Sdl

/-- References to exported types name the types' own blocks. -/
theorem references_name_emitted_types {sa sb : Set} {namesA namesB : Option (List String)}
    {treeA treeB : Tree} {docA docB : Document} {a b : File}
    (distinctA : (sa.names.map Prod.fst).Nodup) (distinctB : (sb.names.map Prod.fst).Nodup)
    (htreeA : sa.tree namesA = .ok treeA) (htreeB : sb.tree namesB = .ok treeB)
    (hdocA : treeA.toDocument = .ok (some docA)) (hdocB : treeB.toDocument = .ok (some docB))
    (ha : a ∈ sa.targets namesA) (hba : b ∈ sa.files) (hbb : b ∈ sb.targets namesB)
    (hb : b.isReserved = false) {M : DeclaredType} (hM : M ∈ b.exportedTypes) :
    ∃ (P : String) (block : Block),
      M.block? sb.names = some block ∧ block.typeName? = some P ∧
      docB.blocks.filter (fun k => k.typeName? = some P) = [block] ∧
      (∀ scope m, .message scope m ∈ a.emittedTypes sa.names → ∃ name lines unions,
        (DeclaredType.message scope m).block? sa.names = some (.object .type name lines unions) ∧
        .object .type name lines unions ∈ docA.blocks ∧
        .object .input (name ++ "Input") lines unions ∈ docA.blocks ∧
        ∀ (k : Nat) (f : Field), m.fields[k]? = some f → f.RefersTo scope m M.full →
          lines[k]? = some { name := fieldName f.name.shown,
                             type := if f.label = .repeated then "[" ++ P ++ "]" else P }) ∧
      ∀ v ∈ a.emittedServices, ∀ m ∈ v.methods,
        (∃ keyword, .operation keyword (rootOf m.name.shown)
          (v.lines sa.names (rootOf m.name.shown)) ∈ docA.blocks) ∧
        (m.input = .text M.full → (m.line sa.names).request = P) ∧
        (m.output = .text M.full → (m.line sa.names).response = P) := by
  have hbfiles : b ∈ sb.files := by
    unfold Set.targets at hbb
    cases namesB with
    | none => exact hbb
    | some names => exact List.mem_of_mem_filter hbb
  obtain ⟨chain, hchain, hname⟩ := exists_name_of_mem_exportedTypes hb hM
  have hnameA := hname sa hba distinctA
  have hnameB := hname sb hbfiles distinctB
  -- What is printed in the one document is what is declared in the other.
  have hprinted : printedReference sa.names M.full = chain := by
    unfold printedReference
    rw [hnameA]
    exact printedName_of_isTypeName hchain
  have hemitted := mem_emittedTypes_of_mem_exportedTypes hbfiles distinctB hb hM
  obtain ⟨block, hblock, htypeName, hfilter⟩ := block_mem_document htreeB hdocB hbb hemitted
  rw [hnameB] at htypeName hfilter
  refine ⟨chain, block, hblock, htypeName, hfilter, ?_, ?_⟩
  · intro scope m hm
    obtain ⟨name, lines, unions, hown, hobject, hinput, hlines⟩ :=
      lines_of_block htreeA hdocA ha hm
    refine ⟨name, lines, unions, hown, hobject, hinput, fun k f hk hf => ?_⟩
    rw [hlines k f M.full hk hf, hprinted]
  · intro v hv m hm
    refine ⟨operations_mem_document htreeA hdocA ha hv hm, fun hinput => ?_, fun houtput => ?_⟩
    · show printedReference sa.names m.input.shown = chain
      rw [hinput]
      exact hprinted
    · show printedReference sa.names m.output.shown = chain
      rw [houtput]
      exact hprinted

/-- A file with a message in a message. -/
def outerFile : File :=
  { name := "outer.proto", package := "outer", dialect := "proto3",
    messages := [{ name := "Outer", nested := [{ name := "Inner" }] }] }

def userMessage : Message :=
  { name := "User",
    fields := [{ name := "inners", number := 1, label := .repeated, type := .message,
                 typeName := ".outer.Outer.Inner" }] }

/-- A file that refers to the inner message of another one. -/
def userFile : File :=
  { name := "user.proto", package := "user", dialect := "proto3", messages := [userMessage] }

def outerTree : Tree :=
  { dialect := "proto3",
    declarations := [.package "outer" [.message { name := "Outer" }
      [.message { name := "Outer_Inner" } []]]] }

def userDeclared : Schema.Message :=
  { name := "User",
    fields := [{ name := "inners", typeName := "Outer_Inner", isRepeated := true }] }

def userTree : Tree :=
  { dialect := "proto3", declarations := [.package "user" [.message userDeclared []]] }

theorem tree_outerFile : Set.tree ⟨[outerFile]⟩ (some ["outer.proto"]) = .ok outerTree := by
  have htree : Set.tree ⟨[outerFile]⟩ (some ["outer.proto"]) =
      .ok ⟨"proto3", graft ["outer"] (inSourceOrder [] [([4, 0], .message { name := "Outer" }
        (inSourceOrder [] [([4, 0, 3, 0], .message { name := "Outer_Inner" }
          (inSourceOrder [] []))]))]) []⟩ := rfl
  rw [htree]
  simp only [inSourceOrder_nil]
  rfl

theorem tree_userFile : Set.tree ⟨[outerFile, userFile]⟩ (some ["user.proto"]) = .ok userTree := by
  have htree : Set.tree ⟨[outerFile, userFile]⟩ (some ["user.proto"]) =
      .ok ⟨"proto3", graft ["user"] (inSourceOrder [] [([4, 0], .message userDeclared
        (inSourceOrder [] []))]) []⟩ := rfl
  rw [htree]
  simp only [inSourceOrder_nil]
  rfl

theorem references_name_emitted_types_userFile :
    ∃ (docA docB : Document) (P : String) (block : Block),
      userTree.toDocument = .ok (some docA) ∧ outerTree.toDocument = .ok (some docB) ∧
      docB.blocks.filter (fun k => k.typeName? = some P) = [block] ∧
      ∃ lines unions, .object .type "User" lines unions ∈ docA.blocks ∧
        lines[0]? = some { name := "inners", type := "[" ++ P ++ "]" } := by
  have hexported : .message ".outer.Outer" { name := "Inner" } ∈ outerFile.exportedTypes := by
    have he : outerFile.exportedTypes = [
        .message ".outer" { name := "Outer", nested := [{ name := "Inner" }] },
        .message ".outer.Outer" { name := "Inner" }] := rfl
    rw [he]
    exact List.mem_cons_of_mem _ List.mem_cons_self
  obtain ⟨P, block, -, -, hfilter, hlines, -⟩ := references_name_emitted_types
    (a := userFile) (b := outerFile) (by decide) (by decide) tree_userFile tree_outerFile
    rfl rfl List.mem_cons_self List.mem_cons_self List.mem_cons_self rfl hexported
  have huser : .message ".user" userMessage ∈
      userFile.emittedTypes (Set.names ⟨[outerFile, userFile]⟩) := List.mem_cons_self
  obtain ⟨name, lines, unions, hown, hobject, -, hline⟩ := hlines _ _ huser
  have hblock : (DeclaredType.message ".user" userMessage).block?
      (Set.names ⟨[outerFile, userFile]⟩) =
        some (.object .type "User" [⟨"inners", "[Outer_Inner]"⟩] []) := rfl
  rw [hblock] at hown
  cases hown
  exact ⟨_, _, P, block, rfl, rfl, hfilter, _, _, hobject, hline 0 _ rfl ⟨rfl, rfl, rfl⟩⟩

end ProtoSdl.Descriptor
