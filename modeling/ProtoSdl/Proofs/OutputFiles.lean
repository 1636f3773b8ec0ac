import ProtoSdl.Descriptor.SourceOrder
import ProtoSdl.Proofs.WrittenFiles
import Mathlib.Data.List.Nodup

/-!
  Output files — which documents are there after a batch

  A batch writes its documents one after the other, and the name of each is made from
  the stem of its schema file alone. Two schema files of one stem have one document
  file, and the later one has it:

    1. `writeDocument_eq_ok` — one step: a document is written at its place, and all
       other places keep what they have.
    2. `writeDocuments_eq_ok` — by induction over the files: a document is there at the
       end if no later one has its name.
    3. `runBatch_keeps_documents_iff` — a batch keeps all documents, under different
       paths, exactly when no two of the files that have one share their stem.
-/

namespace ProtoSdl

open ProtoSdl.Path (LexicalPath)
open Files (FileSystem)

/-- The stem of a schema file. -/
def stemOf (file : String) : String := (LexicalPath.ofText file).stem

/-- The files that have a document, with their documents. -/
def documented (pairs : List (String × Option Sdl.Document)) : List (String × Sdl.Document) :=
  pairs.filterMap fun p => p.2.map fun d => (p.1, d)

/-- The text that is read at a path after a batch. -/
def Environment.readText (env : Environment) (s : Session) (path : String) : Option String :=
  s.files.readFile env.here (.ofText path)

/-! ## Steps of a run -/

theorem run_bind_eq_ok {α β : Type} {x : Run α} {f : α → Run β} {s s' : Session} {b : β}
    (h : (x >>= f) s = .ok b s') : ∃ a s₁, x s = .ok a s₁ ∧ f a s₁ = .ok b s' := by
  have run : (x >>= f) s = EStateM.bind x f s := rfl
  rw [run] at h
  unfold EStateM.bind at h
  split at h
  · rename_i a s₁ hx
    exact ⟨a, s₁, hx, h⟩
  · cases h

theorem run_bind_of_ok {α β : Type} {x : Run α} {f : α → Run β} {s s₁ : Session} {a : α}
    (h : x s = .ok a s₁) : (x >>= f) s = f a s₁ := by
  have run : (x >>= f) s = EStateM.bind x f s := rfl
  rw [run]
  unfold EStateM.bind
  rw [h]

theorem applyChange_eq_ok {change : Files.Change Unit} {s s' : Session} {u : Unit}
    (h : applyChange change s = .ok u s') : change s.files = .ok () s'.files := by
  unfold applyChange at h
  split at h
  · rename_i fs hc
    cases h
    exact hc
  · cases h

theorem files_say {line : String} {s s' : Session} {u : Unit} (h : say line s = .ok u s') :
    s'.files = s.files := by
  cases h
  rfl

theorem files_warn {line : String} {s s' : Session} {u : Unit} (h : warn line s = .ok u s') :
    s'.files = s.files := by
  cases h
  rfl

variable {env : Environment} {output : String}

/-- Writing a document creates the directories above it and changes one place. -/
theorem writeDocument_eq_ok {file text path : String} {s s' : Session}
    (h : env.writeDocument output file text s = .ok path s') :
    path = documentPath output file ∧ ∃ fs : FileSystem, s.files.Keeps fs ∧
      Files.writeFile env.here (.ofText (documentPath output file)) text fs = .ok () s'.files := by
  unfold Environment.writeDocument at h
  obtain ⟨u, s₁, hcreate, h⟩ := run_bind_eq_ok h
  obtain ⟨v, s₂, hwrite, h⟩ := run_bind_eq_ok h
  cases h
  refine ⟨rfl, s₁.files, ?_, applyChange_eq_ok hwrite⟩
  have hkeeps := (Files.addsDirectories_createDirectories env.here output s.files).keeps
  rw [applyChange_eq_ok hcreate] at hkeeps
  exact hkeeps

/-- What a place other than that of the document holds, it still holds. -/
theorem get?_writeDocument_of_ne {file text path : String} {s s' : Session}
    (h : env.writeDocument output file text s = .ok path s') {q : Files.Place} {e : Files.Entry}
    (hq : q ≠ env.documentPlace output file) (he : s.files.get? q = some e) :
    s'.files.get? q = some e := by
  obtain ⟨-, fs, hkeeps, hwrite⟩ := writeDocument_eq_ok h
  obtain ⟨before, hs⟩ := segments_documentPath output file
  rw [Files.get?_writeFile_of_ne (isName_documentName file) hs hwrite hq]
  exact hkeeps q e he

theorem extends_writeDocument {file text path : String} {s s' : Session}
    (h : env.writeDocument output file text s = .ok path s') : s.files.Extends s'.files := by
  obtain ⟨-, fs, hkeeps, hwrite⟩ := writeDocument_eq_ok h
  obtain ⟨before, hs⟩ := segments_documentPath output file
  obtain ⟨parent, -, -, -, -, he, -⟩ :=
    Files.writeFile_eq_ok (isName_documentName file) hs hwrite
  rw [he]
  exact hkeeps.extends.trans (fs.putFile_extends parent _ text)

/-- A written document is read as long as its place keeps it. -/
theorem readText_of_writeDocument {file text path : String} {s s₁ s' : Session}
    (h : env.writeDocument output file text s = .ok path s₁) (hext : s₁.files.Extends s'.files)
    (hkept : ∀ e, s₁.files.get? (env.documentPlace output file) = some e →
      s'.files.get? (env.documentPlace output file) = some e) :
    env.readText s' (documentPath output file) = some text := by
  obtain ⟨-, fs, -, hwrite⟩ := writeDocument_eq_ok h
  obtain ⟨before, hs⟩ := segments_documentPath output file
  have hn := isName_documentName file
  apply Files.readFile_of_written hn hs hwrite hext
  obtain ⟨parent, hplace, -, hdirectory, hfree, he, -⟩ := Files.writeFile_eq_ok hn hs hwrite
  have hput := FileSystem.get?_putFile text ⟨hdirectory, hn, hfree⟩ (parent ++ [documentName file])
  rw [if_pos rfl, ← he, ← hplace] at hput
  rw [hput]
  exact hkept _ hput

/-! ## Runs -/

/-- What writing documents leaves, and where the last document of each name is. -/
theorem writeDocuments_eq_ok (pairs : List (String × Option Sdl.Document)) :
    ∀ {s s' : Session} {paths : List String},
      env.writeDocuments output pairs s = .ok paths s' →
      paths = (documented pairs).map (fun w => documentPath output w.1) ∧
      s.files.Extends s'.files ∧
      (∀ (q : Files.Place) (e : Files.Entry),
        (∀ w ∈ documented pairs, q ≠ env.documentPlace output w.1) →
          s.files.get? q = some e → s'.files.get? q = some e) ∧
      ∀ before w after, documented pairs = before ++ w :: after →
        (∀ v ∈ after, stemOf v.1 ≠ stemOf w.1) →
          env.readText s' (documentPath output w.1) = some w.2.text := by
  -- By induction on the files: the first document is written in the session that is found,
  -- and the others in the one that it leaves.
  induction pairs with
  | nil =>
    intro s s' paths h
    cases h
    refine ⟨rfl, .refl _, fun _ _ _ he => he, ?_⟩
    intro before w after he
    cases before <;> cases he
  | cons pair pairs ih =>
    intro s s' paths h
    obtain ⟨file, d⟩ := pair
    cases d with
    | none =>
      rw [Environment.writeDocuments] at h
      obtain ⟨u, s₁, hskip, h⟩ := run_bind_eq_ok h
      rw [← files_warn hskip]
      exact ih h
    | some d =>
      rw [Environment.writeDocuments] at h
      obtain ⟨path, s₁, hwrite, h⟩ := run_bind_eq_ok h
      obtain ⟨u, s₂, hsay, h⟩ := run_bind_eq_ok h
      obtain ⟨others, s₃, hrest, h⟩ := run_bind_eq_ok h
      cases h
      obtain ⟨hpaths, hextends, hframe, hlast⟩ := ih hrest
      rw [files_say hsay] at hextends hframe
      have hdocumented : documented ((file, some d) :: pairs) = (file, d) :: documented pairs := rfl
      refine ⟨?_, ?_, ?_, ?_⟩
      · rw [hdocumented, List.map_cons, ← hpaths, (writeDocument_eq_ok hwrite).1]
      · exact (extends_writeDocument hwrite).trans hextends
      · intro q e hq he
        rw [hdocumented] at hq
        apply hframe q e fun w hw => hq w (List.mem_cons_of_mem _ hw)
        exact get?_writeDocument_of_ne hwrite (hq (file, d) List.mem_cons_self) he
      · intro before w after he hafter
        rw [hdocumented] at he
        cases before with
        | nil =>
          obtain ⟨rfl, rfl⟩ := List.cons.inj he
          refine readText_of_writeDocument hwrite hextends fun e hplace => ?_
          -- No later document has the place, since its name would be the same.
          refine hframe _ e (fun v hv hsame => ?_) hplace
          have hstem := documentName_inj.mp (documentName_eq_of_place hsame)
          exact hafter v hv hstem.symm
        | cons first before =>
          obtain ⟨-, he⟩ := List.cons.inj he
          exact hlast before w after he hafter

/-! ## Batches -/

theorem discover_eq_ok {input : String} {isRecursive : Bool} {files : List String}
    {s s' : Session} (h : env.discover input isRecursive s = .ok files s') :
    s.files.schemaFiles? env.here input isRecursive = some files ∧ s'.files = s.files := by
  unfold Environment.discover at h
  obtain ⟨t, s₁, hget, h⟩ := run_bind_eq_ok h
  cases hget
  generalize s.files.schemaFiles? env.here input isRecursive = found at h
  cases found with
  | none => cases h
  | some found =>
    cases found with
    | nil => cases h
    | cons first others =>
      obtain ⟨u, s₁, hsay, h⟩ := run_bind_eq_ok h
      cases h
      exact ⟨rfl, files_say hsay⟩

theorem convert_eq_ok {includes : List String} {jobs : Int} {files : List String}
    {documents : List (Option Sdl.Document)} {s s' : Session}
    (h : env.convert includes jobs files s = .ok documents s') :
    files.mapM (env.convertFile includes) = .ok documents ∧ s'.files = s.files := by
  unfold Environment.convert at h
  rw [env.convertFiles_eq_mapM] at h
  cases hd : files.mapM (env.convertFile includes) with
  | error e =>
    rw [hd] at h
    cases h
  | ok ds =>
    rw [hd] at h
    cases h
    exact ⟨rfl, rfl⟩

/-- The tree of a file and its document decide how the file is converted. -/
theorem convertFile_of_tree {includes : List String} {file : String} {t : Schema.Tree}
    {d : Option Sdl.Document}
    (ht : Compiler.loadTree env.workingDirectory file includes
      (env.compile (env.placeOf file)) = .ok t) (hd : t.toDocument = .ok d) :
    env.convertFile includes file = .ok d := by
  unfold Environment.convertFile
  rw [ht]
  dsimp only
  rw [hd]

/-- A batch that succeeds has found files, converted all of them and written their
documents into the file system that it found. -/
theorem runBatch_eq_ok {c : Settings} {s s' : Session} {generated : List String}
    (h : env.runBatch c s = .ok generated s') :
    ∃ files documents, s.files.schemaFiles? env.here c.input c.isRecursive = some files ∧
      files.mapM (env.convertFile c.includes) = .ok documents ∧
      ∃ s₁ s₂, s₁.files = s.files ∧ s'.files = s₂.files ∧
        env.writeDocuments c.output (files.zip documents) s₁ = .ok generated s₂ := by
  unfold Environment.runBatch at h
  obtain ⟨files, s₁, hfiles, h⟩ := run_bind_eq_ok h
  obtain ⟨documents, s₂, hconvert, h⟩ := run_bind_eq_ok h
  obtain ⟨written, s₃, hwrite, h⟩ := run_bind_eq_ok h
  obtain ⟨u, s₄, hsay, h⟩ := run_bind_eq_ok h
  cases h
  obtain ⟨hfound, hsame⟩ := discover_eq_ok hfiles
  obtain ⟨hconverted, hsame'⟩ := convert_eq_ok hconvert
  exact ⟨files, documents, hfound, hconverted, s₂, s₃, hsame'.trans hsame, files_say hsay, hwrite⟩

theorem discover_of_schemaFiles? {s : Session} {input file : String} {isRecursive : Bool}
    {files : List String}
    (h : s.files.schemaFiles? env.here input isRecursive = some (file :: files)) :
    env.discover input isRecursive s = .ok (file :: files)
      { s with
        out := s.out ++ ["Found " ++ toString (file :: files).length ++ " proto file(s)"] } := by
  have hget : (get : Run Session) s = .ok s s := rfl
  unfold Environment.discover
  rw [run_bind_of_ok hget, h]
  rfl

theorem convert_of_documents {includes : List String} {jobs : Int} {files : List String}
    {documents : List (Option Sdl.Document)}
    (h : files.mapM (env.convertFile includes) = .ok documents) (s : Session) :
    env.convert includes jobs files s = .ok documents s := by
  unfold Environment.convert
  rw [env.convertFiles_eq_mapM, h]
  rfl

/-- A batch whose files are all converted is left with writing the documents. -/
theorem runBatch_of_converted {c : Settings} {s : Session} {file : String} {files : List String}
    {documents : List (Option Sdl.Document)}
    (hfiles : s.files.schemaFiles? env.here c.input c.isRecursive = some (file :: files))
    (hdocuments : (file :: files).mapM (env.convertFile c.includes) = .ok documents) :
    env.runBatch c s = (do
      let written ← env.writeDocuments c.output ((file :: files).zip documents)
      summarize written.length c.output
      return written : Run (List String))
        { s with
          out := s.out ++ ["Found " ++ toString (file :: files).length ++ " proto file(s)"] } :=
  (run_bind_of_ok (discover_of_schemaFiles? hfiles)).trans
    (run_bind_of_ok (convert_of_documents hdocuments _))

/-- A batch succeeds if there are files, all are converted and all documents written. -/
theorem runBatch_of_documents {c : Settings} {s s' : Session} {file : String}
    {files generated : List String} {documents : List (Option Sdl.Document)}
    (hfiles : s.files.schemaFiles? env.here c.input c.isRecursive = some (file :: files))
    (hdocuments : (file :: files).mapM (env.convertFile c.includes) = .ok documents)
    (hwrite : env.writeDocuments c.output ((file :: files).zip documents)
      { s with
        out := s.out ++ ["Found " ++ toString (file :: files).length ++ " proto file(s)"] } =
      .ok generated s') :
    ∃ s'', env.runBatch c s = .ok generated s'' := by
  rw [runBatch_of_converted hfiles hdocuments, run_bind_of_ok hwrite]
  exact ⟨_, rfl⟩

/-- The documents of a list of files have different paths if and only if the files have
different stems. -/
theorem nodup_documentPaths (output : String) (files : List String) :
    (files.map (documentPath output)).Nodup ↔ (files.map stemOf).Nodup := by
  unfold List.Nodup
  rw [List.pairwise_map, List.pairwise_map]
  have hsame : ∀ {file other : String},
      documentPath output file ≠ documentPath output other ↔ stemOf file ≠ stemOf other :=
    fun {_ _} => not_congr documentPath_inj
  constructor
  · intro h
    exact h.imp hsame.mp
  · intro h
    exact h.imp hsame.mpr

/-- A batch that succeeds has written the document of every file that has one, and the last
document of each stem is there. All of them are there, under different paths, if and only
if no two of the files share their stem. -/
theorem runBatch_keeps_documents_iff {c : Settings} {s s' : Session} {generated : List String}
    (h : env.runBatch c s = .ok generated s') :
    ∃ files documents, s.files.schemaFiles? env.here c.input c.isRecursive = some files ∧
      files.mapM (env.convertFile c.includes) = .ok documents ∧
      generated = (documented (files.zip documents)).map (fun w => documentPath c.output w.1) ∧
      (∀ before w after, documented (files.zip documents) = before ++ w :: after →
        (∀ v ∈ after, stemOf v.1 ≠ stemOf w.1) →
          env.readText s' (documentPath c.output w.1) = some w.2.text) ∧
      ((generated.Nodup ∧ ∀ w ∈ documented (files.zip documents),
          env.readText s' (documentPath c.output w.1) = some w.2.text) ↔
        ((documented (files.zip documents)).map fun w => stemOf w.1).Nodup) := by
  obtain ⟨files, documents, hfiles, hdocuments, s₁, s₂, -, hsame, hwrite⟩ := runBatch_eq_ok h
  obtain ⟨hgenerated, -, -, hlast⟩ := writeDocuments_eq_ok _ hwrite
  have hread : ∀ path, env.readText s' path = env.readText s₂ path := by
    intro path
    unfold Environment.readText
    rw [hsame]
  have hpaths : generated.Nodup ↔
      ((documented (files.zip documents)).map fun w => stemOf w.1).Nodup := by
    have hn := nodup_documentPaths c.output ((documented (files.zip documents)).map (·.1))
    rw [List.map_map, List.map_map] at hn
    rw [hgenerated]
    exact hn
  refine ⟨files, documents, hfiles, hdocuments, hgenerated, ?_, ?_⟩
  · intro before w after he hafter
    rw [hread]
    exact hlast before w after he hafter
  · constructor
    · intro hkept
      exact hpaths.mp hkept.1
    · intro hstems
      refine ⟨hpaths.mpr hstems, ?_⟩
      intro w hw
      -- With different stems every document is the last of its stem.
      obtain ⟨before, after, he⟩ := List.append_of_mem hw
      rw [hread]
      apply hlast before w after he
      intro v hv hstem
      rw [he, List.map_append, List.map_cons] at hstems
      have hcons := (List.nodup_append.mp hstems).2.1
      apply (List.nodup_cons.mp hcons).1
      rw [← hstem]
      exact List.mem_map_of_mem hv

/-! ## Two files of one stem -/

/-- Two directories with a file `x.proto` in each. -/
def twinFiles : FileSystem :=
  ((((FileSystem.empty.addDirectory [] "in").addDirectory ["in"] "a").addDirectory ["in"]
    "b").putFile ["in", "b"] "x.proto" "").putFile ["in", "a"] "x.proto" ""

/-- A file that declares one enumeration. -/
def twin (name : String) : Descriptor.File :=
  { name := "x.proto", dialect := "proto3",
    enumerations := [{ name := .text name, values := ["NONE"] }] }

/-- The file in the first directory declares `A`, the one in the second `B`. -/
def twinEnvironment : Environment where
  workingDirectory := .ofRoot .single
  compile place :=
    .descriptors ⟨[twin (if place.names = ["in", "a", "x.proto"] then "A" else "B")]⟩

def twinDocument (name : String) : Sdl.Document := ⟨[.enumeration name ["NONE"]]⟩

def twinSettings : Settings := { input := "in", output := "out", isRecursive := true }

theorem schemaFiles?_twinFiles :
    twinFiles.schemaFiles? [] "in" true = some ["in/a/x.proto", "in/b/x.proto"] := by
  have hfound : twinFiles.schemaFiles? [] "in" true =
      some ((["in/a/x.proto", "in/b/x.proto"] : List String).mergeSort
        fun a b => decide (a ≤ b)) := rfl
  rw [hfound, List.mergeSort_of_pairwise]
  decide +kernel

theorem convertFile_twin {file name : String}
    (h : (file, name) ∈ [("in/a/x.proto", "A"), ("in/b/x.proto", "B")]) :
    twinEnvironment.convertFile [] file = .ok (some (twinDocument name)) := by
  have htree : Compiler.loadTree twinEnvironment.workingDirectory file []
      (twinEnvironment.compile (twinEnvironment.placeOf file)) =
        .ok (.mk "proto3" (Descriptor.graft [] (Descriptor.inSourceOrder []
          [([5, 0], .enumeration { name := .text name, values := ["NONE"] })]) [])) := by
    simp only [List.mem_cons, Prod.mk.injEq, List.not_mem_nil, or_false] at h
    obtain ⟨rfl, rfl⟩ | ⟨rfl, rfl⟩ := h <;> rfl
  rw [Descriptor.inSourceOrder_nil] at htree
  apply convertFile_of_tree htree
  simp only [List.mem_cons, Prod.mk.injEq, List.not_mem_nil, or_false] at h
  obtain ⟨rfl, rfl⟩ | ⟨rfl, rfl⟩ := h <;> rfl

theorem convertFiles_twins :
    (["in/a/x.proto", "in/b/x.proto"] : List String).mapM (twinEnvironment.convertFile []) =
      .ok [some (twinDocument "A"), some (twinDocument "B")] := by
  rw [List.mapM_cons, convertFile_twin (by decide : (_, "A") ∈ _), List.mapM_cons,
    convertFile_twin (by decide : (_, "B") ∈ _)]
  rfl

def twinPairs : List (String × Option Sdl.Document) :=
  [("in/a/x.proto", some (twinDocument "A")), ("in/b/x.proto", some (twinDocument "B"))]

theorem writeDocuments_twins {s : Session}
    (hs : s = { files := twinFiles, out := ["Found 2 proto file(s)"] }) :
    ∃ s', twinEnvironment.writeDocuments "out" twinPairs s =
      .ok ["out/x.graphql", "out/x.graphql"] s' := by
  have hpaths : (twinEnvironment.writeDocuments "out" twinPairs).run'
      { files := twinFiles, out := ["Found 2 proto file(s)"] } =
        some ["out/x.graphql", "out/x.graphql"] := by
    decide +kernel
  rw [← hs] at hpaths
  unfold EStateM.run' EStateM.run at hpaths
  split at hpaths
  · rename_i paths s' hrun
    cases hpaths
    exact ⟨s', hrun⟩
  · cases hpaths

theorem runBatch_twins :
    ∃ s', twinEnvironment.runBatch twinSettings { files := twinFiles } =
      .ok ["out/x.graphql", "out/x.graphql"] s' := by
  obtain ⟨s', hwrite⟩ := writeDocuments_twins rfl
  exact runBatch_of_documents (c := twinSettings) schemaFiles?_twinFiles convertFiles_twins hwrite

/-- Of two files of one stem the second one's document remains. -/
theorem runBatch_keeps_documents_iff_twins :
    ∃ s', twinEnvironment.runBatch twinSettings { files := twinFiles } =
        .ok ["out/x.graphql", "out/x.graphql"] s' ∧
      twinEnvironment.readText s' "out/x.graphql" = some (twinDocument "B").text := by
  obtain ⟨s', hrun⟩ := runBatch_twins
  obtain ⟨files, documents, hfiles, hdocuments, -, hlast, -⟩ :=
    runBatch_keeps_documents_iff hrun
  cases schemaFiles?_twinFiles.symm.trans hfiles
  cases convertFiles_twins.symm.trans hdocuments
  refine ⟨s', hrun, ?_⟩
  apply hlast [("in/a/x.proto", twinDocument "A")] ("in/b/x.proto", twinDocument "B") [] rfl
  intro v hv
  cases hv

/-- A batch may succeed, tell one path twice and lose a document that it wrote. -/
theorem exists_lost_document :
    ∃ (env : Environment) (c : Settings) (s s' : Session) (generated files : List String)
      (documents : List (Option Sdl.Document)),
      env.runBatch c s = .ok generated s' ∧
      s.files.schemaFiles? env.here c.input c.isRecursive = some files ∧
      files.mapM (env.convertFile c.includes) = .ok documents ∧ ¬ generated.Nodup ∧
      ∃ w ∈ documented (files.zip documents),
        env.readText s' (documentPath c.output w.1) ≠ some w.2.text := by
  obtain ⟨s', hrun⟩ := runBatch_twins
  obtain ⟨files, documents, hfiles, hdocuments, s₁, s₂, -, hsame, hwrite⟩ := runBatch_eq_ok hrun
  obtain ⟨-, -, -, hlast⟩ := writeDocuments_eq_ok _ hwrite
  cases schemaFiles?_twinFiles.symm.trans hfiles
  cases convertFiles_twins.symm.trans hdocuments
  refine ⟨twinEnvironment, twinSettings, { files := twinFiles }, s', _, _, _, hrun, hfiles,
    hdocuments, by decide, ("in/a/x.proto", twinDocument "A"), List.mem_cons_self, ?_⟩
  have hsecond := hlast [("in/a/x.proto", twinDocument "A")] ("in/b/x.proto", twinDocument "B") []
    rfl (fun v hv => by cases hv)
  have hpath : documentPath "out" "in/a/x.proto" = documentPath "out" "in/b/x.proto" := by
    apply documentPath_inj.mpr
    decide +kernel
  have hread : twinEnvironment.readText s' (documentPath "out" "in/a/x.proto") =
      some (twinDocument "B").text := by
    unfold Environment.readText at hsecond ⊢
    rw [hsame, hpath]
    exact hsecond
  intro hfirst
  have htexts := hread.symm.trans hfirst
  revert htexts
  decide +kernel

end ProtoSdl
