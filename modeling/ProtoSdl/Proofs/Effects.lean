import ProtoSdl.Proofs.OutputFiles

/-!
  Effects — what a batch leaves behind, whether it succeeds or fails

  A batch looks for files, converts all of them, and only then writes. A failure in the
  first two phases leaves the file system as it was. In the third one documents are
  written in order, and a failure leaves those that were written before it.

    1. `Wrote` says of two file systems that the second has come from the first by
       writing certain documents: the last document of each place is there, and
       elsewhere there are at most new directories on the way to the output directory.
    2. `writeDocument_cases` — one step: a document is written, or nothing but such
       directories is there.
    3. `writeDocuments_cases` — by induction over the files: all documents are written,
       or those before the first one that cannot be.
    4. `runBatch_effects` — the effects of a batch, for every outcome of its phases.

  A directory that is created is named by a beginning of the output path that ends
  before a slash (`IsAbove`). Such a beginning is not normalised: below `a/../b` the
  directory `a` is created as well.
-/

namespace ProtoSdl

open ProtoSdl.Path (LexicalPath IsName segments)
open Files (FileSystem Place placeNamed)

theorem run_bind_of_error {α β : Type} {x : Run α} {f : α → Run β} {s s₁ : Session} {e : RunError}
    (h : x s = .error e s₁) : (x >>= f) s = .error e s₁ := by
  have run : (x >>= f) s = EStateM.bind x f s := rfl
  rw [run]
  unfold EStateM.bind
  rw [h]

theorem applyChange_of_ok (s : Session) {change : Files.Change Unit} {fs : FileSystem}
    (h : change s.files = .ok () fs) : applyChange change s = .ok () { s with files := fs } := by
  unfold applyChange
  rw [h]

theorem applyChange_of_error (s : Session) {change : Files.Change Unit} {fs : FileSystem}
    {e : Files.SystemError} (h : change s.files = .error e fs) :
    applyChange change s = .error (.system e) { s with files := fs } := by
  unfold applyChange
  rw [h]

/-! ## Beginnings of a path -/

namespace Path

/-- Whether the first path is the second, or what is before a slash of it. -/
def IsAbove (above path : String) : Prop := above = path ∨ ∃ rest, path = above ++ "/" ++ rest

/-- A step above a segment ends with a segment before it, or consists of slashes. -/
theorem stepsAbove_cases (reversed : List String) : ∀ step ∈ stepsAbove reversed,
    (∃ between s above, reversed = between ++ s :: above ∧
      step.text = joinReversed (s :: above)) ∨
    ∃ above, (∀ b ∈ above, b = "") ∧ step.text = joinReversed ("" :: "" :: above) := by
  induction reversed with
  | nil => exact fun _ h => absurd h List.not_mem_nil
  | cons s above ih =>
    intro step h
    have hrest : step ∈ stepsAbove above → _ := fun hstep =>
      (ih step hstep).imp_left fun ⟨between, s', above', hr, ht⟩ =>
        (⟨s :: between, s', above', by rw [hr]; rfl, ht⟩ :
          ∃ between s' above', s :: above = between ++ s' :: above' ∧
            step.text = joinReversed (s' :: above'))
    rw [stepsAbove] at h
    split at h
    · rcases List.mem_cons.mp h with rfl | h
      · exact .inl ⟨[], s, above, rfl, rfl⟩
      · exact hrest h
    · split at h
      · rename_i hblank
        obtain rfl := List.mem_singleton.mp h
        exact .inr ⟨above, by simpa using hblank, rfl⟩
      · exact hrest h

/-- A text whose first piece is empty, with a piece after it, begins at the root. -/
theorem root?_isSome_of_segments {text s : String} {rest : List String}
    (h : segments text = "" :: s :: rest) : (root? text).isSome = true := by
  have hslash : Text.hasPrefix "/" text = true := by
    rw [Text.hasPrefix_iff]
    have hjoin := Text.intercalate_split separator text
    have hpieces : Text.split separator text = "" :: s :: rest := h
    rw [hpieces, String.intercalate_cons_cons, String.empty_append] at hjoin
    rw [← hjoin, String.toList_append]
    exact List.prefix_append _ _
  unfold root?
  rw [hslash]
  split
  · rfl
  · split <;> rfl

end Path

namespace Files

/-- Slashes alone name the root. -/
theorem placeNamed_slashes {workingDirectory : Place} {above : List String}
    (h : ∀ b ∈ above, b = "") :
    placeNamed workingDirectory (Path.joinReversed ("" :: "" :: above)) = [] := by
  have hall : ∀ b ∈ ("" :: "" :: above).reverse, b = "" := by
    intro b hb
    rw [List.mem_reverse, List.mem_cons, List.mem_cons] at hb
    rcases hb with rfl | rfl | hb
    · rfl
    · rfl
    · exact h b hb
  have hsegments : segments (Path.joinReversed ("" :: "" :: above)) =
      ("" :: "" :: above).reverse := by
    refine Text.split_intercalate (by simp) fun s hs => ?_
    rw [hall s hs]
    exact List.not_mem_nil
  have hstart : FileSystem.start workingDirectory (Path.joinReversed ("" :: "" :: above)) = [] := by
    unfold FileSystem.start
    rw [if_pos]
    generalize hr : ("" :: "" :: above).reverse = pieces at hall hsegments
    have hlength := congrArg List.length hr
    match pieces with
    | [] => simp at hlength
    | [_] => simp at hlength
    | b :: s :: rest =>
      rw [hall b List.mem_cons_self] at hsegments
      exact Path.root?_isSome_of_segments hsegments
  unfold placeNamed
  rw [hsegments, foldl_descend_blank hall, hstart]

/-- A step of a lineage is above the path, or it names the root. -/
theorem isAbove_of_mem_lineage {text : String} {step : Path.Step} (h : step ∈ Path.lineage text) :
    Path.IsAbove step.text text ∨ ∀ workingDirectory, placeNamed workingDirectory step.text = [] := by
  unfold Path.lineage at h
  cases hlast : Path.lastSegment? text with
  | none =>
    rw [hlast] at h
    obtain rfl := List.mem_singleton.mp h
    exact .inl (.inl rfl)
  | some found =>
    obtain ⟨last, above⟩ := found
    rw [hlast] at h
    rcases List.mem_cons.mp h with rfl | h
    · exact .inl (.inl rfl)
    · obtain ⟨-, blanks, -, hsegments⟩ := segments_of_lastSegment? hlast
      rcases Path.stepsAbove_cases above step h with ⟨between, s, above', rfl, ht⟩ | ⟨above', hb, ht⟩
      · -- The text goes on after the step with the pieces that lie between.
        left
        right
        refine ⟨"/".intercalate (between.reverse ++ last :: blanks), ?_⟩
        have hjoin := Text.intercalate_split Path.separator text
        have hpieces : Text.split Path.separator text =
            (s :: above').reverse ++ (between.reverse ++ last :: blanks) := by
          rw [← List.append_assoc, ← List.reverse_append]
          exact hsegments
        rw [hpieces] at hjoin
        rw [← hjoin, ht]
        exact String.intercalate_append_of_ne_nil (by simp) (by simp)
      · right
        intro workingDirectory
        rw [ht]
        exact placeNamed_slashes hb

/-- The names of a path's absolute form lead to the place that the path names. -/
theorem names_placeOf (env : Environment) (text : String) :
    (env.placeOf text).names = placeNamed env.here text := by
  unfold Environment.placeOf Path.AbsolutePath.ofText placeNamed FileSystem.start
  cases Path.root? text with
  | none => rfl
  | some r => rfl

end Files

/-! ## Written documents -/

namespace Environment

variable (env : Environment) (output : String)

/-- The last of the documents that is written at the place. -/
def lastAt (written : List (String × Sdl.Document)) (p : Place) : Option (String × Sdl.Document) :=
  written.reverse.find? fun w => env.documentPlace output w.1 = p

/-- Whether the place is that of the output directory or of a directory above it. -/
def IsOnTheWay (p : Place) : Prop :=
  ∃ above, Path.IsAbove above output ∧ p = (env.placeOf above).names

/-- Whether the second file system has come from the first by writing these documents, and
elsewhere by nothing but adding directories on the way. -/
structure Wrote (written : List (String × Sdl.Document)) (fs fs' : FileSystem) : Prop where
  documents : ∀ p w, env.lastAt output written p = some w →
    fs'.get? p = some (.file w.2.text)
  others : ∀ p, env.lastAt output written p = none →
    fs.KeptOrAdded (env.IsOnTheWay output) fs' p

variable {env output} {fs fs' fs'' : FileSystem} {written others : List (String × Sdl.Document)}

theorem lastAt_append (written others : List (String × Sdl.Document)) (p : Place) :
    env.lastAt output (written ++ others) p =
      (env.lastAt output others p).or (env.lastAt output written p) := by
  unfold lastAt
  rw [List.reverse_append, List.find?_append]

theorem lastAt_singleton (w : String × Sdl.Document) (p : Place) :
    env.lastAt output [w] p = if env.documentPlace output w.1 = p then some w else none := by
  unfold lastAt
  rw [List.reverse_singleton, List.find?_singleton]
  simp

/-- To write nothing is to add directories. -/
theorem wrote_nil_iff :
    env.Wrote output [] fs fs' ↔ fs.AddsDirectories (env.IsOnTheWay output) fs' := by
  constructor
  · exact fun h p => h.others p rfl
  · intro h
    exact ⟨fun p w hlast => (by cases hlast), fun p _ => h p⟩

/-- Documents that are written after others replace those at the same places. -/
theorem Wrote.append (h : env.Wrote output written fs fs') (h' : env.Wrote output others fs' fs'') :
    env.Wrote output (written ++ others) fs fs'' where
  documents p w hlast := by
    rw [lastAt_append, Option.or_eq_some_iff] at hlast
    rcases hlast with hlast | ⟨hnone, hlast⟩
    · exact h'.documents p w hlast
    · have hp := h.documents p w hlast
      -- Where a document is, no directory is created later.
      rcases h'.others p hnone with hp' | ⟨hfree, -⟩
      · rw [hp', hp]
      · rw [hp] at hfree
        cases hfree
  others p hlast := by
    rw [lastAt_append, Option.or_eq_none_iff] at hlast
    exact (h.others p hlast.2).trans (h'.others p hlast.1)

/-! ## One document -/

theorem isOnTheWay_of_isNamed {p : Place} (hnone : fs.get? p = none)
    (h : Files.IsNamed env.here (Path.lineage output) p) : env.IsOnTheWay output p := by
  obtain ⟨step, hstep, hp⟩ := h
  rcases Files.isAbove_of_mem_lineage hstep with habove | hroot
  · exact ⟨step.text, habove, hp.trans (Files.names_placeOf env step.text).symm⟩
  · -- The root is always there.
    have hdirectory : fs.get? p = some .directory := by
      rw [hp, hroot env.here]
      exact if_pos (.inl rfl)
    rw [hnone] at hdirectory
    cases hdirectory

theorem wrote_createDirectories (env : Environment) (output : String) (fs : FileSystem) :
    env.Wrote output [] fs (Files.final (Files.createDirectories env.here output fs)) :=
  wrote_nil_iff.mpr ((Files.addsDirectories_createDirectories env.here output fs).imp
    fun _ => isOnTheWay_of_isNamed)

/-- A file that is not written leaves the file system as it was. -/
theorem writeFile_error {workingDirectory : Place} {path : LexicalPath} {content : String}
    {e : Files.SystemError} (h : Files.writeFile workingDirectory path content fs = .error e fs') :
    fs' = fs := by
  unfold Files.writeFile at h
  split at h
  · cases h
    rfl
  · cases h
    rfl
  · split at h
    · cases h
      rfl
    · cases h

theorem wrote_writeFile {file : String} {d : Sdl.Document}
    (h : Files.writeFile env.here (.ofText (documentPath output file)) d.text fs = .ok () fs') :
    env.Wrote output [(file, d)] fs fs' := by
  have hn := isName_documentName file
  obtain ⟨before, hs⟩ := segments_documentPath output file
  obtain ⟨parent, hplace, -, hdirectory, hfree, rfl, -⟩ := Files.writeFile_eq_ok hn hs h
  have hown : env.documentPlace output file = parent ++ [documentName file] := hplace
  constructor
  · intro p w hlast
    rw [lastAt_singleton] at hlast
    split at hlast
    · rename_i hp
      cases hlast
      rw [FileSystem.get?_putFile d.text ⟨hdirectory, hn, hfree⟩, if_pos (hp.symm.trans hown)]
    · cases hlast
  · intro p hlast
    rw [lastAt_singleton] at hlast
    split at hlast
    · cases hlast
    · rename_i hp
      exact .inl (fs.get?_putFile_of_ne d.text fun he => hp (hown.trans he.symm))

/-- A document is written, or nothing but directories on the way is there. -/
theorem writeDocument_cases (env : Environment) (output file : String) (d : Sdl.Document)
    (s : Session) :
    (∃ s', env.writeDocument output file d.text s = .ok (documentPath output file) s' ∧
      env.Wrote output [(file, d)] s.files s'.files) ∨
    ∃ e s', env.writeDocument output file d.text s = .error (.system e) s' ∧
      env.Wrote output [] s.files s'.files := by
  have hcreated := wrote_createDirectories env output s.files
  unfold Environment.writeDocument
  cases hc : Files.createDirectories env.here output s.files with
  | error e fs₁ =>
    rw [hc] at hcreated
    rw [run_bind_of_error (applyChange_of_error s hc)]
    exact .inr ⟨e, _, rfl, hcreated⟩
  | ok u fs₁ =>
    rw [hc] at hcreated
    have hcreated : env.Wrote output [] s.files fs₁ := hcreated
    rw [run_bind_of_ok (applyChange_of_ok s hc)]
    cases hw : Files.writeFile env.here (.ofText (documentPath output file)) d.text fs₁ with
    | error e fs₂ =>
      obtain rfl := writeFile_error hw
      rw [run_bind_of_error (applyChange_of_error { s with files := fs₂ } hw)]
      exact .inr ⟨e, _, rfl, hcreated⟩
    | ok u fs₂ =>
      rw [run_bind_of_ok (applyChange_of_ok { s with files := fs₁ } hw)]
      exact .inl ⟨_, rfl, hcreated.append (wrote_writeFile hw)⟩

/-! ## All documents -/

/-- All documents are written, or those before the first one that cannot be. -/
theorem writeDocuments_cases (env : Environment) (output : String)
    (pairs : List (String × Option Sdl.Document)) : ∀ s : Session,
    (∃ s', env.writeDocuments output pairs s =
        .ok ((documented pairs).map fun w => documentPath output w.1) s' ∧
      env.Wrote output (documented pairs) s.files s'.files) ∨
    ∃ written w rest e s₁ s', documented pairs = written ++ w :: rest ∧
      env.Wrote output written s.files s₁.files ∧
      env.writeDocument output w.1 w.2.text s₁ = .error (.system e) s' ∧
      env.writeDocuments output pairs s = .error (.system e) s' ∧
      env.Wrote output written s.files s'.files := by
  -- By induction on the files, for all sessions: the first document is written, and then the
  -- others, or it is the one that cannot be.
  induction pairs with
  | nil => exact fun s => .inl ⟨s, rfl, wrote_nil_iff.mpr (.refl _ _)⟩
  | cons pair pairs ih =>
    intro s
    obtain ⟨file, d⟩ := pair
    cases d with
    | none =>
      have hskip : skip file s = .ok ()
          { s with err := s.err ++ ["  Skipped " ++ file ++ ": no declarations to convert"] } := rfl
      have hrun := run_bind_of_ok (f := fun _ => env.writeDocuments output pairs) hskip
      rw [Environment.writeDocuments, hrun]
      exact ih _
    | some d =>
      have hdocumented : documented ((file, some d) :: pairs) = (file, d) :: documented pairs := rfl
      rw [Environment.writeDocuments, hdocumented]
      rcases writeDocument_cases env output file d s with ⟨s₁, hwrite, hwrote⟩ | ⟨e, s', hwrite, hwrote⟩
      · rw [run_bind_of_ok hwrite]
        have hsay : say ("  Generated: " ++ documentPath output file) s₁ = .ok ()
            { s₁ with out := s₁.out ++ ["  Generated: " ++ documentPath output file] } := rfl
        rw [run_bind_of_ok hsay]
        rcases ih { s₁ with out := s₁.out ++ ["  Generated: " ++ documentPath output file] } with
          ⟨s', hrest, hothers⟩ | ⟨written, w, rest, e, s₂, s', hsplit, hbefore, hfail, hrest, hothers⟩
        · rw [run_bind_of_ok hrest]
          exact .inl ⟨s', rfl, hwrote.append hothers⟩
        · rw [run_bind_of_error hrest]
          exact .inr ⟨(file, d) :: written, w, rest, e, s₂, s', by rw [hsplit]; rfl,
            hwrote.append hbefore, hfail, rfl, hwrote.append hothers⟩
      · rw [run_bind_of_error hwrite]
        exact .inr ⟨[], (file, d), documented pairs, e, s, s', rfl,
          wrote_nil_iff.mpr (.refl _ _), hwrite, rfl, hwrote⟩

/-! ## Batches -/

/-- A computation succeeds for all elements of a list, or the first failure decides. -/
theorem mapM_cases {ε α β : Type} (f : α → Except ε β) (as : List α) :
    (∃ bs, as.mapM f = .ok bs ∧ ∀ a ∈ as, ∃ y, f a = .ok y) ∨
    ∃ before a after e, as = before ++ a :: after ∧ (∀ b ∈ before, ∃ y, f b = .ok y) ∧
      f a = .error e ∧ as.mapM f = .error e := by
  induction as with
  | nil => exact .inl ⟨[], rfl, fun _ ha => absurd ha List.not_mem_nil⟩
  | cons a as ih =>
    rw [List.mapM_cons]
    cases hf : f a with
    | error e => exact .inr ⟨[], a, as, e, rfl, fun _ hb => absurd hb List.not_mem_nil, hf, rfl⟩
    | ok y =>
      rcases ih with ⟨bs, hbs, hall⟩ | ⟨before, x, after, e, rfl, hbefore, hx, hfail⟩
      · rw [hbs]
        exact .inl ⟨y :: bs, rfl, List.forall_mem_cons.mpr ⟨⟨y, hf⟩, hall⟩⟩
      · rw [hfail]
        exact .inr ⟨a :: before, x, after, e, rfl,
          List.forall_mem_cons.mpr ⟨⟨y, hf⟩, hbefore⟩, hx, rfl⟩

/-- The files that an input path stands for are in ascending order. -/
theorem pairwise_schemaFiles? {workingDirectory : Place} {input : String} {isRecursive : Bool}
    {files : List String} (h : fs.schemaFiles? workingDirectory input isRecursive = some files) :
    files.Pairwise (· ≤ ·) := by
  unfold FileSystem.schemaFiles? at h
  dsimp only at h
  split at h
  · cases h
  · split at h
    · obtain rfl := Option.some.inj h
      have hsorted := @List.pairwise_mergeSort _ (fun a b : String => decide (a ≤ b))
        (fun a b c hab hbc => by simpa using String.le_trans (by simpa using hab) (by simpa using hbc))
        (fun a b => by simpa using String.le_total a b)
      exact (hsorted _).imp (by simp)
    · split at h
      · obtain rfl := Option.some.inj h
        exact List.pairwise_singleton _ _
      · obtain rfl := Option.some.inj h
        exact List.Pairwise.nil

theorem discover_of_none {input : String} {isRecursive : Bool} {s : Session}
    (h : s.files.schemaFiles? env.here input isRecursive = none) :
    env.discover input isRecursive s = .error (.missingInput input) s := by
  have hget : (get : Run Session) s = .ok s s := rfl
  unfold Environment.discover
  rw [run_bind_of_ok hget, h]
  rfl

theorem discover_of_nil {input : String} {isRecursive : Bool} {s : Session}
    (h : s.files.schemaFiles? env.here input isRecursive = some []) :
    env.discover input isRecursive s = .error (.noSchemaFiles (env.placeOf input).text) s := by
  have hget : (get : Run Session) s = .ok s s := rfl
  unfold Environment.discover
  rw [run_bind_of_ok hget, h]
  rfl

theorem convert_of_error {includes : List String} {jobs : Int} {files : List String} {e : FileError}
    (h : files.mapM (env.convertFile includes) = .error e) (s : Session) :
    env.convert includes jobs files s = .error (.file e) s := by
  unfold Environment.convert
  rw [env.convertFiles_eq_mapM, h]
  rfl

/-- The effects of a batch. Without files, or with a file that cannot be converted, it fails
and nothing is changed; the first such file is the one that is told. Otherwise all documents
are written, or those before the first one that cannot be. -/
theorem runBatch_effects (env : Environment) (c : Settings) (s : Session) :
    (s.files.schemaFiles? env.here c.input c.isRecursive = none →
      ∃ s', env.runBatch c s = .error (.missingInput c.input) s' ∧ s'.files = s.files) ∧
    ∀ files, s.files.schemaFiles? env.here c.input c.isRecursive = some files →
      files.Pairwise (· ≤ ·) ∧
      (files = [] → ∃ s', env.runBatch c s =
        .error (.noSchemaFiles (env.placeOf c.input).text) s' ∧ s'.files = s.files) ∧
      (∀ f ∈ files, ∀ e₀, env.convertFile c.includes f = .error e₀ →
        ∃ before file after e s', files = before ++ file :: after ∧
          (∀ b ∈ before, ∃ d, env.convertFile c.includes b = .ok d) ∧
          env.convertFile c.includes file = .error e ∧
          env.runBatch c s = .error (.file e) s' ∧ s'.files = s.files) ∧
      (files ≠ [] → ∀ documents, files.mapM (env.convertFile c.includes) = .ok documents →
        (∃ s', env.runBatch c s =
            .ok ((documented (files.zip documents)).map fun w => documentPath c.output w.1) s' ∧
          env.Wrote c.output (documented (files.zip documents)) s.files s'.files) ∨
        ∃ written w rest e s₁ s', documented (files.zip documents) = written ++ w :: rest ∧
          env.Wrote c.output written s.files s₁.files ∧
          env.writeDocument c.output w.1 w.2.text s₁ = .error (.system e) s' ∧
          env.runBatch c s = .error (.system e) s' ∧
          env.Wrote c.output written s.files s'.files) := by
  constructor
  · intro hnone
    exact ⟨s, run_bind_of_error (discover_of_none hnone), rfl⟩
  · intro files hfiles
    refine ⟨pairwise_schemaFiles? hfiles, ?_, ?_, ?_⟩
    · rintro rfl
      exact ⟨s, run_bind_of_error (discover_of_nil hfiles), rfl⟩
    · intro f hf e₀ he₀
      cases files with
      | nil => cases hf
      | cons first others =>
        rcases mapM_cases (env.convertFile c.includes) (first :: others) with
          ⟨documents, -, hall⟩ | ⟨before, file, after, e, hsplit, hbefore, hfile, hfail⟩
        · obtain ⟨d, hd⟩ := hall f hf
          rw [hd] at he₀
          cases he₀
        · unfold Environment.runBatch
          rw [run_bind_of_ok (discover_of_schemaFiles? hfiles),
            run_bind_of_error (convert_of_error hfail _)]
          exact ⟨before, file, after, e, _, hsplit, hbefore, hfile, rfl, rfl⟩
    · intro hne documents hdocuments
      cases files with
      | nil => exact absurd rfl hne
      | cons first others =>
        rw [runBatch_of_converted hfiles hdocuments]
        rcases writeDocuments_cases env c.output ((first :: others).zip documents) _ with
          ⟨s', hwrite, hwrote⟩ | ⟨written, w, rest, e, s₁, s', hsplit, hbefore, hfail, hwrite, hwrote⟩
        · rw [run_bind_of_ok hwrite]
          exact .inl ⟨_, rfl, hwrote⟩
        · rw [run_bind_of_error hwrite]
          exact .inr ⟨written, w, rest, e, s₁, s', hsplit, hbefore, hfail, rfl, hwrote⟩

end Environment

/-! ## A batch that stops halfway -/

/-- Three schema files, and a directory where the document of the second one would be. -/
def shelfFiles : FileSystem :=
  (((((FileSystem.empty.addDirectory [] "in").addDirectory [] "out").addDirectory ["out"]
    "b.graphql").putFile ["in"] "c.proto" "").putFile ["in"] "b.proto" "").putFile ["in"]
    "a.proto" ""

def shelfNames : List String := ["in/a.proto", "in/b.proto", "in/c.proto"]

/-- A file that declares one enumeration. -/
def sheet (name : String) : Descriptor.File :=
  { name := .text name, dialect := "proto3",
    enumerations := [{ name := "Kind", values := ["NONE"] }] }

def shelfEnvironment : Environment where
  workingDirectory := .ofRoot .single
  compile place := .descriptors ⟨[sheet place.baseName]⟩

def shelfDocument : Sdl.Document := ⟨[.enumeration "Kind" ["NONE"]]⟩

def shelfDocuments : List (Option Sdl.Document) :=
  [some shelfDocument, some shelfDocument, some shelfDocument]

def shelfSettings : Settings := { input := "in", output := "out" }

theorem schemaFiles?_shelfFiles :
    shelfFiles.schemaFiles? [] "in" false = some shelfNames := by
  have hfound : shelfFiles.schemaFiles? [] "in" false =
      some (shelfNames.mergeSort fun a b => decide (a ≤ b)) := rfl
  rw [hfound, List.mergeSort_of_pairwise]
  decide +kernel

theorem convertFile_sheet {file : String} (h : file ∈ shelfNames) :
    shelfEnvironment.convertFile [] file = .ok (some shelfDocument) := by
  have htree : Compiler.loadTree shelfEnvironment.workingDirectory file []
      (shelfEnvironment.compile (shelfEnvironment.placeOf file)) =
        .ok (.mk "proto3" (Descriptor.graft [] (Descriptor.inSourceOrder []
          [([5, 0], .enumeration { name := "Kind", values := ["NONE"] })]) [])) := by
    simp only [shelfNames, List.mem_cons, List.not_mem_nil, or_false] at h
    obtain rfl | rfl | rfl := h <;> rfl
  rw [Descriptor.inSourceOrder_nil] at htree
  exact convertFile_of_tree htree rfl

theorem convertFiles_sheets :
    shelfNames.mapM (shelfEnvironment.convertFile []) = .ok shelfDocuments := by
  unfold shelfNames
  rw [List.mapM_cons, convertFile_sheet (by decide), List.mapM_cons,
    convertFile_sheet (by decide), List.mapM_cons, convertFile_sheet (by decide)]
  rfl

/-- The error that a computation ends with, and the session that it leaves. -/
def failure? {α : Type} : EStateM.Result RunError Session α → Option (RunError × Session)
  | .ok _ _ => none
  | .error e s => some (e, s)

theorem eq_error_of_failure? {α : Type} {r : EStateM.Result RunError Session α} {e : RunError}
    {s : Session} (h : failure? r = some (e, s)) : r = .error e s := by
  cases r with
  | ok a s' => cases h
  | error e' s' =>
    cases h
    rfl

/-- The first document is written, the second one cannot be, and the third one is not. -/
theorem runBatch_shelf :
    ∃ s', shelfEnvironment.runBatch shelfSettings { files := shelfFiles } =
        .error (.system (.isADirectory "out/b.graphql")) s' ∧
      s'.files.get? ["out", "a.graphql"] = some (.file shelfDocument.text) ∧
      s'.files.get? ["out", "c.graphql"] = none := by
  have hwrite : (failure? (shelfEnvironment.writeDocuments "out" (shelfNames.zip shelfDocuments)
      { files := shelfFiles, out := ["Found 3 proto file(s)"] })).map
        (fun f => (f.1, f.2.files.get? ["out", "a.graphql"], f.2.files.get? ["out", "c.graphql"])) =
      some (.system (.isADirectory "out/b.graphql"), some (.file shelfDocument.text), none) := by
    decide +kernel
  obtain ⟨⟨e, s'⟩, hfailed, hread⟩ := Option.map_eq_some_iff.mp hwrite
  simp only [Prod.mk.injEq] at hread
  obtain ⟨rfl, hfirst, hthird⟩ := hread
  refine ⟨s', ?_, hfirst, hthird⟩
  have hrun : shelfEnvironment.runBatch shelfSettings { files := shelfFiles } = _ :=
    runBatch_of_converted schemaFiles?_shelfFiles convertFiles_sheets
  exact hrun.trans (run_bind_of_error (eq_error_of_failure? hfailed))

/-- The file system after this batch has come from the one before it by writing the documents
before the one that cannot be written. -/
theorem runBatch_effects_shelf :
    ∃ s' written w rest, shelfEnvironment.runBatch shelfSettings { files := shelfFiles } =
        .error (.system (.isADirectory "out/b.graphql")) s' ∧
      documented (shelfNames.zip shelfDocuments) = written ++ w :: rest ∧
      shelfEnvironment.Wrote "out" written shelfFiles s'.files ∧
      s'.files.get? ["out", "a.graphql"] = some (.file shelfDocument.text) ∧
      s'.files.get? ["out", "c.graphql"] = none := by
  obtain ⟨s', hrun, hfirst, hthird⟩ := runBatch_shelf
  obtain ⟨-, -, -, hwritten⟩ := (Environment.runBatch_effects shelfEnvironment shelfSettings
    { files := shelfFiles }).2 shelfNames schemaFiles?_shelfFiles
  rcases hwritten (by decide) shelfDocuments convertFiles_sheets with
    ⟨s'', hok, -⟩ | ⟨written, w, rest, e, s₁, s'', hsplit, -, -, hfail, hwrote⟩
  · rw [hrun] at hok
    cases hok
  · rw [hrun] at hfail
    cases hfail
    exact ⟨s', written, w, rest, hrun, hsplit, hwrote, hfirst, hthird⟩

end ProtoSdl
