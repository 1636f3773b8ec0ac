import ProtoSdl.Path.Lexical

/-!
  Path texts — a text that is written for a root and names is read as these

  Both kinds of paths are written in one way: the root, if there is one, and the names with
  slashes between them. `rooted` is that text. Names that are neither empty nor `.` and hold
  no slash are read back from it: the root is the one that was written (`root?_rooted`), and
  the segments are the names, after empty ones for the root (`segments_rooted`).

  So the text of a lexical path in normal form tells the path (`LexicalPath.ofText_text`),
  and what is walked along joined names is the names (`AbsolutePath.ofText_intercalate`).
-/

namespace ProtoSdl.Path

/-- Whether the text can stand between slashes and matters there: it is a name or `..`. -/
def IsSegment (s : String) : Prop := s ≠ "" ∧ s ≠ "." ∧ separator ∉ s.toList

theorem IsName.isSegment {s : String} (h : IsName s) : IsSegment s := ⟨h.1, h.2.1, h.2.2.2⟩

/-- The text of a root and names. -/
def rooted (root : Option Root) (names : List String) : String :=
  (match root with
    | some r => r.text
    | none => "") ++ "/".intercalate names

/-- The segments before the first name: one for each slash of the root. -/
def blanks : Option Root → List String
  | none => []
  | some .single => [""]
  | some .double => ["", ""]

theorem segments_slash (s : String) : segments ("/" ++ s) = "" :: segments s := by
  have hcut := List.splitOn_append_cons_self (a := separator) [] s.toList
  unfold segments Text.split
  rw [String.toList_append]
  show (([] ++ separator :: s.toList).splitOn separator).map String.ofList = _
  rw [hcut]
  rfl

variable {root : Option Root} {names : List String}

theorem segments_rooted (h : ∀ n ∈ names, IsSegment n) (hne : names ≠ []) :
    segments (rooted root names) = blanks root ++ names := by
  have hnames : segments ("/".intercalate names) = names :=
    Text.split_intercalate hne fun n hn => (h n hn).2.2
  unfold rooted
  cases root with
  | none => rw [String.empty_append, hnames, blanks, List.nil_append]
  | some r =>
    cases r with
    | single =>
      show segments ("/" ++ "/".intercalate names) = _
      rw [segments_slash, hnames]
      rfl
    | double =>
      show segments ("/" ++ "/" ++ "/".intercalate names) = _
      rw [String.append_assoc, segments_slash, segments_slash, hnames]
      rfl

/-- Joined names do not begin with a slash. -/
theorem head?_intercalate_ne (h : ∀ n ∈ names, IsSegment n) :
    ("/".intercalate names).toList.head? ≠ some separator := by
  cases names with
  | nil => exact nofun
  | cons n names =>
    obtain ⟨hne, -, hslash⟩ := h n List.mem_cons_self
    have hfirst : ∃ tail, "/".intercalate (n :: names) = n ++ tail := by
      cases names with
      | nil => exact ⟨"", by rw [String.intercalate_singleton, String.append_empty]⟩
      | cons m names =>
        refine ⟨"/" ++ "/".intercalate (m :: names), ?_⟩
        rw [String.intercalate_cons_of_ne_nil (by simp), String.append_assoc]
    obtain ⟨tail, htail⟩ := hfirst
    rw [htail, String.toList_append]
    cases hn : n.toList with
    | nil => exact absurd (String.toList_inj.mp hn) hne
    | cons c cs =>
      rw [hn] at hslash
      rintro hc
      exact hslash (List.mem_cons.mpr (.inl (Option.some.inj hc).symm))

/-- The root of a text is the one that is written in front of the names. -/
theorem root?_rooted (h : ∀ n ∈ names, IsSegment n) : root? (rooted root names) = root := by
  have hone : "/".toList = ['/'] := rfl
  have htwo : "//".toList = ['/', '/'] := rfl
  have hthree : "///".toList = ['/', '/', '/'] := rfl
  have hhead := head?_intercalate_ne h
  unfold root? Text.hasPrefix rooted
  rw [String.toList_append, hone, htwo, hthree]
  -- What comes after the slashes of the root does not begin with one more.
  cases hcs : ("/".intercalate names).toList with
  | nil =>
    cases root with
    | none => rfl
    | some r => cases r <;> rfl
  | cons c cs =>
    rw [hcs] at hhead
    have hc : '/' ≠ c := by
      rintro rfl
      exact hhead rfl
    cases root with
    | none => simp [hc]
    | some r => cases r <;> simp [Root.text, hone, htwo, hc]

/-- A name leads one step down. -/
theorem descend_name {name : String} (hn : IsName name) (names : List String) :
    descend names name = names ++ [name] := by
  unfold descend
  rw [if_neg (by simp [hn.1, hn.2.1]), if_neg hn.2.2.1]

theorem foldl_descend_names (h : ∀ n ∈ names, IsName n) :
    ∀ above : List String, names.foldl descend above = above ++ names := by
  induction names with
  | nil => exact fun above => (List.append_nil above).symm
  | cons n names ih =>
    intro above
    rw [List.foldl_cons, descend_name (h n List.mem_cons_self),
      ih (fun m hm => h m (List.mem_cons_of_mem _ hm)), List.append_assoc]
    rfl

namespace LexicalPath

/-- Whether all names of the path matter. -/
def IsNormal (p : LexicalPath) : Prop := ∀ n ∈ p.names, IsSegment n

theorem isNormal_ofText (text : String) : (ofText text).IsNormal := by
  intro n hn
  obtain ⟨hn, hfilter⟩ := List.mem_filter.mp hn
  rw [decide_eq_true_eq] at hfilter
  exact ⟨hfilter.1, hfilter.2, Text.not_mem_of_mem_split hn⟩

variable {p q : LexicalPath}

theorem text_eq_rooted (hne : p.names ≠ []) : p.text = rooted p.root p.names := by
  unfold text rooted
  cases p.root with
  | none =>
    dsimp only
    rw [if_neg (by simpa using hne), String.empty_append]
  | some r => rfl

/-- A path in normal form is read back from its text. -/
theorem ofText_text (h : p.IsNormal) : ofText p.text = p := by
  obtain ⟨root, names⟩ := p
  by_cases hne : names = []
  · subst hne
    cases root with
    | none => decide
    | some r => cases r <;> decide
  · have htext : text ⟨root, names⟩ = rooted root names := text_eq_rooted hne
    have hroot : root? (rooted root names) = root := root?_rooted h
    have hsegments : segments (rooted root names) = blanks root ++ names := segments_rooted h hne
    have hblanks : (blanks root).filter (fun s => s ≠ "" ∧ s ≠ ".") = [] := by
      cases root with
      | none => rfl
      | some r => cases r <;> rfl
    have hkept : names.filter (fun s => s ≠ "" ∧ s ≠ ".") = names :=
      List.filter_eq_self.mpr fun n hn => decide_eq_true ⟨(h n hn).1, (h n hn).2.1⟩
    rw [htext]
    unfold ofText
    rw [hroot, hsegments, List.filter_append, hblanks, hkept, List.nil_append]

/-- Different paths in normal form have different texts. -/
theorem eq_of_text_eq (hp : p.IsNormal) (hq : q.IsNormal) (h : p.text = q.text) : p = q := by
  rw [← ofText_text hp, h, ofText_text hq]

end LexicalPath

/-- Walking along joined names leads down to the last of them. -/
theorem AbsolutePath.ofText_intercalate (directory : AbsolutePath) (h : ∀ n ∈ names, IsName n) :
    (ofText directory ("/".intercalate names)).root = directory.root ∧
      (ofText directory ("/".intercalate names)).names = directory.names ++ names := by
  have hsegments : ∀ n ∈ names, IsSegment n := fun n hn => (h n hn).isSegment
  have hrelative : root? ("/".intercalate names) = none := by
    have hroot := @root?_rooted none _ hsegments
    unfold rooted at hroot
    rwa [String.empty_append] at hroot
  unfold ofText
  rw [hrelative]
  refine ⟨rfl, ?_⟩
  show (segments ("/".intercalate names)).foldl descend directory.names = _
  by_cases hne : names = []
  · subst hne
    exact (List.append_nil directory.names).symm
  · have hnames := Text.split_intercalate hne fun n hn => (hsegments n hn).2.2
    unfold segments
    rw [show ("/" : String) = String.ofList [separator] from rfl, hnames, foldl_descend_names h]

end ProtoSdl.Path
