import ProtoSdl.Files.Change

/-!
  Growth — what a change of a file system leaves as it was

  Nothing is ever removed from a file system, and no directory turns into a file. Three
  relations say how much of the old one is found in the new one:

    1. `Extends` — directories are still directories, and what existed exists. A path
       that leads to a place still leads there (`Extends.follow`).
    2. `Keeps` — whatever was at a place is still there, contents of files included.
    3. `AddsDirectories` — the new one differs by directories at certain places only,
       where nothing was.

  Creating directories adds those of the lineage of a path and no others, whether it
  fails or not (`addsDirectories_createDirectories`). Writing a file extends, and keeps
  all places but one (`putFile_extends`, `get?_putFile_of_ne`).
-/

namespace ProtoSdl.Files

namespace FileSystem

/-- Whether the directories of the first are directories of the second, and what exists
in the first exists in the second. -/
def Extends (fs fs' : FileSystem) : Prop :=
  ∀ p, (fs.IsDirectory p → fs'.IsDirectory p) ∧ ((fs.get? p).isSome → (fs'.get? p).isSome)

/-- Whether the second has all that the first has. -/
def Keeps (fs fs' : FileSystem) : Prop := ∀ p e, fs.get? p = some e → fs'.get? p = some e

/-- Whether at the place the second holds what the first holds, or a directory where there was
nothing, at a place that is among these. -/
def KeptOrAdded (P : Place → Prop) (fs fs' : FileSystem) (p : Place) : Prop :=
  fs'.get? p = fs.get? p ∨ fs.get? p = none ∧ fs'.get? p = some .directory ∧ P p

/-- Whether the second differs from the first by new directories alone, at places that are
among these. -/
def AddsDirectories (P : Place → Prop) (fs fs' : FileSystem) : Prop :=
  ∀ p, fs.KeptOrAdded P fs' p

variable {fs fs' fs'' : FileSystem} {P Q : Place → Prop}

theorem Extends.refl (fs : FileSystem) : fs.Extends fs := fun _ => ⟨id, id⟩

theorem Extends.trans (h : fs.Extends fs') (h' : fs'.Extends fs'') : fs.Extends fs'' :=
  fun p => ⟨fun hp => (h' p).1 ((h p).1 hp), fun hp => (h' p).2 ((h p).2 hp)⟩

theorem Keeps.extends (h : fs.Keeps fs') : fs.Extends fs' := by
  intro p
  refine ⟨fun hp => h p _ hp, fun hp => ?_⟩
  obtain ⟨e, he⟩ := Option.isSome_iff_exists.mp hp
  rw [h p e he]
  rfl

theorem AddsDirectories.refl (P : Place → Prop) (fs : FileSystem) : fs.AddsDirectories P fs :=
  fun _ => .inl rfl

theorem KeptOrAdded.trans {p : Place} (h : fs.KeptOrAdded P fs' p) (h' : fs'.KeptOrAdded P fs'' p) :
    fs.KeptOrAdded P fs'' p := by
  rcases h with hp | ⟨hnone, hdirectory, hP⟩
  · unfold KeptOrAdded at h' ⊢
    rw [← hp]
    exact h'
  · rcases h' with hp | ⟨hnone', -, -⟩
    · exact .inr ⟨hnone, hp.trans hdirectory, hP⟩
    · rw [hnone'] at hdirectory
      cases hdirectory

theorem AddsDirectories.trans (h : fs.AddsDirectories P fs') (h' : fs'.AddsDirectories P fs'') :
    fs.AddsDirectories P fs'' :=
  fun p => (h p).trans (h' p)

/-- Only places where nothing was matter. -/
theorem AddsDirectories.imp (h : fs.AddsDirectories P fs')
    (hPQ : ∀ p, fs.get? p = none → P p → Q p) : fs.AddsDirectories Q fs' := by
  intro p
  exact (h p).imp_right fun ⟨hnone, hdirectory, hP⟩ => ⟨hnone, hdirectory, hPQ p hnone hP⟩

theorem AddsDirectories.keeps (h : fs.AddsDirectories P fs') : fs.Keeps fs' := by
  intro p e he
  rcases h p with hp | ⟨hnone, -, -⟩
  · exact hp.trans he
  · rw [hnone] at he
    cases he

/-! ## Following paths -/

/-- What is followed by way of more segments is reached by way of directories. -/
theorem follow_append_eq_ok_iff (fs : FileSystem) (xs : List String) (y : String)
    (ys : List String) : ∀ p q : Place, fs.follow p (xs ++ y :: ys) = .ok q ↔
      ∃ r, fs.follow p xs = .ok r ∧ fs.IsDirectory r ∧
        fs.follow (Path.descend r y) ys = .ok q := by
  induction xs with
  | nil =>
    intro p q
    simp only [List.nil_append, follow, IsDirectory]
    cases hp : fs.get? p with
    | none => simp
    | some e =>
      cases e with
      | directory => simp [hp]
      | file c => simp [hp]
  | cons x xs ih =>
    intro p q
    simp only [List.cons_append, follow]
    cases hp : fs.get? p with
    | none => simp
    | some e =>
      cases e with
      | directory => exact ih _ _
      | file c => simp

/-- Following an empty segment at the end is following to a directory. -/
theorem follow_append_empty (fs : FileSystem) (xs : List String) (p q : Place) :
    fs.follow p (xs ++ [""]) = .ok q ↔ fs.follow p xs = .ok q ∧ fs.IsDirectory q := by
  rw [follow_append_eq_ok_iff]
  constructor
  · rintro ⟨r, hr, hd, hq⟩
    have he := (follow_eq_ok fs hq).1
    have hdescend : Path.descend r "" = r := if_pos (.inl rfl)
    rw [List.foldl_nil, hdescend] at he
    subst he
    exact ⟨hr, hd⟩
  · rintro ⟨hq, hd⟩
    refine ⟨q, hq, hd, ?_⟩
    have hdescend : Path.descend q "" = q := if_pos (.inl rfl)
    rw [hdescend, follow, hd]
    rfl

/-- A path that leads to a place leads there in any larger file system. -/
theorem Extends.follow (h : fs.Extends fs') {xs : List String} :
    ∀ {p q : Place}, fs.follow p xs = .ok q → fs'.follow p xs = .ok q := by
  induction xs with
  | nil =>
    intro p q hq
    obtain ⟨rfl, hs⟩ := follow_eq_ok fs hq
    rw [FileSystem.follow, if_pos ((h _).2 hs)]
  | cons x xs ih =>
    intro p q hq
    simp only [FileSystem.follow] at hq
    split at hq
    · rename_i hp
      have hp' : fs'.get? p = some .directory := (h p).1 hp
      rw [FileSystem.follow, hp']
      exact ih hq
    · cases hq
    · cases hq

/-! ## Changes -/

theorem addsDirectories_addDirectory (fs : FileSystem) (parent : Place) (name : String) :
    fs.AddsDirectories (· = parent ++ [name]) (fs.addDirectory parent name) := by
  intro p
  unfold KeptOrAdded
  by_cases h : fs.IsDirectory parent ∧ Path.IsName name ∧ fs.get? (parent ++ [name]) = none
  · rw [get?_addDirectory h]
    by_cases hp : p = parent ++ [name]
    · rw [if_pos hp]
      exact .inr ⟨hp ▸ h.2.2, rfl, hp⟩
    · rw [if_neg hp]
      exact .inl rfl
  · rw [addDirectory, dif_neg h]
    exact .inl rfl

theorem get?_putFile_of_ne (fs : FileSystem) {parent : Place} {name : String} (content : String)
    {p : Place} (hp : p ≠ parent ++ [name]) :
    (fs.putFile parent name content).get? p = fs.get? p := by
  by_cases h : fs.IsDirectory parent ∧ Path.IsName name ∧ ¬ fs.IsDirectory (parent ++ [name])
  · rw [get?_putFile content h, if_neg hp]
  · rw [putFile, dif_neg h]

theorem putFile_extends (fs : FileSystem) (parent : Place) (name content : String) :
    fs.Extends (fs.putFile parent name content) := by
  intro p
  by_cases hp : p = parent ++ [name]
  · by_cases h : fs.IsDirectory parent ∧ Path.IsName name ∧ ¬ fs.IsDirectory (parent ++ [name])
    · -- Where the file is put there was no directory.
      rw [IsDirectory, IsDirectory, get?_putFile content h, if_pos hp]
      subst hp
      exact ⟨fun hd => absurd hd h.2.2, fun _ => rfl⟩
    · rw [putFile, dif_neg h]
      exact ⟨id, id⟩
  · rw [IsDirectory, IsDirectory, get?_putFile_of_ne fs content hp]
    exact ⟨id, id⟩

end FileSystem

/-- The file system that a change ends with, whether it failed or not. -/
def final : EStateM.Result SystemError FileSystem Unit → FileSystem
  | .ok _ fs => fs
  | .error _ fs => fs

/-- The place that a path text names. -/
def placeNamed (workingDirectory : Place) (text : String) : Place :=
  (Path.segments text).foldl Path.descend (FileSystem.start workingDirectory text)

/-- Whether one of the steps names the place. -/
def IsNamed (workingDirectory : Place) (steps : List Path.Step) (p : Place) : Prop :=
  ∃ step ∈ steps, p = placeNamed workingDirectory step.text

/-- After the last segment of a path text there are empty ones only. -/
theorem segments_of_lastSegment? {text last : String} {above : List String}
    (h : Path.lastSegment? text = some (last, above)) :
    last ≠ "" ∧ ∃ blanks : List String, (∀ b ∈ blanks, b = "") ∧
      Path.segments text = above.reverse ++ last :: blanks := by
  unfold Path.lastSegment? at h
  have hsplit := List.takeWhile_append_dropWhile (p := (· = ""))
    (l := (Path.segments text).reverse)
  have hhead := List.head?_dropWhile_not (· = "") (Path.segments text).reverse
  cases hd : (Path.segments text).reverse.dropWhile (· = "") with
  | nil =>
    rw [hd] at h
    cases h
  | cons s rest =>
    rw [hd] at h hsplit hhead
    cases h
    refine ⟨by simpa using hhead,
      ((Path.segments text).reverse.takeWhile (· = "")).reverse, ?_, ?_⟩
    · intro b hb
      have hall := List.all_takeWhile (p := (· = "")) (l := (Path.segments text).reverse)
      rw [List.all_eq_true] at hall
      simpa using hall b (List.mem_reverse.mp hb)
    · have hrev := congrArg List.reverse hsplit
      rw [List.reverse_append, List.reverse_cons, List.reverse_reverse] at hrev
      rw [List.append_assoc, List.singleton_append] at hrev
      exact hrev.symm

theorem foldl_descend_blank {blanks : List String} (h : ∀ b ∈ blanks, b = "") (place : Place) :
    blanks.foldl Path.descend place = place := by
  induction blanks with
  | nil => rfl
  | cons b blanks ih =>
    have hb : Path.descend place b = place := if_pos (.inl (h b List.mem_cons_self))
    rw [List.foldl_cons, hb]
    exact ih fun c hc => h c (List.mem_cons_of_mem _ hc)

/-- The last segment of a path text, if it is a name, leads from the parent to the place. -/
theorem placeNamed_of_parentOf {fs : FileSystem} {workingDirectory parent : Place}
    {text last : String} (h : parentOf fs workingDirectory text = .ok (parent, some last))
    (hdot : last ≠ ".") (hdots : last ≠ "..") :
    parent ++ [last] = placeNamed workingDirectory text := by
  unfold parentOf at h
  split at h
  · cases h
  · split at h
    · cases h
    · dsimp only at h
      split at h
      · cases h
      · rename_i name above hlast
        split at h
        · rename_i found hfollow
          cases h
          obtain ⟨hne, blanks, hblanks, hsegments⟩ := segments_of_lastSegment? hlast
          obtain ⟨hfollow, -⟩ := (fs.follow_append_empty _ _ _).mp hfollow
          have hdescend : Path.descend parent last = parent ++ [last] := by
            unfold Path.descend
            rw [if_neg (by simp [hne, hdot]), if_neg hdots]
          unfold placeNamed
          rw [hsegments, List.foldl_append, List.foldl_cons, foldl_descend_blank hblanks,
            ← (FileSystem.follow_eq_ok fs hfollow).1, hdescend]
        · cases h

theorem addsDirectories_createDirectory (workingDirectory : Place) (text : String)
    (fs : FileSystem) :
    fs.AddsDirectories (· = placeNamed workingDirectory text)
      (final (createDirectory workingDirectory text fs)) := by
  unfold createDirectory
  cases hparent : parentOf fs workingDirectory text with
  | error e => exact .refl _ fs
  | ok found =>
    obtain ⟨parent, last⟩ := found
    cases last with
    | none => exact .refl _ fs
    | some last =>
      dsimp only
      split
      · exact .refl _ fs
      · rename_i hfree
        refine (fs.addsDirectories_addDirectory parent last).imp fun p _ hp => hp.trans ?_
        exact placeNamed_of_parentOf hparent (fun h => hfree (.inl h))
          (fun h => hfree (.inr (.inl h)))

theorem addsDirectories_ensureDirectory (workingDirectory : Place) (text : String)
    (fs : FileSystem) :
    fs.AddsDirectories (· = placeNamed workingDirectory text)
      (final (ensureDirectory workingDirectory text fs)) := by
  have h := addsDirectories_createDirectory workingDirectory text fs
  unfold ensureDirectory
  cases hc : createDirectory workingDirectory text fs with
  | ok u fs' =>
    rw [hc] at h
    exact h
  | error e fs' =>
    rw [hc] at h
    dsimp only
    split <;> exact h

theorem addsDirectories_createLineage (workingDirectory : Place) (steps : List Path.Step)
    (fs : FileSystem) :
    fs.AddsDirectories (IsNamed workingDirectory steps)
      (final (createLineage workingDirectory steps fs)) := by
  induction steps with
  | nil => exact .refl _ fs
  | cons step rest ih =>
    have hown : ∀ fs' : FileSystem,
        fs'.AddsDirectories (IsNamed workingDirectory (step :: rest))
          (final (ensureDirectory workingDirectory step.text fs')) := fun fs' =>
      (addsDirectories_ensureDirectory workingDirectory step.text fs').imp
        fun p _ hp => ⟨step, List.mem_cons_self, hp⟩
    -- The directory above is created first, and that it exists already is no failure.
    cases rest with
    | nil => exact hown fs
    | cons above rest =>
      have habove : fs.AddsDirectories (IsNamed workingDirectory (step :: above :: rest))
          (final (createLineage workingDirectory (above :: rest) fs)) :=
        ih.imp fun p _ ⟨s, hs, hp⟩ => ⟨s, List.mem_cons_of_mem _ hs, hp⟩
      have hfinish : ∀ fs' : FileSystem,
          fs.AddsDirectories (IsNamed workingDirectory (step :: above :: rest)) fs' →
          fs.AddsDirectories (IsNamed workingDirectory (step :: above :: rest))
            (final (if step.last = "." then .ok () fs'
              else ensureDirectory workingDirectory step.text fs')) := by
        intro fs' h
        split
        · exact h
        · exact h.trans (hown fs')
      rw [createLineage]
      dsimp only
      by_cases hexists : fs.pathExists workingDirectory above.text = true
      · rw [if_pos hexists]
        exact hown fs
      · rw [if_neg hexists]
        cases hc : createLineage workingDirectory (above :: rest) fs with
        | ok u fs' =>
          rw [hc] at habove
          exact hfinish fs' habove
        | error e fs' =>
          rw [hc] at habove
          cases e with
          | alreadyExists path => exact hfinish fs' habove
          | notFound path => exact habove
          | notADirectory path => exact habove
          | isADirectory path => exact habove
          | nullCharacter => exact habove

/-- Creating directories adds directories of the lineage, whether it fails or not. -/
theorem addsDirectories_createDirectories (workingDirectory : Place) (text : String)
    (fs : FileSystem) :
    fs.AddsDirectories (IsNamed workingDirectory (Path.lineage text))
      (final (createDirectories workingDirectory text fs)) :=
  addsDirectories_createLineage workingDirectory (Path.lineage text) fs

end ProtoSdl.Files
