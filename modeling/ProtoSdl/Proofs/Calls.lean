import ProtoSdl.Sdl.Ledger

/-!
  Calls — what operations do to a ledger, one after the other

  A ledger is changed by calls of its three operations only. A call that succeeds leaves an
  entry, and the entries of many calls are a log:

    1. `Call.make_eq` is the whole behaviour of one call: it does what its entry says
       (`Ledger.enter`), or it fails for a type name that is taken and does nothing.
    2. `makeAll_cases` says the same of calls in a row, which stop at the first that fails.

  So calls that are broken off in the middle leave what their entries so far say, and nothing
  else.
-/

namespace ProtoSdl.Sdl

/-- A call of an operation of the ledger. -/
inductive Call where
  | synthesize (key : String) (t : WellKnownType)
  | take (names : List Name)
  | root (name : String)

/-- A call that succeeded, with its answer. -/
inductive Entry where
  | synthesized (key : String) (t : WellKnownType) (isNew : Bool)
  | granted (names : List Name)
  | opened (name : String) (keyword : RootKeyword)
  deriving DecidableEq

def Call.make : Call → Emit Entry
  | synthesize key t => do
    let isNew ← declareWellKnown key t
    return .synthesized key t isNew
  | take names => do
    claim names
    return .granted names
  | root name => do
    let keyword ← openRoot name
    return .opened name keyword

/-- The ledger after a call that succeeded. -/
def Ledger.enter (l : Ledger) : Entry → Ledger
  | .synthesized key t true =>
    { l with keys := key :: l.keys, wellKnown := t :: l.wellKnown,
             taken := l.taken ++ [.text t.name] }
  | .synthesized _ _ false => l
  | .granted names => l.take names
  | .opened name .declare => { l with roots := name :: l.roots }
  | .opened _ .extend => l

/-- Whether a call can have this answer. -/
def Ledger.Allows (l : Ledger) : Entry → Prop
  | .synthesized key t true => key ∉ l.keys ∧ .text t.name ∉ l.taken
  | .synthesized key _ false => key ∈ l.keys
  | .granted names => ∀ n ∈ names, n ∉ l.taken
  | .opened name .declare => name ∉ l.roots
  | .opened name .extend => name ∈ l.roots

/-! ## One call -/

/-- The answer of a call, or the type name for which it fails. -/
def Call.answer (l : Ledger) : Call → Except Name Entry
  | synthesize key t =>
    if l.keys.contains key then .ok (.synthesized key t false)
    else if l.taken.contains (.text t.name) then .error (.text t.name)
    else .ok (.synthesized key t true)
  | take names =>
    match names.find? (l.taken.contains ·) with
    | some n => .error n
    | none => .ok (.granted names)
  | root name => .ok (.opened name (if l.roots.contains name then .extend else .declare))

/-- A call does what its answer says, or it fails and does nothing. -/
theorem Call.make_eq (c : Call) (l : Ledger) :
    c.make l =
      match c.answer l with
      | .ok e => .ok e (l.enter e)
      | .error n => .error (.duplicateType n) l := by
  cases c with
  | synthesize key t =>
    have run : (synthesize key t).make l = EStateM.bind (declareWellKnown key t)
      (fun isNew => pure (.synthesized key t isNew)) l := rfl
    rw [run, EStateM.bind, declareWellKnown_apply]
    by_cases hk : key ∈ l.keys
    · simp [answer, hk, Ledger.enter, pure, EStateM.pure]
    · by_cases hn : Name.text t.name ∈ l.taken
      · have hrefused : claim [.text t.name] l = .error (.duplicateType (.text t.name)) l :=
          (claim_error_iff _ _ _ _).mpr ⟨rfl, .text t.name, by simp [hn], rfl⟩
        simp [answer, hk, hn, hrefused]
      · have hgranted : claim [.text t.name] l = .ok () (l.take [.text t.name]) :=
          (claim_ok_iff _ _ _).mpr ⟨by simpa using hn, rfl⟩
        simp [answer, hk, hn, hgranted, Ledger.take, Ledger.enter, List.eraseDups_cons, pure,
          EStateM.pure]
  | take names =>
    have run : (take names).make l = EStateM.bind (claim names)
      (fun _ => pure (.granted names)) l := rfl
    rw [run, EStateM.bind]
    simp only [answer]
    cases hfind : names.find? (l.taken.contains ·) with
    | some n => rw [(claim_error_iff _ _ _ _).mpr ⟨rfl, n, hfind, rfl⟩]
    | none =>
      rw [(claim_ok_iff _ _ _).mpr ⟨by simpa using hfind, rfl⟩]
      rfl
  | root name =>
    have run : (root name).make l = EStateM.bind (openRoot name)
      (fun keyword => pure (.opened name keyword)) l := rfl
    rw [run, EStateM.bind, openRoot_apply]
    simp only [answer]
    cases l.roots.contains name <;> rfl

theorem Call.allows_of_answer {c : Call} {l : Ledger} {e : Entry} (h : c.answer l = .ok e) :
    l.Allows e := by
  cases c with
  | synthesize key t =>
    simp only [answer] at h
    split at h
    · rename_i hk
      cases h
      exact List.contains_iff_mem.mp hk
    · rename_i hk
      split at h
      · cases h
      · rename_i hn
        cases h
        exact ⟨fun hm => hk (List.contains_iff_mem.mpr hm),
          fun hm => hn (List.contains_iff_mem.mpr hm)⟩
  | take names =>
    simp only [answer] at h
    split at h
    · cases h
    · rename_i hnone
      cases h
      intro n hn hm
      have hnot := List.find?_eq_none.mp hnone n hn
      exact hnot (List.contains_iff_mem.mpr hm)
  | root name =>
    cases h
    by_cases hr : name ∈ l.roots
    · simp [Ledger.Allows, hr]
    · simp [Ledger.Allows, hr]

/-- The entry that a call leaves if it succeeds. -/
def Call.entry (l : Ledger) : Call → Entry
  | synthesize key t => .synthesized key t (!l.keys.contains key)
  | take names => .granted names
  | root name => .opened name (if l.roots.contains name then .extend else .declare)

theorem Call.eq_entry_of_answer {c : Call} {l : Ledger} {e : Entry} (h : c.answer l = .ok e) :
    e = c.entry l := by
  cases c with
  | synthesize key t =>
    simp only [answer] at h
    split at h
    · rename_i hk
      cases h
      simp only [entry, hk, Bool.not_true]
    · rename_i hk
      split at h
      · cases h
      · cases h
        simp only [entry, hk, Bool.not_false]
  | take names =>
    simp only [answer] at h
    split at h <;> cases h
    rfl
  | root name =>
    cases h
    rfl

/-! ## Many calls -/

/-- The calls one after the other, up to the first that fails. -/
def makeAll : List Call → Emit Unit
  | [] => return ()
  | c :: rest => do
    let _ ← c.make
    makeAll rest

/-- The entries of the calls that succeed. -/
def entries : List Call → Ledger → List Entry
  | [], _ => []
  | c :: rest, l =>
    match c.answer l with
    | .ok e => e :: entries rest (l.enter e)
    | .error _ => []

/-- The ledger after the calls of a log. -/
def Ledger.enterAll (l : Ledger) (log : List Entry) : Ledger := log.foldl Ledger.enter l

/-- Whether calls can have these answers, one after the other. -/
def Ledger.AllowsAll : Ledger → List Entry → Prop
  | _, [] => True
  | l, e :: rest => l.Allows e ∧ (l.enter e).AllowsAll rest

theorem Ledger.enterAll_append (l : Ledger) (log more : List Entry) :
    l.enterAll (log ++ more) = (l.enterAll log).enterAll more := List.foldl_append

theorem Ledger.allowsAll_append {l : Ledger} {log more : List Entry} :
    l.AllowsAll (log ++ more) ↔ l.AllowsAll log ∧ (l.enterAll log).AllowsAll more := by
  induction log generalizing l with
  | nil => simp [Ledger.AllowsAll, Ledger.enterAll]
  | cons e log ih =>
    rw [List.cons_append, Ledger.AllowsAll, Ledger.AllowsAll, ih, and_assoc]
    rfl

theorem makeAll_cons (c : Call) (calls : List Call) (l : Ledger) :
    makeAll (c :: calls) l =
      match c.answer l with
      | .ok e => makeAll calls (l.enter e)
      | .error n => .error (.duplicateType n) l := by
  have run : makeAll (c :: calls) l = EStateM.bind c.make (fun _ => makeAll calls) l := rfl
  rw [run, EStateM.bind, Call.make_eq]
  cases c.answer l <;> rfl

theorem makeAll_append (calls more : List Call) :
    makeAll (calls ++ more) = (makeAll calls >>= fun _ => makeAll more) := by
  induction calls with
  | nil => rfl
  | cons c calls ih =>
    rw [List.cons_append, makeAll, makeAll, ih]
    simp only [bind_assoc]

/-- Calls in a row come to the ledger that their entries make, whether one fails or not. -/
theorem makeAll_cases (calls : List Call) (l : Ledger) :
    l.AllowsAll (entries calls l) ∧
      (makeAll calls l = .ok () (l.enterAll (entries calls l)) ∨
        ∃ n, makeAll calls l = .error (.duplicateType n) (l.enterAll (entries calls l))) := by
  induction calls generalizing l with
  | nil => exact ⟨trivial, .inl rfl⟩
  | cons c calls ih =>
    rw [makeAll_cons, entries]
    cases ha : c.answer l with
    | error n => exact ⟨trivial, .inr ⟨n, rfl⟩⟩
    | ok e =>
      obtain ⟨hallows, hrun⟩ := ih (l.enter e)
      exact ⟨⟨Call.allows_of_answer ha, hallows⟩, hrun⟩

theorem entries_append {calls : List Call} {l s : Ledger} (h : makeAll calls l = .ok () s)
    (more : List Call) : entries (calls ++ more) l = entries calls l ++ entries more s := by
  induction calls generalizing l with
  | nil =>
    cases h
    rfl
  | cons c calls ih =>
    rw [makeAll_cons] at h
    rw [List.cons_append, entries, entries]
    cases ha : c.answer l with
    | error n =>
      rw [ha] at h
      cases h
    | ok e =>
      rw [ha] at h
      exact congrArg (e :: ·) (ih h)

theorem entries_append_of_error {calls : List Call} {l s : Ledger} {e : ConversionError}
    (h : makeAll calls l = .error e s) (more : List Call) :
    entries (calls ++ more) l = entries calls l := by
  induction calls generalizing l with
  | nil => cases h
  | cons c calls ih =>
    rw [makeAll_cons] at h
    rw [List.cons_append, entries, entries]
    cases ha : c.answer l with
    | error n => rfl
    | ok e' =>
      rw [ha] at h
      exact congrArg (e' :: ·) (ih h)

/-- Calls that do not open the root type leave it open or not as it was. -/
theorem contains_roots_entries {calls : List Call} {name : String} (h : .root name ∉ calls)
    (l : Ledger) :
    (l.enterAll (entries calls l)).roots.contains name = l.roots.contains name := by
  induction calls generalizing l with
  | nil => rfl
  | cons c calls ih =>
    rw [List.mem_cons, not_or] at h
    rw [entries]
    cases ha : c.answer l with
    | error n => rfl
    | ok e =>
      refine (ih h.2 (l.enter e)).trans ?_
      obtain rfl := Call.eq_entry_of_answer ha
      cases c with
      | synthesize key t =>
        simp only [Call.entry]
        cases l.keys.contains key <;> rfl
      | take names => rfl
      | root other =>
        have hne : name ≠ other := fun he => h.1 (he ▸ rfl)
        simp only [Call.entry]
        cases l.roots.contains other with
        | true => rfl
        | false => simp [Ledger.enter, hne]

end ProtoSdl.Sdl
