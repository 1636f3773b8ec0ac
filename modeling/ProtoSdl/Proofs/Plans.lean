import Mathlib.Data.List.Basic
import ProtoSdl.Proofs.Calls
import ProtoSdl.Proofs.ItemBlocks

/-!
  Plans — what an emitter asks of the ledger, where it stops and what it answers

  An emitter makes calls of the ledger, and it may fail by itself when all are made. Which
  calls these are does not depend on the ledger, so they are a plan:

    1. `Plan.run_cases` says of a plan that it comes to the ledger that its entries make,
       whether it fails or not, and `Plan.error_of_run` for which reasons it fails.
    2. `Follows x p v` says of an emitter that it fails where the plan `p` does, and that it
       answers `v` where the plan succeeds.
    3. `Follows.emitItem` and the lemmas before it give each emitter its plan.
    4. `calls_itemPlan` gives the calls of an item that can be emitted, and
       `failure_itemPlan` the reasons of one that cannot.

  What an emitter does is said once, by its plan; whatever else is said of its run is read off
  the plan. The whole emission fails for a name that is taken, or for an item that cannot be
  emitted (`error_of_emitItems`).
-/

namespace ProtoSdl.Sdl

open Schema

/-! ## Plans -/

/-- The calls of an emitter, and the failure of its own that comes after them, if any. -/
structure Plan where
  calls : List Call
  failure : Option ConversionError := none

/-- The ledger after the calls of a plan that succeed. -/
def Ledger.afterPlan (l : Ledger) (p : Plan) : Ledger := l.enterAll (entries p.calls l)

namespace Plan

def run (p : Plan) : Emit Unit := do
  makeAll p.calls
  match p.failure with
  | some e => throw e
  | none => return ()

/-- One plan after the other; a failure at the end of the first one is the end. -/
def andThen (p q : Plan) : Plan :=
  match p.failure with
  | some e => ⟨p.calls, some e⟩
  | none => ⟨p.calls ++ q.calls, q.failure⟩

/-- The plans of the elements of a list. -/
def forAll {α : Type} (plan : α → Plan) : List α → Plan
  | [] => ⟨[], none⟩
  | a :: rest => (plan a).andThen (forAll plan rest)

theorem andThen_nil (p : Plan) : p.andThen ⟨[], none⟩ = p := by
  obtain ⟨calls, failure⟩ := p
  cases failure with
  | none => simp [andThen]
  | some e => rfl

theorem run_apply (p : Plan) (l : Ledger) :
    p.run l =
      match makeAll p.calls l, p.failure with
      | .error e s, _ => .error e s
      | .ok _ s, some e => .error e s
      | .ok _ s, none => .ok () s := by
  show EStateM.bind (makeAll p.calls) _ l = _
  unfold EStateM.bind
  cases makeAll p.calls l with
  | error e s => rfl
  | ok u s => cases p.failure <;> rfl

/-- A plan of one call does what the call does. -/
theorem run_call (c : Call) (l : Ledger) :
    run ⟨[c], none⟩ l =
      match c.answer l with
      | .ok e => .ok () (l.enter e)
      | .error n => .error (.duplicateType n) l := by
  rw [run_apply, makeAll_cons]
  cases c.answer l <;> rfl

theorem run_andThen (p q : Plan) : (p.andThen q).run = (p.run >>= fun _ => q.run) := by
  unfold andThen run
  cases p.failure with
  | some e =>
    simp only [bind_assoc]
    rfl
  | none =>
    simp only [makeAll_append, bind_assoc, pure_bind]

/-- A plan comes to the ledger that its entries make, whether it fails or not. -/
theorem run_cases (p : Plan) (l : Ledger) :
    p.run l = .ok () (l.afterPlan p) ∨ ∃ e, p.run l = .error e (l.afterPlan p) := by
  unfold Ledger.afterPlan
  rw [run_apply]
  rcases (makeAll_cases p.calls l).2 with h | ⟨n, h⟩
  · rw [h]
    cases p.failure with
    | none => exact .inl rfl
    | some e => exact .inr ⟨e, rfl⟩
  · rw [h]
    exact .inr ⟨.duplicateType n, rfl⟩

/-- A plan fails for a type name that is taken, or by itself. -/
theorem error_of_run {p : Plan} {l s : Ledger} {e : ConversionError} (h : p.run l = .error e s) :
    (∃ n, e = .duplicateType n) ∨ p.failure = some e := by
  rw [run_apply] at h
  rcases (makeAll_cases p.calls l).2 with hmake | ⟨n, hmake⟩
  · rw [hmake] at h
    cases hfail : p.failure with
    | none =>
      rw [hfail] at h
      cases h
    | some e' =>
      rw [hfail] at h
      cases h
      exact .inr rfl
  · rw [hmake] at h
    cases h
    exact .inl ⟨n, rfl⟩

theorem failure_andThen {p q : Plan} {e : ConversionError} (h : (p.andThen q).failure = some e) :
    p.failure = some e ∨ q.failure = some e := by
  unfold andThen at h
  split at h
  · rename_i hfail
    exact .inl (hfail.trans h)
  · exact .inr h

theorem failure_forAll {α : Type} {plan : α → Plan} {as : List α} {e : ConversionError}
    (h : (forAll plan as).failure = some e) : ∃ a ∈ as, (plan a).failure = some e := by
  induction as with
  | nil => cases h
  | cons a as ih =>
    rcases failure_andThen h with h | h
    · exact ⟨a, List.mem_cons_self, h⟩
    · obtain ⟨b, hb, hfail⟩ := ih h
      exact ⟨b, List.mem_cons_of_mem a hb, hfail⟩

theorem failure_andThen_eq_none_iff {p q : Plan} :
    (p.andThen q).failure = none ↔ p.failure = none ∧ q.failure = none := by
  unfold andThen
  cases p.failure with
  | none => simp
  | some e => simp

theorem failure_forAll_eq_none_iff {α : Type} {plan : α → Plan} {as : List α} :
    (forAll plan as).failure = none ↔ ∀ a ∈ as, (plan a).failure = none := by
  induction as with
  | nil => simp [forAll]
  | cons a as ih => rw [forAll, failure_andThen_eq_none_iff, ih, List.forall_mem_cons]

theorem calls_andThen {p : Plan} (h : p.failure = none) (q : Plan) :
    (p.andThen q).calls = p.calls ++ q.calls := by
  unfold andThen
  rw [h]

/-- Where no plan fails by itself, all calls are made. -/
theorem calls_forAll {α : Type} {plan : α → Plan} {as : List α}
    (h : ∀ a ∈ as, (plan a).failure = none) :
    (forAll plan as).calls = as.flatMap fun a => (plan a).calls := by
  induction as with
  | nil => rfl
  | cons a as ih =>
    obtain ⟨ha, has⟩ := List.forall_mem_cons.mp h
    rw [forAll, calls_andThen ha, ih has, List.flatMap_cons]

theorem entries_andThen {p : Plan} {l s : Ledger} (h : p.run l = .ok () s) (q : Plan) :
    entries (p.andThen q).calls l = entries p.calls l ++ entries q.calls s := by
  rw [run_apply] at h
  unfold andThen
  split at h
  · cases h
  · cases h
  · rename_i hmake hfail
    cases h
    rw [hfail]
    exact entries_append hmake _

/-- What comes after a plan that fails has no entries. -/
theorem entries_andThen_of_error {p : Plan} {l s : Ledger} {e : ConversionError}
    (h : p.run l = .error e s) (q : Plan) :
    entries (p.andThen q).calls l = entries p.calls l := by
  rw [run_apply] at h
  unfold andThen
  split at h
  · rename_i hmake
    cases p.failure with
    | some e => rfl
    | none => exact entries_append_of_error hmake _
  · rename_i hfail
    rw [hfail]
  · cases h

theorem calls_andThen_subset (p q : Plan) : (p.andThen q).calls ⊆ p.calls ++ q.calls := by
  unfold Plan.andThen
  split
  · exact List.subset_append_left _ _
  · exact List.Subset.refl _

theorem exists_of_mem_forAll {α : Type} {plan : α → Plan} {as : List α} {c : Call}
    (h : c ∈ (forAll plan as).calls) : ∃ a, c ∈ (plan a).calls := by
  induction as with
  | nil => cases h
  | cons a as ih =>
    rcases List.mem_append.mp (calls_andThen_subset _ _ h) with h | h
    · exact ⟨a, h⟩
    · exact ih h

end Plan

/-- The emitter makes the calls of the plan up to the first that fails. After all of them it
fails as the plan says, or it answers what `v` says of the ledger that it began with. -/
def Follows {α : Type} (x : Emit α) (p : Plan) (v : Ledger → α) : Prop :=
  ∀ l, x l =
    match p.run l with
    | .ok _ s => .ok (v l) s
    | .error e s => .error e s

namespace Follows

variable {α β : Type} {x : Emit α} {p q : Plan} {v : Ledger → α}

/-- An emitter succeeds where its plan does. -/
theorem eq_of_ok (hx : Follows x p v) {l s : Ledger} {a : α} (h : x l = .ok a s) :
    a = v l ∧ p.run l = .ok () s := by
  rw [hx l] at h
  split at h
  · rename_i hrun
    cases h
    exact ⟨rfl, hrun⟩
  · cases h

/-- It fails where its plan does, and for the same reason. -/
theorem run_of_error (hx : Follows x p v) {l s : Ledger} {e : ConversionError}
    (h : x l = .error e s) : p.run l = .error e s := by
  rw [hx l] at h
  split at h
  · cases h
  · rename_i hrun
    cases h
    exact hrun

theorem pure' (a : α) : Follows (pure a : Emit α) ⟨[], none⟩ fun _ => a := fun _ => rfl

/-- Whatever a failing emitter would answer, it does not come to it. -/
theorem throw' (e : ConversionError) (v : Ledger → α) :
    Follows (throw e : Emit α) ⟨[], some e⟩ v := fun _ => rfl

/-- An operation of the ledger is one call, and its answer is what the entry says. -/
theorem call (c : Call) {g : α → Entry} (hg : Function.Injective g)
    (h : c.make = x >>= fun a => pure (g a)) (hv : ∀ l, c.entry l = g (v l)) :
    Follows x ⟨[c], none⟩ v := by
  intro l
  have hmake := c.make_eq l
  have run : c.make l = EStateM.bind x (fun a => pure (g a)) l := congrFun h l
  rw [run, EStateM.bind] at hmake
  rw [Plan.run_call]
  cases ha : c.answer l with
  | error n =>
    rw [ha] at hmake
    cases hx : x l with
    | ok a s =>
      rw [hx] at hmake
      cases hmake
    | error e s =>
      rw [hx] at hmake
      cases hmake
      rfl
  | ok e =>
    rw [ha] at hmake
    cases hx : x l with
    | ok a s =>
      rw [hx] at hmake
      injection hmake with hentry hledger
      rw [Call.eq_entry_of_answer ha, hv] at hentry
      rw [hg hentry, hledger]
    | error e s =>
      rw [hx] at hmake
      cases hmake

/-- The second plan is come to when the first one succeeds, and begins with what that one
leaves. -/
theorem bind' {f : α → Emit β} {w : Ledger → Ledger → β} (hx : Follows x p v)
    (hf : ∀ l, Follows (f (v l)) q (w l)) :
    Follows (x >>= f) (p.andThen q) fun l => w l (l.afterPlan p) := by
  intro l
  have hrun : (p.andThen q).run l = EStateM.bind p.run (fun _ => q.run) l :=
    congrFun (Plan.run_andThen p q) l
  show EStateM.bind x f l = _
  rw [hrun, EStateM.bind, EStateM.bind, hx l]
  rcases p.run_cases l with h | ⟨e, h⟩
  · rw [h]
    exact hf l (l.afterPlan p)
  · rw [h]

theorem congr' {w : Ledger → α} (hx : Follows x p v) (hp : p = q) (hv : ∀ l, v l = w l) :
    Follows x q w := by
  obtain rfl : v = w := funext hv
  exact hp ▸ hx

/-- What is done with the answer changes nothing else. -/
theorem bind_pure' (hx : Follows x p v) (f : α → β) :
    Follows (x >>= fun a => pure (f a)) p fun l => f (v l) :=
  congr' (bind' hx fun l => pure' (f (v l))) (Plan.andThen_nil p) fun _ => rfl

/-- An emitter for each element of a list, where no answer depends on the ledger. -/
theorem mapM' {f : α → Emit β} {plan : α → Plan} {v : α → β} (as : List α)
    (hf : ∀ a, Follows (f a) (plan a) fun _ => v a) :
    Follows (as.mapM f) (Plan.forAll plan as) fun _ => as.map v := by
  induction as with
  | nil =>
    rw [List.mapM_nil]
    exact pure' []
  | cons a as ih =>
    rw [List.mapM_cons]
    exact congr' (bind' (hf a) fun _ => bind_pure' ih (v a :: ·)) rfl fun _ => rfl

theorem require (n : Name) (e : ConversionError) :
    Follows (n.require e : Emit String) ⟨[], if n.isText then none else some e⟩
      fun _ => n.shown := by
  cases n with
  | text s => exact pure' s
  | octets bs => exact throw' e _

end Follows

/-! ## The plans of the emitters -/

/-- The calls that resolve a name. -/
def lookups (n : Name) : List Call :=
  match wellKnown? n.shown with
  | some t => [.synthesize n.shown t]
  | none => []

def fieldPlan (f : Field) : Plan :=
  if f.name.isText then ⟨if f.isMap then [] else lookups f.typeName, none⟩
  else ⟨[], some .fieldNotText⟩

def methodPlan (m : Method) : Plan :=
  if m.name.isText then ⟨lookups m.request ++ lookups m.response, none⟩
  else ⟨[], some .methodNotText⟩

/-- The calls of a service that open root types. -/
def rootCalls (s : Service) : List Call := (servedRoots (.service s)).map fun r => .root r.name

def servicePlan (s : Service) : Plan :=
  (Plan.forAll methodPlan s.methods).andThen ⟨rootCalls s, none⟩

/-- Whether the call can open no root type. -/
def Call.IsSynthesis (c : Call) : Prop := ∃ key t, c = .synthesize key t

theorem isSynthesis_of_mem_lookups {n : Name} {c : Call} (h : c ∈ lookups n) :
    c.IsSynthesis := by
  unfold lookups at h
  split at h
  · rename_i t ht
    exact ⟨n.shown, t, List.mem_singleton.mp h⟩
  · cases h

theorem isSynthesis_of_mem_fieldPlan {f : Field} {c : Call} (h : c ∈ (fieldPlan f).calls) :
    c.IsSynthesis := by
  unfold fieldPlan at h
  split at h
  · dsimp only at h
    split at h
    · cases h
    · exact isSynthesis_of_mem_lookups h
  · cases h

theorem isSynthesis_of_mem_methodPlan {m : Method} {c : Call} (h : c ∈ (methodPlan m).calls) :
    c.IsSynthesis := by
  unfold methodPlan at h
  split at h
  · exact (List.mem_append.mp h).elim isSynthesis_of_mem_lookups isSynthesis_of_mem_lookups
  · cases h

/-- Calls that do not open the root leave the keyword of its next block as it is. -/
theorem keywordIn_afterPlan {p : Plan} {r : RootType} (h : .root r.name ∉ p.calls) (l : Ledger) :
    keywordIn (l.afterPlan p) r = keywordIn l r := by
  unfold keywordIn Ledger.afterPlan
  rw [contains_roots_entries h]

theorem operationBlocks_afterPlan {p : Plan} {r : RootType} (h : .root r.name ∉ p.calls)
    (l : Ledger) (s : Service) : operationBlocks (l.afterPlan p) r s = operationBlocks l r s := by
  unfold operationBlocks
  rw [keywordIn_afterPlan h]

namespace Follows

theorem declareWellKnown (key : String) (t : WellKnownType) :
    Follows (declareWellKnown key t) ⟨[.synthesize key t], none⟩ fun l => !l.keys.contains key :=
  call (.synthesize key t) (fun _ _ h => (Entry.synthesized.inj h).2.2) rfl fun _ => rfl

theorem claim (names : List Name) : Follows (claim names) ⟨[.take names], none⟩ fun _ => () :=
  call (.take names) (fun _ _ _ => rfl) rfl fun _ => rfl

theorem openRoot (r : RootType) :
    Follows (openRoot r.name) ⟨[.root r.name], none⟩ fun l => keywordIn l r :=
  call (.root r.name) (fun _ _ h => (Entry.opened.inj h).2) rfl fun _ => rfl

theorem resolve (n : Name) : Follows (resolve n) ⟨lookups n, none⟩ fun _ => printedName n := by
  unfold Sdl.resolve lookups printedName
  cases wellKnown? n.shown with
  | none => exact pure' _
  | some t => exact bind_pure' (declareWellKnown n.shown t) fun _ => t.name

theorem fieldType (f : Field) :
    Follows (fieldType f) ⟨if f.isMap then [] else lookups f.typeName, none⟩
      fun _ => printedType f := by
  unfold Sdl.fieldType printedType
  cases f.isMap with
  | true => exact pure' _
  | false => exact bind_pure' (resolve f.typeName) _

theorem fieldLine (f : Field) : Follows (fieldLine f) (fieldPlan f) fun _ => printedField f := by
  unfold Sdl.fieldLine fieldPlan
  refine congr' (bind' (require f.name _) fun _ => bind_pure' (fieldType f) _) ?_ fun _ => rfl
  cases f.name.isText <;> rfl

theorem messageBlocks (m : Message) :
    Follows (messageBlocks m) (Plan.forAll fieldPlan m.fields) fun l => blocksOf l (.message m) :=
  bind_pure' (mapM' m.fields fieldLine) _

theorem operationLine (m : Method) :
    Follows (operationLine m) (methodPlan m)
      fun _ => (rootOf m.name.shown, printedOperation m) := by
  unfold Sdl.operationLine methodPlan
  refine congr' (bind' (require m.name _) fun _ => bind' (resolve m.request) fun _ =>
    bind_pure' (resolve m.response) _) ?_ fun _ => rfl
  cases m.name.isText <;> rfl

theorem operationBlock (r : RootType) (s : Service) :
    Follows (operationBlock r (s.methods.map fun m => (rootOf m.name.shown, printedOperation m)))
      ⟨if operations r s = [] then [] else [.root r.name], none⟩
      fun l => operationBlocks l r s := by
  unfold Sdl.operationBlock operationBlocks
  rw [filterMap_lines]
  cases operations r s with
  | nil => exact pure' _
  | cons o os => exact bind_pure' (openRoot r) _

theorem serviceBlocks (s : Service) :
    Follows (serviceBlocks s) (servicePlan s) fun l => blocksOf l (.service s) := by
  unfold Sdl.serviceBlocks servicePlan
  refine congr' (bind' (mapM' s.methods operationLine) fun _ => bind' (operationBlock .query s)
    fun _ => bind_pure' (operationBlock .mutation s) _) ?_ fun l => ?_
  · unfold rootCalls servedRoots
    by_cases hq : operations .query s = [] <;> by_cases hm : operations .mutation s = [] <;>
      simp [Plan.andThen, hq, hm]
  · -- No method opens a root, and opening the first root says nothing of the second one.
    have hmethods : ∀ r, Call.root r ∉ (Plan.forAll methodPlan s.methods).calls := by
      intro r hr
      obtain ⟨m, hm⟩ := Plan.exists_of_mem_forAll hr
      obtain ⟨key, t, he⟩ := isSynthesis_of_mem_methodPlan hm
      cases he
    have hquery : Call.root RootType.mutation.name ∉
        if operations .query s = [] then [] else [Call.root RootType.query.name] := by
      split <;> simp [RootType.name]
    rw [operationBlocks_afterPlan (hmethods _), operationBlocks_afterPlan hquery,
      operationBlocks_afterPlan (hmethods _)]
    rfl

end Follows

def itemPlan : Item → Plan
  | .message m =>
    Plan.andThen ⟨[.take [m.name, .text (inputName m.name)]], none⟩
      (Plan.forAll fieldPlan m.fields)
  | .enumeration e => ⟨[.take [e.name]], none⟩
  | .service s => servicePlan s
  | .unknown kind => ⟨[], some (.unknownKind kind)⟩

/-- An item is emitted by its plan. -/
theorem Follows.emitItem (i : Item) :
    Follows (emitItem i) (itemPlan i) fun l => blocksOf l i := by
  cases i with
  | message m => exact congr' (bind' (claim _) fun _ => messageBlocks m) rfl fun _ => rfl
  | enumeration e => exact bind_pure' (claim [e.name]) _
  | service s => exact serviceBlocks s
  | unknown kind => exact throw' _ _

/-! ## What an item asks for -/

theorem failure_fieldPlan (f : Field) :
    (fieldPlan f).failure = if f.name.isText then none else some .fieldNotText := by
  unfold fieldPlan
  split <;> rfl

theorem failure_methodPlan (m : Method) :
    (methodPlan m).failure = if m.name.isText then none else some .methodNotText := by
  unfold methodPlan
  split <;> rfl

/-- An item fails by itself exactly if it is not emittable. -/
theorem failure_itemPlan_eq_none_iff {i : Item} :
    (itemPlan i).failure = none ↔ IsEmittable i := by
  cases i with
  | message m =>
    rw [itemPlan, Plan.failure_andThen_eq_none_iff, Plan.failure_forAll_eq_none_iff]
    simp [failure_fieldPlan, IsEmittable]
  | enumeration e => simp [itemPlan, IsEmittable]
  | service s =>
    rw [itemPlan, servicePlan, Plan.failure_andThen_eq_none_iff, Plan.failure_forAll_eq_none_iff]
    simp [failure_methodPlan, IsEmittable]
  | unknown kind => simp [itemPlan, IsEmittable]

/-- The fields of an emittable message resolve the type names that it uses. -/
theorem flatMap_calls_fieldPlan {fs : List Field} (h : ∀ f ∈ fs, f.name.isText = true) :
    (fs.flatMap fun f => (fieldPlan f).calls) =
      ((fs.filter fun f => !f.isMap).map Field.typeName).flatMap lookups := by
  induction fs with
  | nil => rfl
  | cons f fs ih =>
    obtain ⟨hf, hfs⟩ := List.forall_mem_cons.mp h
    rw [List.flatMap_cons, ih hfs, fieldPlan, if_pos hf, List.filter_cons]
    cases f.isMap <;> rfl

/-- The methods of an emittable service resolve the type names that it uses. -/
theorem flatMap_calls_methodPlan {s : Service} (h : IsEmittable (.service s)) :
    (s.methods.flatMap fun m => (methodPlan m).calls) =
      (usedNames (.service s)).flatMap lookups := by
  rw [usedNames, List.flatMap_assoc]
  refine List.flatMap_congr fun m hm => ?_
  rw [methodPlan, if_pos (h m hm)]
  simp

/-- An emittable item claims the names that it declares, resolves those that it uses and opens
the roots that it serves. -/
theorem calls_itemPlan {i : Item} (h : IsEmittable i) :
    (itemPlan i).calls =
      (if declaredNames i = [] then [] else [.take (declaredNames i)]) ++
        (usedNames i).flatMap lookups ++ (servedRoots i).map fun r => .root r.name := by
  have hplan := failure_itemPlan_eq_none_iff.mpr h
  cases i with
  | message m =>
    obtain ⟨-, hall⟩ := Plan.failure_andThen_eq_none_iff.mp hplan
    rw [itemPlan, Plan.calls_andThen rfl,
      Plan.calls_forAll (Plan.failure_forAll_eq_none_iff.mp hall), flatMap_calls_fieldPlan h]
    simp [declaredNames, usedNames, servedRoots]
  | enumeration e => rfl
  | service s =>
    obtain ⟨hall, -⟩ := Plan.failure_andThen_eq_none_iff.mp hplan
    rw [itemPlan, servicePlan, Plan.calls_andThen hall,
      Plan.calls_forAll (Plan.failure_forAll_eq_none_iff.mp hall), flatMap_calls_methodPlan h]
    rfl
  | unknown kind => exact absurd h id

/-- An item fails by itself only if it is not emittable, and then not for its dialect. -/
theorem failure_itemPlan {i : Item} {e : ConversionError} (h : (itemPlan i).failure = some e) :
    ¬ IsEmittable i ∧ (e = .fieldNotText ∨ e = .methodNotText ∨ ∃ kind, e = .unknownKind kind) := by
  refine ⟨fun hok => ?_, ?_⟩
  · rw [failure_itemPlan_eq_none_iff.mpr hok] at h
    cases h
  · cases i with
    | message m =>
      obtain ⟨f, -, hfail⟩ := Plan.failure_forAll ((Plan.failure_andThen h).resolve_left nofun)
      rw [failure_fieldPlan] at hfail
      split at hfail <;> cases hfail
      exact .inl rfl
    | enumeration e => cases h
    | service s =>
      obtain ⟨m, -, hfail⟩ := Plan.failure_forAll ((Plan.failure_andThen h).resolve_right nofun)
      rw [failure_methodPlan] at hfail
      split at hfail <;> cases hfail
      exact .inr (.inl rfl)
    | unknown kind =>
      cases h
      exact .inr (.inr ⟨kind, rfl⟩)

/-- Emission fails for a type name that is taken, or for an item that is not emittable. -/
theorem error_of_emitItems {items : List Item} {l s : Ledger} {e : ConversionError}
    (h : emitItems items l = .error e s) :
    (∃ n, e = .duplicateType n) ∨
      (∃ i ∈ items, ¬ IsEmittable i) ∧
        (e = .fieldNotText ∨ e = .methodNotText ∨ ∃ kind, e = .unknownKind kind) := by
  -- By induction on the items, for all ledgers: the failure is one of the first item or one of
  -- the others, which go on with what the first one leaves.
  induction items generalizing l with
  | nil => cases h
  | cons i items ih =>
    have run : emitItems (i :: items) l = EStateM.bind (emitItem i)
      (fun first => EStateM.bind (emitItems items) fun others => pure (first ++ others)) l := rfl
    rw [run, EStateM.bind] at h
    cases hi : emitItem i l with
    | error e' s' =>
      rw [hi] at h
      cases h
      refine (Plan.error_of_run ((Follows.emitItem i).run_of_error hi)).imp_right fun hfail => ?_
      obtain ⟨hnot, he⟩ := failure_itemPlan hfail
      exact ⟨⟨i, List.mem_cons_self, hnot⟩, he⟩
    | ok first l' =>
      rw [hi] at h
      dsimp only at h
      rw [EStateM.bind] at h
      cases hrest : emitItems items l' with
      | ok others l'' =>
        rw [hrest] at h
        cases h
      | error e' s' =>
        rw [hrest] at h
        cases h
        refine (ih hrest).imp_right fun ⟨⟨j, hj, hnot⟩, he⟩ => ?_
        exact ⟨⟨j, List.mem_cons_of_mem _ hj, hnot⟩, he⟩

end ProtoSdl.Sdl
