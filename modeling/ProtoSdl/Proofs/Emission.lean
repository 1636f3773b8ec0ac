import Mathlib.Data.List.Find
import ProtoSdl.Proofs.FirstOccurrences
import ProtoSdl.Proofs.Plans

/-!
  Emission as a list of acts — what a run of the emitter does to the ledger

  An emitter touches the ledger in three ways only: it takes a type name, it uses a
  name that may be that of a well-known type, and it opens a root type. The acts of
  an item are these in their order, and all that a run does follows from the list:

    1. `Performs x acts v ok` says of a computation that it performs the acts one
       after the other and answers `v`; it fails exactly at the first type name that
       is claimed twice (`firstRepeat`), and never where the condition `ok` on the
       names that have to be texts is met and no name repeats.
    2. `claims` lists the type names that acts claim: a well-known type claims its
       short name where it is used first. `taken_after` says that these are what the
       ledger has taken afterwards.
    3. `Makes calls acts` says so of calls in a row. An emitter performs what the calls
       of its plan perform (`Performs.of_follows`), so the acts of an item are read off
       its plan and nothing is said of the emitters again (`Performs.emitItem`).
    4. `Performs.emitItems` gives the acts and the blocks of a list of items, and
       `toDocument_eq` the outcome for a whole schema.
-/

namespace ProtoSdl.Sdl

open Schema

/-- One thing that an emitter does to the ledger. -/
inductive Act where
  | take (n : Name)
  | use (n : Name)
  | root (r : RootType)
  deriving DecidableEq, Repr

/-- The ledger after one act. -/
def Ledger.perform (l : Ledger) : Act → Ledger
  | .take n => { l with taken := l.taken ++ [n] }
  | .use n =>
    match wellKnown? n.shown with
    | some t =>
      if l.keys.contains n.shown then l
      else { l with keys := n.shown :: l.keys, wellKnown := t :: l.wellKnown,
                    taken := l.taken ++ [.text t.name] }
    | none => l
  | .root r => if l.roots.contains r.name then l else { l with roots := r.name :: l.roots }

/-- The ledger after the acts. -/
def Ledger.after (l : Ledger) (acts : List Act) : Ledger := acts.foldl Ledger.perform l

@[simp] theorem Ledger.after_nil (l : Ledger) : l.after [] = l := rfl

@[simp] theorem Ledger.after_cons (l : Ledger) (a : Act) (acts : List Act) :
    l.after (a :: acts) = (l.perform a).after acts := rfl

theorem Ledger.after_append (l : Ledger) (acts others : List Act) :
    l.after (acts ++ others) = (l.after acts).after others := List.foldl_append

/-! ## Claimed names -/

/-- The well-known types that the acts use and whose keys are not yet known, in the
order of first use. -/
def firstUses : List String → List Act → List (String × WellKnownType)
  | _, [] => []
  | known, .use n :: rest =>
    match wellKnown? n.shown with
    | some t =>
      if known.contains n.shown then firstUses known rest
      else (n.shown, t) :: firstUses (n.shown :: known) rest
    | none => firstUses known rest
  | known, .take _ :: rest => firstUses known rest
  | known, .root _ :: rest => firstUses known rest

/-- The type names that the acts claim when these keys are known. -/
def claims : List String → List Act → List Name
  | _, [] => []
  | known, .use n :: rest =>
    match wellKnown? n.shown with
    | some t =>
      if known.contains n.shown then claims known rest
      else .text t.name :: claims (n.shown :: known) rest
    | none => claims known rest
  | known, .take n :: rest => n :: claims known rest
  | known, .root _ :: rest => claims known rest

/-- The acts claim one after the other; what the first one claims comes first. -/
theorem claims_cons (l : Ledger) (a : Act) (acts : List Act) :
    claims l.keys (a :: acts) = claims l.keys [a] ++ claims (l.perform a).keys acts := by
  cases a with
  | take n => rfl
  | root r =>
    simp only [claims, Ledger.perform, List.nil_append]
    split <;> rfl
  | use n =>
    simp only [claims, Ledger.perform]
    cases wellKnown? n.shown with
    | none => rfl
    | some t =>
      dsimp only
      split <;> rfl

theorem claims_append (l : Ledger) (acts others : List Act) :
    claims l.keys (acts ++ others) = claims l.keys acts ++ claims (l.after acts).keys others := by
  induction acts generalizing l with
  | nil => rfl
  | cons a acts ih =>
    rw [List.cons_append, claims_cons, ih, Ledger.after_cons, ← List.append_assoc,
      ← claims_cons]

theorem taken_perform (l : Ledger) (a : Act) :
    (l.perform a).taken = l.taken ++ claims l.keys [a] := by
  cases a with
  | take n => rfl
  | root r =>
    simp only [Ledger.perform, claims, List.append_nil]
    split <;> rfl
  | use n =>
    simp only [Ledger.perform, claims]
    cases wellKnown? n.shown with
    | none => simp
    | some t =>
      dsimp only
      split <;> simp

/-- What the ledger has taken after the acts is what they claim. -/
theorem taken_after (l : Ledger) (acts : List Act) :
    (l.after acts).taken = l.taken ++ claims l.keys acts := by
  induction acts generalizing l with
  | nil => simp [claims]
  | cons a acts ih =>
    rw [Ledger.after_cons, ih, taken_perform, claims_cons l a acts, List.append_assoc]

theorem claims_takes_append (known : List String) (names : List Name) (acts : List Act) :
    claims known (names.map .take ++ acts) = names ++ claims known acts := by
  induction names with
  | nil => rfl
  | cons n names ih => exact congrArg (n :: ·) ih

theorem Ledger.after_takes (l : Ledger) (names : List Name) :
    l.after (names.map .take) = { l with taken := l.taken ++ names } := by
  induction names generalizing l with
  | nil => simp
  | cons n names ih =>
    rw [List.map_cons, Ledger.after_cons, ih]
    simp [Ledger.perform]

/-- The well-known types of the ledger after the acts and their keys, newest first. -/
theorem declared_after (l : Ledger) (acts : List Act) :
    (l.after acts).keys = ((firstUses l.keys acts).map Prod.fst).reverse ++ l.keys ∧
      (l.after acts).wellKnown =
        ((firstUses l.keys acts).map Prod.snd).reverse ++ l.wellKnown := by
  -- By induction on the acts, for all ledgers: a first use puts its type in front.
  induction acts generalizing l with
  | nil => simp [firstUses]
  | cons a acts ih =>
    rw [Ledger.after_cons, (ih _).1, (ih _).2]
    cases a with
    | take n => exact ⟨rfl, rfl⟩
    | root r =>
      simp only [Ledger.perform, firstUses]
      split <;> exact ⟨rfl, rfl⟩
    | use n =>
      simp only [Ledger.perform, firstUses]
      cases wellKnown? n.shown with
      | none => exact ⟨rfl, rfl⟩
      | some t =>
        dsimp only
        split <;> simp

/-! ## Repeated names -/

/-- The first of the names that is taken already or stands earlier in the list. -/
def firstRepeat : List Name → List Name → Option Name
  | _, [] => none
  | taken, n :: rest => if n ∈ taken then some n else firstRepeat (taken ++ [n]) rest

theorem firstRepeat_append (taken names others : List Name) :
    firstRepeat taken (names ++ others) =
      (firstRepeat taken names).or (firstRepeat (taken ++ names) others) := by
  induction names generalizing taken with
  | nil => simp [firstRepeat]
  | cons n names ih =>
    simp only [List.cons_append, firstRepeat]
    split
    · rfl
    · rw [ih, List.append_assoc, List.singleton_append]

/-- No name repeats exactly when all of them are new and different. -/
theorem firstRepeat_eq_none_iff (taken names : List Name) :
    firstRepeat taken names = none ↔ (∀ n ∈ names, n ∉ taken) ∧ names.Nodup := by
  induction names generalizing taken with
  | nil => simp [firstRepeat]
  | cons n names ih =>
    simp only [firstRepeat]
    split
    · rename_i hn
      simp [hn]
    · rename_i hn
      rw [ih, List.nodup_cons]
      constructor
      · intro ⟨hnew, hnodup⟩
        refine ⟨?_, fun hm => ?_, hnodup⟩
        · intro m hm
          rcases List.mem_cons.mp hm with rfl | hm
          · exact hn
          · exact fun ht => hnew m hm (List.mem_append_left _ ht)
        · exact hnew n hm (by simp)
      · intro ⟨hnew, hnot, hnodup⟩
        refine ⟨fun m hm ht => ?_, hnodup⟩
        rcases List.mem_append.mp ht with ht | ht
        · exact hnew m (List.mem_cons_of_mem _ hm) ht
        · obtain rfl := List.mem_singleton.mp ht
          exact hnot hm

theorem firstRepeat_nil_eq_none_iff (names : List Name) :
    firstRepeat [] names = none ↔ names.Nodup := by
  rw [firstRepeat_eq_none_iff]
  simp

/-- Of different names the first that repeats is the first that is taken. -/
theorem firstRepeat_of_nodup {names : List Name} (h : names.Nodup) (taken : List Name) :
    firstRepeat taken names = names.find? (taken.contains ·) := by
  induction names generalizing taken with
  | nil => rfl
  | cons n names ih =>
    obtain ⟨hn, hnames⟩ := List.nodup_cons.mp h
    rw [firstRepeat, List.find?_cons]
    by_cases ht : n ∈ taken
    · rw [if_pos ht, List.contains_iff_mem.mpr ht]
    · have hcontains : taken.contains n = false := by simpa using ht
      rw [if_neg ht, hcontains, ih hnames]
      refine List.find?_congr fun m hm => ?_
      have hne : m ≠ n := ne_of_mem_of_not_mem hm hn
      simp [hne]

/-! ## Computations that perform acts -/

/-- The computation performs the acts and answers `v`, or fails at the first name
that is claimed twice; anything else that may fail is ruled out by `ok`. -/
def Performs {α : Type} (x : Emit α) (acts : List Act) (v : Ledger → α) (ok : Prop) : Prop :=
  ∀ l, (ok → match firstRepeat l.taken (claims l.keys acts) with
      | none => x l = .ok (v l) (l.after acts)
      | some n => ∃ s, x l = .error (.duplicateType n) s) ∧
    (∀ a s, x l = .ok a s → ok)

namespace Performs

variable {α β : Type} {x : Emit α} {acts others : List Act} {v : Ledger → α} {ok ok' : Prop}

theorem pure' (a : α) : Performs (pure a : Emit α) [] (fun _ => a) True :=
  fun _ => ⟨fun _ => rfl, fun _ _ _ => trivial⟩

/-- What a successful run answers is what the acts say. -/
theorem eq_of_ok (hx : Performs x acts v ok) {l s : Ledger} {a : α} (h : x l = .ok a s) :
    ok ∧ a = v l ∧ s = l.after acts ∧ firstRepeat l.taken (claims l.keys acts) = none := by
  have hok := (hx l).2 a s h
  have hl := (hx l).1 hok
  cases hr : firstRepeat l.taken (claims l.keys acts) with
  | none =>
    rw [hr, h] at hl
    injection hl with ha hs
    exact ⟨hok, ha, hs, rfl⟩
  | some n =>
    rw [hr] at hl
    obtain ⟨s', hs⟩ := hl
    rw [h] at hs
    cases hs

theorem bind' {f : α → Emit β} {w : Ledger → Ledger → β} (hx : Performs x acts v ok)
    (hf : ∀ l, Performs (f (v l)) others (w l) ok') :
    Performs (x >>= f) (acts ++ others) (fun l => w l (l.after acts)) (ok ∧ ok') := by
  -- The first name that repeats is one that `x` claims, or else one that `f` claims when it
  -- starts from the ledger that `x` leaves.
  intro l
  have run : (x >>= f) l = EStateM.bind x f l := rfl
  rw [run]
  refine ⟨fun ⟨hok, hok'⟩ => ?_, fun b s hb => ?_⟩
  · have hl := (hx l).1 hok
    rw [claims_append, firstRepeat_append, ← taken_after]
    cases hr : firstRepeat l.taken (claims l.keys acts) with
    | some n =>
      rw [hr] at hl
      obtain ⟨s, hs⟩ := hl
      exact ⟨s, by simp only [EStateM.bind, hs]⟩
    | none =>
      rw [hr] at hl
      have hl' := (hf l (l.after acts)).1 hok'
      simp only [Option.none_or, EStateM.bind, hl, Ledger.after_append]
      exact hl'
  · unfold EStateM.bind at hb
    split at hb
    · rename_i a s' ha
      obtain ⟨hok, rfl, rfl, -⟩ := eq_of_ok hx ha
      exact ⟨hok, (hf l _).2 b s hb⟩
    · cases hb

theorem congr' {v' : Ledger → α} (hx : Performs x acts v ok) (ha : acts = others)
    (hv : ∀ l, v l = v' l) (hok : ok ↔ ok') : Performs x others v' ok' := by
  obtain rfl : v = v' := funext hv
  obtain rfl : ok = ok' := propext hok
  exact ha ▸ hx

end Performs

/-! ## Calls that perform acts -/

/-- The calls, one after the other, perform the acts. -/
def Makes (calls : List Call) (acts : List Act) : Prop :=
  Performs (makeAll calls) acts (fun _ => ()) True

namespace Makes

variable {α : Type} {calls more : List Call} {acts others : List Act}

theorem nil : Makes [] [] := Performs.pure' ()

theorem append (h : Makes calls acts) (h' : Makes more others) :
    Makes (calls ++ more) (acts ++ others) := by
  unfold Makes
  rw [makeAll_append]
  exact Performs.congr' (Performs.bind' h fun _ => h') rfl (fun _ => rfl) (and_self_iff)

theorem flatMap {calls : α → List Call} {acts : α → List Act} (as : List α)
    (h : ∀ a, Makes (calls a) (acts a)) : Makes (as.flatMap calls) (as.flatMap acts) := by
  induction as with
  | nil => exact nil
  | cons a as ih =>
    rw [List.flatMap_cons, List.flatMap_cons]
    exact append (h a) ih

/-- Different names that are claimed together are claimed one after the other. -/
theorem take {names : List Name} (h : names.Nodup) : Makes [.take names] (names.map .take) := by
  intro l
  refine ⟨fun _ => ?_, fun _ _ _ => trivial⟩
  have hclaims : claims l.keys (names.map .take) = names := by
    have happend := claims_takes_append l.keys names []
    rwa [List.append_nil, claims, List.append_nil] at happend
  rw [hclaims, firstRepeat_of_nodup h, makeAll_cons]
  simp only [Call.answer]
  cases names.find? (l.taken.contains ·) with
  | some n => exact ⟨l, rfl⟩
  | none =>
    rw [Ledger.after_takes]
    show EStateM.Result.ok () (l.take names) = _
    rw [Ledger.take, eraseDups_of_nodup h]

/-- Resolving a name is using it. -/
theorem lookups (n : Name) : Makes (lookups n) [.use n] := by
  intro l
  refine ⟨fun _ => ?_, fun _ _ _ => trivial⟩
  unfold Sdl.lookups
  cases hw : wellKnown? n.shown with
  | none =>
    simp only [claims, hw, firstRepeat, Ledger.after_cons, Ledger.after_nil, Ledger.perform]
    rfl
  | some t =>
    dsimp only
    rw [makeAll_cons]
    simp only [claims, hw, Ledger.after_cons, Ledger.after_nil, Ledger.perform, Call.answer]
    by_cases hk : n.shown ∈ l.keys
    · simp only [List.contains_iff_mem.mpr hk, if_true, firstRepeat]
      rfl
    · by_cases hn : Name.text t.name ∈ l.taken
      · simp [hk, hn, firstRepeat]
      · simp only [List.contains_iff_mem, hk, hn, if_false, firstRepeat]
        rfl

theorem root (r : RootType) : Makes [.root r.name] [.root r] := by
  intro l
  refine ⟨fun _ => ?_, fun _ _ _ => trivial⟩
  rw [makeAll_cons]
  simp only [Call.answer, claims, firstRepeat, Ledger.after_cons, Ledger.after_nil, Ledger.perform]
  cases l.roots.contains r.name <;> rfl

end Makes

/-- An emitter performs the acts that the calls of its plan perform. -/
theorem Performs.of_follows {α : Type} {x : Emit α} {p : Plan} {v : Ledger → α} {acts : List Act}
    {ok : Prop} (hx : Follows x p v) (hok : p.failure = none ↔ ok)
    (hcalls : ok → Makes p.calls acts) : Performs x acts v ok := by
  intro l
  have hrun := hx l
  rw [Plan.run_apply] at hrun
  refine ⟨fun h => ?_, fun a s ha => ?_⟩
  · have hmake := (hcalls h l).1 trivial
    rw [hok.mpr h] at hrun
    cases hr : firstRepeat l.taken (claims l.keys acts) with
    | none =>
      rw [hr] at hmake
      rw [hmake] at hrun
      exact hrun
    | some n =>
      rw [hr] at hmake
      obtain ⟨s, hs⟩ := hmake
      rw [hs] at hrun
      exact ⟨s, hrun⟩
  · obtain ⟨-, hplan⟩ := hx.eq_of_ok ha
    rw [Plan.run_apply] at hplan
    split at hplan
    · cases hplan
    · cases hplan
    · rename_i hnone
      exact hok.mp hnone

/-! ## Items -/

/-- The acts of an item. -/
def actsOf (i : Item) : List Act :=
  (declaredNames i).map .take ++ (usedNames i).map .use ++ (servedRoots i).map .root

/-- The ledger that one more item leaves. -/
theorem Ledger.after_concat (l : Ledger) (earlier : List Item) (i : Item) :
    l.after ((earlier ++ [i]).flatMap actsOf) =
      (l.after (earlier.flatMap actsOf)).after (actsOf i) := by
  rw [List.flatMap_append, List.flatMap_singleton, Ledger.after_append]

/-- The blocks of the items in order. -/
def blocksOfItems : Ledger → List Item → List Block
  | _, [] => []
  | l, i :: rest => blocksOf l i ++ blocksOfItems (l.after (actsOf i)) rest

/-- A root type is open after the acts if it was before or if they open it. -/
theorem contains_roots_after (l : Ledger) (acts : List Act) (r : RootType) :
    (l.after acts).roots.contains r.name =
      (l.roots.contains r.name || acts.contains (.root r)) := by
  induction acts generalizing l with
  | nil => simp
  | cons a acts ih =>
    rw [Ledger.after_cons, ih, List.contains_cons, ← Bool.or_assoc]
    congr 1
    cases a with
    | take n => simp [Ledger.perform]
    | use n =>
      simp only [Ledger.perform]
      cases wellKnown? n.shown with
      | none => simp
      | some t =>
        dsimp only
        split <;> simp
    | root q =>
      simp only [Ledger.perform]
      cases q <;> cases r <;> by_cases h : "Query" ∈ l.roots <;>
        by_cases h' : "Mutation" ∈ l.roots <;> simp [RootType.name, h, h']

namespace Performs

theorem emitItem (i : Item) :
    Performs (emitItem i) (actsOf i) (fun l => blocksOf l i) (IsEmittable i) := by
  refine of_follows (Follows.emitItem i) failure_itemPlan_eq_none_iff fun h => ?_
  rw [calls_itemPlan h, actsOf]
  refine .append (.append ?_ ?_) ?_
  · split
    · rename_i hnone
      rw [hnone]
      exact .nil
    · exact .take (nodup_declaredNames i)
  · rw [List.map_eq_flatMap]
    exact .flatMap (usedNames i) .lookups
  · rw [List.map_eq_flatMap, List.map_eq_flatMap]
    exact .flatMap (servedRoots i) .root

/-- The acts of a list of items are those of its items in order. -/
theorem emitItems (items : List Item) :
    Performs (emitItems items) (items.flatMap actsOf) (fun l => blocksOfItems l items)
      (∀ i ∈ items, IsEmittable i) := by
  induction items with
  | nil => exact congr' (pure' []) rfl (fun _ => rfl) (by simp)
  | cons i items ih =>
    refine congr' (bind' (emitItem i) fun _ => bind' ih fun _ => pure' _) ?_ (fun _ => rfl) ?_
    · simp
    · simp

end Performs

/-! ## Whole schemas -/

/-- The acts of a schema. -/
def treeActs (t : Tree) : List Act := t.items.flatMap actsOf

/-- The outcome for a schema of a supported dialect: the first repeated name, or the
document of all blocks. -/
theorem toDocument_eq {t : Tree} (hd : isSupported t.dialect = true)
    (ht : ∀ i ∈ t.items, IsEmittable i) :
    t.toDocument =
      match firstRepeat [] (claims [] (treeActs t)) with
      | none => .ok (assemble (blocksOfItems {} t.items) (({} : Ledger).after (treeActs t)))
      | some n => .error (.duplicateType n) := by
  have h := (Performs.emitItems t.items {}).1 ht
  unfold Tree.toDocument
  rw [if_pos hd]
  unfold treeActs
  cases hr : firstRepeat [] (claims [] (t.items.flatMap actsOf)) with
  | none =>
    rw [hr] at h
    rw [h]
  | some n =>
    rw [hr] at h
    obtain ⟨s, hs⟩ := h
    rw [hs]

/-- There is no document exactly where there are no blocks. -/
theorem assemble_eq_none_iff (blocks : List Block) (l : Ledger) :
    assemble blocks l = none ↔ blocks = [] := by
  unfold assemble
  cases blocks <;> simp

/-- What holds of a schema that is not refused: its run performs the acts and writes the
blocks, which make the document. -/
theorem of_toDocument_eq {t : Tree} {o : Option Document} (h : t.toDocument = .ok o) :
    isSupported t.dialect = true ∧ (∀ i ∈ t.items, IsEmittable i) ∧
      (claims [] (treeActs t)).Nodup ∧
      emitItems t.items {} = .ok (blocksOfItems {} t.items) (({} : Ledger).after (treeActs t)) ∧
      o = assemble (blocksOfItems {} t.items) (({} : Ledger).after (treeActs t)) := by
  unfold Tree.toDocument at h
  split at h
  · rename_i hd
    cases he : emitItems t.items {} with
    | error e s =>
      rw [he] at h
      cases h
    | ok bs l =>
      rw [he] at h
      obtain ⟨hok, rfl, rfl, hr⟩ := Performs.eq_of_ok (Performs.emitItems t.items) he
      cases h
      exact ⟨hd, hok, (firstRepeat_nil_eq_none_iff _).mp hr, rfl, rfl⟩
  · cases h

/-- What holds of a schema that has a document, and the blocks of the document. -/
theorem of_toDocument_eq_ok {t : Tree} {d : Document} (h : t.toDocument = .ok (some d)) :
    isSupported t.dialect = true ∧ (∀ i ∈ t.items, IsEmittable i) ∧
      (claims [] (treeActs t)).Nodup ∧
      d.blocks = ((firstUses [] (treeActs t)).map fun u => Block.wellKnown u.2).reverse ++
        blocksOfItems {} t.items := by
  obtain ⟨hd, hok, hclaims, -, hdoc⟩ := of_toDocument_eq h
  refine ⟨hd, hok, hclaims, ?_⟩
  unfold assemble at hdoc
  split at hdoc
  · cases hdoc
  · cases hdoc
    rw [(declared_after _ _).2]
    simp [treeActs, List.map_reverse]

end ProtoSdl.Sdl
