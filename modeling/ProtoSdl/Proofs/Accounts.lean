import ProtoSdl.Proofs.FirstOccurrences
import ProtoSdl.Proofs.Plans

/-!
  Accounts — what any sequence of operations leaves in a ledger

  The operations of a ledger and the emitters that use them can be applied in any order,
  and a failure of one of them does not stop the others. The log of such a run keeps every
  call that succeeded, with its answer, those that an emitter makes included:

    1. `Ledger.afterSteps_eq` — the ledger after a run is what its log makes of the first one,
       whichever steps failed.
    2. `Ledger.Accounts` relates a ledger to a log: each part of the ledger is read off the
       log alone. One more entry keeps the account (`Accounts.enter`), so a run keeps it
       (`Accounts.enterAll`).
    3. `Step.matches_of_ok` — the entries of a step that succeeds tell its answer.
    4. `Step.entries_of_error` — a step that fails has opened no root type, and a call that
       fails has done nothing.

  `ledger_accounts_for_log` puts this together for runs from the empty ledger.
-/

namespace ProtoSdl.Sdl

open Schema

/-! ## Steps -/

/-- A step of a run: a call, or an emitter. -/
inductive Step where
  | call (c : Call)
  | resolve (n : Name)
  | message (m : Message)
  | service (s : Service)
  | enumeration (e : Enumeration)

/-- What a step answers. -/
inductive Answer where
  | entry (e : Entry)
  | name (n : String)
  | blocks (bs : List Block)

def Step.run : Step → Emit Answer
  | call c => do return .entry (← c.make)
  | resolve n => do return .name (← Sdl.resolve n)
  | message m => do return .blocks (← messageBlocks m)
  | service s => do return .blocks (← serviceBlocks s)
  | enumeration e => return .blocks [enumerationBlock e]

def Step.plan : Step → Plan
  | call c => ⟨[c], none⟩
  | resolve n => ⟨lookups n, none⟩
  | message m => Plan.forAll fieldPlan m.fields
  | service s => servicePlan s
  | enumeration _ => ⟨[], none⟩

/-- The ledger that a step leaves, whether it fails or not. -/
def Ledger.afterStep (l : Ledger) (s : Step) : Ledger :=
  match s.run l with
  | .ok _ l' => l'
  | .error _ l' => l'

/-- The ledger after the steps; a step that fails does not stop the later ones. -/
def Ledger.afterSteps (l : Ledger) (steps : List Step) : Ledger := steps.foldl Ledger.afterStep l

/-- The calls of a step that succeed, with their answers. -/
def Step.entries (s : Step) (l : Ledger) : List Entry := Sdl.entries s.plan.calls l

/-- The entries of the steps. -/
def logOf : Ledger → List Step → List Entry
  | _, [] => []
  | l, s :: rest => s.entries l ++ logOf (l.afterStep s) rest

/-- What a step answers if it does not fail. -/
def Step.answer : Step → Ledger → Answer
  | call c, l => .entry (c.entry l)
  | resolve n, _ => .name (printedName n)
  | message m, l => .blocks (blocksOf l (.message m))
  | service s, l => .blocks (blocksOf l (.service s))
  | enumeration e, l => .blocks (blocksOf l (.enumeration e))

theorem Step.follows_run (s : Step) : Follows s.run s.plan s.answer := by
  cases s with
  | call c =>
    have hmake : Follows c.make ⟨[c], none⟩ fun l => c.entry l :=
      Follows.call c Function.injective_id (bind_pure c.make).symm fun _ => rfl
    exact hmake.bind_pure' _
  | resolve n => exact (Follows.resolve n).bind_pure' _
  | message m => exact (Follows.messageBlocks m).bind_pure' _
  | service s => exact (Follows.serviceBlocks s).bind_pure' _
  | enumeration e => exact Follows.pure' _

/-- A step comes to the ledger that its entries make. -/
theorem Ledger.afterStep_eq (l : Ledger) (s : Step) :
    l.afterStep s = l.enterAll (s.entries l) ∧ l.AllowsAll (s.entries l) := by
  refine ⟨?_, (makeAll_cases s.plan.calls l).1⟩
  unfold Ledger.afterStep
  rw [s.follows_run l]
  rcases s.plan.run_cases l with hplan | ⟨e, hplan⟩
  · rw [hplan]
    rfl
  · rw [hplan]
    rfl

/-- A run comes to the ledger that its log makes. -/
theorem Ledger.afterSteps_eq (l : Ledger) (steps : List Step) :
    l.afterSteps steps = l.enterAll (logOf l steps) ∧ l.AllowsAll (logOf l steps) := by
  induction steps generalizing l with
  | nil => exact ⟨rfl, trivial⟩
  | cons s steps ih =>
    obtain ⟨hstep, hallows⟩ := l.afterStep_eq s
    obtain ⟨hrest, hmore⟩ := ih (l.afterStep s)
    rw [logOf, Ledger.enterAll_append, Ledger.allowsAll_append, ← hstep]
    exact ⟨hrest, hallows, hmore⟩

/-! ## Accounts -/

/-- The key of a synthesis, whether it declared the type or found it declared. -/
def Entry.key? : Entry → Option String
  | synthesized key _ _ => some key
  | granted _ => none
  | opened _ _ => none

/-- The well-known type that the call declared, with its key. -/
def Entry.newType? : Entry → Option (String × WellKnownType)
  | synthesized key t true => some (key, t)
  | synthesized _ _ false => none
  | granted _ => none
  | opened _ _ => none

/-- The type names that the call took. -/
def Entry.grants : Entry → List Name
  | synthesized _ t true => [.text t.name]
  | synthesized _ _ false => []
  | granted names => names
  | opened _ _ => []

/-- The keys have one declaration each, and both stand in the reverse of the order in which
the keys were synthesized first. -/
structure Ledger.Declared (l : Ledger) (log : List Entry) : Prop where
  keys : l.keys = (log.filterMap Entry.newType?).reverse.map Prod.fst
  wellKnown : l.wellKnown = (log.filterMap Entry.newType?).reverse.map Prod.snd
  order : l.keys.reverse = (log.filterMap Entry.key?).eraseDups
  distinct : l.keys.Nodup

/-- A type name is taken exactly when a call took it, and then one call did; the names of the
declared types are taken. -/
structure Ledger.Granted (l : Ledger) (log : List Entry) : Prop where
  once : ∀ n, log.countP (fun e => e.grants.contains n) = if n ∈ l.taken then 1 else 0
  named : ∀ t ∈ l.wellKnown, .text t.name ∈ l.taken
  distinct : l.taken.Nodup

/-- A root type has a block exactly when it was declared, and then it was declared once. -/
structure Ledger.Opened (l : Ledger) (log : List Entry) : Prop where
  once : ∀ name, log.count (.opened name .declare) = if name ∈ l.roots then 1 else 0
  distinct : l.roots.Nodup

/-- Whether the log tells all that is in the ledger. -/
structure Ledger.Accounts (l : Ledger) (log : List Entry) : Prop where
  declared : l.Declared log
  granted : l.Granted log
  opened : l.Opened log

/-- The second ledger has all that the first one has, in the same order. -/
structure Ledger.Grows (l l' : Ledger) : Prop where
  keys : l.keys <:+ l'.keys
  wellKnown : l.wellKnown <:+ l'.wellKnown
  roots : l.roots <:+ l'.roots
  taken : l.taken <+: l'.taken

theorem Ledger.taken_enter (l : Ledger) (e : Entry) :
    (l.enter e).taken = l.taken ++ e.grants.eraseDups := by
  cases e with
  | synthesized key t isNew =>
    cases isNew with
    | true => simp [Ledger.enter, Entry.grants, List.eraseDups_cons]
    | false => simp [Ledger.enter, Entry.grants]
  | granted names => rfl
  | opened name keyword => cases keyword <;> simp [Ledger.enter, Entry.grants]

theorem Ledger.Allows.grants_new {l : Ledger} {e : Entry} (h : l.Allows e) :
    ∀ n ∈ e.grants, n ∉ l.taken := by
  cases e with
  | synthesized key t isNew =>
    cases isNew with
    | true =>
      intro n hn
      obtain rfl := List.mem_singleton.mp hn
      exact h.2
    | false => exact nofun
  | granted names => exact h
  | opened name keyword => exact nofun

namespace Ledger

variable {l : Ledger} {log : List Entry} {e : Entry}

theorem Declared.mem_keys_iff (h : l.Declared log) (key : String) :
    key ∈ l.keys ↔ key ∈ log.filterMap Entry.key? := by
  have hmem : key ∈ l.keys.reverse ↔ key ∈ log.filterMap Entry.key? := by
    rw [h.order, List.mem_eraseDups]
  rwa [List.mem_reverse] at hmem

/-- A call that declares nothing and names no new key leaves the account as it is. -/
theorem Declared.unchanged (h : l.Declared log) (hnew : e.newType? = none)
    (hkeys : (l.enter e).keys = l.keys) (hwellKnown : (l.enter e).wellKnown = l.wellKnown)
    (hkey : ∀ key, e.key? = some key → key ∈ l.keys) : (l.enter e).Declared (log ++ [e]) := by
  have hlog : (log ++ [e]).filterMap Entry.newType? = log.filterMap Entry.newType? := by
    rw [List.filterMap_append, List.filterMap_cons_none hnew, List.filterMap_nil, List.append_nil]
  have horder : ((log ++ [e]).filterMap Entry.key?).eraseDups =
      (log.filterMap Entry.key?).eraseDups := by
    rw [List.filterMap_append]
    cases hk : e.key? with
    | none => rw [List.filterMap_cons_none hk, List.filterMap_nil, List.append_nil]
    | some key =>
      rw [List.filterMap_cons_some hk, List.filterMap_nil, eraseDups_concat,
        if_pos ((h.mem_keys_iff key).mp (hkey key hk))]
  refine ⟨?_, ?_, ?_, ?_⟩
  · rw [hkeys, hlog, h.keys]
  · rw [hwellKnown, hlog, h.wellKnown]
  · rw [hkeys, horder, h.order]
  · rw [hkeys]
    exact h.distinct

/-- The first synthesis of a key puts the key and the type before the others. -/
theorem Declared.extended (h : l.Declared log) {key : String} (hkey : key ∉ l.keys)
    (t : WellKnownType) :
    (l.enter (.synthesized key t true)).Declared (log ++ [.synthesized key t true]) := by
  have hlog : (log ++ [Entry.synthesized key t true]).filterMap Entry.newType? =
      log.filterMap Entry.newType? ++ [(key, t)] := by
    rw [List.filterMap_append]
    rfl
  have horder : (log ++ [Entry.synthesized key t true]).filterMap Entry.key? =
      log.filterMap Entry.key? ++ [key] := by
    rw [List.filterMap_append]
    rfl
  refine ⟨?_, ?_, ?_, List.nodup_cons.mpr ⟨hkey, h.distinct⟩⟩
  · rw [hlog, List.reverse_append, List.map_append, ← h.keys]
    rfl
  · rw [hlog, List.reverse_append, List.map_append, ← h.wellKnown]
    rfl
  · show (key :: l.keys).reverse = _
    rw [List.reverse_cons, h.order, horder, eraseDups_concat,
      if_neg fun hm => hkey ((h.mem_keys_iff key).mpr hm)]

theorem Declared.enter (h : l.Declared log) (ha : l.Allows e) :
    (l.enter e).Declared (log ++ [e]) := by
  cases e with
  | synthesized key t isNew =>
    cases isNew with
    | true => exact h.extended ha.1 t
    | false => exact h.unchanged rfl rfl rfl fun k hk => Option.some.inj hk ▸ ha
  | granted names => exact h.unchanged rfl rfl rfl nofun
  | opened name keyword => cases keyword <;> exact h.unchanged rfl rfl rfl nofun

theorem Granted.enter (h : l.Granted log) (ha : l.Allows e) :
    (l.enter e).Granted (log ++ [e]) := by
  have hnew := ha.grants_new
  refine ⟨fun n => ?_, fun t ht => ?_, ?_⟩
  · rw [List.countP_append, h.once, taken_enter]
    by_cases hn : n ∈ e.grants
    · simp [hnew n hn, hn]
    · simp [hn]
  · have hcases : t ∈ l.wellKnown ∨ .text t.name ∈ e.grants := by
      cases e with
      | synthesized key t' isNew =>
        cases isNew with
        | true =>
          rcases List.mem_cons.mp ht with rfl | ht
          · exact .inr List.mem_cons_self
          · exact .inl ht
        | false => exact .inl ht
      | granted names => exact .inl ht
      | opened name keyword => cases keyword <;> exact .inl ht
    rw [taken_enter, List.mem_append, List.mem_eraseDups]
    exact hcases.imp_left (h.named t)
  · rw [taken_enter, List.nodup_append']
    refine ⟨h.distinct, nodup_eraseDups _, fun n hn hg => ?_⟩
    exact hnew n (List.mem_eraseDups.mp hg) hn

theorem Opened.enter (h : l.Opened log) (ha : l.Allows e) :
    (l.enter e).Opened (log ++ [e]) := by
  have hsame : (l.enter e).roots = l.roots → (∀ name, e ≠ .opened name .declare) →
      (l.enter e).Opened (log ++ [e]) := by
    intro hroots hne
    refine ⟨fun name => ?_, by rw [hroots]; exact h.distinct⟩
    rw [hroots, List.count_append, h.once, List.count_singleton]
    simp [hne name]
  cases e with
  | synthesized key t isNew => cases isNew <;> exact hsame rfl nofun
  | granted names => exact hsame rfl nofun
  | opened name keyword =>
    cases keyword with
    | extend => exact hsame rfl nofun
    | declare =>
      have hnew : name ∉ l.roots := ha
      refine ⟨fun other => ?_, List.nodup_cons.mpr ⟨hnew, h.distinct⟩⟩
      show _ = if other ∈ name :: l.roots then 1 else 0
      rw [List.count_append, h.once, List.count_singleton]
      by_cases ho : other = name
      · subst ho
        simp [hnew]
      · simp [ho, Ne.symm ho]

/-- One more entry keeps the account. -/
theorem Accounts.enter (h : l.Accounts log) (ha : l.Allows e) :
    (l.enter e).Accounts (log ++ [e]) :=
  ⟨h.declared.enter ha, h.granted.enter ha, h.opened.enter ha⟩

/-- So does a whole log of entries. -/
theorem Accounts.enterAll (h : l.Accounts log) {more : List Entry} (ha : l.AllowsAll more) :
    (l.enterAll more).Accounts (log ++ more) := by
  induction more generalizing l log with
  | nil =>
    rw [List.append_nil]
    exact h
  | cons e more ih =>
    obtain ⟨hfirst, hrest⟩ := ha
    have hmore := ih (h.enter hfirst) hrest
    rw [List.append_assoc] at hmore
    exact hmore

theorem accounts_nil : ({} : Ledger).Accounts [] :=
  ⟨⟨rfl, rfl, rfl, List.nodup_nil⟩, ⟨fun _ => rfl, nofun, List.nodup_nil⟩,
    ⟨fun _ => rfl, List.nodup_nil⟩⟩

namespace Grows

variable {l' l'' : Ledger}

protected theorem refl (l : Ledger) : l.Grows l :=
  ⟨List.suffix_rfl, List.suffix_rfl, List.suffix_rfl, List.prefix_rfl⟩

protected theorem trans (h : l.Grows l') (h' : l'.Grows l'') : l.Grows l'' :=
  ⟨h.keys.trans h'.keys, h.wellKnown.trans h'.wellKnown, h.roots.trans h'.roots,
    h.taken.trans h'.taken⟩

theorem enter (l : Ledger) (e : Entry) : l.Grows (l.enter e) := by
  have htaken : l.taken <+: (l.enter e).taken := by
    rw [taken_enter]
    exact List.prefix_append _ _
  cases e with
  | synthesized key t isNew =>
    cases isNew with
    | true => exact ⟨List.suffix_cons _ _, List.suffix_cons _ _, List.suffix_rfl, htaken⟩
    | false => exact .refl l
  | granted names => exact ⟨List.suffix_rfl, List.suffix_rfl, List.suffix_rfl, htaken⟩
  | opened name keyword =>
    cases keyword with
    | declare => exact ⟨List.suffix_rfl, List.suffix_rfl, List.suffix_cons _ _, htaken⟩
    | extend => exact .refl l

theorem enterAll (l : Ledger) (log : List Entry) : l.Grows (l.enterAll log) := by
  induction log generalizing l with
  | nil => exact .refl l
  | cons e log ih => exact (enter l e).trans (ih (l.enter e))

end Grows

end Ledger

/-! ## Answers and failures -/

/-- The root type that the call opened, with the keyword that it answered. -/
def Entry.opening? : Entry → Option (String × RootKeyword)
  | synthesized _ _ _ => none
  | granted _ => none
  | opened name keyword => some (name, keyword)

/-- The root type of an operation block, with the keyword before it. -/
def Block.opening? : Block → Option (String × RootKeyword)
  | wellKnown _ => none
  | object _ _ _ _ => none
  | enumeration _ _ => none
  | operation keyword root _ => some (root.name, keyword)

/-- Whether the answer of a step is what its entries tell: a call answers its entry, and the
operation blocks of an emitter have the keywords that the ledger answered. -/
def Answer.Matches : Answer → List Entry → Prop
  | entry e, log => log = [e]
  | name _, log => log.filterMap Entry.opening? = []
  | blocks bs, log => log.filterMap Entry.opening? = bs.filterMap Block.opening?

/-- Calls that can open no root type open none. -/
theorem openings_of_syntheses {calls : List Call} (h : ∀ c ∈ calls, c.IsSynthesis)
    (l : Ledger) : (entries calls l).filterMap Entry.opening? = [] := by
  induction calls generalizing l with
  | nil => rfl
  | cons c calls ih =>
    obtain ⟨key, t, rfl⟩ := h c List.mem_cons_self
    rw [entries]
    cases ha : (Call.synthesize key t).answer l with
    | error n => rfl
    | ok e =>
      obtain rfl := Call.eq_entry_of_answer ha
      exact ih (fun c hc => h c (List.mem_cons_of_mem _ hc)) _

/-- The open root types are those that the entries opened. -/
theorem roots_enterAll {log : List Entry} (h : log.filterMap Entry.opening? = []) (l : Ledger) :
    (l.enterAll log).roots = l.roots := by
  induction log generalizing l with
  | nil => rfl
  | cons e log ih =>
    cases e with
    | synthesized key t isNew =>
      have hrest := ih h (l.enter (.synthesized key t isNew))
      cases isNew <;> exact hrest
    | granted names => exact ih h (l.enter (.granted names))
    | opened name keyword => cases h

/-- Opening root types never fails, and different ones do not change each other's keyword. -/
theorem openings_of_roots {names : List String} (hnodup : names.Nodup) (l : Ledger) :
    (∃ l', makeAll (names.map .root) l = .ok () l') ∧
      (entries (names.map .root) l).filterMap Entry.opening? =
        names.map fun n => (n, if l.roots.contains n then .extend else .declare) := by
  induction names generalizing l with
  | nil => exact ⟨⟨l, rfl⟩, rfl⟩
  | cons n names ih =>
    obtain ⟨hn, hnodup⟩ := List.nodup_cons.mp hnodup
    have hans : (Call.root n).answer l =
        .ok (.opened n (if l.roots.contains n then .extend else .declare)) := rfl
    obtain ⟨hmake, hopen⟩ := ih hnodup
      (l.enter (.opened n (if l.roots.contains n then .extend else .declare)))
    rw [List.map_cons, makeAll_cons, entries, hans]
    refine ⟨hmake, ?_⟩
    dsimp only
    rw [List.map_cons]
    refine congrArg (_ :: ·) (hopen.trans (List.map_congr_left fun m hm => ?_))
    have hne : m ≠ n := fun he => hn (he ▸ hm)
    cases l.roots.contains n with
    | true => rfl
    | false => simp [Ledger.enter, hne]

theorem openings_of_blocks (l : Ledger) (s : Service) :
    (blocksOf l (.service s)).filterMap Block.opening? =
      (servedRoots (.service s)).map fun r => (r.name, keywordIn l r) := by
  unfold blocksOf operationBlocks servedRoots
  by_cases hq : operations .query s = [] <;> by_cases hm : operations .mutation s = [] <;>
    simp [hq, hm, Block.opening?]

/-- The roots of a service are opened without a failure, with their keywords. -/
theorem openings_of_rootCalls (s : Service) (l : Ledger) :
    (∃ l', Plan.run ⟨rootCalls s, none⟩ l = .ok () l') ∧
      (entries (rootCalls s) l).filterMap Entry.opening? =
        (servedRoots (.service s)).map fun r => (r.name, keywordIn l r) := by
  have hcalls : rootCalls s = ((servedRoots (.service s)).map RootType.name).map .root := by
    rw [rootCalls, List.map_map]
    rfl
  have hnodup : ((servedRoots (.service s)).map RootType.name).Nodup :=
    nodup_rootNames fun r => operations r s ≠ []
  obtain ⟨⟨l', hmake⟩, hopen⟩ := openings_of_roots hnodup l
  refine ⟨⟨l', ?_⟩, ?_⟩
  · rw [Plan.run_apply, hcalls]
    dsimp only
    rw [hmake]
  · rw [hcalls, hopen, List.map_map]
    rfl

/-- A service opens its roots when it does not fail, and none when it fails. -/
theorem openings_of_service (s : Service) (l : Ledger) :
    (entries (servicePlan s).calls l).filterMap Entry.opening? =
      match (servicePlan s).run l with
      | .ok _ _ => (blocksOf l (.service s)).filterMap Block.opening?
      | .error _ _ => [] := by
  have hmethods : ∀ c ∈ (Plan.forAll methodPlan s.methods).calls, c.IsSynthesis := by
    intro c hc
    obtain ⟨m, hm⟩ := Plan.exists_of_mem_forAll hc
    exact isSynthesis_of_mem_methodPlan hm
  have hnone := openings_of_syntheses hmethods l
  have hrun : (servicePlan s).run l = EStateM.bind (Plan.forAll methodPlan s.methods).run
      (fun _ => Plan.run ⟨rootCalls s, none⟩) l := congrFun (Plan.run_andThen _ _) l
  unfold EStateM.bind at hrun
  rcases (Plan.forAll methodPlan s.methods).run_cases l with hplan | ⟨e, hplan⟩
  · -- All methods have their lines, and nothing fails any more.
    obtain ⟨⟨l', hopens⟩, hopen⟩ :=
      openings_of_rootCalls s (l.afterPlan (Plan.forAll methodPlan s.methods))
    rw [hplan] at hrun
    rw [hrun.trans hopens, servicePlan, Plan.entries_andThen hplan, List.filterMap_append, hnone,
      List.nil_append, hopen]
    dsimp only
    rw [openings_of_blocks]
    unfold keywordIn Ledger.afterPlan
    rw [roots_enterAll hnone]
  · rw [hplan] at hrun
    rw [hrun, servicePlan, Plan.entries_andThen_of_error hplan, hnone]

theorem openings_of_message (m : Message) (l : Ledger) :
    (entries (Plan.forAll fieldPlan m.fields).calls l).filterMap Entry.opening? = [] := by
  refine openings_of_syntheses (fun c hc => ?_) l
  obtain ⟨f, hf⟩ := Plan.exists_of_mem_forAll hc
  exact isSynthesis_of_mem_fieldPlan hf

/-- A call has one entry when it does not fail, and none when it fails. -/
theorem entries_call (c : Call) (l : Ledger) :
    entries [c] l =
      match Plan.run ⟨[c], none⟩ l with
      | .ok _ _ => [c.entry l]
      | .error _ _ => [] := by
  rw [Plan.run_call, entries]
  cases ha : c.answer l with
  | error n => rfl
  | ok e => rw [Call.eq_entry_of_answer ha]; rfl

/-- The entries of a step tell its answer. -/
theorem Step.matches_of_ok {s : Step} {l l' : Ledger} {a : Answer} (h : s.run l = .ok a l') :
    a.Matches (s.entries l) := by
  obtain ⟨rfl, hplan⟩ := s.follows_run.eq_of_ok h
  cases s with
  | call c =>
    have hentries := entries_call c l
    rw [show Plan.run ⟨[c], none⟩ l = _ from hplan] at hentries
    exact hentries
  | resolve n => exact openings_of_syntheses (fun c hc => isSynthesis_of_mem_lookups hc) l
  | message m => exact openings_of_message m l
  | service s =>
    have hopen := openings_of_service s l
    rw [show (servicePlan s).run l = _ from hplan] at hopen
    exact hopen
  | enumeration e => rfl

/-- A step that fails opens no root type, and a call that fails has no entry. -/
theorem Step.entries_of_error {s : Step} {l l' : Ledger} {e : ConversionError}
    (h : s.run l = .error e l') :
    (s.entries l).filterMap Entry.opening? = [] ∧ ∀ c, s = .call c → s.entries l = [] := by
  have hplan := s.follows_run.run_of_error h
  have hcall : ∀ c, s = .call c → s.entries l = [] := by
    rintro c rfl
    have hentries := entries_call c l
    rw [show Plan.run ⟨[c], none⟩ l = _ from hplan] at hentries
    exact hentries
  refine ⟨?_, hcall⟩
  cases s with
  | call c =>
    rw [hcall c rfl]
    rfl
  | resolve n => exact openings_of_syntheses (fun c hc => isSynthesis_of_mem_lookups hc) l
  | message m => exact openings_of_message m l
  | service s =>
    have hopen := openings_of_service s l
    rw [show (servicePlan s).run l = _ from hplan] at hopen
    exact hopen
  | enumeration e => cases h

/-! ## Runs from the empty ledger -/

/-- At any point of a run from the empty ledger the log accounts for the ledger, what the run
does next only adds to it, and whatever step comes next either answers what its entries tell
or fails: it then has opened no root type, and has done nothing at all if it is a call. -/
theorem ledger_accounts_for_log (steps more : List Step) :
    let l := ({} : Ledger).afterSteps steps
    l.Accounts (logOf {} steps) ∧ l.Grows (({} : Ledger).afterSteps (steps ++ more)) ∧
      ∀ s : Step,
        match s.run l with
        | .ok a l' => a.Matches (s.entries l) ∧ l' = l.enterAll (s.entries l)
        | .error _ l' => l'.roots = l.roots ∧ ∀ c, s = .call c → l' = l := by
  intro l
  obtain ⟨hledger, hallows⟩ := ({} : Ledger).afterSteps_eq steps
  refine ⟨?_, ?_, fun s => ?_⟩
  · have haccounts := Ledger.accounts_nil.enterAll hallows
    rw [← hledger] at haccounts
    exact haccounts
  · have happend : ({} : Ledger).afterSteps (steps ++ more) = l.afterSteps more :=
      List.foldl_append
    obtain ⟨hmore, -⟩ := l.afterSteps_eq more
    rw [happend, hmore]
    exact Ledger.Grows.enterAll _ _
  · obtain ⟨hstep, -⟩ := l.afterStep_eq s
    unfold Ledger.afterStep at hstep
    cases hs : s.run l with
    | ok a l' =>
      rw [hs] at hstep
      exact ⟨Step.matches_of_ok hs, hstep⟩
    | error e l' =>
      rw [hs] at hstep
      obtain ⟨hroots, hcall⟩ := Step.entries_of_error hs
      refine ⟨(congrArg Ledger.roots hstep).trans (roots_enterAll hroots l), fun c hc => ?_⟩
      rw [hcall c hc] at hstep
      exact hstep

/-- A message that fails at its second field keeps what its first one did. -/
example :
    ({} : Ledger).afterSteps
      [.call (.take [.text "Timestamp"]),
       .message
         { name := .text "Span"
           fields :=
            [{ name := .text "length", typeName := .text "google.protobuf.Duration" },
             { name := .text "start", typeName := .text "google.protobuf.Timestamp" }] }] =
      { keys := ["google.protobuf.Duration"]
        wellKnown := [⟨"Duration", "\x7b seconds: Int, nanos: Int \x7d"⟩]
        taken := [.text "Timestamp", .text "Duration"] } := by
  decide

end ProtoSdl.Sdl
