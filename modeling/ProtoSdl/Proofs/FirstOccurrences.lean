import Mathlib.Data.List.Nodup

/-!
  First occurrences — what is left of a list when its duplicates are erased

  Of equal elements the first one stays, and the elements that stay keep their order:

    1. `pairwise_idxOf_eraseDups` — they stand in the order of their first occurrences. So
       no element is left twice (`nodup_eraseDups`).
    2. `eraseDups_concat` and `eraseDups_append_of_subset` — one more element counts only if it
       is new, and elements that are all known count for nothing.
    3. `map_eraseDups` — different elements may be renamed before or after.
-/

namespace ProtoSdl

variable {α β : Type} [BEq α] [LawfulBEq α] [BEq β] [LawfulBEq β]

/-- Leaving other elements out does not change which of two occurs first. -/
theorem idxOf_lt_of_filter {p : α → Bool} {a b : α} (ha : p a = true) (hb : p b = true)
    {as : List α} (h : (as.filter p).idxOf a < (as.filter p).idxOf b) :
    as.idxOf a < as.idxOf b := by
  induction as with
  | nil => exact absurd h (Nat.lt_irrefl 0)
  | cons c as ih =>
    by_cases hca : c = a
    · subst hca
      have hne : c ≠ b := by
        rintro rfl
        exact absurd h (Nat.lt_irrefl _)
      rw [List.idxOf_cons_self, List.idxOf_cons_ne _ hne]
      exact Nat.succ_pos _
    · by_cases hcb : c = b
      · subst hcb
        rw [List.filter_cons_of_pos hb, List.idxOf_cons_self] at h
        exact absurd h (Nat.not_lt_zero _)
      · rw [List.idxOf_cons_ne _ hca, List.idxOf_cons_ne _ hcb]
        apply Nat.succ_lt_succ
        apply ih
        by_cases hc : p c = true
        · rw [List.filter_cons_of_pos hc, List.idxOf_cons_ne _ hca, List.idxOf_cons_ne _ hcb] at h
          exact Nat.lt_of_succ_lt_succ h
        · rwa [List.filter_cons_of_neg hc] at h

/-- What is left stands in the order of first occurrences. -/
theorem pairwise_idxOf_eraseDups : ∀ as : List α,
    as.eraseDups.Pairwise fun a b => as.idxOf a < as.idxOf b
  | [] => .nil
  | a :: as => by
    have hother : ∀ b ∈ (as.filter fun b => !b == a).eraseDups, (!b == a) = true := fun b hb =>
      (List.mem_filter.mp (List.mem_eraseDups.mp hb)).2
    have hne : ∀ b ∈ (as.filter fun b => !b == a).eraseDups, a ≠ b := by
      rintro b hb rfl
      simpa using hother a hb
    rw [List.eraseDups_cons, List.pairwise_cons]
    refine ⟨fun b hb => ?_, ?_⟩
    · rw [List.idxOf_cons_self, List.idxOf_cons_ne _ (hne b hb)]
      exact Nat.succ_pos _
    · have hrest := pairwise_idxOf_eraseDups (as.filter fun b => !b == a)
      refine hrest.imp_of_mem fun {b c} hb hc h => ?_
      rw [List.idxOf_cons_ne _ (hne b hb), List.idxOf_cons_ne _ (hne c hc)]
      exact Nat.succ_lt_succ
        (idxOf_lt_of_filter (p := fun b => !b == a) (hother b hb) (hother c hc) h)
termination_by as => as.length
decreasing_by exact Nat.lt_succ_of_le (List.length_filter_le _ _)

/-- Erasing duplicates leaves none. -/
theorem nodup_eraseDups (as : List α) : as.eraseDups.Nodup :=
  (pairwise_idxOf_eraseDups as).imp fun h => by
    rintro rfl
    exact Nat.lt_irrefl _ h

theorem eraseDups_concat (as : List α) (a : α) :
    (as ++ [a]).eraseDups = if a ∈ as then as.eraseDups else as.eraseDups ++ [a] := by
  rw [List.eraseDups_append]
  by_cases h : a ∈ as <;> simp [List.removeAll, h, List.eraseDups_cons]

/-- Where nothing occurs twice, nothing is erased. -/
theorem eraseDups_of_nodup : ∀ {as : List α}, as.Nodup → as.eraseDups = as
  | [], _ => rfl
  | a :: as, h => by
    obtain ⟨ha, has⟩ := List.nodup_cons.mp h
    have hkept : as.filter (fun b => !b == a) = as := by
      rw [List.filter_eq_self]
      intro b hb
      simpa using ne_of_mem_of_not_mem hb ha
    rw [List.eraseDups_cons, hkept, eraseDups_of_nodup has]

/-- Elements that are known already add nothing. -/
theorem eraseDups_append_of_subset {as bs : List α} (h : bs ⊆ as) :
    (as ++ bs).eraseDups = as.eraseDups := by
  have hnone : bs.removeAll as = [] := by
    rw [List.removeAll, List.filter_eq_nil_iff]
    intro b hb
    simpa using h hb
  rw [List.eraseDups_append, hnone, List.eraseDups_nil, List.append_nil]

/-- Different elements may be renamed before duplicates are erased or after. -/
theorem map_eraseDups {f : α → β} (hf : ∀ {a b}, f a = f b → a = b) : ∀ as : List α,
    as.eraseDups.map f = (as.map f).eraseDups
  | [] => rfl
  | a :: as => by
    have htest : ((fun b => !b == f a) ∘ f) = fun b => !b == a := by
      funext b
      have hiff : f b = f a ↔ b = a := ⟨hf, congrArg f⟩
      simp [hiff]
    rw [List.map_cons, List.eraseDups_cons, List.eraseDups_cons, List.map_cons, List.filter_map,
      htest, map_eraseDups hf (as.filter fun b => !b == a)]
termination_by as => as.length
decreasing_by exact Nat.lt_succ_of_le (List.length_filter_le _ _)

end ProtoSdl
