import Mathlib.Data.List.Induction
import Mathlib.Data.List.Nodup

/-!
# First occurrences

`List.eraseDups` keeps each element of a list where it occurs first. Names are looked up when they
are met first, and constants are stored when they are added first, so what is kept is told here from
the end of the list: a last element is kept if it is new. What is kept is in the order of the list.
-/

namespace BuildScript

variable {α : Type} [BEq α] [LawfulBEq α] {l : List α} {x : α}

/-! ## One more element -/

theorem eraseDups_concat_of_mem (h : x ∈ l) : (l ++ [x]).eraseDups = l.eraseDups := by
  rw [List.eraseDups_append, List.cons_removeAll, List.contains_iff_mem.mpr h]
  exact List.append_nil _

theorem eraseDups_concat_of_notMem (h : x ∉ l) :
    (l ++ [x]).eraseDups = l.eraseDups ++ [x] := by
  have hnew : l.contains x = false := by rwa [← Bool.not_eq_true, List.contains_iff_mem]
  rw [List.eraseDups_append, List.cons_removeAll, hnew]
  rfl

theorem nodup_eraseDups (l : List α) : l.eraseDups.Nodup := by
  induction l using List.reverseRecOn with
  | nil => exact List.nodup_nil
  | append_singleton l x ih =>
    by_cases hx : x ∈ l
    · rwa [eraseDups_concat_of_mem hx]
    · rw [eraseDups_concat_of_notMem hx, ← List.concat_eq_append]
      exact ih.concat fun h ↦ hx (List.mem_eraseDups.mp h)

/-! ## Order -/

/-- Leaving others out does not change which of two elements occurs first. -/
theorem idxOf_filter_lt_iff {p : α → Bool} {m n : α} (hm : p m = true) (hn : p n = true)
    (l : List α) : (l.filter p).idxOf m < (l.filter p).idxOf n ↔ l.idxOf m < l.idxOf n := by
  induction l with
  | nil => exact Iff.rfl
  | cons c l ih =>
    by_cases hc : p c = true
    · rw [List.filter_cons_of_pos hc]
      by_cases hcm : c = m
      · by_cases hcn : c = n
        · simp [← hcm, ← hcn]
        · simp [← hcm, List.idxOf_cons_ne _ hcn]
      · by_cases hcn : c = n
        · simp [← hcn, List.idxOf_cons_ne _ hcm]
        · simp [List.idxOf_cons_ne _ hcm, List.idxOf_cons_ne _ hcn, ih]
    · have hcm : c ≠ m := fun h ↦ hc (h ▸ hm)
      have hcn : c ≠ n := fun h ↦ hc (h ▸ hn)
      rw [List.filter_cons_of_neg hc, ih, List.idxOf_cons_ne _ hcm, List.idxOf_cons_ne _ hcn,
        Nat.succ_lt_succ_iff]

theorem idxOf_eraseDups_lt_iff (m n : α) (l : List α) :
    l.eraseDups.idxOf m < l.eraseDups.idxOf n ↔ l.idxOf m < l.idxOf n := by
  -- What is left to do behind the first element is shorter, but not the tail of the list.
  induction hlength : l.length using Nat.strongRecOn generalizing l with
  | _ length ih =>
    cases l with
    | nil => exact Iff.rfl
    | cons a l =>
      have hshorter : (l.filter fun b ↦ !b == a).length < length :=
        hlength ▸ Nat.lt_succ_of_le (List.length_filter_le _ _)
      have hordered := ih _ hshorter _ rfl
      rw [List.eraseDups_cons]
      by_cases hm : a = m
      · by_cases hn : a = n
        · simp [← hm, ← hn]
        · simp [← hm, List.idxOf_cons_ne _ hn]
      · by_cases hn : a = n
        · simp [← hn, List.idxOf_cons_ne _ hm]
        · rw [List.idxOf_cons_ne _ hm, List.idxOf_cons_ne _ hn, List.idxOf_cons_ne _ hm,
            List.idxOf_cons_ne _ hn, Nat.succ_lt_succ_iff, Nat.succ_lt_succ_iff, hordered]
          exact idxOf_filter_lt_iff (by simpa using Ne.symm hm) (by simpa using Ne.symm hn) l

end BuildScript
