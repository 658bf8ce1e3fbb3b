import Mathlib.Algebra.BigOperators.Group.List.Basic
import Mathlib.Algebra.GroupWithZero.Nat
import Mathlib.Data.List.Nodup

/-!
# Counting in groups

Rows that are counted once under every key of a list are counted as often as a key of the list is
theirs. So where no key is listed twice, the counts of the groups add up to the rows whose key is
listed.
-/

namespace MailIndex

variable {α κ : Type} [BEq κ] [LawfulBEq κ]

theorem nodup_eraseDups (keys : List κ) : keys.eraseDups.Nodup := by
  cases keys with
  | nil => exact List.nodup_nil
  | cons key keys =>
      -- What follows the first key is taken from the keys that differ from it.
      rw [List.eraseDups_cons, List.nodup_cons]
      refine ⟨fun hmem => ?_, nodup_eraseDups (keys.filter fun k => !k == key)⟩
      have hother := (List.mem_filter.mp (List.mem_eraseDups.mp hmem)).2
      simp at hother
termination_by keys.length
decreasing_by exact Nat.lt_succ_of_le (List.length_filter_le _ _)

section

variable [DecidableEq κ]

theorem sum_ite_eq (keys : List κ) (k : κ) :
    (keys.map fun key => if k = key then 1 else 0).sum = keys.count k := by
  induction keys with
  | nil => rfl
  | cons key keys ih =>
      rw [List.map_cons, List.sum_cons, ih, List.count_cons, Nat.add_comm]
      by_cases hk : k = key
      · simp [hk]
      · simp [hk, Ne.symm hk]

theorem sum_countP_key (key : α → κ) {keys : List κ} (hkeys : keys.Nodup) (rows : List α) :
    (keys.map fun k => rows.countP fun row => key row = k).sum =
      rows.countP fun row => key row ∈ keys := by
  induction rows with
  | nil => simp
  | cons row rows ih =>
      have hrow : (keys.map fun k => if key row = k then 1 else 0).sum =
          if key row ∈ keys then 1 else 0 := by
        rw [sum_ite_eq, hkeys.count]
      simp only [List.countP_cons, decide_eq_true_eq, List.sum_map_add, ih, hrow]

/-- The counts of all groups add up to the rows. -/
theorem sum_countP_eraseDups (key : α → κ) (rows : List α) {all : List α} (hall : rows ⊆ all) :
    ((all.map key).eraseDups.map fun k => rows.countP fun row => key row = k).sum =
      rows.length := by
  rw [sum_countP_key key (nodup_eraseDups _), List.countP_eq_length]
  intro row hrow
  rw [decide_eq_true_eq, List.mem_eraseDups]
  exact List.mem_map_of_mem (hall hrow)

end

end MailIndex
