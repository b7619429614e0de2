/-
**Queries with a limit.** `SELECT … LIMIT n` without an `ORDER BY` gives any `n` of the rows, or all of them.

The order in which the rows are found is a list: the rows that it names come first, those that it does not name after
them. So every batch of rows is the first rows of some order.

* `limited` — what such a query gives.
-/

import Mathlib.Data.List.Dedup

namespace Byok.Library

open List

variable {α : Type} [DecidableEq α] {order rows : List α} {limit : Nat}

/-- The rows as they are found. -/
def scanned (order rows : List α) : List α := order.dedup.filter (· ∈ rows) ++ rows.filter (· ∉ order)

/-- The first of them. -/
def limited (order : List α) (limit : Nat) (rows : List α) : List α := (scanned order rows).take limit

theorem mem_scanned_iff {row : α} : row ∈ scanned order rows ↔ row ∈ rows := by
  simp only [scanned, mem_append, mem_filter, mem_dedup, decide_eq_true_eq]
  tauto

theorem nodup_scanned (once : rows.Nodup) : (scanned order rows).Nodup := by
  refine nodup_append.mpr ⟨(nodup_dedup order).filter _, once.filter _, fun row first other second same => ?_⟩
  exact of_decide_eq_true (mem_filter.mp second).2 (same ▸ mem_dedup.mp (mem_filter.mp first).1)

theorem length_scanned (once : rows.Nodup) : (scanned order rows).length = rows.length :=
  ((perm_ext_iff_of_nodup (nodup_scanned once) once).mpr fun _ => mem_scanned_iff).length_eq

theorem limited_subset : limited order limit rows ⊆ rows := fun _ taken => mem_scanned_iff.mp (mem_of_mem_take taken)

theorem nodup_limited (once : rows.Nodup) : (limited order limit rows).Nodup :=
  (nodup_scanned once).sublist (take_sublist _ _)

theorem length_limited (once : rows.Nodup) : (limited order limit rows).length = min limit rows.length := by
  rw [limited, length_take, length_scanned once]

/-- **All rows are taken where they are no more than the limit.** -/
theorem mem_limited_of_few (once : rows.Nodup) (few : rows.length ≤ limit) {row : α} :
    row ∈ limited order limit rows ↔ row ∈ rows := by
  rw [limited, take_of_length_le (by rw [length_scanned once]; exact few), mem_scanned_iff]

end Byok.Library
