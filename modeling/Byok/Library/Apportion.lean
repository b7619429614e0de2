/-
**Shares of a total.**

A total is split by weights. Each index gets its part of it, rounded down, and what is left over is handed out one by
one.

* `sumOver_update` — a share that changes changes the sum.
* `left_over` — at first no more than the total is given, and less by at most one for each index.
* `sumOver_handOut` — all that is left over is handed out.
-/

import Mathlib.Algebra.BigOperators.Group.List.Basic
import Mathlib.Algebra.Order.Ring.Nat
import Mathlib.Data.List.Nodup
import Mathlib.Logic.Function.Basic
import Mathlib.Order.Lattice.Nat

namespace Byok.Library

open List

variable {ι : Type}

/-- What the indices have together. -/
def sumOver (indices : List ι) (shares : ι → Nat) : Nat := (indices.map shares).sum

@[simp] theorem sumOver_nil (shares : ι → Nat) : sumOver [] shares = 0 := rfl

@[simp] theorem sumOver_cons (index : ι) (indices : List ι) (shares : ι → Nat) :
    sumOver (index :: indices) shares = shares index + sumOver indices shares := sum_cons

theorem sumOver_append (first second : List ι) (shares : ι → Nat) :
    sumOver (first ++ second) shares = sumOver first shares + sumOver second shares := by
  rw [sumOver, map_append, sum_append]
  rfl

theorem sumOver_add (indices : List ι) (first second : ι → Nat) :
    sumOver indices (fun index => first index + second index) = sumOver indices first + sumOver indices second := by
  induction indices with
  | nil => rfl
  | cons index indices ih =>
    rw [sumOver_cons, sumOver_cons, sumOver_cons, ih]
    omega

theorem sumOver_congr {indices : List ι} {first second : ι → Nat}
    (same : ∀ index ∈ indices, first index = second index) : sumOver indices first = sumOver indices second :=
      congrArg List.sum (map_congr_left same)

theorem sumOver_le {indices : List ι} {first second : ι → Nat} (below : ∀ index ∈ indices, first index ≤ second index) :
    sumOver indices first ≤ sumOver indices second := by
  induction indices with
  | nil => exact Nat.le_refl _
  | cons index indices ih =>
    rw [sumOver_cons, sumOver_cons]
    exact Nat.add_le_add (below index mem_cons_self)
      (ih fun other member => below other (mem_cons_of_mem _ member))

theorem le_sumOver {indices : List ι} {index : ι} (member : index ∈ indices) (shares : ι → Nat) :
    shares index ≤ sumOver indices shares := by
  induction indices with
  | nil => exact absurd member not_mem_nil
  | cons first indices ih =>
    rw [sumOver_cons]
    rcases mem_cons.mp member with rfl | rest
    · exact Nat.le_add_right _ _
    · exact Nat.le_add_left_of_le (ih rest)

variable [DecidableEq ι]

theorem sumOver_update_of_notMem {indices : List ι} {index : ι} (absent : index ∉ indices) (shares : ι → Nat)
    (value : Nat) : sumOver indices (Function.update shares index value) = sumOver indices shares :=
  sumOver_congr fun _ member => Function.update_of_ne (ne_of_mem_of_not_mem member absent) _ _

theorem sumOver_update {indices : List ι} (distinct : indices.Nodup) {index : ι} (member : index ∈ indices)
    (shares : ι → Nat) (more : Nat) :
    sumOver indices (Function.update shares index (shares index + more)) = sumOver indices shares + more := by
  induction indices with
  | nil => exact absurd member not_mem_nil
  | cons first indices ih =>
    obtain ⟨apart, distinct⟩ := nodup_cons.mp distinct
    rw [sumOver_cons, sumOver_cons]
    rcases mem_cons.mp member with rfl | rest
    · rw [Function.update_self, sumOver_update_of_notMem apart]
      omega
    · have other : first ≠ index := fun same => apart (same ▸ rest)
      rw [Function.update_of_ne other, ih distinct rest]
      omega

/-! ### Parts of a total -/

/-- The part of a weight, rounded down. -/
def part (weights : ι → Nat) (total whole : Nat) (index : ι) : Nat := weights index * total / whole

omit [DecidableEq ι] in
theorem sum_parts (indices : List ι) (weights : ι → Nat) (total whole : Nat) :
    whole * sumOver indices (part weights total whole) + sumOver indices (fun index => weights index * total % whole) =
      sumOver indices weights * total := by
  induction indices with
  | nil => simp
  | cons index indices ih =>
    have divided := Nat.div_add_mod (weights index * total) whole
    rw [sumOver_cons, sumOver_cons, sumOver_cons, Nat.add_mul, ← ih, Nat.mul_add, part]
    omega

omit [DecidableEq ι] in
/-- **What is left over** is at most one for each index. -/
theorem left_over {indices : List ι} {weights : ι → Nat} (some : 0 < sumOver indices weights) (total : Nat) :
    sumOver indices (part weights total (sumOver indices weights)) ≤ total ∧
      total ≤ sumOver indices (part weights total (sumOver indices weights)) + indices.length := by
  have parts := sum_parts indices weights total (sumOver indices weights)
  have rests : sumOver indices (fun index => weights index * total % sumOver indices weights) ≤
      sumOver indices weights * indices.length := by
    have each := @sumOver_le ι indices _ (fun _ => sumOver indices weights)
      fun index _ => (Nat.mod_lt (weights index * total) some).le
    have all : sumOver indices (fun _ => sumOver indices weights) = sumOver indices weights * indices.length := by
      rw [sumOver, map_const', sum_replicate, nsmul_eq_mul, Nat.cast_id, Nat.mul_comm]
    exact all ▸ each
  constructor
  · refine Nat.le_of_mul_le_mul_left ?_ some
    rw [← parts]
    exact Nat.le_add_right _ _
  · refine Nat.le_of_mul_le_mul_left ?_ some
    rw [← parts, Nat.mul_add]
    exact Nat.add_le_add_left rests _

/-! ### Handing out -/

/-- One more for each index, in order, as long as there are some. -/
def handOut : Nat → List ι → (ι → Nat) → ι → Nat
  | 0, _, shares => shares
  | _ + 1, [], shares => shares
  | left + 1, index :: order, shares => handOut left order (Function.update shares index (shares index + 1))

/-- **All is handed out**, when there is an index for each. -/
theorem sumOver_handOut {indices order : List ι} (distinct : indices.Nodup) (within : ∀ index ∈ order, index ∈ indices)
    {left : Nat} (enough : left ≤ order.length) (shares : ι → Nat) :
    sumOver indices (handOut left order shares) = sumOver indices shares + left := by
  induction order generalizing left shares with
  | nil =>
    obtain rfl := Nat.le_zero.mp enough
    rfl
  | cons index order ih =>
    cases left with
    | zero => rfl
    | succ left =>
      have rest := ih (fun other member => within other (mem_cons_of_mem _ member)) (Nat.le_of_succ_le_succ enough)
        (Function.update shares index (shares index + 1))
      rw [handOut, rest, sumOver_update distinct (within index mem_cons_self)]
      omega

end Byok.Library
