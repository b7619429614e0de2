/-
**Bisection by a test that need not be monotone.**

The search for the largest length that fits tests midpoints. It ends in a length that fits, if the one it starts with
does; but it comes as far as a given length only where the lengths that it tests on the way fit.

* `bisect` — the search.
* `bisect_fits` — its result fits.
* `midpoints` — the lengths that are tested on the way to a length.
* `le_bisect_iff` — how far the search comes.
-/

import Mathlib.Tactic.Common

namespace Byok.Library

/-- The search, in as many rounds. -/
def bisectIn (fits : Nat → Bool) : Nat → Nat → Nat → Nat
  | 0, low, _ => low
  | rounds + 1, low, high =>
    if low < high then
      let keep := (low + high + 1) / 2
      if fits keep then bisectIn fits rounds keep high else bisectIn fits rounds low (keep - 1)
    else low

/-- The largest length that fits, as far as a bisection finds it: a round leaves a shorter interval. -/
def bisect (fits : Nat → Bool) (low high : Nat) : Nat := bisectIn fits (high - low) low high

/-- The lengths that are tested on the way to a target, in as many rounds. -/
def midpointsIn (target : Nat) : Nat → Nat → Nat → List Nat
  | 0, _, _ => []
  | rounds + 1, low, high =>
    if low < target then
      let keep := (low + high + 1) / 2
      keep :: if keep ≤ target then midpointsIn target rounds keep high else midpointsIn target rounds low (keep - 1)
    else []

/-- The lengths that are tested on the way to a target. -/
def midpoints (low high target : Nat) : List Nat := midpointsIn target (high - low) low high

/-- All tested lengths up to a target fit, as far as the first longer one that fits. -/
def Clear (fits : Nat → Bool) (target : Nat) : List Nat → Prop
  | [] => True
  | keep :: rest => if keep ≤ target then fits keep = true ∧ Clear fits target rest else fits keep = true ∨ Clear fits target rest

section Search

variable {fits : Nat → Bool} {rounds low high target : Nat}

theorem bisectIn_inside (fits : Nat → Bool) (rounds : Nat) (inside : low ≤ high) : low ≤ bisectIn fits rounds low high ∧
    bisectIn fits rounds low high ≤ high := by
  induction rounds generalizing low high with
  | zero => exact ⟨Nat.le_refl _, inside⟩
  | succ rounds ih =>
    rw [bisectIn]
    split
    · simp only
      split
      · obtain ⟨above, below⟩ := ih (show (low + high + 1) / 2 ≤ high by omega)
        exact ⟨by omega, below⟩
      · obtain ⟨above, below⟩ := ih (show low ≤ (low + high + 1) / 2 - 1 by omega)
        exact ⟨above, by omega⟩
    · exact ⟨Nat.le_refl _, inside⟩

theorem bisectIn_fits (start : fits low = true) : fits (bisectIn fits rounds low high) = true := by
  induction rounds generalizing low high with
  | zero => exact start
  | succ rounds ih =>
    rw [bisectIn]
    split
    · simp only
      split
      · exact ih ‹_›
      · exact ih start
    · exact start

theorem bisect_fits (start : fits low = true) : fits (bisect fits low high) = true := bisectIn_fits start

theorem bisect_le (inside : low ≤ high) : bisect fits low high ≤ high := (bisectIn_inside fits _ inside).2

theorem le_bisectIn_iff (enough : high - low ≤ rounds) (above : low ≤ target) (below : target ≤ high) :
    target ≤ bisectIn fits rounds low high ↔ Clear fits target (midpointsIn target rounds low high) := by
  induction rounds generalizing low high with
  | zero =>
    have same : low = target := by omega
    simp [bisectIn, midpointsIn, Clear, same]
  | succ rounds ih =>
    rw [midpointsIn]
    split
    · rename_i short
      rw [bisectIn, if_pos (by omega)]
      have positive : low < (low + high + 1) / 2 := by omega
      have bounded : (low + high + 1) / 2 ≤ high := by omega
      generalize (low + high + 1) / 2 = keep at positive bounded ⊢
      cases within : fits keep with
      | true =>
        by_cases near : keep ≤ target
        · simp only [Clear, near, within, if_true, true_and]
          exact ih (by omega) near below
        · -- the search has passed the target
          have passed := (bisectIn_inside fits rounds bounded).1
          simp only [Clear, near, within, if_true, if_false, true_or, iff_true]
          omega
      | false =>
        by_cases near : keep ≤ target
        · -- the search stays below the target
          have stuck := (bisectIn_inside fits rounds (show low ≤ keep - 1 by omega)).2
          simp only [Clear, near, within, if_true, Bool.false_eq_true, if_false, false_and, iff_false]
          omega
        · simp only [Clear, near, within, if_false, Bool.false_eq_true, false_or]
          exact ih (by omega) above (by omega)
    · rename_i reached
      have inside := (bisectIn_inside fits (rounds + 1) (Nat.le_trans above below)).1
      simp only [Clear, iff_true]
      omega

/-- **A search comes as far as a target where the lengths that it tests on the way are clear.** -/
theorem le_bisect_iff (above : low ≤ target) (below : target ≤ high) :
    target ≤ bisect fits low high ↔ Clear fits target (midpoints low high target) :=
  le_bisectIn_iff (Nat.le_refl _) above below

end Search

end Byok.Library
