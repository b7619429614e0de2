/-
**Parts that are cut from one budget.**

A gate cuts the parts of a list one after another, each to what the parts before it have left of a budget.

* `cutFrom` — the parts as they are cut, and what is left.
* `cutFrom_settled` — cut parts are not cut again, where this holds of each part under every larger budget.
-/

import Mathlib.Algebra.Order.Ring.Nat
import Mathlib.Tactic.Common

namespace Byok.Library.Budget

variable {Part Budget : Type}

/-- The parts as a gate cuts them, and the budget that they leave. -/
def cutFrom (gate : Part → Budget → Part × Budget) : List Part → Budget → List Part × Budget
  | [], budget => ([], budget)
  | part :: parts, budget =>
    let (part, budget) := gate part budget
    let (parts, budget) := cutFrom gate parts budget
    (part :: parts, budget)

variable {gate : Part → Budget → Part × Budget} {parts : List Part} {budget more : Budget}

/-- A part that was cut is left alone under a larger budget, and leaves more of it. -/
def Settled [LE Budget] (gate : Part → Budget → Part × Budget) (part : Part) : Prop :=
  ∀ budget more, budget ≤ more → (gate (gate part budget).1 more).1 = (gate part budget).1 ∧
    (gate part budget).2 ≤ (gate (gate part budget).1 more).2

/-- **Cut parts are not cut again.** -/
theorem cutFrom_settled [LE Budget] (settled : ∀ part ∈ parts, Settled gate part) (le : budget ≤ more) :
    (cutFrom gate (cutFrom gate parts budget).1 more).1 = (cutFrom gate parts budget).1 ∧
      (cutFrom gate parts budget).2 ≤ (cutFrom gate (cutFrom gate parts budget).1 more).2 := by
  induction parts generalizing budget more with
  | nil => exact ⟨rfl, le⟩
  | cons part parts ih =>
    obtain ⟨same, larger⟩ := settled part List.mem_cons_self budget more le
    obtain ⟨rest, last⟩ := ih (fun part listed => settled part (List.mem_cons_of_mem _ listed)) larger
    simp only [cutFrom, same, rest]
    exact ⟨trivial, last⟩

end Byok.Library.Budget
