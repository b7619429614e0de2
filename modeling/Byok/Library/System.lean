/-
**Systems that take steps.**

A labelled transition system, its runs and its reachable states, with the two induction rules that
every result about whole runs uses: an invariant that each step keeps (`reachable_invariant`,
`run_invariant`), and a relation that each step stays within (`run_relates`). `restrict` takes steps
away from a system.
-/

import Mathlib.Tactic.Common

namespace Byok.Library

/-- A system: where it may start, and the steps it may take. -/
structure System (σ l : Type) where
  initial : σ → Prop
  step : σ → l → σ → Prop

namespace System

variable {σ l : Type} {system : System σ l}

/-- A run: the labels of its steps in order. -/
inductive Run (system : System σ l) (start : σ) : List l → σ → Prop
  | nil : Run system start [] start
  | snoc {labels : List l} {before after : σ} {label : l} (run : Run system start labels before)
      (step : system.step before label after) : Run system start (labels ++ [label]) after

/-- A state that some run from an initial state ends in. -/
def Reachable (system : System σ l) (state : σ) : Prop :=
  ∃ start labels, system.initial start ∧ system.Run start labels state

theorem Run.single {start after : σ} {label : l} (step : system.step start label after) :
    system.Run start [label] after := Run.snoc Run.nil step

theorem Run.append {start middle last : σ} {first second : List l}
    (run : system.Run start first middle) (more : system.Run middle second last) :
    system.Run start (first ++ second) last := by
  induction more with
  | nil => rwa [List.append_nil]
  | snoc _ step ih =>
    rw [← List.append_assoc]
    exact ih.snoc step

theorem Run.cons {start middle last : σ} {label : l} {labels : List l}
    (step : system.step start label middle) (run : system.Run middle labels last) :
    system.Run start (label :: labels) last := (Run.single step).append run

theorem Run.eq_of_empty {start last : σ} {labels : List l} (run : system.Run start labels last)
    (empty : labels = []) : last = start := by
  cases run with
  | nil => rfl
  | snoc => simp at empty

theorem Run.uncons {start last : σ} {label : l} {labels : List l}
    (run : system.Run start (label :: labels) last) :
    ∃ middle, system.step start label middle ∧ system.Run middle labels last := by
  generalize equal : label :: labels = all at run
  induction run generalizing labels with
  | nil => cases equal
  | @snoc before _ after last run step ih =>
    cases before with
    | nil =>
      cases equal
      rw [run.eq_of_empty rfl] at step
      exact ⟨_, step, .nil⟩
    | cons first rest =>
      cases equal
      obtain ⟨middle, begun, run⟩ := ih rfl
      exact ⟨middle, begun, run.snoc step⟩

theorem Run.unsnoc {start last : σ} {labels : List l} {label : l}
    (run : system.Run start (labels ++ [label]) last) :
    ∃ before, system.Run start labels before ∧ system.step before label last := by
  generalize equal : labels ++ [label] = all at run
  cases run with
  | nil => simp at equal
  | snoc run step =>
    obtain ⟨rfl, rfl⟩ := List.append_inj' equal rfl |>.imp_right List.singleton_inj.mp
    exact ⟨_, run, step⟩

theorem Reachable.start {start : σ} (initial : system.initial start) : system.Reachable start :=
  ⟨start, [], initial, .nil⟩

theorem Reachable.run {state after : σ} {labels : List l} (reachable : system.Reachable state)
    (run : system.Run state labels after) : system.Reachable after := by
  obtain ⟨start, first, initial, ran⟩ := reachable
  exact ⟨start, first ++ labels, initial, ran.append run⟩

theorem run_invariant {invariant : σ → Prop}
    (preserved : ∀ state label after, invariant state → system.step state label after →
      invariant after)
    {start last : σ} {labels : List l} (holds : invariant start)
    (run : system.Run start labels last) : invariant last := by
  induction run with
  | nil => exact holds
  | snoc _ step ih => exact preserved _ _ _ ih step

theorem reachable_invariant {invariant : σ → Prop}
    (start : ∀ state, system.initial state → invariant state)
    (preserved : ∀ state label after, invariant state → system.step state label after →
      invariant after)
    {state : σ} (reachable : system.Reachable state) : invariant state := by
  obtain ⟨first, labels, initial, run⟩ := reachable
  exact run_invariant preserved (start first initial) run

theorem run_relates (invariant : σ → Prop) {related : σ → σ → Prop}
    (refl : ∀ state, related state state)
    (trans : ∀ first second third, related first second → related second third →
      related first third)
    (preserved : ∀ state label after, invariant state → system.step state label after →
      invariant after ∧ related state after)
    {start last : σ} {labels : List l} (holds : invariant start)
    (run : system.Run start labels last) : invariant last ∧ related start last := by
  induction run with
  | nil => exact ⟨holds, refl _⟩
  | snoc _ step ih =>
    obtain ⟨kept, within⟩ := preserved _ _ _ ih.1 step
    exact ⟨kept, trans _ _ _ ih.2 within⟩

/-! ### Systems that take fewer steps -/

/-- The runs whose steps are all allowed. -/
def restrict (system : System σ l) (allowed : σ → σ → Prop) : System σ l where
  initial := system.initial
  step before label after := system.step before label after ∧ allowed before after

/-- The runs whose steps are all allowed, where what is allowed goes by the label too. -/
def confine (system : System σ l) (allowed : σ → l → σ → Prop) : System σ l where
  initial := system.initial
  step before label after := system.step before label after ∧ allowed before label after

theorem Run.unconfine {allowed : σ → l → σ → Prop} {start last : σ} {labels : List l}
    (run : (system.confine allowed).Run start labels last) : system.Run start labels last := by
  induction run with
  | nil => exact .nil
  | snoc _ step ih => exact ih.snoc step.1

theorem Run.confine {allowed : σ → l → σ → Prop} {start last : σ} {labels : List l}
    (run : system.Run start labels last)
    (within : ∀ before label after, label ∈ labels → system.step before label after → allowed before label after) :
    (system.confine allowed).Run start labels last := by
  induction run with
  | nil => exact .nil
  | snoc _ step ih =>
    have before := ih fun before label after there => within before label after (List.mem_append_left _ there)
    exact before.snoc ⟨step, within _ _ _ (List.mem_append_right _ List.mem_cons_self) step⟩

theorem Run.confine_mono {invariant : σ → Prop} {first second : σ → l → σ → Prop}
    (preserved : ∀ state label after, invariant state → system.step state label after →
      invariant after)
    (within : ∀ state label after, invariant state → system.step state label after →
      first state label after → second state label after)
    {start last : σ} {labels : List l} (holds : invariant start)
    (run : (system.confine first).Run start labels last) :
    (system.confine second).Run start labels last := by
  induction run with
  | nil => exact .nil
  | snoc run step ih =>
    have here := run_invariant preserved holds run.unconfine
    exact ih.snoc ⟨step.1, within _ _ _ here step.1 step.2⟩

theorem Run.confine_congr {invariant : σ → Prop} {first second : σ → l → σ → Prop}
    (preserved : ∀ state label after, invariant state → system.step state label after →
      invariant after)
    (agree : ∀ state label after, invariant state → system.step state label after →
      (first state label after ↔ second state label after))
    {start last : σ} {labels : List l} (holds : invariant start) :
    (system.confine first).Run start labels last ↔
      (system.confine second).Run start labels last :=
  ⟨Run.confine_mono preserved (fun _ _ _ here step => (agree _ _ _ here step).mp) holds,
    Run.confine_mono preserved (fun _ _ _ here step => (agree _ _ _ here step).mpr) holds⟩

theorem Run.restrict_mono {invariant : σ → Prop} {first second : σ → σ → Prop}
    (preserved : ∀ state label after, invariant state → system.step state label after →
      invariant after)
    (within : ∀ state label after, invariant state → system.step state label after →
      first state after → second state after)
    {start last : σ} {labels : List l} (holds : invariant start)
    (run : (system.restrict first).Run start labels last) :
    (system.restrict second).Run start labels last :=
  Run.confine_mono preserved within holds run

end System

end Byok.Library
