/-
**Transducers that may fail.**

A machine reads a list one item at a time, writes a piece of output at each of them, may stop with
an error, and writes a last piece at the end. A run splits wherever the input splits
(`run_append`); at a point where the machine would write its last piece and start again, the whole
translation splits too (`transduce_append`).
-/

import Byok.Library.Fallible
import Mathlib.Data.List.Basic

namespace Byok.Library

/-- A step function with a last piece of output. -/
structure Transducer (σ α β ε : Type) where
  step : σ → α → Except ε (List β × σ)
  finish : σ → Except ε (List β)

namespace Transducer

variable {σ α β ε : Type} (machine : Transducer σ α β ε)

/-- The output and the state after a list of items. -/
def run (state : σ) : List α → Except ε (List β × σ)
  | [] => .ok ([], state)
  | item :: items => do
    let (out, state) ← machine.step state item
    let (more, state) ← run state items
    .ok (out ++ more, state)

/-- The whole translation: a run and the last piece. -/
def transduce (state : σ) (items : List α) : Except ε (List β) := do
  let (out, state) ← machine.run state items
  let last ← machine.finish state
  .ok (out ++ last)

@[simp] theorem run_nil (state : σ) : machine.run state [] = .ok ([], state) := rfl

@[simp] theorem transduce_nil (state : σ) : machine.transduce state [] = machine.finish state := by
  cases equal : machine.finish state <;> simp [transduce, equal]

theorem run_append (state : σ) (items others : List α) :
    machine.run state (items ++ others) = (do
      let (out, state) ← machine.run state items
      let (more, state) ← machine.run state others
      .ok (out ++ more, state)) := by
  induction items generalizing state with
  | nil => cases equal : machine.run state others <;> simp [equal]
  | cons item items ih =>
    simp only [List.cons_append, run, ih]
    rcases machine.step state item with error | ⟨out, between⟩
    · rfl
    · simp only [except_ok_bind]
      rcases machine.run between items with error | ⟨more, after⟩
      · rfl
      · simp only [except_ok_bind]
        rcases machine.run after others with error | ⟨rest, last⟩
        · rfl
        · simp

theorem run_append_ok {state between : σ} {items : List α} {out : List β}
    (ran : machine.run state items = .ok (out, between)) (others : List α) :
    machine.run state (items ++ others) = (do
      let (more, last) ← machine.run between others
      .ok (out ++ more, last)) := by
  rw [run_append, ran, except_ok_bind]

theorem run_trans {state between last : σ} {items others : List α} {out more : List β}
    (first : machine.run state items = .ok (out, between))
    (second : machine.run between others = .ok (more, last)) :
    machine.run state (items ++ others) = .ok (out ++ more, last) := by
  rw [run_append_ok machine first, second, except_ok_bind]

theorem run_append_inv {state last : σ} {items others : List α} {out : List β}
    (ran : machine.run state (items ++ others) = .ok (out, last)) :
    ∃ first between second, machine.run state items = .ok (first, between) ∧
      machine.run between others = .ok (second, last) ∧ out = first ++ second := by
  rw [run_append] at ran
  obtain ⟨⟨first, between⟩, head, ran⟩ := except_bind_eq_ok.mp ran
  obtain ⟨⟨second, after⟩, tail, ran⟩ := except_bind_eq_ok.mp ran
  obtain ⟨rfl, rfl⟩ := Prod.mk.inj (Except.ok.inj ran)
  exact ⟨first, between, second, head, tail, rfl⟩

theorem run_cons_ok {state between last : σ} {item : α} {items : List α} {out more : List β}
    (stepped : machine.step state item = .ok (out, between))
    (ran : machine.run between items = .ok (more, last)) :
    machine.run state (item :: items) = .ok (out ++ more, last) := by
  simp only [run, stepped, except_ok_bind, ran]

theorem run_singleton_inv {state last : σ} {item : α} {out : List β}
    (ran : machine.run state [item] = .ok (out, last)) : machine.step state item = .ok (out, last) := by
  rw [run] at ran
  obtain ⟨⟨first, after⟩, stepped, ran⟩ := except_bind_eq_ok.mp ran
  obtain ⟨rfl, rfl⟩ := Prod.mk.inj (Except.ok.inj ran)
  rw [stepped, List.append_nil]

theorem run_concat {state between after : σ} {items : List α} {item : α} {out more : List β}
    (ran : machine.run state items = .ok (out, between))
    (stepped : machine.step between item = .ok (more, after)) :
    machine.run state (items ++ [item]) = .ok (out ++ more, after) := by
  rw [run_append_ok machine ran]
  simp [run, stepped]

theorem transduce_cons (state : σ) (item : α) (items : List α) :
    machine.transduce state (item :: items) = (do
      let (out, state) ← machine.step state item
      let more ← machine.transduce state items
      .ok (out ++ more)) := by
  simp only [transduce, run]
  rcases machine.step state item with error | ⟨out, between⟩
  · rfl
  · simp only [except_ok_bind]
    rcases machine.run between items with error | ⟨more, after⟩
    · rfl
    · simp only [except_ok_bind]
      rcases machine.finish after with error | last
      · rfl
      · simp

theorem transduce_append_ok {state between : σ} {items : List α} {out : List β}
    (ran : machine.run state items = .ok (out, between)) (others : List α) :
    machine.transduce state (items ++ others) = (do
      let more ← machine.transduce between others
      .ok (out ++ more)) := by
  simp only [transduce, run_append_ok machine ran]
  rcases machine.run between others with error | ⟨more, after⟩
  · rfl
  · simp only [except_ok_bind]
    rcases machine.finish after with error | last
    · rfl
    · simp

theorem transduce_append_error {state : σ} {items : List α} {error : ε}
    (failed : machine.run state items = .error error) (others : List α) :
    machine.transduce state (items ++ others) = .error error := by
  rw [transduce, run_append, failed]
  rfl

/-- `machine` may be restarted in `fresh` before `others`: from `state` it does what writing its
last piece and starting again would do. -/
def Restarts (fresh state : σ) (others : List α) : Prop :=
  machine.transduce state others = do
    let last ← machine.finish state
    let more ← machine.transduce fresh others
    .ok (last ++ more)

theorem restarts_of_head {fresh state : σ} {others : List α} (rest : machine.finish fresh = .ok [])
    (head : ∀ item ∈ others.head?, machine.step state item = do
      let last ← machine.finish state
      let (out, after) ← machine.step fresh item
      .ok (last ++ out, after)) : machine.Restarts fresh state others := by
  cases others with
  | nil => cases equal : machine.finish state <;> simp [Restarts, equal, rest]
  | cons item items =>
    simp only [Restarts, transduce_cons, head item rfl]
    rcases machine.finish state with error | last
    · rfl
    · simp only [except_ok_bind]
      rcases machine.step fresh item with error | ⟨out, after⟩
      · rfl
      · simp only [except_ok_bind]
        rcases machine.transduce after items with error | more
        · rfl
        · simp

/-- **Where the machine restarts, the translation splits.** -/
theorem transduce_append {start fresh : σ} {items others : List α}
    (restarts : ∀ out state, machine.run start items = .ok (out, state) →
      machine.Restarts fresh state others) :
    machine.transduce start (items ++ others) = (do
      let out ← machine.transduce start items
      let more ← machine.transduce fresh others
      .ok (out ++ more)) := by
  rcases ran : machine.run start items with error | ⟨out, state⟩
  · rw [transduce_append_error machine ran, transduce, ran]
    rfl
  · have split : machine.transduce state others = _ := restarts out state ran
    have whole : machine.transduce start items = (do
        let last ← machine.finish state
        .ok (out ++ last)) := by
      rw [transduce, ran, except_ok_bind]
    rw [transduce_append_ok machine ran, split, whole]
    rcases machine.finish state with error | last
    · rfl
    · simp only [except_ok_bind]
      rcases machine.transduce fresh others with error | more
      · rfl
      · simp

end Transducer

end Byok.Library
