/-
**Computations that may fail.**

What a bind or a loop in `Except` has done when it succeeds.
-/

import Mathlib.Data.List.Induction
import Mathlib.Tactic.Common

namespace Byok.Library

open List

theorem except_bind_eq_ok {ε α β : Type} {first : Except ε α} {next : α → Except ε β} {value : β} :
    (first >>= next) = .ok value ↔ ∃ between, first = .ok between ∧ next between = .ok value := by
  cases first with
  | error error =>
    constructor
    · intro equal
      cases equal
    · rintro ⟨_, equal, _⟩
      cases equal
  | ok between =>
    constructor
    · exact fun equal => ⟨between, rfl, equal⟩
    · rintro ⟨_, same, equal⟩
      cases same
      exact equal

theorem except_bind_ok_eq {ε α β : Type} {first : Except ε α} {f : α → β} {value : β} :
    (first >>= fun between => .ok (f between)) = .ok value ↔ ∃ between, first = .ok between ∧ f between = value := by
  simp only [except_bind_eq_ok, Except.ok.injEq]

@[simp] theorem except_error_bind {ε α β : Type} (error : ε) (next : α → Except ε β) :
    ((Except.error error : Except ε α) >>= next) = .error error := rfl

@[simp] theorem except_ok_bind {ε α β : Type} (value : α) (next : α → Except ε β) :
    ((Except.ok value : Except ε α) >>= next) = next value := rfl

theorem except_map_eq_ok {ε α β : Type} {f : α → β} {result : Except ε α} {value : β}
    (mapped : result.map f = .ok value) : ∃ inner, result = .ok inner ∧ f inner = value := by
  cases result with
  | error error => cases mapped
  | ok inner => exact ⟨inner, rfl, Except.ok.inj mapped⟩

theorem toOption_eq_some_iff {ε α : Type} {result : Except ε α} {value : α} :
    result.toOption = some value ↔ result = .ok value := by
  cases result with
  | error error => simp [Except.toOption]
  | ok other => simp [Except.toOption]

theorem mapM_view {ε α β γ : Type} {f : α → Except ε β} {list : List α} {values : List β} (view : β → γ) (g : α → γ)
    (gives : ∀ element ∈ list, ∀ value, f element = .ok value → view value = g element)
    (ran : list.mapM f = .ok values) : values.map view = list.map g := by
  induction list generalizing values with
  | nil =>
    cases ran
    rfl
  | cons element list ih =>
    rw [mapM_cons] at ran
    obtain ⟨value, first, ran⟩ := except_bind_eq_ok.mp ran
    obtain ⟨more, rest, ran⟩ := except_bind_eq_ok.mp ran
    cases ran
    rw [map_cons, map_cons, gives element mem_cons_self value first,
      ih (fun other member => gives other (mem_cons_of_mem _ member)) rest]

theorem mapM_eq_ok {ε α β : Type} {f : α → Except ε β} {list : List α}
    {values : List β} (g : α → β) (gives : ∀ element ∈ list, ∀ value, f element = .ok value → value = g element)
    (ran : list.mapM f = .ok values) : values = list.map g := by
  rw [← mapM_view id g gives ran, map_id]

theorem mapM_mem {ε α β : Type} {f : α → Except ε β} {list : List α} {values : List β} {value : β}
    (ran : list.mapM f = .ok values) (member : value ∈ values) : ∃ element ∈ list, f element = .ok value := by
  induction list generalizing values with
  | nil =>
    obtain rfl := Except.ok.inj ran
    cases member
  | cons element list ih =>
    rw [mapM_cons] at ran
    obtain ⟨first, made, ran⟩ := except_bind_eq_ok.mp ran
    obtain ⟨rest, more, rfl⟩ := except_bind_ok_eq.mp ran
    rcases mem_cons.mp member with rfl | later
    · exact ⟨element, mem_cons_self, made⟩
    · obtain ⟨other, inside, known⟩ := ih more later
      exact ⟨other, mem_cons_of_mem _ inside, known⟩

theorem mem_of_mapM {ε α β : Type} {f : α → Except ε β} {list : List α} {values : List β} (ran : list.mapM f = .ok values)
    {element : α} {value : β} (member : element ∈ list) (gives : f element = .ok value) : value ∈ values := by
  induction list generalizing values with
  | nil => cases member
  | cons head list ih =>
    rw [mapM_cons] at ran
    obtain ⟨first, made, ran⟩ := except_bind_eq_ok.mp ran
    obtain ⟨rest, more, rfl⟩ := except_bind_ok_eq.mp ran
    rcases mem_cons.mp member with rfl | later
    · exact Except.ok.inj (made.symm.trans gives) ▸ mem_cons_self
    · exact mem_cons_of_mem _ (ih more later)

theorem foldlM_invariant {ε α σ : Type} {step : σ → α → Except ε σ} {invariant : List α → σ → Prop}
    {start last : σ} {items : List α} (holds : invariant [] start)
    (keeps : ∀ read state item next, invariant read state → step state item = .ok next →
      invariant (read ++ [item]) next)
    (ran : items.foldlM step start = .ok last) : invariant items last := by
  induction items using List.reverseRecOn generalizing last with
  | nil =>
    cases ran
    exact holds
  | append_singleton items item ih =>
    rw [foldlM_append] at ran
    obtain ⟨between, first, ran⟩ := except_bind_eq_ok.mp ran
    rw [foldlM_cons] at ran
    obtain ⟨next, ok, ran⟩ := except_bind_eq_ok.mp ran
    cases ran
    exact keeps items between item last (ih first) ok

end Byok.Library
