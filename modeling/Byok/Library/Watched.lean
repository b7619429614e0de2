/-
**Runs and what is seen of them.**

Some steps of a system are seen from outside. `Watched` is a run with the list of what was seen, and `since` the part of
such a list behind its last mark.

* `watched_invariant` — what every step keeps of the list and the state, a run keeps.
* `System.Watched.between` — what holds behind the last mark at every moment holds of each part between two marks.
-/

import Byok.Library.System
import Mathlib.Data.List.DropRight

namespace Byok.Library

variable {σ l o : Type} {system : System σ l} {see : σ → l → σ → Option o}

/-- A run, with what is seen of its steps. -/
inductive System.Watched (system : System σ l) (see : σ → l → σ → Option o) (start : σ) : List o → σ → Prop
  | nil : Watched system see start [] start
  | snoc {seen : List o} {before after : σ} {label : l} (run : Watched system see start seen before)
      (step : system.step before label after) : Watched system see start (seen ++ (see before label after).toList) after

theorem System.watched_invariant {invariant : List o → σ → Prop}
    (preserved : ∀ seen state label after, invariant seen state → system.step state label after →
      invariant (seen ++ (see state label after).toList) after)
    {start last : σ} {seen : List o} (holds : invariant [] start) (run : system.Watched see start seen last) :
    invariant seen last := by
  induction run with
  | nil => exact holds
  | snoc _ step ih => exact preserved _ _ _ _ ih step

/-! ### Behind the last mark -/

variable {mark : o → Bool}

/-- The part of a list behind its last mark. -/
def since (mark : o → Bool) (seen : List o) : List o := seen.rtakeWhile fun value => !mark value

@[simp] theorem since_nil : since mark [] = [] := rfl

theorem since_mark {value : o} (marked : mark value = true) (seen : List o) : since mark (seen ++ [value]) = [] :=
  List.rtakeWhile_concat_neg _ _ _ (by simp [marked])

theorem since_other {value : o} (other : mark value = false) (seen : List o) :
    since mark (seen ++ [value]) = since mark seen ++ [value] :=
  List.rtakeWhile_concat_pos _ _ _ (by simp [other])

theorem since_append {before segment : List o} (begins : before = [] ∨ ∃ value ∈ before.getLast?, mark value = true)
    (unmarked : ∀ value ∈ segment, mark value = false) : since mark (before ++ segment) = segment := by
  induction segment using List.reverseRecOn with
  | nil =>
    rw [List.append_nil]
    rcases begins with rfl | ⟨value, last, marked⟩
    · rfl
    · obtain ⟨front, rfl⟩ := List.getLast?_eq_some_iff.mp last
      exact since_mark marked front
  | append_singleton segment value ih =>
    rw [← List.append_assoc, since_other (unmarked value (by simp)),
      ih fun other listed => unmarked other (List.mem_append_left _ listed)]

/-- The part behind the last mark, with what one more step shows. -/
def sinceThen (mark : o → Bool) (seen : List o) : Option o → List o
  | none => seen
  | some value => if mark value then [] else seen ++ [value]

theorem System.watched_since {holds : List o → σ → Prop}
    (preserved : ∀ seen state label after, holds seen state → system.step state label after →
      holds (sinceThen mark seen (see state label after)) after)
    {start last : σ} {seen : List o} (begun : holds [] start) (run : system.Watched see start seen last) :
    holds (since mark seen) last := by
  suffices kept : ∀ seen state label after, holds (since mark seen) state → system.step state label after →
      holds (since mark (seen ++ (see state label after).toList)) after from System.watched_invariant kept begun run
  intro seen state label after now step
  have next := preserved _ _ _ _ now step
  cases value : see state label after with
  | none =>
    rw [value] at next
    simpa [sinceThen] using next
  | some value' =>
    rw [value] at next
    rw [Option.toList_some]
    by_cases marked : mark value' = true
    · simpa [since_mark marked, sinceThen, marked] using next
    · rw [since_other (by simpa using marked)]
      simpa [sinceThen, marked] using next

theorem System.Watched.front {start last : σ} {front rest : List o} (run : system.Watched see start (front ++ rest) last) :
    ∃ state, system.Watched see start front state := by
  generalize all : front ++ rest = seen at run
  induction run generalizing rest with
  | nil =>
    rw [(List.append_eq_nil_iff.mp all).1]
    exact ⟨start, .nil⟩
  | @snoc seen before after label run step ih =>
    rcases List.eq_nil_or_concat rest with rfl | ⟨first, value, rfl⟩
    · rw [List.append_nil] at all
      exact ⟨after, all ▸ run.snoc step⟩
    · cases shown : see before label after with
      | none =>
        rw [shown, Option.toList_none, List.append_nil] at all
        exact ih all
      | some value' =>
        rw [shown, Option.toList_some, List.concat_eq_append, ← List.append_assoc] at all
        exact ih (List.append_inj_left' all rfl)

theorem System.Watched.between {start last : σ} {holds : List o → Prop}
    (always : ∀ {seen state}, system.Watched see start seen state → holds (since mark seen))
    {before segment rest : List o} (run : system.Watched see start (before ++ segment ++ rest) last)
    (begins : before = [] ∨ ∃ value ∈ before.getLast?, mark value = true)
    (unmarked : ∀ value ∈ segment, mark value = false) : holds segment := by
  obtain ⟨state, front⟩ := run.front
  have now := always front
  rwa [since_append begins unmarked] at now

end Byok.Library
