/-
**What a transaction preserves.**

A rule for each way to put a transaction together; one that fails leaves nothing.
-/

import Byok.Library.Transaction

namespace Byok.Library.Transaction

variable {σ ε α β : Type}

/-- Where the transaction succeeds, the state after it is as the state before it was. -/
def Preserves (invariant : σ → Prop) (transaction : Transaction σ ε α) : Prop :=
  ∀ state value after, invariant state → transaction state = .ok (value, after) → invariant after

namespace Preserves

variable {invariant : σ → Prop}

theorem pure (value : α) : Preserves invariant (pure value : Transaction σ ε α) := by
  intro state made after holds ran
  obtain ⟨-, rfl⟩ := pure_ok.mp ran
  exact holds

theorem read (view : σ → α) : Preserves invariant (read view : Transaction σ ε α) := by
  intro state made after holds ran
  obtain ⟨-, rfl⟩ := read_ok.mp ran
  exact holds

theorem require (condition : Prop) [Decidable condition] (error : ε) :
    Preserves invariant (require condition error : Transaction σ ε Unit) := by
  intro state made after holds ran
  obtain ⟨-, rfl⟩ := require_ok.mp ran
  exact holds

theorem orFail (found : Option α) (error : ε) : Preserves invariant (orFail found error : Transaction σ ε α) := by
  intro state made after holds ran
  obtain ⟨-, rfl⟩ := orFail_ok.mp ran
  exact holds

theorem write {change : σ → σ} (keeps : ∀ state, invariant state → invariant (change state)) :
    Preserves invariant (write change : Transaction σ ε Unit) := by
  intro state made after holds ran
  obtain rfl := write_ok.mp ran
  exact keeps state holds

theorem bind {first : Transaction σ ε β} {next : β → Transaction σ ε α} (one : Preserves invariant first)
    (two : ∀ middle, Preserves invariant (next middle)) : Preserves invariant (first >>= next) := by
  intro state made after holds ran
  obtain ⟨middle, between, done, ran⟩ := bind_ok.mp ran
  exact two middle between made after (one state middle between holds done) ran

theorem foldlM {γ : Type} {body : β → γ → Transaction σ ε β} (round : ∀ acc item, Preserves invariant (body acc item))
    (items : List γ) (start : β) : Preserves invariant (items.foldlM body start) := by
  induction items generalizing start with
  | nil => exact .pure start
  | cons item items ih =>
    rw [List.foldlM_cons]
    exact .bind (round start item) ih

end Preserves

end Byok.Library.Transaction
