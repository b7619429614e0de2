/-
**Transactions: computations over a state that may fail and then leave no trace.**

`StateT σ (Except ε)` with the inversion lemma of each step (`bind_ok`, `require_ok`, …), the
relation rule for loops (`foldlM_relates`), the rules for changes that are not looked at
(`Commutes`), and `execute`: a transaction commits when it succeeds and
rolls back when it does not.
-/

import Mathlib.Logic.Relation
import Mathlib.Tactic.Common

namespace Byok.Library

/-- A computation over a state. When it fails there is no state to go on with. -/
abbrev Transaction (σ ε : Type) : Type → Type := StateT σ (Except ε)

namespace Transaction

variable {σ ε α β : Type}

/-- Looks at the state. -/
def read (view : σ → α) : Transaction σ ε α := fun state => .ok (view state, state)

/-- Changes the state. -/
def write (change : σ → σ) : Transaction σ ε Unit := fun state => .ok ((), change state)

/-- Fails. -/
def fail (error : ε) : Transaction σ ε α := fun _ => .error error

/-- Goes on only when the condition holds. -/
def require (condition : Prop) [Decidable condition] (error : ε) : Transaction σ ε Unit :=
  fun state => if condition then .ok ((), state) else .error error

/-- The value, or a failure when there is none. -/
def orFail (value : Option α) (error : ε) : Transaction σ ε α := fun state =>
  match value with
  | some value => .ok (value, state)
  | none => .error error

/-- The computation without its value. -/
def ignore (transaction : Transaction σ ε α) : Transaction σ ε Unit := fun state =>
  match transaction state with
  | .ok (_, after) => .ok ((), after)
  | .error error => .error error

/-! ### What a step that succeeded did -/

section Inversion

variable {state after : σ} {value : α}

theorem bind_ok {first : Transaction σ ε β} {next : β → Transaction σ ε α} :
    (first >>= next) state = .ok (value, after) ↔
      ∃ middle between, first state = .ok (middle, between) ∧
        next middle between = .ok (value, after) := by
  constructor
  · intro ran
    simp only [bind, StateT.bind, Except.bind] at ran
    split at ran
    · cases ran
    · rename_i outcome done
      exact ⟨outcome.1, outcome.2, done, ran⟩
  · rintro ⟨middle, between, done, ran⟩
    simp only [bind, StateT.bind, Except.bind, done]
    exact ran

theorem bind_eq {first : Transaction σ ε β} {next : β → Transaction σ ε α} {middle : β} {between : σ}
    (done : first state = .ok (middle, between)) :
    (first >>= next) state = next middle between := by
  simp only [bind, StateT.bind, Except.bind, done]

theorem bind_error {first : Transaction σ ε β} {next : β → Transaction σ ε α} {error : ε}
    (failed : first state = .error error) : (first >>= next) state = .error error := by
  simp only [bind, StateT.bind, Except.bind, failed]

theorem bind_failed {first : Transaction σ ε β} {next : β → Transaction σ ε α} {error : ε}
    (failed : (first >>= next) state = .error error) :
    first state = .error error ∨
      ∃ middle between, first state = .ok (middle, between) ∧ next middle between = .error error := by
  simp only [bind, StateT.bind, Except.bind] at failed
  split at failed
  · rename_i reason ran
    obtain rfl := Except.error.inj failed
    exact .inl ran
  · rename_i outcome done
    exact .inr ⟨outcome.1, outcome.2, done, failed⟩

theorem require_failed {condition : Prop} [Decidable condition] {error failure : ε}
    (failed : (require condition error : Transaction σ ε Unit) state = .error failure) :
    ¬ condition ∧ failure = error := by
  by_cases holds : condition
  · simp [require, holds] at failed
  · simp only [require, holds, if_false, Except.error.injEq] at failed
    exact ⟨holds, failed.symm⟩

theorem orFail_failed {found : Option α} {error failure : ε}
    (failed : (orFail found error : Transaction σ ε α) state = .error failure) : failure = error := by
  cases found with
  | none => exact (Except.error.inj failed).symm
  | some value => cases failed

@[simp] theorem pure_ok {made : α} :
    (pure made : Transaction σ ε α) state = .ok (value, after) ↔ value = made ∧ state = after := by
  show (Except.ok (made, state) : Except ε (α × σ)) = .ok (value, after) ↔ _
  simp only [Except.ok.injEq, Prod.mk.injEq]
  exact and_congr eq_comm Iff.rfl

@[simp] theorem read_ok {view : σ → α} :
    (read view : Transaction σ ε α) state = .ok (value, after) ↔
      value = view state ∧ state = after := by
  simp only [read, Except.ok.injEq, Prod.mk.injEq]
  exact and_congr eq_comm Iff.rfl

@[simp] theorem write_ok {change : σ → σ} {done : Unit} :
    (write change : Transaction σ ε Unit) state = .ok (done, after) ↔ after = change state := by
  simp only [write, Except.ok.injEq, Prod.mk.injEq, true_and]
  exact eq_comm

@[simp] theorem fail_ok {error : ε} :
    (fail error : Transaction σ ε α) state = .ok (value, after) ↔ False := by
  simp [fail]

@[simp] theorem require_ok {condition : Prop} [Decidable condition] {error : ε} {done : Unit} :
    (require condition error : Transaction σ ε Unit) state = .ok (done, after) ↔
      condition ∧ state = after := by
  by_cases holds : condition
  · simp only [require, holds, if_true, Except.ok.injEq, Prod.mk.injEq, true_and]
  · simp [require, holds]

theorem require_holds {condition : Prop} [Decidable condition] {error : ε} (holds : condition) :
    (require condition error : Transaction σ ε Unit) state = .ok ((), state) :=
  require_ok.mpr ⟨holds, rfl⟩

@[simp] theorem orFail_ok {found : Option α} {error : ε} :
    (orFail found error : Transaction σ ε α) state = .ok (value, after) ↔
      found = some value ∧ state = after := by
  cases found with
  | none => simp [orFail]
  | some made => simp only [orFail, Except.ok.injEq, Prod.mk.injEq, Option.some.injEq]

theorem read_bind_ok {view : σ → β} {next : β → Transaction σ ε α} :
    (read view >>= next) state = .ok (value, after) ↔ next (view state) state = .ok (value, after) := Iff.rfl

theorem write_bind_ok {change : σ → σ} {next : Unit → Transaction σ ε α} :
    (write change >>= next) state = .ok (value, after) ↔ next () (change state) = .ok (value, after) := Iff.rfl

theorem require_bind_ok {condition : Prop} [Decidable condition] {error : ε} {next : Unit → Transaction σ ε α} :
    (require condition error >>= next) state = .ok (value, after) ↔
      condition ∧ next () state = .ok (value, after) := by
  constructor
  · intro ran
    obtain ⟨_, _, checked, ran⟩ := bind_ok.mp ran
    obtain ⟨holds, rfl⟩ := require_ok.mp checked
    exact ⟨holds, ran⟩
  · rintro ⟨holds, ran⟩
    exact bind_ok.mpr ⟨(), state, require_holds holds, ran⟩

theorem orFail_bind_ok {found : Option β} {error : ε} {next : β → Transaction σ ε α} :
    (orFail found error >>= next) state = .ok (value, after) ↔
      ∃ made, found = some made ∧ next made state = .ok (value, after) := by
  simp [bind_ok, and_assoc]

theorem ignore_ok {transaction : Transaction σ ε α} {done : Unit} :
    transaction.ignore state = .ok (done, after) ↔ ∃ made, transaction state = .ok (made, after) := by
  rw [ignore]
  split
  · rename_i made last ran
    simp [ran]
  · rename_i error ran
    simp [ran]

end Inversion

theorem foldlM_relates {γ : Type} {body : β → γ → Transaction σ ε β} {items : List γ}
    {motive : List γ → β → σ → Prop} {start last : β} {state after : σ}
    (ran : items.foldlM body start state = .ok (last, after)) (initial : motive [] start state)
    (round : ∀ done item acc between next later, done ++ [item] <+: items →
      motive done acc between → body acc item between = .ok (next, later) →
      motive (done ++ [item]) next later) :
    motive items last after := by
  have general : ∀ (todo done : List γ) (acc : β) (between : σ), done ++ todo = items →
      motive done acc between → todo.foldlM body acc between = .ok (last, after) →
      motive items last after := by
    intro todo
    induction todo with
    | nil =>
      intro done acc between split holds ran
      simp only [List.foldlM_nil, pure_ok] at ran
      obtain ⟨rfl, rfl⟩ := ran
      rw [List.append_nil] at split
      exact split ▸ holds
    | cons item todo ih =>
      intro done acc between split holds ran
      rw [List.foldlM_cons] at ran
      obtain ⟨next, later, stepped, ran⟩ := bind_ok.mp ran
      have split' : done ++ [item] ++ todo = items := by simpa using split
      exact ih (done ++ [item]) next later split'
        (round done item acc between next later ⟨todo, split'⟩ holds stepped) ran
  exact general items [] start state rfl initial ran

theorem foldlM_failed {γ : Type} {body : β → γ → Transaction σ ε β} {items : List γ}
    {motive : List γ → β → σ → Prop} {start : β} {state : σ} {error : ε}
    (failed : items.foldlM body start state = .error error) (initial : motive [] start state)
    (round : ∀ done item acc between next later, done ++ [item] <+: items →
      motive done acc between → body acc item between = .ok (next, later) →
      motive (done ++ [item]) next later) :
    ∃ done item acc between, done ++ [item] <+: items ∧ motive done acc between ∧
      body acc item between = .error error := by
  have general : ∀ (todo done : List γ) (acc : β) (between : σ), done ++ todo = items →
      motive done acc between → todo.foldlM body acc between = .error error →
      ∃ done item acc between, done ++ [item] <+: items ∧ motive done acc between ∧
        body acc item between = .error error := by
    intro todo
    induction todo with
    | nil => intro done acc between _ _ failed; cases failed
    | cons item todo ih =>
      intro done acc between split holds failed
      have split' : done ++ [item] ++ todo = items := by simpa using split
      rw [List.foldlM_cons] at failed
      rcases bind_failed failed with here | ⟨next, later, stepped, failed⟩
      · exact ⟨done, item, acc, between, ⟨todo, split'⟩, holds, here⟩
      · exact ih (done ++ [item]) next later split'
          (round done item acc between next later ⟨todo, split'⟩ holds stepped) failed
  exact general items [] start state rfl initial failed

/-! ### Transactions that do not look at a change -/

/-- The transaction does the same before a change of the state as after it. -/
def Commutes (change : σ → σ) (transaction : Transaction σ ε α) : Prop :=
  ∀ state, transaction (change state) = (transaction state).map fun ended => (ended.1, change ended.2)

namespace Commutes

variable {change : σ → σ}

theorem pure (value : α) : Commutes change (pure value : Transaction σ ε α) := fun _ => rfl

theorem fail (error : ε) : Commutes change (fail error : Transaction σ ε α) := fun _ => rfl

theorem read {view : σ → α} (same : ∀ state, view (change state) = view state) :
    Commutes change (read view : Transaction σ ε α) := by
  intro state
  simp only [Transaction.read, same, Except.map]

theorem write {own : σ → σ} (same : ∀ state, own (change state) = change (own state)) :
    Commutes change (write own : Transaction σ ε Unit) := by
  intro state
  simp only [Transaction.write, same, Except.map]

theorem require (condition : Prop) [Decidable condition] (error : ε) :
    Commutes change (require condition error : Transaction σ ε Unit) := by
  intro state
  by_cases holds : condition
  · simp only [Transaction.require, holds, if_true, Except.map]
  · simp only [Transaction.require, holds, if_false, Except.map]

theorem bind {first : Transaction σ ε β} {next : β → Transaction σ ε α} (one : Commutes change first)
    (two : ∀ middle, Commutes change (next middle)) : Commutes change (first >>= next) := by
  intro state
  have moved := one state
  cases ran : first state with
  | error error =>
    rw [ran] at moved
    rw [bind_error moved, bind_error ran]
    rfl
  | ok ended =>
    rw [ran] at moved
    rw [bind_eq moved, bind_eq ran]
    exact two ended.1 ended.2

end Commutes

/-- The transaction with its `COMMIT` or `ROLLBACK`. -/
def execute (transaction : Transaction σ ε α) (state : σ) : Except ε α × σ :=
  match transaction state with
  | .ok (value, after) => (.ok value, after)
  | .error error => (.error error, state)

theorem execute_ok {transaction : Transaction σ ε α} {state after : σ} {value : α}
    (ran : transaction state = .ok (value, after)) :
    transaction.execute state = (.ok value, after) := by
  rw [execute, ran]

theorem execute_error {transaction : Transaction σ ε α} {state : σ} {error : ε}
    (failed : transaction state = .error error) :
    transaction.execute state = (.error error, state) := by
  rw [execute, failed]

end Transaction

end Byok.Library
