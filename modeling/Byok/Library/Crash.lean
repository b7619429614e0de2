/-
**Programs that may be cut off.** Each step of a program works or fails, and the program may end before any of them.

* `Prog` — a program over a state; `Prog.run`, its runs, by what becomes of its steps.
* `Prog.exec` — the run whose steps all work.
* `Prog.Avoids` — that no step of a run takes the state where it should not go; `Prog.avoids_bind`.
* `Ends` — what holds at the end of a run that avoids some steps, and wherever it is cut off; its rules,
  `Ends.bind`, `Ends.act`.
-/

import Mathlib.Tactic.Common

namespace Byok.Library

/-- What becomes of a step. -/
inductive Outcome where
  | works
  | fails
deriving DecidableEq, Repr

/-- A program over a state: each of its steps may fail, and then leaves the state. -/
inductive Prog (σ α : Type) : Type 1 where
  | done (value : α)
  | step {β : Type} (act : σ → σ × β) (failed : β) (next : β → Prog σ α)

namespace Prog

variable {σ α β γ : Type}

/-- A run: the state it ends in, and its value and the outcomes that are left unless it is cut off. -/
def run : Prog σ α → List Outcome → σ → σ × Option (α × List Outcome)
  | .done value, outcomes, state => (state, some (value, outcomes))
  | .step _ _ _, [], state => (state, none)
  | .step act _ next, .works :: outcomes, state => (next (act state).2).run outcomes (act state).1
  | .step _ failed next, .fails :: outcomes, state => (next failed).run outcomes state

/-- The run whose steps all work. -/
def exec : Prog σ α → σ → σ × α
  | .done value, state => (state, value)
  | .step act _ next, state => (next (act state).2).exec (act state).1

protected def bind : Prog σ α → (α → Prog σ β) → Prog σ β
  | .done value, more => more value
  | .step act failed next, more => .step act failed fun result => (next result).bind more

instance : Monad (Prog σ) where
  pure := .done
  bind := Prog.bind

/-- A single step. -/
def act (act : σ → σ × β) (failed : β) : Prog σ β := .step act failed .done

theorem run_bind (first : Prog σ α) (next : α → Prog σ β) (outcomes : List Outcome) (state : σ) :
    (first.bind next).run outcomes state =
      match first.run outcomes state with
      | (after, some (value, rest)) => (next value).run rest after
      | (after, none) => (after, none) := by
  induction first generalizing outcomes state with
  | done value => rfl
  | step act failed more ih =>
    cases outcomes with
    | nil => rfl
    | cons outcome outcomes =>
      cases outcome with
      | works => exact ih (act state).2 outcomes (act state).1
      | fails => exact ih failed outcomes state

@[simp] theorem exec_pure (value : α) (state : σ) : (pure value : Prog σ α).exec state = (state, value) := rfl

@[simp] theorem exec_bind (first : Prog σ α) (next : α → Prog σ β) (state : σ) :
    (first >>= next).exec state = (next (first.exec state).2).exec (first.exec state).1 := by
  show (first.bind next).exec state = _
  induction first generalizing state with
  | done value => rfl
  | step act failed more ih => exact ih (act state).2 (act state).1

/-! ### The steps of a run -/

/-- No step of the run that works takes the state from one to another that is `bad` behind it. -/
def Avoids (bad : σ → σ → Prop) : Prog σ α → List Outcome → σ → Prop
  | .done _, _, _ => True
  | .step _ _ _, [], _ => True
  | .step act _ next, .works :: outcomes, state =>
    ¬ bad state (act state).1 ∧ (next (act state).2).Avoids bad outcomes (act state).1
  | .step _ failed next, .fails :: outcomes, state => (next failed).Avoids bad outcomes state

instance decidableAvoids {bad : σ → σ → Prop} [∀ before after, Decidable (bad before after)] :
    ∀ (prog : Prog σ α) (outcomes : List Outcome) (state : σ), Decidable (prog.Avoids bad outcomes state)
  | .done _, _, _ => .isTrue trivial
  | .step _ _ _, [], _ => .isTrue trivial
  | .step act _ next, .works :: outcomes, state =>
    have : Decidable ((next (act state).2).Avoids bad outcomes (act state).1) := decidableAvoids _ outcomes _
    inferInstanceAs (Decidable (¬ bad state (act state).1 ∧ (next (act state).2).Avoids bad outcomes (act state).1))
  | .step _ failed next, .fails :: outcomes, state => decidableAvoids (next failed) outcomes state

theorem avoids_bind {bad : σ → σ → Prop} {first : Prog σ α} {next : α → Prog σ β} {outcomes : List Outcome} {state : σ} :
    (first.bind next).Avoids bad outcomes state ↔ first.Avoids bad outcomes state ∧
      ∀ value rest after, first.run outcomes state = (after, some (value, rest)) → (next value).Avoids bad rest after := by
  induction first generalizing outcomes state with
  | done value =>
    constructor
    · intro avoids
      refine ⟨trivial, fun value rest after ran => ?_⟩
      cases ran
      exact avoids
    · exact fun avoids => avoids.2 value outcomes state rfl
  | step act failed more ih =>
    cases outcomes with
    | nil => exact ⟨fun _ => ⟨trivial, nofun⟩, fun _ => trivial⟩
    | cons outcome outcomes =>
      cases outcome with
      | works => exact (and_congr_right fun _ => ih (act state).2).trans and_assoc.symm
      | fails => exact ih failed

end Prog

/-! ### What holds at the end, and where a program is cut off -/

/-- From a state, with what becomes of its steps, the program ends with `post`, or is cut off with `cut`, unless one
of its steps is `bad`. -/
def Ends {σ α : Type} (bad : σ → σ → Prop) (outcomes : List Outcome) (state : σ) (prog : Prog σ α)
    (post : α → List Outcome → σ → Prop) (cut : σ → Prop) : Prop :=
  prog.Avoids bad outcomes state →
    match prog.run outcomes state with
    | (after, some (value, rest)) => post value rest after
    | (after, none) => cut after

namespace Ends

variable {σ α β : Type} {bad : σ → σ → Prop} {outcomes : List Outcome} {state : σ}
  {post : α → List Outcome → σ → Prop} {cut : σ → Prop}

theorem pure {value : α} (ends : post value outcomes state) : Ends bad outcomes state (pure value) post cut :=
  fun _ => ends

theorem weaken {prog : Prog σ α} {post' : α → List Outcome → σ → Prop} {cut' : σ → Prop}
    (ends : Ends bad outcomes state prog post cut)
    (after : ∀ value rest last, post value rest last → post' value rest last) (off : ∀ last, cut last → cut' last) :
    Ends bad outcomes state prog post' cut' := by
  intro avoids
  have ends := ends avoids
  cases ran : prog.run outcomes state with
  | mk last result =>
    rw [ran] at ends
    cases result with
    | none => exact off last ends
    | some result => exact after result.1 result.2 last ends

theorem bind_of_run {first : Prog σ β} {next : β → Prog σ α} {middle : β → List Outcome → σ → Prop}
    (begins : Ends bad outcomes state first middle cut)
    (goes : ∀ value rest after, first.run outcomes state = (after, some (value, rest)) → middle value rest after →
      Ends bad rest after (next value) post cut) :
    Ends bad outcomes state (first >>= next) post cut := by
  intro avoids
  obtain ⟨ahead, behind⟩ := Prog.avoids_bind.mp avoids
  have begins := begins ahead
  rw [show first >>= next = first.bind next from rfl, Prog.run_bind]
  cases ran : first.run outcomes state with
  | mk after result =>
    rw [ran] at begins
    cases result with
    | none => exact begins
    | some result => exact goes result.1 result.2 after ran begins (behind result.1 result.2 after ran)

theorem bind {first : Prog σ β} {next : β → Prog σ α} {middle : β → List Outcome → σ → Prop}
    (begins : Ends bad outcomes state first middle cut)
    (goes : ∀ value rest after, middle value rest after → Ends bad rest after (next value) post cut) :
    Ends bad outcomes state (first >>= next) post cut :=
  begins.bind_of_run fun value rest after _ => goes value rest after

theorem bind_within {first : Prog σ β} {next : β → Prog σ α} {middle : β → List Outcome → σ → Prop} {cut' : σ → Prop}
    (begins : Ends bad outcomes state first middle cut') (off : ∀ last, cut' last → cut last)
    (goes : ∀ value rest after, middle value rest after → Ends bad rest after (next value) post cut) :
    Ends bad outcomes state (first >>= next) post cut := by
  have within : Ends bad outcomes state first middle cut := begins.weaken (fun _ _ _ ends => ends) off
  exact within.bind goes

theorem act {act : σ → σ × β} {failed : β} {next : β → Prog σ α} (stops : outcomes = [] → cut state)
    (works : ∀ rest, outcomes = .works :: rest → ¬ bad state (act state).1 →
      Ends bad rest (act state).1 (next (act state).2) post cut)
    (fails : ∀ rest, outcomes = .fails :: rest → Ends bad rest state (next failed) post cut) :
    Ends bad outcomes state (Prog.act act failed >>= next) post cut := by
  intro avoids
  cases outcomes with
  | nil => exact stops rfl
  | cons outcome rest =>
    cases outcome with
    | works => exact works rest rfl avoids.1 avoids.2
    | fails => exact fails rest rfl avoids

end Ends

end Byok.Library
