/-
**Loops that go on until a number states itself.**

A round makes a number from the width of the one before; the loop ends where a round makes the number that it was
given. Where the widths that come up are next to each other, it ends within four rounds or never does.

* `settle` — the loop.
* `settles_iff` — it ends where no two widths lead to each other.
* `digits` — the width of a number in decimal.
-/

import Mathlib.Algebra.Order.Ring.Nat
import Mathlib.Logic.Function.Iterate
import Mathlib.Tactic.Common

namespace Byok.Library.Settle

/-- The loop, in as many rounds. -/
def settle (next : Nat → Nat) : Nat → Nat → Option Nat
  | 0, _ => none
  | rounds + 1, shown => if next shown = shown then some shown else settle next rounds (next shown)

variable {next width kept : Nat → Nat} {start top : Nat}

theorem settle_fixed {rounds shown : Nat} (ended : settle next rounds start = some shown) : next shown = shown := by
  induction rounds generalizing start with
  | zero => cases ended
  | succ rounds ih =>
    rw [settle] at ended
    split at ended
    · obtain rfl := Option.some.inj ended
      assumption
    · exact ih ended

theorem settle_more {rounds shown : Nat} (ended : settle next rounds start = some shown) (more : Nat) :
    settle next (rounds + more) start = some shown := by
  induction rounds generalizing start with
  | zero => cases ended
  | succ rounds ih =>
    rw [settle] at ended
    rw [Nat.add_right_comm, settle]
    split
    · rename_i fixed
      rwa [if_pos fixed] at ended
    · rename_i moves
      rw [if_neg moves] at ended
      exact ih ended

theorem settle_none (inside : Nat → Prop) (starts : inside start) (stays : ∀ shown, inside shown → inside (next shown))
    (moves : ∀ shown, inside shown → next shown ≠ shown) (rounds : Nat) : settle next rounds start = none := by
  induction rounds generalizing start with
  | zero => rfl
  | succ rounds ih =>
    rw [settle, if_neg (moves start starts)]
    exact ih (stays start starts)

theorem settle_some (next : Nat → Nat) {rounds : Nat} (fixed : next (next^[rounds] start) = next^[rounds] start) :
    ∃ shown, settle next (rounds + 1) start = some shown := by
  induction rounds generalizing start with
  | zero => exact ⟨start, by rw [settle, if_pos (by simpa using fixed)]⟩
  | succ rounds ih =>
    rw [settle]
    split
    · exact ⟨start, rfl⟩
    · exact ih (by simpa [Function.iterate_succ_apply] using fixed)

/-- Two widths that lead to each other: the numbers of `width + 1` digits have no room beside one of `width`. -/
def Alternates (width kept : Nat → Nat) (short : Nat) : Prop :=
  width (kept short) = short + 1 ∧ width (kept (short + 1)) = short

/-- **Where the loop ends.** -/
theorem settles_iff (first : width start ≤ top) (bounded : ∀ wide, width (kept wide) ≤ top)
    (near : ∀ wide ≤ top, ∀ other ≤ top, width (kept wide) ≤ width (kept other) + 1) :
    (∃ rounds shown, settle (fun shown => kept (width shown)) rounds start = some shown) ↔
      ¬ ∃ short, Alternates width kept short := by
  constructor
  · rintro ⟨rounds, shown, ended⟩ ⟨short, long, back⟩
    have inside : short + 1 ≤ top := long ▸ bounded short
    -- a width is one of the two, and the next one is the other
    have two (wide : Nat) (le : wide ≤ top) : width (kept wide) = short ∨ width (kept wide) = short + 1 := by
      have below := near wide le (short + 1) inside
      have above := near short (by omega) wide le
      omega
    have none : settle (fun shown => kept (width shown)) rounds start = none := by
      refine settle_none (fun shown => width shown ≤ top) first (fun shown _ => bounded _) (fun shown le fixed => ?_) rounds
      have same := congrArg width fixed
      rcases two (width shown) le with low | high
      · rw [low] at same
        rw [← same, long] at low
        omega
      · rw [high] at same
        rw [← same, back] at high
        omega
    rw [none] at ended
    cases ended
  · intro never
    by_contra endless
    push Not at endless
    have moves (rounds : Nat) (fixed : (fun shown => kept (width shown)) ((fun shown => kept (width shown))^[rounds] start) =
        (fun shown => kept (width shown))^[rounds] start) : False := by
      obtain ⟨shown, ended⟩ := settle_some (fun shown => kept (width shown)) fixed
      exact endless _ _ ended
    -- the widths of the first three numbers
    have one := moves 2
    have two := moves 3
    simp only [Function.iterate_succ_apply, Function.iterate_zero_apply] at one two
    have le₁ := bounded (width start)
    have le₂ := bounded (width (kept (width start)))
    have differ₁ : width (kept (width (kept (width start)))) ≠ width (kept (width start)) := fun same => one (by rw [same])
    have differ₂ : width (kept (width (kept (width (kept (width start)))))) ≠ width (kept (width (kept (width start)))) :=
      fun same => two (by rw [same])
    have near₁ := near _ le₁ _ first
    have near₂ := near _ first _ le₁
    have near₃ := near _ le₂ _ le₁
    have near₄ := near _ le₁ _ le₂
    have near₅ := near _ le₂ _ first
    have near₆ := near _ first _ le₂
    generalize width (kept (width start)) = a at *
    generalize second : width (kept a) = b at *
    generalize third : width (kept b) = c at *
    have returned : c = a := by omega
    subst returned
    rcases Nat.lt_or_ge c b with up | down
    · exact never ⟨c, by omega, by rw [show c + 1 = b by omega, third]⟩
    · exact never ⟨b, by omega, by rw [show b + 1 = c by omega, second]⟩

/-! ### Loops that go back and forth -/

/-- How far two numbers are apart. -/
def gap (first second : Nat) : Nat := first - second + (second - first)

/-- The number after `shown` is between it and the number before. -/
structure Swings (next : Nat → Nat) (previous shown : Nat) : Prop where
  came : next previous = shown
  between : previous ≤ next shown ∧ next shown ≤ shown ∨ shown ≤ next shown ∧ next shown ≤ previous

namespace Swings

variable {previous shown : Nat}

theorem begins (anti : ∀ {shown other : Nat}, shown ≤ other → next other ≤ next shown) (bounded : ∀ shown, next shown ≤ top) :
    Swings next top (next top) :=
  ⟨rfl, .inr ⟨anti (bounded top), bounded _⟩⟩

theorem step (swings : Swings next previous shown) (anti : ∀ {shown other : Nat}, shown ≤ other → next other ≤ next shown) :
    Swings next shown (next shown) := by
  refine ⟨rfl, ?_⟩
  rcases swings.between with ⟨low, high⟩ | ⟨low, high⟩
  · exact .inr ⟨anti high, Nat.le_trans (anti low) (Nat.le_of_eq swings.came)⟩
  · exact .inl ⟨Nat.le_trans (Nat.le_of_eq swings.came.symm) (anti high), anti low⟩

theorem closer (swings : Swings next previous shown) (new : next shown ≠ previous) :
    gap shown (next shown) < gap previous shown := by
  have between := swings.between
  unfold gap
  omega

end Swings

/-! ### Decimal digits -/

/-- The number of digits that a number is written with. -/
def digits (number : Nat) : Nat := (Nat.repr number).length

theorem digits_pos (number : Nat) : 0 < digits number := Nat.length_repr_pos

theorem digits_le_iff {number count : Nat} (some : 0 < count) : digits number ≤ count ↔ number < 10 ^ count :=
  Nat.length_repr_le_iff some

theorem lt_digits_iff {number count : Nat} (some : 0 < count) : count < digits number ↔ 10 ^ count ≤ number := by
  rw [← Nat.not_le, digits_le_iff some, Nat.not_lt]

theorem digits_mono {number other : Nat} (le : number ≤ other) : digits number ≤ digits other := by
  rw [digits_le_iff (digits_pos other)]
  exact Nat.lt_of_le_of_lt le ((digits_le_iff (digits_pos other)).mp (Nat.le_refl _))

theorem digits_near {number other : Nat} (close : number ≤ other + 90) : digits number ≤ digits other + 1 := by
  rw [digits_le_iff (Nat.succ_pos _)]
  have short := (digits_le_iff (digits_pos other)).mp (Nat.le_refl _)
  have ten : 10 ≤ 10 ^ digits other := Nat.le_self_pow (Nat.ne_of_gt (digits_pos other)) 10
  rw [Nat.pow_succ]
  omega

theorem digits_add_le {number gap : Nat} (large : 2 * gap + 2 ≤ number) : digits number + gap ≤ number := by
  have few : digits number ≤ number - gap := by
    rw [digits_le_iff (by omega)]
    calc
      number < 2 * (number - gap) := by omega
      _ ≤ 2 ^ (number - gap) * 5 ^ (number - gap) := by
        have two : number - gap ≤ 2 ^ (number - gap) := Nat.le_of_lt Nat.lt_two_pow_self
        have five : 5 ≤ 5 ^ (number - gap) := Nat.le_self_pow (by omega) 5
        have product := Nat.mul_le_mul two five
        omega
      _ = 10 ^ (number - gap) := by rw [← Nat.mul_pow]
  omega

end Byok.Library.Settle
