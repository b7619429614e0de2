/-
**Spans of offsets.**

A span is a range of offsets, and a list of spans is `Within` two offsets when its spans lie between them one after the
other. Neighbours are merged from the left for as long as the result is not over a size.

* `Within.append` — lists of spans one after the other.
* `merge_within`, `merge_holds`, `merge_long` — merging keeps the order and every offset, and makes nothing long.
-/

import Mathlib.Data.List.Basic
import Mathlib.Tactic.Common

namespace Byok.Library

open List

/-- The offsets from `start` up to `stop`. -/
structure Span where
  start : Nat
  stop : Nat
deriving DecidableEq, Repr

namespace Span

/-- The number of offsets. -/
def size (span : Span) : Nat := span.stop - span.start

/-- The offset is in the span. -/
def Holds (span : Span) (offset : Nat) : Prop := span.start ≤ offset ∧ offset < span.stop

/-- The offset is in one of the spans. -/
def Covers (spans : List Span) (offset : Nat) : Prop := ∃ span ∈ spans, span.Holds offset

/-- The spans lie between two offsets, one after the other. -/
def Within : Nat → List Span → Nat → Prop
  | low, [], high => low ≤ high
  | low, span :: rest, high => low ≤ span.start ∧ span.start ≤ span.stop ∧ Within span.stop rest high

/-- Neighbours are merged while the span that comes out has at most so many offsets. -/
def merge (desired : Nat) : Span → List Span → List Span
  | current, [] => [current]
  | current, next :: rest =>
    if next.stop - current.start ≤ desired then merge desired ⟨current.start, next.stop⟩ rest
    else current :: merge desired next rest

section Laws

variable {low middle high offset desired : Nat} {spans : List Span}

/-! ### Order -/

theorem Within.le (within : Within low spans high) : low ≤ high := by
  induction spans generalizing low with
  | nil => exact within
  | cons span rest ih =>
    have behind := ih within.2.2
    have front := within.1
    have proper := within.2.1
    omega

theorem Within.widen {low' high' : Nat} (within : Within low spans high) (front : low' ≤ low) (back : high ≤ high') :
    Within low' spans high' := by
  induction spans generalizing low low' with
  | nil => exact Nat.le_trans front (Nat.le_trans within back)
  | cons span rest ih => exact ⟨Nat.le_trans front within.1, within.2.1, ih within.2.2 (Nat.le_refl _)⟩

theorem Within.append {more : List Span} (first : Within low spans middle) (second : Within middle more high) :
    Within low (spans ++ more) high := by
  induction spans generalizing low with
  | nil => exact second.widen first (Nat.le_refl _)
  | cons span rest ih => exact ⟨first.1, first.2.1, ih first.2.2⟩

theorem Within.inside (within : Within low spans high) {span : Span} (listed : span ∈ spans) :
    low ≤ span.start ∧ span.start ≤ span.stop ∧ span.stop ≤ high := by
  induction spans generalizing low with
  | nil => cases listed
  | cons first rest ih =>
    rcases mem_cons.mp listed with rfl | listed
    · exact ⟨within.1, within.2.1, within.2.2.le⟩
    · obtain ⟨front, proper, back⟩ := ih within.2.2 listed
      have begins := within.1
      have first_proper := within.2.1
      exact ⟨by omega, proper, back⟩

theorem Within.pairwise (within : Within low spans high) : spans.Pairwise fun first second => first.stop ≤ second.start := by
  induction spans generalizing low with
  | nil => exact .nil
  | cons span rest ih =>
    refine .cons (fun second listed => ?_) (ih within.2.2)
    exact (within.2.2.inside listed).1

theorem covers_cons {span : Span} : Covers (span :: spans) offset ↔ span.Holds offset ∨ Covers spans offset := by
  simp [Covers]

theorem covers_append {more : List Span} : Covers (spans ++ more) offset ↔ Covers spans offset ∨ Covers more offset := by
  simp [Covers, or_and_right, exists_or]

/-! ### Merging -/

variable {current : Span}

theorem merge_within (within : Within low (current :: spans) high) : Within low (merge desired current spans) high := by
  induction spans generalizing low current with
  | nil => exact within
  | cons next rest ih =>
    obtain ⟨front, proper, between, next_proper, behind⟩ := within
    unfold merge
    split
    · refine ih ⟨front, ?_, behind⟩
      show current.start ≤ next.stop
      omega
    · exact ⟨front, proper, ih ⟨between, next_proper, behind⟩⟩

theorem merge_holds (within : Within low (current :: spans) high) (covered : Covers (current :: spans) offset) :
    Covers (merge desired current spans) offset := by
  induction spans generalizing low current with
  | nil => exact covered
  | cons next rest ih =>
    obtain ⟨front, proper, between, next_proper, behind⟩ := within
    rw [covers_cons, covers_cons] at covered
    unfold merge
    split
    · have merged : Within low (⟨current.start, next.stop⟩ :: rest) high := by
        refine ⟨front, ?_, behind⟩
        show current.start ≤ next.stop
        omega
      refine ih merged (covers_cons.mpr ?_)
      rcases covered with ⟨first, last⟩ | ⟨first, last⟩ | later
      · exact .inl ⟨first, show offset < next.stop by omega⟩
      · exact .inl ⟨show current.start ≤ offset by omega, last⟩
      · exact .inr later
    · rw [covers_cons]
      rcases covered with here | later
      · exact .inl here
      · exact .inr (ih ⟨between, next_proper, behind⟩ (covers_cons.mpr later))

theorem merge_long {span : Span} (listed : span ∈ merge desired current spans) (long : desired < span.size) :
    span ∈ current :: spans := by
  induction spans generalizing current with
  | nil => exact listed
  | cons next rest ih =>
    unfold merge at listed
    split at listed
    · rename_i short
      rcases mem_cons.mp (ih listed) with rfl | later
      · exact absurd long (Nat.not_lt.mpr short)
      · exact mem_cons_of_mem _ (mem_cons_of_mem _ later)
    · rcases mem_cons.mp listed with rfl | later
      · exact mem_cons_self
      · exact mem_cons_of_mem _ (ih later)

theorem merge_ends {good : Nat → Prop} (ends : ∀ span ∈ current :: spans, good span.start ∧ good span.stop) :
    ∀ span ∈ merge desired current spans, good span.start ∧ good span.stop := by
  induction spans generalizing current with
  | nil => exact ends
  | cons next rest ih =>
    have first := ends current mem_cons_self
    have second := ends next (mem_cons_of_mem _ mem_cons_self)
    have later : ∀ span ∈ rest, good span.start ∧ good span.stop := fun span listed =>
      ends span (mem_cons_of_mem _ (mem_cons_of_mem _ listed))
    unfold merge
    split
    · exact ih (forall_mem_cons.mpr ⟨⟨first.1, second.2⟩, later⟩)
    · exact forall_mem_cons.mpr ⟨first, ih (forall_mem_cons.mpr ⟨second, later⟩)⟩

end Laws

end Span

end Byok.Library
