/-
**Pairs in a list.** `[a, b]` is a sublist where `a` stands before `b`.

* `pair_total` — of two elements one stands before the other, or they are the same.
* `pair_append`, `pair_flatMap` — where a pair of a longer list comes from.
* `pair_turned` — a pair in both orders says that one element is there twice.
* `splits_cons` — what holds of every element and of what is behind it.
-/

import Mathlib.Data.List.Basic
import Mathlib.Tactic.Common

namespace Byok.Library

open List

variable {α β : Type}

theorem pair_cons {a b c : α} {list : List α} :
    [a, b].Sublist (c :: list) ↔ [a, b].Sublist list ∨ (a = c ∧ b ∈ list) := by
  rw [sublist_cons_iff]
  refine or_congr_right ⟨?_, ?_⟩
  · rintro ⟨rest, equal, sub⟩
    obtain ⟨rfl, rfl⟩ := List.cons.inj equal
    exact ⟨rfl, singleton_sublist.mp sub⟩
  · rintro ⟨rfl, member⟩
    exact ⟨[b], rfl, singleton_sublist.mpr member⟩

theorem pair_left {a b : α} {list : List α} (pair : [a, b].Sublist list) : a ∈ list := pair.subset (by simp)

theorem pair_right {a b : α} {list : List α} (pair : [a, b].Sublist list) : b ∈ list := pair.subset (by simp)

theorem pair_total {a b : α} {list : List α} (first : a ∈ list) (second : b ∈ list) :
    a = b ∨ [a, b].Sublist list ∨ [b, a].Sublist list := by
  induction list with
  | nil => cases first
  | cons c list ih =>
    rw [pair_cons, pair_cons]
    rcases mem_cons.mp first with rfl | inside
    · rcases mem_cons.mp second with rfl | other
      · exact .inl rfl
      · exact .inr (.inl (.inr ⟨rfl, other⟩))
    · rcases mem_cons.mp second with rfl | other
      · exact .inr (.inr (.inr ⟨rfl, inside⟩))
      · rcases ih inside other with same | before | behind
        · exact .inl same
        · exact .inr (.inl (.inl before))
        · exact .inr (.inr (.inl behind))

theorem pair_append {a b : α} {first second : List α} :
    [a, b].Sublist (first ++ second) ↔
      [a, b].Sublist first ∨ [a, b].Sublist second ∨ (a ∈ first ∧ b ∈ second) := by
  induction first with
  | nil => simp
  | cons c first ih =>
    rw [cons_append, pair_cons, pair_cons, ih, mem_append, mem_cons]
    constructor
    · rintro ((inside | behind | ⟨left, right⟩) | ⟨rfl, here | there⟩)
      · exact .inl (.inl inside)
      · exact .inr (.inl behind)
      · exact .inr (.inr ⟨.inr left, right⟩)
      · exact .inl (.inr ⟨rfl, here⟩)
      · exact .inr (.inr ⟨.inl rfl, there⟩)
    · rintro ((inside | ⟨rfl, here⟩) | behind | ⟨rfl | left, right⟩)
      · exact .inl (.inl inside)
      · exact .inr ⟨rfl, .inl here⟩
      · exact .inl (.inr (.inl behind))
      · exact .inr ⟨rfl, .inr right⟩
      · exact .inl (.inr (.inr ⟨left, right⟩))

theorem pair_flatMap {f : α → List β} {a b : β} {list : List α} :
    [a, b].Sublist (list.flatMap f) ↔ (∃ x ∈ list, [a, b].Sublist (f x)) ∨
      ∃ x y, [x, y].Sublist list ∧ a ∈ f x ∧ b ∈ f y := by
  induction list with
  | nil => simp
  | cons c list ih =>
    rw [flatMap_cons, pair_append, ih]
    constructor
    · rintro (here | (⟨x, member, inside⟩ | ⟨x, y, pair, left, right⟩) | ⟨left, right⟩)
      · exact .inl ⟨c, mem_cons_self, here⟩
      · exact .inl ⟨x, mem_cons_of_mem _ member, inside⟩
      · exact .inr ⟨x, y, pair_cons.mpr (.inl pair), left, right⟩
      · obtain ⟨y, member, right⟩ := mem_flatMap.mp right
        exact .inr ⟨c, y, pair_cons.mpr (.inr ⟨rfl, member⟩), left, right⟩
    · rintro (⟨x, member, inside⟩ | ⟨x, y, pair, left, right⟩)
      · rcases mem_cons.mp member with rfl | member
        · exact .inl inside
        · exact .inr (.inl (.inl ⟨x, member, inside⟩))
      · rcases pair_cons.mp pair with pair | ⟨rfl, member⟩
        · exact .inr (.inl (.inr ⟨x, y, pair, left, right⟩))
        · exact .inr (.inr ⟨left, mem_flatMap.mpr ⟨y, member, right⟩⟩)

theorem pair_turned {a b : α} {list : List α} (pair : [a, b].Sublist list) (turned : [b, a].Sublist list) :
    [a, a].Sublist list ∨ [b, b].Sublist list := by
  induction list with
  | nil => cases pair
  | cons c list ih =>
    rw [pair_cons] at pair turned ⊢
    rw [pair_cons]
    rcases pair with pair | ⟨rfl, member⟩
    · rcases turned with turned | ⟨rfl, other⟩
      · exact (ih pair turned).imp .inl .inl
      · exact .inr (.inr ⟨rfl, pair_right pair⟩)
    · rcases turned with turned | ⟨rfl, other⟩
      · exact .inl (.inr ⟨rfl, pair_right turned⟩)
      · exact .inl (.inr ⟨rfl, other⟩)

theorem splits_cons {P : α → List α → Prop} {head : α} {list : List α} :
    (∀ before x after, head :: list = before ++ x :: after → P x after) ↔
      P head list ∧ ∀ before x after, list = before ++ x :: after → P x after := by
  constructor
  · intro all
    exact ⟨all [] head list rfl, fun before x after split => all (head :: before) x after (by rw [split]; rfl)⟩
  · rintro ⟨here, rest⟩ before x after split
    cases before with
    | nil =>
      obtain ⟨rfl, rfl⟩ := List.cons.inj split
      exact here
    | cons first before =>
      obtain ⟨rfl, tail⟩ := List.cons.inj split
      exact rest before x after tail

theorem exists_last {P : α → Prop} {list : List α} (found : ∃ x ∈ list, P x) :
    ∃ before x after, list = before ++ x :: after ∧ P x ∧ ∀ y ∈ after, ¬ P y := by
  induction list with
  | nil =>
    obtain ⟨x, member, -⟩ := found
    cases member
  | cons head list ih =>
    by_cases later : ∃ x ∈ list, P x
    · obtain ⟨before, x, after, rfl, holds, none⟩ := ih later
      exact ⟨head :: before, x, after, rfl, holds, none⟩
    · obtain ⟨x, member, holds⟩ := found
      rcases mem_cons.mp member with rfl | member
      · exact ⟨[], x, list, rfl, holds, fun y inside here => later ⟨y, inside, here⟩⟩
      · exact absurd ⟨x, member, holds⟩ later

end Byok.Library
