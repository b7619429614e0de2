/-
**Neighbours of one key.**

Groups of items, each under a key, where a group that has the key of the last one is added to it
(`push`). From the end of the list it is the same as from its start (`foldl_push`): neighbours then
have different keys (`collect_chain`), and all items are there, in their order (`keyed_collect`).
-/

import Mathlib.Data.List.Chain
import Mathlib.Data.List.Induction
import Mathlib.Tactic.Common

namespace Byok.Library

open List

/-- Items under a key. -/
structure Group (κ α : Type) where
  key : κ
  items : List α
deriving DecidableEq, Repr

namespace Group

variable {κ α : Type}

/-- A group with other items. -/
def map {β : Type} (f : α → β) (group : Group κ α) : Group κ β := ⟨group.key, group.items.map f⟩

@[simp] theorem map_key {β : Type} (f : α → β) (group : Group κ α) : (group.map f).key = group.key := rfl

@[simp] theorem map_items {β : Type} (f : α → β) (group : Group κ α) : (group.map f).items = group.items.map f := rfl

theorem flatMap_map_items {β : Type} (f : α → β) (groups : List (Group κ α)) :
    (groups.map (Group.map f)).flatMap items = (groups.flatMap items).map f := by
  induction groups with
  | nil => rfl
  | cons group groups ih => rw [map_cons, flatMap_cons, flatMap_cons, map_append, ih, map_items]

/-- The items, each with its key. -/
def keyed (group : Group κ α) : List (κ × α) := group.items.map (group.key, ·)

theorem flatMap_keyed (groups : List (Group κ α)) : (groups.flatMap keyed).map Prod.snd = groups.flatMap items := by
  induction groups with
  | nil => rfl
  | cons group groups ih =>
    have own : group.keyed.map Prod.snd = group.items := by simp [keyed, Function.comp_def]
    rw [flatMap_cons, flatMap_cons, map_append, ih, own]

theorem keyed_map {β : Type} (f : α → β) (groups : List (Group κ α)) :
    (groups.map (Group.map f)).flatMap keyed = (groups.flatMap keyed).map fun item => (item.1, f item.2) := by
  induction groups with
  | nil => rfl
  | cons group groups ih =>
    have own : (group.map f).keyed = group.keyed.map fun item => (item.1, f item.2) := by
      simp [keyed, Function.comp_def]
    rw [map_cons, flatMap_cons, flatMap_cons, map_append, ih, own]

variable [DecidableEq κ]

/-- One more group at the end. -/
def push (groups : List (Group κ α)) (group : Group κ α) : List (Group κ α) :=
  match groups.getLast? with
  | some last =>
    if last.key = group.key then groups.dropLast ++ [⟨last.key, last.items ++ group.items⟩]
    else groups ++ [group]
  | none => groups ++ [group]

/-- One more group at the start. -/
def prepend (group : Group κ α) : List (Group κ α) → List (Group κ α)
  | [] => [group]
  | next :: groups =>
    if group.key = next.key then ⟨group.key, group.items ++ next.items⟩ :: groups
    else group :: next :: groups

/-- The groups of a list, neighbours of one key joined. -/
def collect (groups : List (Group κ α)) : List (Group κ α) := groups.foldr prepend []

@[simp] theorem collect_nil : collect ([] : List (Group κ α)) = [] := rfl

@[simp] theorem collect_cons (group : Group κ α) (groups : List (Group κ α)) :
    collect (group :: groups) = prepend group (collect groups) := rfl

theorem push_concat (groups : List (Group κ α)) (last group : Group κ α) :
    push (groups ++ [last]) group =
      if last.key = group.key then groups ++ [⟨last.key, last.items ++ group.items⟩]
      else groups ++ [last] ++ [group] := by
  rw [push, getLast?_concat, dropLast_concat]

theorem flatMap_push (groups : List (Group κ α)) (group : Group κ α) :
    (push groups group).flatMap items = groups.flatMap items ++ group.items := by
  rcases eq_nil_or_concat' groups with rfl | ⟨front, last, rfl⟩
  · show List.flatMap items [group] = _
    simp
  · rw [push_concat]
    split <;> simp

theorem forall_push {P : κ → α → Prop} {groups : List (Group κ α)} {group : Group κ α}
    (all : ∀ other ∈ groups, ∀ item ∈ other.items, P other.key item) (more : ∀ item ∈ group.items, P group.key item) :
    ∀ other ∈ push groups group, ∀ item ∈ other.items, P other.key item := by
  rcases eq_nil_or_concat' groups with rfl | ⟨front, last, rfl⟩
  · exact forall_mem_singleton.mpr more
  · rw [push_concat]
    split
    · rename_i same
      obtain ⟨before, own⟩ := forall_mem_append.mp all
      refine forall_mem_append.mpr ⟨before, forall_mem_singleton.mpr (forall_mem_append.mpr ⟨?_, ?_⟩)⟩
      · exact own last mem_cons_self
      · rw [same]
        exact more
    · exact forall_mem_append.mpr ⟨all, forall_mem_singleton.mpr more⟩

theorem push_prepend (group last : Group κ α) (groups : List (Group κ α)) :
    push (prepend group groups) last = prepend group (push groups last) := by
  rcases eq_nil_or_concat' groups with rfl | ⟨front, final, rfl⟩
  · show push ([] ++ [group]) last = prepend group [last]
    rw [push_concat, prepend]
    by_cases same : group.key = last.key
    · rw [if_pos same, if_pos same]
      rfl
    · rw [if_neg same, if_neg same]
      rfl
  · cases front with
    | nil =>
      show push (prepend group [final]) last = prepend group (push ([] ++ [final]) last)
      rw [push_concat, prepend]
      by_cases first : group.key = final.key
      · rw [if_pos first]
        show push ([] ++ [_]) last = _
        rw [push_concat]
        by_cases second : final.key = last.key
        · rw [if_pos second, if_pos (first.trans second)]
          show _ = prepend group [_]
          rw [prepend, if_pos first, append_assoc]
          rfl
        · rw [if_neg second, if_neg fun same => second (first.symm.trans same)]
          show _ = prepend group [final, last]
          rw [prepend, if_pos first]
          rfl
      · rw [if_neg first]
        show push ([group] ++ [final]) last = _
        rw [push_concat]
        by_cases second : final.key = last.key
        · rw [if_pos second, if_pos second]
          show _ = prepend group [_]
          rw [prepend, if_neg first]
          rfl
        · rw [if_neg second, if_neg second]
          show _ = prepend group [final, last]
          rw [prepend, if_neg first]
          rfl
    | cons next front =>
      have grown : ∀ tail : List (Group κ α), prepend group (next :: (front ++ tail)) =
          (if group.key = next.key then [⟨group.key, group.items ++ next.items⟩] else [group, next]) ++
            (front ++ tail) := fun tail => by
        rw [prepend]
        split <;> rfl
      rw [cons_append, grown, ← append_assoc, push_concat]
      have behind : push (next :: (front ++ [final])) last =
          next :: (front ++ if final.key = last.key then [⟨final.key, final.items ++ last.items⟩]
            else [final, last]) := by
        rw [← cons_append, push_concat]
        split <;> simp
      rw [behind, grown]
      split <;> simp

/-- **From the end it is the same as from the start.** -/
theorem foldl_push (groups : List (Group κ α)) : groups.foldl push [] = collect groups := by
  induction groups using List.reverseRecOn with
  | nil => rfl
  | append_singleton groups group ih =>
    rw [foldl_append, ih, foldl_cons, foldl_nil]
    clear ih
    induction groups with
    | nil => rfl
    | cons first groups ih => rw [cons_append, collect_cons, collect_cons, push_prepend, ih]

theorem collect_map {β : Type} (f : α → β) (groups : List (Group κ α)) :
    collect (groups.map (Group.map f)) = (collect groups).map (Group.map f) := by
  have one (group : Group κ α) (groups : List (Group κ α)) :
      prepend (group.map f) (groups.map (Group.map f)) = (prepend group groups).map (Group.map f) := by
    cases groups with
    | nil => rfl
    | cons next groups =>
      rw [map_cons, prepend, prepend]
      split
      · rename_i same
        rw [if_pos (show group.key = next.key from same), map_cons]
        simp [map]
      · rename_i apart
        rw [if_neg (show ¬ group.key = next.key from apart)]
        rfl
  induction groups with
  | nil => rfl
  | cons group groups ih => rw [map_cons, collect_cons, collect_cons, ih, one]

/-- **Neighbours have different keys.** -/
theorem collect_chain (groups : List (Group κ α)) :
    (collect groups).IsChain fun first second => first.key ≠ second.key := by
  induction groups with
  | nil => exact isChain_nil
  | cons group groups ih =>
    rw [collect_cons]
    cases known : collect groups with
    | nil => exact isChain_singleton _
    | cons next rest =>
      rw [known] at ih
      rw [prepend]
      by_cases same : group.key = next.key
      · rw [if_pos same]
        rw [isChain_cons] at ih ⊢
        refine ⟨fun other member => ?_, ih.2⟩
        show group.key ≠ other.key
        rw [same]
        exact ih.1 other member
      · rw [if_neg same, isChain_cons]
        refine ⟨fun other member => ?_, ih⟩
        obtain rfl := Option.some.inj member
        exact same

/-- **All items are there, under their keys and in their order.** -/
theorem keyed_collect (groups : List (Group κ α)) : (collect groups).flatMap keyed = groups.flatMap keyed := by
  have one : ∀ (group : Group κ α) (groups : List (Group κ α)),
      (prepend group groups).flatMap keyed = group.keyed ++ groups.flatMap keyed := by
    intro group groups
    cases groups with
    | nil => rfl
    | cons next groups =>
      rw [prepend]
      split
      · rename_i same
        simp [keyed, same]
      · rfl
  induction groups with
  | nil => rfl
  | cons group groups ih => rw [collect_cons, one, ih, flatMap_cons]

theorem flatMap_collect (groups : List (Group κ α)) : (collect groups).flatMap items = groups.flatMap items := by
  rw [← flatMap_keyed, keyed_collect, flatMap_keyed]

theorem collect_items_ne_nil {groups : List (Group κ α)} (full : ∀ group ∈ groups, group.items ≠ []) :
    ∀ group ∈ collect groups, group.items ≠ [] := by
  induction groups with
  | nil => simp
  | cons group groups ih =>
    have here := full group mem_cons_self
    have rest := ih fun other member => full other (mem_cons_of_mem _ member)
    rw [collect_cons]
    cases known : collect groups with
    | nil =>
      intro other member
      rw [mem_singleton.mp member]
      exact here
    | cons next others =>
      rw [known] at rest
      rw [prepend]
      split
      · intro other member
        rcases mem_cons.mp member with rfl | member
        · exact fun nil => here (append_eq_nil_iff.mp nil).1
        · exact rest other (mem_cons_of_mem _ member)
      · intro other member
        rcases mem_cons.mp member with rfl | member
        · exact here
        · exact rest other member

end Group

end Byok.Library
