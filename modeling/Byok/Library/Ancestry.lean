/-
**Nodes with parents, in the order they were made.**

A list of nodes that only grows at its end: every node has its own key, and its parent, when it has
one, was there before it (`Grown`). The path from the root to a node (`ancestry`) is found by
following parents, with the number of nodes as the bound on its length.

* `ancestry_eq` — the path of a node is the path of its parent and the node.
* `ancestry_append` — the path of a node is the same in every later list.
* `ancestry_filter` — and the same where nodes are kept with their parents.
-/

import Mathlib.Data.List.Induction
import Mathlib.Tactic.Common

namespace Byok.Library

open List

section Ancestry

variable {κ ν : Type} [DecidableEq κ] (key : ν → κ) (parent : ν → Option κ)

/-- A list of nodes built by adding nodes with a new key below nodes that are there. -/
inductive Grown : List ν → Prop
  | nil : Grown []
  | snoc {nodes : List ν} {node : ν} (grown : Grown nodes)
      (fresh : ∀ other ∈ nodes, key other ≠ key node)
      (below : ∀ above ∈ parent node, ∃ other ∈ nodes, key other = above) :
      Grown (nodes ++ [node])

/-- The node with a key. -/
def lookup (nodes : List ν) (wanted : κ) : Option ν := nodes.find? fun node => key node = wanted

/-- The path to a key, the root first, of at most `fuel` nodes. -/
def ancestry (nodes : List ν) : Nat → κ → List ν
  | 0, _ => []
  | fuel + 1, wanted =>
    match lookup key nodes wanted with
    | none => []
    | some node =>
      (match parent node with
        | none => []
        | some above => ancestry nodes fuel above) ++ [node]

variable {key parent}

theorem lookup_eq_some {nodes : List ν} {wanted : κ} {node : ν}
    (found : lookup key nodes wanted = some node) : node ∈ nodes ∧ key node = wanted := by
  refine ⟨mem_of_find?_eq_some found, ?_⟩
  simpa using find?_some found

theorem lookup_isSome {nodes : List ν} {wanted : κ} :
    (∃ node, lookup key nodes wanted = some node) ↔ ∃ node ∈ nodes, key node = wanted := by
  constructor
  · rintro ⟨node, found⟩
    exact ⟨node, lookup_eq_some found⟩
  · rintro ⟨node, member, rfl⟩
    refine Option.isSome_iff_exists.mp (find?_isSome.mpr ⟨node, member, by simp⟩)

theorem lookup_append {nodes : List ν} {wanted : κ} {node : ν}
    (found : lookup key nodes wanted = some node) (more : List ν) :
    lookup key (nodes ++ more) wanted = some node := by
  rw [lookup, find?_append, ← lookup, found]
  rfl

namespace Grown

variable {nodes : List ν}

omit [DecidableEq κ] in
theorem prefix_left {front back : List ν} (grown : Grown key parent (front ++ back)) :
    Grown key parent front := by
  induction back using List.reverseRecOn with
  | nil => simpa using grown
  | append_singleton back node ih =>
    rw [← append_assoc] at grown
    generalize equal : front ++ back ++ [node] = whole at grown
    cases grown with
    | nil => simp at equal
    | snoc grown fresh below =>
      obtain ⟨rfl, -⟩ := append_inj' equal rfl
      exact ih grown

theorem lookup_member (grown : Grown key parent nodes) {node : ν} (member : node ∈ nodes) :
    lookup key nodes (key node) = some node := by
  induction grown with
  | nil => cases member
  | @snoc nodes last grown fresh below ih =>
    rcases mem_append.mp member with early | late
    · exact lookup_append (ih early) [last]
    · obtain rfl := mem_singleton.mp late
      have none : lookup key nodes (key node) = none := by
        refine find?_eq_none.mpr fun other old => ?_
        simpa using fresh other old
      rw [lookup, find?_append, ← lookup, none]
      simp

theorem key_injective (grown : Grown key parent nodes) {first second : ν} (mem : first ∈ nodes)
    (member : second ∈ nodes) (equal : key first = key second) : first = second := by
  have found := grown.lookup_member mem
  rw [equal, grown.lookup_member member] at found
  exact (Option.some.inj found).symm

omit [DecidableEq κ] in
theorem parent_member (grown : Grown key parent nodes) {node : ν} (member : node ∈ nodes) {above : κ}
    (linked : parent node = some above) : ∃ other ∈ nodes, key other = above := by
  induction grown with
  | nil => cases member
  | @snoc nodes last grown fresh below ih =>
    have old : ∃ other ∈ nodes, key other = above := by
      rcases mem_append.mp member with early | late
      · exact ih early
      · obtain rfl := mem_singleton.mp late
        exact below above linked
    obtain ⟨other, mem, equal⟩ := old
    exact ⟨other, mem_append_left _ mem, equal⟩

end Grown

theorem ancestry_append {nodes more : List ν} (grown : Grown key parent nodes) {wanted : κ}
    (known : ∃ node ∈ nodes, key node = wanted) (fuel : Nat) :
    ancestry key parent (nodes ++ more) fuel wanted = ancestry key parent nodes fuel wanted := by
  induction fuel generalizing wanted with
  | zero => rfl
  | succ fuel ih =>
    obtain ⟨node, found⟩ := lookup_isSome.mpr known
    simp only [ancestry, found, lookup_append found more]
    cases linked : parent node with
    | none => rfl
    | some above =>
      dsimp only
      rw [ih (grown.parent_member (lookup_eq_some found).1 linked)]

theorem ancestry_fuel {nodes : List ν} (grown : Grown key parent nodes) (wanted : κ) {fuel : Nat}
    (enough : nodes.length ≤ fuel) :
    ancestry key parent nodes fuel wanted = ancestry key parent nodes nodes.length wanted := by
  induction grown generalizing wanted fuel with
  | nil => cases fuel <;> rfl
  | @snoc nodes last grown fresh below ih =>
    rw [length_append, length_singleton] at enough ⊢
    obtain ⟨fuel, rfl⟩ := Nat.exists_eq_add_of_le' (Nat.le_of_add_left_le enough)
    by_cases known : ∃ node ∈ nodes, key node = wanted
    · rw [ancestry_append grown known, ancestry_append grown known,
        ih wanted (Nat.le_of_succ_le enough), ih wanted (Nat.le_succ _)]
    · -- the key is the last node's or nobody's; its parent is an earlier node
      rw [ancestry, ancestry]
      cases found : lookup key (nodes ++ [last]) wanted with
      | none => rfl
      | some node =>
        obtain ⟨member, named⟩ := lookup_eq_some found
        have late : node = last := by
          rcases mem_append.mp member with early | late
          · exact absurd ⟨node, early, named⟩ known
          · exact mem_singleton.mp late
        subst late
        dsimp only
        cases linked : parent node with
        | none => rfl
        | some above =>
          dsimp only
          rw [ancestry_append grown (below above linked), ancestry_append grown (below above linked),
            ih above (by omega)]

/-- **The path to a node is the path to its parent, and the node.** -/
theorem ancestry_eq {nodes : List ν} (grown : Grown key parent nodes) {node : ν}
    (member : node ∈ nodes) :
    ancestry key parent nodes nodes.length (key node) =
      (match parent node with
        | none => []
        | some above => ancestry key parent nodes nodes.length above) ++ [node] := by
  rw [← ancestry_fuel grown (key node) (Nat.le_succ _), ancestry, grown.lookup_member member]

/-- **The path to a node is the same in every later list.** -/
theorem ancestry_extend {nodes more : List ν} (grown : Grown key parent (nodes ++ more)) {wanted : κ}
    (known : ∃ node ∈ nodes, key node = wanted) :
    ancestry key parent (nodes ++ more) (nodes ++ more).length wanted =
      ancestry key parent nodes nodes.length wanted := by
  rw [ancestry_append grown.prefix_left known, ancestry_fuel grown.prefix_left]
  simp

/-- Nodes whose parents are kept with them. -/
def KeepsParents (key : ν → κ) (parent : ν → Option κ) (nodes : List ν) (kept : ν → Bool) : Prop :=
  ∀ node ∈ nodes, kept node = true → ∀ above ∈ parent node, ∀ other ∈ nodes, key other = above → kept other = true

omit [DecidableEq κ] in
theorem Grown.filter {nodes : List ν} {kept : ν → Bool} (grown : Grown key parent nodes)
    (closed : KeepsParents key parent nodes kept) : Grown key parent (nodes.filter kept) := by
  induction grown with
  | nil => exact .nil
  | @snoc nodes last grown fresh below ih =>
    have inner : KeepsParents key parent nodes kept := fun node member stays above linked other inside =>
      closed node (mem_append_left _ member) stays above linked other (mem_append_left _ inside)
    rw [filter_append]
    by_cases stays : kept last = true
    · rw [filter_cons_of_pos stays, filter_nil]
      refine (ih inner).snoc (fun other member => fresh other (mem_filter.mp member).1) fun above linked => ?_
      obtain ⟨other, member, named⟩ := below above linked
      have keeps := closed last (mem_append_right _ mem_cons_self) stays above linked other
        (mem_append_left _ member) named
      exact ⟨other, mem_filter.mpr ⟨member, keeps⟩, named⟩
    · rw [filter_cons_of_neg stays, filter_nil, append_nil]
      exact ih inner

/-- **The path to a node that is kept is kept.** -/
theorem ancestry_filter {nodes : List ν} {kept : ν → Bool} (grown : Grown key parent nodes)
    (closed : KeepsParents key parent nodes kept) {node : ν} (member : node ∈ nodes) (stays : kept node = true) :
    ancestry key parent (nodes.filter kept) (nodes.filter kept).length (key node) =
      ancestry key parent nodes nodes.length (key node) := by
  have general (fuel : Nat) (node : ν) (member : node ∈ nodes) (stays : kept node = true) :
      ancestry key parent (nodes.filter kept) fuel (key node) = ancestry key parent nodes fuel (key node) := by
    induction fuel generalizing node with
    | zero => rfl
    | succ fuel ih =>
      have found := (grown.filter closed).lookup_member (mem_filter.mpr ⟨member, stays⟩)
      simp only [ancestry, found, grown.lookup_member member]
      cases linked : parent node with
      | none => rfl
      | some above =>
        obtain ⟨other, inside, rfl⟩ := grown.parent_member member linked
        dsimp only
        rw [ih other inside (closed node member stays _ linked other inside rfl)]
  rw [← ancestry_fuel (grown.filter closed) (key node) (length_filter_le _ _), general _ node member stays]

theorem ancestry_subset {nodes : List ν} {fuel : Nat} {wanted : κ} {node : ν}
    (member : node ∈ ancestry key parent nodes fuel wanted) : node ∈ nodes := by
  induction fuel generalizing wanted with
  | zero => cases member
  | succ fuel ih =>
    rw [ancestry] at member
    split at member
    · cases member
    · rename_i last found
      rcases mem_append.mp member with early | late
      · split at early
        · cases early
        · exact ih early
      · rw [mem_singleton.mp late]
        exact (lookup_eq_some found).1

end Ancestry

end Byok.Library
