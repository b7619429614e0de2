/-
**What edges lead to.**

A queue of nodes is worked off: the children of the node in front that were not seen before are put
behind the others. What was seen in the end is what the edges lead to (`mem_walked_iff`). Nodes that
nothing kept leads to can be taken away with their edges, and the rest leads to the same
(`reaches_sweep_iff`).
-/

import Mathlib.Data.List.Dedup
import Mathlib.Data.List.Perm.Lattice
import Mathlib.Logic.Relation
import Mathlib.Tactic.Common

namespace Byok.Library.Reachable

open List

variable {Node : Type}

/-- There is an edge from the one to the other. -/
def Leads (edges : List (Node × Node)) (parent child : Node) : Prop := (parent, child) ∈ edges

/-- Some path of edges leads to the node from one of the roots. -/
def Reaches (edges : List (Node × Node)) (roots : List Node) (node : Node) : Prop :=
  ∃ root ∈ roots, Relation.ReflTransGen (Leads edges) root node

theorem Reaches.root {edges : List (Node × Node)} {roots : List Node} {node : Node} (listed : node ∈ roots) :
    Reaches edges roots node := ⟨node, listed, .refl⟩

theorem Reaches.tail {edges : List (Node × Node)} {roots : List Node} {parent child : Node}
    (reached : Reaches edges roots parent) (leads : (parent, child) ∈ edges) : Reaches edges roots child := by
  obtain ⟨root, listed, path⟩ := reached
  exact ⟨root, listed, path.tail leads⟩

theorem Reaches.mono {edges more : List (Node × Node)} {roots others : List Node} {node : Node}
    (reached : Reaches edges roots node) (subset : edges ⊆ more) (within : roots ⊆ others) :
    Reaches more others node := by
  obtain ⟨root, listed, path⟩ := reached
  exact ⟨root, within listed, Relation.ReflTransGen.mono (fun _ _ leads => subset leads) _ _ path⟩

/-! ### Walking -/

section Walk

variable [DecidableEq Node] (edges : List (Node × Node))

/-- The children of a node that were not seen before, each of them once. -/
def fresh (seen : List Node) (node : Node) : List Node :=
  ((edges.filter fun edge => edge.1 = node ∧ edge.2 ∉ seen).map Prod.snd).dedup

/-- How many edges lead to a node that was not seen. -/
def unseen (seen : List Node) : Nat := (edges.filter fun edge => edge.2 ∉ seen).length

variable {edges}

theorem mem_fresh_iff {seen : List Node} {node child : Node} :
    child ∈ fresh edges seen node ↔ (node, child) ∈ edges ∧ child ∉ seen := by
  simp only [fresh, mem_dedup, mem_map, mem_filter, decide_eq_true_eq]
  constructor
  · rintro ⟨⟨parent, _⟩, ⟨listed, rfl, unseen⟩, rfl⟩
    exact ⟨listed, unseen⟩
  · rintro ⟨listed, unseen⟩
    exact ⟨(node, child), ⟨listed, rfl, unseen⟩, rfl⟩

theorem unseen_fresh_lt {seen : List Node} {node : Node} (some : fresh edges seen node ≠ []) :
    unseen edges (seen ++ fresh edges seen node) < unseen edges seen := by
  obtain ⟨child, new⟩ := exists_mem_of_ne_nil _ some
  obtain ⟨listed, unseen⟩ := mem_fresh_iff.mp new
  have fewer : edges.filter (fun edge => edge.2 ∉ seen ++ fresh edges seen node) =
      (edges.filter fun edge => edge.2 ∉ seen).filter fun edge => edge.2 ∉ fresh edges seen node := by
    rw [filter_filter]
    refine filter_congr fun edge _ => ?_
    simp only [mem_append, not_or, Bool.decide_and, Bool.and_comm]
  rw [Reachable.unseen, Reachable.unseen, fewer]
  refine length_filter_lt_length_iff_exists.mpr ⟨(node, child), ?_, ?_⟩
  · simpa [mem_filter] using ⟨listed, unseen⟩
  · simpa using new

variable (edges)

/-- The nodes that were seen when the queue is worked off. -/
def walked (queue seen : List Node) : List Node :=
  match queue with
  | [] => seen
  | node :: queue => walked (queue ++ fresh edges seen node) (seen ++ fresh edges seen node)
termination_by (unseen edges seen, queue.length)
decreasing_by
  by_cases none : fresh edges seen node = []
  · simp only [none, append_nil, length_cons]
    exact .right _ (Nat.lt_succ_self _)
  · exact .left _ _ (unseen_fresh_lt none)

variable {edges} {queue seen : List Node}

theorem subset_walked : seen ⊆ walked edges queue seen := by
  induction queue, seen using walked.induct edges with
  | case1 seen =>
    rw [walked]
    exact List.Subset.refl _
  | case2 seen node queue ih =>
    rw [walked]
    exact List.Subset.trans (subset_append_left _ _) ih

theorem walked_reached {node : Node} (listed : node ∈ walked edges queue seen) :
    node ∈ seen ∨ Reaches edges queue node := by
  induction queue, seen using walked.induct edges with
  | case1 seen =>
    rw [walked] at listed
    exact .inl listed
  | case2 seen first queue ih =>
    rw [walked] at listed
    have child {other : Node} (new : other ∈ fresh edges seen first) : Reaches edges (first :: queue) other :=
      (Reaches.root mem_cons_self).tail (mem_fresh_iff.mp new).1
    rcases ih listed with before | ⟨root, queued, path⟩
    · exact (mem_append.mp before).imp_right child
    · right
      rcases mem_append.mp queued with old | new
      · exact ⟨root, mem_cons_of_mem _ old, path⟩
      · obtain ⟨start, listed, begun⟩ := child new
        exact ⟨start, listed, begun.trans path⟩

theorem walked_closed (worked : ∀ parent ∈ seen, parent ∉ queue → ∀ child, (parent, child) ∈ edges → child ∈ seen)
    {parent child : Node} (listed : parent ∈ walked edges queue seen) (leads : (parent, child) ∈ edges) :
    child ∈ walked edges queue seen := by
  induction queue, seen using walked.induct edges with
  | case1 seen =>
    rw [walked] at listed ⊢
    exact worked parent listed not_mem_nil child leads
  | case2 seen first queue ih =>
    rw [walked] at listed ⊢
    refine ih (fun parent before waiting child leads => ?_) listed
    obtain ⟨out, old⟩ := not_or.mp (mt mem_append.mpr waiting)
    have before := (mem_append.mp before).resolve_right old
    by_cases known : child ∈ seen
    · exact mem_append_left _ known
    · by_cases same : parent = first
      · exact mem_append_right _ (mem_fresh_iff.mpr ⟨same ▸ leads, known⟩)
      · exact absurd (worked parent before (by simp [same, out]) child leads) known

/-- **What is seen in the end is what the edges lead to.** -/
theorem mem_walked_iff {roots : List Node} {node : Node} :
    node ∈ walked edges roots roots ↔ Reaches edges roots node := by
  constructor
  · exact fun listed => (walked_reached listed).elim .root id
  · rintro ⟨root, listed, path⟩
    induction path with
    | refl => exact subset_walked listed
    | tail _ leads ih => exact walked_closed (fun _ seen waiting => absurd seen waiting) ih leads

end Walk

/-! ### Taking nodes away -/

section Sweep

variable {edges : List (Node × Node)} {roots : List Node} {kept : Node → Bool}

/-- The edges between the nodes that stay. -/
def sweep (kept : Node → Bool) (edges : List (Node × Node)) : List (Node × Node) :=
  edges.filter fun edge => kept edge.1 && kept edge.2

theorem mem_sweep_iff {parent child : Node} :
    (parent, child) ∈ sweep kept edges ↔ (parent, child) ∈ edges ∧ kept parent = true ∧ kept child = true := by
  simp [sweep, mem_filter]

/-- **What stays leads to the same**, where all that the roots lead to stays. -/
theorem reaches_sweep_iff (stays : ∀ node, Reaches edges roots node → kept node = true) {node : Node} :
    Reaches (sweep kept edges) roots node ↔ Reaches edges roots node := by
  constructor
  · exact fun reached => reached.mono (filter_subset_self _) (List.Subset.refl _)
  · rintro ⟨root, listed, path⟩
    refine ⟨root, listed, ?_⟩
    induction path with
    | refl => exact .refl
    | @tail parent child path leads ih =>
      have here : Reaches edges roots parent := ⟨root, listed, path⟩
      exact ih.tail (mem_sweep_iff.mpr ⟨leads, stays parent here, stays child (here.tail leads)⟩)

theorem length_filter_notMem [DecidableEq Node] {list taken : List Node} (distinct : list.Nodup) (once : taken.Nodup)
    (within : taken ⊆ list) : (list.filter (· ∉ taken)).length + taken.length = list.length := by
  have same : (list.filter (· ∈ taken)).Perm taken := by
    refine (perm_ext_iff_of_nodup (distinct.filter _) once).mpr fun node => ?_
    simp only [mem_filter, decide_eq_true_eq]
    exact ⟨And.right, fun listed => ⟨within listed, listed⟩⟩
  calc (list.filter (· ∉ taken)).length + taken.length
      = (list.filter (· ∈ taken)).length + (list.filter fun node => !decide (node ∈ taken)).length := by
        rw [same.length_eq, Nat.add_comm]
        simp only [decide_not]
    _ = list.length := (length_eq_length_filter_add _).symm

end Sweep

end Byok.Library.Reachable
