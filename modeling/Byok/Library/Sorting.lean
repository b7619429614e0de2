/-
**Sorted lists.**

* `mem_takeWhile_least` — the front of a list that is sorted by a key are its elements with the least key.
* `pairwise_sortDedup` — a list that is sorted and freed of neighbours that repeat is in strict order.
-/

import Byok.Library.Turns
import Mathlib.Data.List.Basic
import Mathlib.Data.List.Chain
import Mathlib.Data.List.TakeWhile

namespace Byok.Library

open List

/-! ### The front -/

section Front

variable {α : Type} {key : α → Nat} {element : α} {list : List α}

theorem mem_takeWhile_least {least : Nat} (ascends : list.Pairwise fun first second => key first ≤ key second)
    (bounded : ∀ other ∈ list, least ≤ key other) :
    element ∈ list.takeWhile (fun other => key other == least) ↔ element ∈ list ∧ key element = least := by
  constructor
  · exact fun front => ⟨(List.takeWhile_prefix _).subset front, by simpa using mem_takeWhile_imp front⟩
  · rintro ⟨listed, same⟩
    induction list with
    | nil => cases listed
    | cons first list ih =>
      obtain ⟨before, ascends⟩ := pairwise_cons.mp ascends
      -- whatever stands before it has no greater key
      have head : key first = least := by
        refine Nat.le_antisymm ?_ (bounded first mem_cons_self)
        rcases mem_cons.mp listed with rfl | listed
        · exact same.le
        · exact same ▸ before element listed
      rw [takeWhile_cons, if_pos (by simpa using head)]
      rcases mem_cons.mp listed with rfl | listed
      · exact mem_cons_self
      · have rest (other : α) (there : other ∈ list) : least ≤ key other := bounded other (mem_cons_of_mem _ there)
        exact mem_cons_of_mem _ (ih ascends rest listed)

end Front

/-! ### Sorting without repetition -/

section Distinct

variable {α : Type} [Ord α] [DecidableEq α] {element : α}

/-- `sort` and `dedup`. -/
def sortDedup (list : List α) : List α :=
  Turns.dedupByKey id (list.mergeSort fun first second => (compare first second).isLE)

theorem mem_sortDedup {list : List α} : element ∈ sortDedup list ↔ element ∈ list := by
  have turns := @Turns.mem_dedupByKey α α _ id (list.mergeSort fun first second => (compare first second).isLE) element
  rw [map_id] at turns
  rw [sortDedup, turns]
  simp only [mem_mergeSort, id_eq, exists_eq_right]

/-- **Sorted and freed of neighbours that repeat, a list is in strict order.** -/
theorem pairwise_sortDedup [Std.TransOrd α] [Std.LawfulEqOrd α] (list : List α) :
    (sortDedup list).Pairwise fun first second => compare first second = .lt := by
  have sorted : (list.mergeSort fun first second => (compare first second).isLE).Pairwise
      fun first second => (compare first second).isLE :=
    pairwise_mergeSort (fun _ _ _ => Std.TransCmp.isLE_trans) (fun first second => by
      cases order : compare first second
      · rfl
      · rfl
      · rw [Std.OrientedCmp.lt_of_gt order]
        rfl) list
  have steps : (sortDedup list).IsChain fun first second => compare first second = .lt := by
    have apart : (sortDedup list).IsChain fun first second => id first ≠ id second := isChain_destutter _ _
    have ascends : (sortDedup list).IsChain fun first second => (compare first second).isLE :=
      (sorted.sublist (@Turns.sublist_dedupByKey α α _ id _)).isChain
    rw [isChain_iff_getElem] at apart ascends ⊢
    intro index inside
    have upTo := ascends index inside
    cases order : compare (sortDedup list)[index] (sortDedup list)[index + 1]
    · rfl
    · exact absurd (Std.LawfulEqCmp.eq_of_compare order) (apart index inside)
    · rw [order] at upTo
      cases upTo
  have trans : IsTrans α fun first second => compare first second = .lt := ⟨fun _ _ _ => Std.TransCmp.lt_trans⟩
  exact isChain_iff_pairwise.mp steps

theorem sortDedup_single [Std.TransOrd α] [Std.LawfulEqOrd α] {list : List α} (listed : element ∈ list)
    (only : ∀ other ∈ list, other = element) : sortDedup list = [element] := by
  have strict := pairwise_sortDedup list
  have here := mem_sortDedup.mpr listed
  have same : ∀ other ∈ sortDedup list, other = element := fun other there => only other (mem_sortDedup.mp there)
  cases left : sortDedup list with
  | nil =>
    rw [left] at here
    cases here
  | cons first rest =>
    rw [left] at strict same
    obtain rfl := same first mem_cons_self
    cases rest with
    | nil => rfl
    | cons second rest =>
      have before := (pairwise_cons.mp strict).1 second mem_cons_self
      rw [same second (mem_cons_of_mem _ mem_cons_self), Std.ReflOrd.compare_self] at before
      cases before

theorem one_lt_length_sortDedup {list : List α} {other : α} (listed : element ∈ list) (listed' : other ∈ list)
    (different : element ≠ other) : 1 < (sortDedup list).length := by
  have here := mem_sortDedup.mpr listed
  have there := mem_sortDedup.mpr listed'
  cases left : sortDedup list with
  | nil =>
    rw [left] at here
    cases here
  | cons first rest =>
    rw [left] at here there
    cases rest with
    | nil => exact absurd ((mem_singleton.mp here).trans (mem_singleton.mp there).symm) different
    | cons second rest => exact Nat.succ_lt_succ (Nat.succ_pos _)

end Distinct

end Byok.Library
