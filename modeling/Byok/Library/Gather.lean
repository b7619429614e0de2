/-
**What the values of a finite map, or the elements of a list, gather.**

* `gather` — the lists of all entries of a map, one behind the other. An entry that is taken out of the map, or put into
  it, takes its list along (`gather_of_lookup`, `gather_insert`), whatever the order of the entries.
* `of_set`, `exists_set_split` — the elements of a list in which one is replaced.
-/

import Mathlib.Data.List.AList

namespace Byok.Library

open List

variable {κ α β : Type} [DecidableEq κ]

/-- A finite map. -/
abbrev Table (κ α : Type) := AList fun _ : κ => α

/-- The lists of all entries. -/
def gather (list : κ → α → List β) (table : Table κ α) : List β :=
  table.entries.flatMap fun entry => list entry.1 entry.2

variable {table : Table κ α} {key : κ} {value : α}

theorem erase_of_lookup_none (missing : table.lookup key = none) : table.erase key = table :=
  AList.ext (kerase_of_notMem_keys (AList.lookup_eq_none.mp missing))

theorem gather_of_lookup (list : κ → α → List β) (found : table.lookup key = some value) :
    (gather list table).Perm (list key value ++ gather list (table.erase key)) := by
  have there : key ∈ table.entries.keys := AList.lookup_isSome.mp (by rw [found]; rfl)
  obtain ⟨other, before, behind, fresh, entries, erased⟩ := exists_of_kerase there
  obtain rfl : other = value := by
    have member : Sigma.mk key other ∈ table.entries := by
      rw [entries]
      exact mem_append_right _ mem_cons_self
    exact (Option.some.inj (found.symm.trans (AList.mem_lookup_iff.mpr member))).symm
  have rest : gather list (table.erase key) = before.flatMap (fun entry => list entry.1 entry.2) ++
      behind.flatMap fun entry => list entry.1 entry.2 := by
    have kept : (table.erase key).entries = before ++ behind := erased
    rw [gather, kept, flatMap_append]
  rw [rest, gather, entries, flatMap_append, flatMap_cons]
  exact perm_append_comm_assoc _ _ _

theorem gather_insert (list : κ → α → List β) :
    gather list (table.insert key value) = list key value ++ gather list (table.erase key) := by
  unfold gather
  rw [AList.entries_insert, flatMap_cons]
  rfl

theorem mem_gather {list : κ → α → List β} {x : β} :
    x ∈ gather list table ↔ ∃ key value, table.lookup key = some value ∧ x ∈ list key value := by
  unfold gather
  rw [mem_flatMap]
  constructor
  · rintro ⟨⟨key, value⟩, member, there⟩
    exact ⟨key, value, AList.mem_lookup_iff.mpr member, there⟩
  · rintro ⟨key, value, found, there⟩
    exact ⟨⟨key, value⟩, AList.mem_lookup_iff.mp found, there⟩

theorem of_set {elements : List α} {index place : Nat} {new other : α}
    (there : (elements.set index new)[place]? = some other) :
    (place = index ∧ other = new) ∨ place ≠ index ∧ elements[place]? = some other := by
  rw [getElem?_set] at there
  split at there
  case isTrue same =>
    split at there
    · exact .inl ⟨same.symm, (Option.some.inj there).symm⟩
    · cases there
  case isFalse other => exact .inr ⟨fun same => other same.symm, there⟩

theorem mem_modify {elements : List α} {index : Nat} {changed : α → α} {x : α}
    (there : x ∈ elements.modify index changed) : x ∈ elements ∨ ∃ old, elements[index]? = some old ∧ x = changed old := by
  obtain ⟨place, at_place⟩ := mem_iff_getElem?.mp there
  rw [getElem?_modify, Option.map_eq_map] at at_place
  obtain ⟨old, at_index, is⟩ := Option.map_eq_some_iff.mp at_place
  by_cases same : index = place
  · subst same
    rw [if_pos rfl] at is
    exact .inr ⟨old, at_index, is.symm⟩
  · rw [if_neg same] at is
    exact .inl (is ▸ mem_of_getElem? at_index)

theorem exists_set_split {elements : List α} {index : Nat} {old : α} (at_index : elements[index]? = some old) :
    ∃ before behind, elements = before ++ old :: behind ∧
      ∀ new, elements.set index new = before ++ new :: behind := by
  induction elements generalizing index with
  | nil => cases at_index
  | cons head elements ih =>
    cases index with
    | zero =>
      obtain rfl := Option.some.inj at_index
      exact ⟨[], elements, rfl, fun _ => rfl⟩
    | succ index =>
      obtain ⟨before, behind, is, sets⟩ := ih at_index
      refine ⟨head :: before, behind, by rw [is]; rfl, fun new => ?_⟩
      rw [set_cons_succ, sets]
      rfl

end Byok.Library
