/-
**Keys that take turns.**

A list whose items are in a strict order and have keys. Of neighbours of one key only the first stays
(`dedupByKey`), so a key is there as often as it takes a turn: as there is an item of it with none of the same key next to
it on the left.

* `dedupByKey_concat` — from the end of a list.
* `nodup_take_iff` — the first keys are different exactly when no key takes its turn again among the first turns.
* `nodup_take_sort_iff` — of a list after a stable sort, in terms of the list before it.
-/

import Mathlib.Data.List.Destutter
import Mathlib.Data.List.Count
import Mathlib.Data.List.Induction
import Mathlib.Order.Defs.Unbundled

set_option linter.unusedSectionVars false

namespace Byok.Library.Turns

open List

variable {α κ : Type} [DecidableEq κ] {key : α → κ} {before : α → α → Prop}

/-- Of neighbours of one key only the first stays. -/
def dedupByKey (key : α → κ) (items : List α) : List α := items.destutter fun first second => key first ≠ key second

/-! ### From the end -/

theorem destutter'_concat (first : α) (items : List α) (item : α) :
    (items ++ [item]).destutter' (fun first second => key first ≠ key second) first =
      items.destutter' (fun first second => key first ≠ key second) first ++
        if key ((first :: items).getLast (cons_ne_nil _ _)) = key item then [] else [item] := by
  induction items generalizing first with
  | nil =>
    rw [nil_append, destutter'_singleton, destutter'_nil, getLast_singleton]
    by_cases same : key first = key item
    · rw [if_neg (not_not.mpr same), if_pos same, append_nil]
    · rw [if_pos same, if_neg same]
      rfl
  | cons next items ih =>
    rw [cons_append, destutter'_cons, destutter'_cons, getLast_cons (cons_ne_nil _ _)]
    by_cases same : key first = key next
    · rw [if_neg (not_not.mpr same), if_neg (not_not.mpr same), ih first]
      cases items with
      | nil =>
        rw [getLast_singleton, getLast_singleton, same]
      | cons other items =>
        rw [getLast_cons (cons_ne_nil _ _), getLast_cons (cons_ne_nil _ _)]
    · rw [if_pos same, if_pos same, ih next, cons_append]

theorem dedupByKey_concat (items : List α) (item : α) :
    dedupByKey key (items ++ [item]) = dedupByKey key items ++
      if ∀ last ∈ items.getLast?, key last ≠ key item then [item] else [] := by
  cases items with
  | nil =>
    rw [if_pos fun _ none => by cases none]
    rfl
  | cons first items =>
    show (items ++ [item]).destutter' _ first = items.destutter' _ first ++ _
    rw [destutter'_concat, getLast?_eq_some_getLast (cons_ne_nil _ _)]
    by_cases same : key ((first :: items).getLast (cons_ne_nil _ _)) = key item
    · rw [if_pos same, if_neg]
      exact fun different => different _ rfl same
    · rw [if_neg same, if_pos]
      rintro last equal
      cases equal
      exact same

theorem mem_dedupByKey {items : List α} {name : κ} :
    name ∈ (dedupByKey key items).map key ↔ ∃ item ∈ items, key item = name := by
  induction items using List.reverseRecOn with
  | nil =>
    rw [dedupByKey, destutter_nil, map_nil]
    exact ⟨fun listed => absurd listed not_mem_nil, fun ⟨_, listed, _⟩ => absurd listed not_mem_nil⟩
  | append_singleton items item ih =>
    rw [dedupByKey_concat, map_append, mem_append, ih]
    constructor
    · rintro (⟨other, listed, same⟩ | here)
      · exact ⟨other, mem_append_left _ listed, same⟩
      · split at here
        · exact ⟨item, mem_append_right _ (mem_singleton_self _), (mem_singleton.mp here).symm⟩
        · cases here
    · rintro ⟨other, listed, same⟩
      rcases mem_append.mp listed with listed | listed
      · exact .inl ⟨other, listed, same⟩
      · cases mem_singleton.mp listed
        by_cases different : ∀ last ∈ items.getLast?, key last ≠ key item
        · rw [if_pos different]
          exact .inr (mem_singleton.mpr same.symm)
        · simp only [not_forall, not_not] at different
          obtain ⟨last, listed, equal⟩ := different
          exact .inl ⟨last, mem_of_getLast? listed, equal.trans same⟩

theorem sublist_dedupByKey (items : List α) : (dedupByKey key items).Sublist items := destutter_sublist _ _

theorem take_one_dedupByKey (items : List α) : (dedupByKey key items).take 1 = items.head?.toList := by
  induction items using List.reverseRecOn with
  | nil => rfl
  | append_singleton items item ih =>
    rw [dedupByKey_concat]
    cases items with
    | nil =>
      rw [if_pos fun _ none => by cases none]
      rfl
    | cons first items =>
      have long : 1 ≤ (dedupByKey key (first :: items)).length := by
        have one := congrArg List.length ih
        rw [length_take] at one
        exact one.symm.le.trans (Nat.min_le_right _ _)
      rw [take_append_of_le_length long, ih]
      rfl

/-! ### Turns -/

/-- An item with which its key takes a turn: between it and any earlier one of its key there is one of another key. -/
def Turn (key : α → κ) (before : α → α → Prop) (items : List α) (item : α) : Prop :=
  ∀ earlier ∈ items, before earlier item → key earlier = key item →
    ∃ between ∈ items, before earlier between ∧ before between item ∧ key between ≠ key item

/-- An item with which its key takes a turn again. -/
def Returns (key : α → κ) (before : α → α → Prop) (items : List α) (item : α) : Prop :=
  Turn key before items item ∧ ∃ earlier ∈ items, before earlier item ∧ key earlier = key item

open Classical in
/-- The number of turns before an item. -/
noncomputable def turnsBefore (key : α → κ) (before : α → α → Prop) (items : List α) (item : α) : Nat :=
  items.countP fun turn => decide (Turn key before items turn ∧ before turn item)

section Order

variable [IsStrictOrder α before] {items : List α} {item : α}

theorem before_last (ordered : (items ++ [item]).Pairwise before) : ∀ earlier ∈ items, before earlier item :=
  fun earlier listed => (pairwise_append.mp ordered).2.2 earlier listed item (mem_singleton_self _)

theorem turn_concat (ordered : (items ++ [item]).Pairwise before) {turn : α} (listed : turn ∈ items) :
    Turn key before (items ++ [item]) turn ↔ Turn key before items turn := by
  have later : ¬ before item turn := fun back => asymm_of before back (before_last ordered turn listed)
  constructor
  · intro takes earlier there first same
    obtain ⟨between, inside, front, back, different⟩ := takes earlier (mem_append_left _ there) first same
    rcases mem_append.mp inside with inside | inside
    · exact ⟨between, inside, front, back, different⟩
    · cases mem_singleton.mp inside
      exact absurd back later
  · intro takes earlier there first same
    rcases mem_append.mp there with there | there
    · obtain ⟨between, inside, rest⟩ := takes earlier there first same
      exact ⟨between, mem_append_left _ inside, rest⟩
    · cases mem_singleton.mp there
      exact absurd first later

theorem turn_last (ordered : (items ++ [item]).Pairwise before) :
    Turn key before (items ++ [item]) item ↔ ∀ last ∈ items.getLast?, key last ≠ key item := by
  constructor
  · intro takes last there same
    obtain ⟨front, rfl⟩ := getLast?_eq_some_iff.mp there
    have listed : last ∈ front ++ [last] := mem_append_right _ (mem_singleton_self _)
    obtain ⟨between, inside, after, back, different⟩ :=
      takes last (mem_append_left _ listed) (before_last ordered last listed) same
    rcases mem_append.mp inside with inside | inside
    · rcases mem_append.mp inside with inside | inside
      · have first := before_last (pairwise_append.mp ordered).1 between inside
        exact asymm_of before first after
      · cases mem_singleton.mp inside
        exact irrefl_of before last after
    · cases mem_singleton.mp inside
      exact irrefl_of before _ back
  · intro different earlier there first same
    rcases mem_append.mp there with there | there
    · rcases eq_nil_or_concat' items with rfl | ⟨front, last, rfl⟩
      · cases there
      · have other := different last getLast?_concat
        have listed : last ∈ front ++ [last] := mem_append_right _ (mem_singleton_self _)
        refine ⟨last, mem_append_left _ listed, ?_, before_last ordered last listed, other⟩
        rcases mem_append.mp there with there | there
        · exact before_last (pairwise_append.mp ordered).1 earlier there
        · cases mem_singleton.mp there
          exact absurd same other
    · cases mem_singleton.mp there
      exact absurd first (irrefl_of before _)

open Classical in
theorem length_dedupByKey (ordered : items.Pairwise before) :
    (dedupByKey key items).length = items.countP fun turn => decide (Turn key before items turn) := by
  induction items using List.reverseRecOn with
  | nil => rfl
  | append_singleton items item ih =>
    have first : items.Pairwise before := (pairwise_append.mp ordered).1
    have same : items.countP (fun turn => decide (Turn key before (items ++ [item]) turn)) =
        items.countP fun turn => decide (Turn key before items turn) := by
      refine countP_congr fun turn listed => ?_
      simp only [decide_eq_true_eq]
      exact turn_concat ordered listed
    rw [dedupByKey_concat, length_append, ih first, countP_append, same, countP_singleton]
    simp only [decide_eq_true_eq, turn_last ordered]
    split <;> rfl

theorem turnsBefore_concat (ordered : (items ++ [item]).Pairwise before) {turn : α} (listed : turn ∈ items) :
    turnsBefore key before (items ++ [item]) turn = turnsBefore key before items turn := by
  classical
  have later : ¬ before item turn := fun back => asymm_of before back (before_last ordered turn listed)
  unfold turnsBefore
  rw [countP_append, countP_singleton]
  simp only [later, and_false, decide_false, Bool.false_eq_true, if_false, Nat.add_zero]
  refine countP_congr fun other there => ?_
  simp only [decide_eq_true_eq, turn_concat ordered there]

theorem turnsBefore_last (ordered : (items ++ [item]).Pairwise before) :
    turnsBefore key before (items ++ [item]) item = (dedupByKey key items).length := by
  classical
  rw [length_dedupByKey (pairwise_append.mp ordered).1]
  unfold turnsBefore
  rw [countP_append, countP_singleton]
  simp only [irrefl_of before item, and_false, decide_false, Bool.false_eq_true, if_false, Nat.add_zero]
  refine countP_congr fun other there => ?_
  simp only [decide_eq_true_eq, turn_concat ordered there, before_last ordered other there, and_true]

/-- **The first keys are different** exactly when every key that takes a turn again does so behind the first turns. -/
theorem nodup_take_iff (ordered : items.Pairwise before) (limit : Nat) :
    (((dedupByKey key items).map key).take limit).Nodup ↔
      ∀ item ∈ items, Returns key before items item → limit ≤ turnsBefore key before items item := by
  induction items using List.reverseRecOn with
  | nil =>
    rw [dedupByKey, destutter_nil, map_nil, take_nil]
    exact iff_of_true .nil fun _ none => absurd none not_mem_nil
  | append_singleton items item ih =>
    have first : items.Pairwise before := (pairwise_append.mp ordered).1
    have returns : ∀ other ∈ items, (Returns key before (items ++ [item]) other ↔ Returns key before items other) := by
      intro other listed
      refine and_congr (turn_concat ordered listed) ⟨?_, ?_⟩
      · rintro ⟨earlier, there, front, same⟩
        rcases mem_append.mp there with there | there
        · exact ⟨earlier, there, front, same⟩
        · cases mem_singleton.mp there
          exact absurd front fun back => asymm_of before back (before_last ordered other listed)
      · rintro ⟨earlier, there, rest⟩
        exact ⟨earlier, mem_append_left _ there, rest⟩
    have again : Returns key before (items ++ [item]) item ↔
        (∀ last ∈ items.getLast?, key last ≠ key item) ∧ key item ∈ (dedupByKey key items).map key := by
      rw [mem_dedupByKey]
      refine and_congr (turn_last ordered) ⟨?_, ?_⟩
      · rintro ⟨earlier, there, front, same⟩
        rcases mem_append.mp there with there | there
        · exact ⟨earlier, there, same⟩
        · cases mem_singleton.mp there
          exact absurd front (irrefl_of before _)
      · rintro ⟨earlier, there, same⟩
        exact ⟨earlier, mem_append_left _ there, before_last ordered earlier there, same⟩
    have parts : (∀ other ∈ items ++ [item], Returns key before (items ++ [item]) other →
        limit ≤ turnsBefore key before (items ++ [item]) other) ↔
        (∀ other ∈ items, Returns key before items other → limit ≤ turnsBefore key before items other) ∧
          (Returns key before (items ++ [item]) item → limit ≤ (dedupByKey key items).length) := by
      rw [forall_mem_append, forall_mem_singleton, turnsBefore_last ordered]
      refine and_congr_left fun _ => forall₂_congr fun other listed => ?_
      rw [returns other listed, turnsBefore_concat ordered listed]
    rw [parts, again, ← ih first, dedupByKey_concat]
    by_cases different : ∀ last ∈ items.getLast?, key last ≠ key item
    · rw [if_pos different, map_append, map_singleton]
      by_cases short : limit ≤ (dedupByKey key items).length
      · rw [take_append_of_le_length (by rwa [length_map])]
        exact ⟨fun nodup => ⟨nodup, fun _ => short⟩, fun both => both.1⟩
      · have whole : ((dedupByKey key items).map key).length < limit := by
          rw [length_map]
          exact Nat.not_le.mp short
        rw [take_of_length_le (by rw [length_append, length_singleton]; omega),
          take_of_length_le (Nat.le_of_lt whole), nodup_append]
        constructor
        · rintro ⟨nodup, -, apart⟩
          refine ⟨nodup, fun returned => ?_⟩
          exact absurd rfl (apart _ returned.2 _ (mem_singleton_self _))
        · rintro ⟨nodup, late⟩
          refine ⟨nodup, nodup_singleton _, ?_⟩
          rintro name listed _ alone rfl
          cases mem_singleton.mp alone
          exact short (late ⟨different, listed⟩)
    · rw [if_neg different, append_nil]
      exact ⟨fun nodup => ⟨nodup, fun returned => absurd returned.1 different⟩, fun both => both.1⟩

end Order

/-! ### After a stable sort -/

section Stable

variable {le : α → α → Bool}

/-- The order of a stable sort, on items with their positions. -/
def Ranks (le : α → α → Bool) (first second : α × Nat) : Prop :=
  le first.1 second.1 ∧ (le second.1 first.1 → first.2 < second.2)

theorem ranks_order (trans : ∀ a b c, le a b → le b c → le a c) : IsStrictOrder (α × Nat) (Ranks le) where
  irrefl := fun item ranks => Nat.lt_irrefl _ (ranks.2 ranks.1)
  trans := by
    rintro first second third ⟨front, early⟩ ⟨back, late⟩
    refine ⟨trans _ _ _ front back, fun around => ?_⟩
    exact Nat.lt_trans (early (trans _ _ _ back around)) (late (trans _ _ _ around front))

theorem dedupByKey_map {β : Type} (f : β → α) (items : List β) :
    dedupByKey key (items.map f) = (dedupByKey (key ∘ f) items).map f := by
  induction items using List.reverseRecOn with
  | nil => rfl
  | append_singleton items item ih =>
    rw [map_append, map_singleton, dedupByKey_concat, dedupByKey_concat, ih, map_append, getLast?_map]
    have same : (∀ last ∈ items.getLast?.map f, key last ≠ key (f item)) ↔
        ∀ last ∈ items.getLast?, (key ∘ f) last ≠ (key ∘ f) item := by
      cases items.getLast? with
      | none => simp
      | some last => simp
    simp only [same]
    split <;> rfl

theorem turn_perm {items other : List α} (perm : items.Perm other) (item : α) :
    Turn key before items item ↔ Turn key before other item := by
  unfold Turn
  simp only [perm.mem_iff]

theorem returns_perm {items other : List α} (perm : items.Perm other) (item : α) :
    Returns key before items item ↔ Returns key before other item := by
  unfold Returns
  rw [turn_perm perm]
  simp only [perm.mem_iff]

theorem turnsBefore_perm {items other : List α} (perm : items.Perm other) (item : α) :
    turnsBefore key before items item = turnsBefore key before other item := by
  classical
  unfold turnsBefore
  rw [perm.countP_eq]
  refine countP_congr fun turn _ => ?_
  rw [decide_eq_true_eq, decide_eq_true_eq, turn_perm perm]

theorem pairwise_sort (trans : ∀ a b c, le a b → le b c → le a c) (total : ∀ a b, le a b || le b a) (items : List α) :
    (items.zipIdx.mergeSort (List.zipIdxLE le)).Pairwise (Ranks le) := by
  have sorted := pairwise_mergeSort (zipIdxLE_trans trans) (zipIdxLE_total total) items.zipIdx
  have apart : (items.zipIdx.mergeSort (List.zipIdxLE le)).Pairwise fun first second => first.2 ≠ second.2 := by
    refine (List.Perm.pairwise_iff (fun different => Ne.symm different) (mergeSort_perm _ _)).mpr ?_
    rw [← pairwise_map (f := Prod.snd) (R := fun first second => first ≠ second), zipIdx_map_snd]
    exact nodup_range'
  refine (sorted.and apart).imp ?_
  rintro first second ⟨front, different⟩
  unfold List.zipIdxLE at front
  split at front
  · rename_i forth
    refine ⟨forth, fun back => ?_⟩
    rw [if_pos back] at front
    exact Nat.lt_of_le_of_ne (of_decide_eq_true front) different
  · cases front

/-- **The first keys of a sorted list are different** exactly when every key that takes a turn again, in the order of the
sort, does so behind the first turns. -/
theorem nodup_take_sort_iff (trans : ∀ a b c, le a b → le b c → le a c) (total : ∀ a b, le a b || le b a)
    (items : List α) (limit : Nat) :
    (((dedupByKey key (items.mergeSort le)).map key).take limit).Nodup ↔
      ∀ item ∈ items.zipIdx, Returns (key ∘ Prod.fst) (Ranks le) items.zipIdx item →
        limit ≤ turnsBefore (key ∘ Prod.fst) (Ranks le) items.zipIdx item := by
  have order := ranks_order trans
  have perm := mergeSort_perm items.zipIdx (List.zipIdxLE le)
  have turns : (((dedupByKey (key ∘ Prod.fst) (items.zipIdx.mergeSort (List.zipIdxLE le))).map (key ∘ Prod.fst)).take
      limit).Nodup ↔ _ := nodup_take_iff (pairwise_sort trans total items) limit
  rw [← mergeSort_zipIdx, dedupByKey_map, map_map, turns]
  simp only [perm.mem_iff, returns_perm perm, turnsBefore_perm perm]

end Stable

end Byok.Library.Turns
