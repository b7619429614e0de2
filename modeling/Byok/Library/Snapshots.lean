/-
**Increments and snapshots.**

A sender cuts a value into increments, or sends the value so far again and again. A receiver that is not
told which takes a fragment that extends what it has for a snapshot, a prefix of what it has for an old one,
and anything else for an increment (`merge`). A receiver that is told compares a snapshot with what it has,
and leaves it out when that is not a prefix (`catchUp`).

* `accumulate_snapshots` — snapshots give the last one.
* `accumulate_eq_flatten_iff` — increments give the value exactly when none looks like a snapshot.
* `afterGroups_iff` — what comes of parts that are streamed and sent whole, alone and in groups, if all of it
  is compared with everything that came so far.
-/

import Mathlib.Data.List.Infix
import Mathlib.Data.List.Induction
import Mathlib.Tactic.Common

set_option linter.unusedSectionVars false

namespace Byok.Library

open List

variable {α : Type} [DecidableEq α]

/-! ### Fragments of either kind -/

/-- A fragment that may be a snapshot or an increment. -/
def merge (target fragment : List α) : List α :=
  if fragment <+: target then target
  else if target <+: fragment then fragment
  else target ++ fragment

/-- The value after some fragments. -/
def accumulate (fragments : List (List α)) : List α := fragments.foldl merge []

@[simp] theorem accumulate_nil : accumulate ([] : List (List α)) = [] := rfl

theorem accumulate_concat (fragments : List (List α)) (fragment : List α) :
    accumulate (fragments ++ [fragment]) = merge (accumulate fragments) fragment := by
  rw [accumulate, foldl_append]
  rfl

theorem prefix_merge (target fragment : List α) : target <+: merge target fragment := by
  unfold merge
  by_cases old : fragment <+: target
  · rw [if_pos old]
  · rw [if_neg old]
    by_cases new : target <+: fragment
    · rw [if_pos new]
      exact new
    · rw [if_neg new]
      exact prefix_append _ _

theorem merge_old {target fragment : List α} (old : fragment <+: target) : merge target fragment = target :=
  if_pos old

theorem merge_snapshot {target fragment : List α} (new : target <+: fragment) :
    merge target fragment = fragment := by
  unfold merge
  by_cases old : fragment <+: target
  · rw [if_pos old]
    exact new.eq_of_length_le old.length_le
  · rw [if_neg old, if_pos new]

theorem merge_nil_left (fragment : List α) : merge [] fragment = fragment :=
  merge_snapshot nil_prefix

theorem merge_increment {target fragment : List α} (old : ¬ fragment <+: target)
    (new : ¬ target <+: fragment) : merge target fragment = target ++ fragment := by
  rw [merge, if_neg old, if_neg new]

theorem length_merge_le (target fragment : List α) :
    (merge target fragment).length ≤ target.length + fragment.length := by
  unfold merge
  split_ifs
  · omega
  · omega
  · rw [length_append]

theorem length_merge_lt {target fragment : List α} (begun : target ≠ []) (some : fragment ≠ [])
    (mistaken : fragment <+: target ∨ target <+: fragment) :
    (merge target fragment).length < target.length + fragment.length := by
  have left := length_pos_of_ne_nil begun
  have right := length_pos_of_ne_nil some
  rcases mistaken with old | new
  · rw [merge_old old]
    omega
  · rw [merge_snapshot new]
    omega

theorem accumulate_snapshots {fragments : List (List α)} (growing : fragments.Pairwise (· <+: ·)) :
    accumulate fragments = fragments.getLastD [] := by
  induction fragments using List.reverseRecOn with
  | nil => rfl
  | append_singleton fragments fragment ih =>
    rw [pairwise_append] at growing
    have before : accumulate fragments <+: fragment := by
      rw [ih growing.1]
      cases last : fragments.getLast? with
      | none =>
        rw [getLastD_eq_getLast?, last]
        exact nil_prefix
      | some old =>
        rw [getLastD_eq_getLast?, last]
        exact growing.2.2 old (mem_of_getLast? last) fragment (mem_singleton_self _)
    rw [accumulate_concat, merge_snapshot before, getLastD_concat]

/-! ### Increments -/

/-- No increment looks like a snapshot: none is a prefix of what came before it, or extends that. -/
def Unmistaken (fragments : List (List α)) : Prop :=
  ∀ before fragment after, fragments = before ++ fragment :: after → fragment ≠ [] → before.flatten ≠ [] →
    ¬ fragment <+: before.flatten ∧ ¬ before.flatten <+: fragment

theorem unmistaken_nil : Unmistaken ([] : List (List α)) := by
  intro before fragment after equal
  cases before <;> cases equal

theorem unmistaken_concat {fragments : List (List α)} {fragment : List α} :
    Unmistaken (fragments ++ [fragment]) ↔ Unmistaken fragments ∧
      (fragment ≠ [] → fragments.flatten ≠ [] →
        ¬ fragment <+: fragments.flatten ∧ ¬ fragments.flatten <+: fragment) := by
  constructor
  · intro unmistaken
    refine ⟨fun before other after equal => ?_, unmistaken fragments fragment [] rfl⟩
    refine unmistaken before other (after ++ [fragment]) ?_
    rw [equal, append_assoc]
    rfl
  · rintro ⟨earlier, last⟩ before other after equal
    induction after using List.reverseRecOn with
    | nil =>
      obtain ⟨rfl, same⟩ := append_inj' equal rfl
      obtain rfl := singleton_inj.mp same
      exact last
    | append_singleton after final =>
      rw [← cons_append, ← append_assoc] at equal
      exact earlier before other after (append_inj' equal rfl).1

theorem length_accumulate_le (fragments : List (List α)) :
    (accumulate fragments).length ≤ fragments.flatten.length := by
  induction fragments using List.reverseRecOn with
  | nil => exact Nat.le_refl 0
  | append_singleton fragments fragment ih =>
    have step := length_merge_le (accumulate fragments) fragment
    rw [accumulate_concat, flatten_append, length_append, flatten_singleton]
    omega

/-- **Increments give the value exactly when none looks like a snapshot.** What is lost once is never
recovered. -/
theorem accumulate_eq_flatten_iff (fragments : List (List α)) :
    accumulate fragments = fragments.flatten ↔ Unmistaken fragments := by
  induction fragments using List.reverseRecOn with
  | nil => exact ⟨fun _ => unmistaken_nil, fun _ => rfl⟩
  | append_singleton fragments fragment ih =>
    rw [accumulate_concat, flatten_append, flatten_singleton, unmistaken_concat, ← ih]
    constructor
    · intro equal
      have whole := congrArg List.length equal
      rw [length_append] at whole
      have kept : accumulate fragments = fragments.flatten := by
        have short := length_merge_le (accumulate fragments) fragment
        have bound := length_accumulate_le fragments
        have start : accumulate fragments <+: fragments.flatten := by
          refine prefix_of_prefix_length_le ?_ (prefix_append _ fragment) bound
          rw [← equal]
          exact prefix_merge _ _
        exact start.eq_of_length_le (by omega)
      refine ⟨kept, fun some begun => not_or.mp fun mistaken => ?_⟩
      rw [kept] at whole
      exact absurd whole (Nat.ne_of_lt (length_merge_lt begun some mistaken))
    · rintro ⟨kept, apart⟩
      rw [kept]
      by_cases some : fragment = []
      · rw [some, append_nil]
        exact merge_old nil_prefix
      · by_cases begun : fragments.flatten = []
        · rw [begun, merge_nil_left, nil_append]
        · obtain ⟨old, new⟩ := apart some begun
          exact merge_increment old new

/-! ### Snapshots of parts -/

/-- What has come, once a snapshot was compared with it. -/
def catchUp (streamed snapshot : List α) : List α := if streamed <+: snapshot then snapshot else streamed

theorem catchUp_goes {streamed snapshot : List α} (goes : streamed <+: snapshot) :
    catchUp streamed snapshot = snapshot := if_pos goes

theorem catchUp_other {streamed snapshot : List α} (other : ¬ streamed <+: snapshot) :
    catchUp streamed snapshot = streamed := if_neg other

/-- The increments of a part, put together, and the part. -/
abbrev Delivered (α : Type) := List α × List α

/-- A part: its increments, and a snapshot of it. -/
def afterPart (text : List α) (part : Delivered α) : List α := catchUp (text ++ part.1) part.2

/-- The parts of a group. -/
def afterParts (text : List α) (parts : List (Delivered α)) : List α := parts.foldl afterPart text

def whole (parts : List (Delivered α)) : List α := (parts.map Prod.snd).flatten

/-- A group: its parts, and a snapshot of all of them. -/
def afterGroup (text : List α) (parts : List (Delivered α)) : List α := catchUp (afterParts text parts) (whole parts)

def afterGroups (text : List α) (groups : List (List (Delivered α))) : List α := groups.foldl afterGroup text

theorem afterGroups_concat (text : List α) (groups : List (List (Delivered α))) (parts : List (Delivered α)) :
    afterGroups text (groups ++ [parts]) = afterGroup (afterGroups text groups) parts := by
  rw [afterGroups, foldl_append]
  rfl

/-- What has come is all that was sent, or is shorter. -/
def Behind (text sent : List α) : Prop := text = sent ∨ text.length < sent.length

theorem Behind.length_le {text sent : List α} (behind : Behind text sent) : text.length ≤ sent.length := by
  rcases behind with rfl | shorter
  · exact Nat.le_refl _
  · exact Nat.le_of_lt shorter

theorem behind_append {text sent increment part : List α} (covers : increment <+: part) (behind : Behind text sent) :
    Behind (text ++ increment) (sent ++ part) := by
  rcases behind with rfl | shorter
  · by_cases same : increment = part
    · exact .inl (by rw [same])
    · refine .inr ?_
      have less : increment.length < part.length :=
        Nat.lt_of_le_of_ne covers.length_le fun equal => same (covers.eq_of_length equal)
      rw [length_append, length_append]
      omega
  · refine .inr ?_
    have short := covers.length_le
    rw [length_append, length_append]
    omega

theorem behind_snapshot (sent snapshot : List α) : Behind snapshot (sent ++ snapshot) := by
  by_cases begun : sent = []
  · exact .inl (by rw [begun, nil_append])
  · refine .inr ?_
    have some := length_pos_of_ne_nil begun
    rw [length_append]
    omega

theorem Behind.part {text sent : List α} {part : Delivered α} (behind : Behind text sent)
    (covers : part.1 <+: part.2) : Behind (afterPart text part) (sent ++ part.2) := by
  unfold afterPart catchUp
  split_ifs
  · exact behind_snapshot sent part.2
  · exact behind_append covers behind

theorem Behind.parts {text sent : List α} {parts : List (Delivered α)} (behind : Behind text sent)
    (covers : ∀ part ∈ parts, part.1 <+: part.2) : Behind (afterParts text parts) (sent ++ whole parts) := by
  induction parts generalizing text sent with
  | nil => simpa [afterParts, whole] using behind
  | cons part parts ih =>
    have rest := ih (behind.part (covers part mem_cons_self)) fun other member =>
      covers other (mem_cons_of_mem _ member)
    rwa [append_assoc] at rest

theorem Behind.group {text sent : List α} {parts : List (Delivered α)} (behind : Behind text sent)
    (covers : ∀ part ∈ parts, part.1 <+: part.2) : Behind (afterGroup text parts) (sent ++ whole parts) := by
  unfold afterGroup catchUp
  split_ifs
  · exact behind_snapshot sent (whole parts)
  · exact behind.parts covers

/-! ### Behind the first group -/

/-- Once something was sent, a part is complete exactly when nothing was missing before and its increments are
all of it. -/
theorem afterPart_iff {text sent : List α} {part : Delivered α} (covers : part.1 <+: part.2) (begun : sent ≠ [])
    (behind : Behind text sent) : afterPart text part = sent ++ part.2 ↔ text = sent ∧ part.1 = part.2 := by
  have some := length_pos_of_ne_nil begun
  have short := covers.length_le
  unfold afterPart
  by_cases goes : text ++ part.1 <+: part.2
  · -- The part replaces what came before it.
    have less : part.2.length < (sent ++ part.2).length := by
      rw [length_append]
      omega
    rw [catchUp_goes goes]
    refine ⟨fun same => absurd (congrArg List.length same) (Nat.ne_of_lt less), ?_⟩
    rintro ⟨rfl, same⟩
    have longer := goes.length_le
    rw [length_append, same] at longer
    omega
  · rw [catchUp_other goes]
    constructor
    · intro same
      have lengths := congrArg List.length same
      rw [length_append, length_append] at lengths
      have least := behind.length_le
      exact append_inj same (by omega)
    · rintro ⟨rfl, same⟩
      rw [same]

theorem afterParts_iff {text sent : List α} {parts : List (Delivered α)}
    (covers : ∀ part ∈ parts, part.1 <+: part.2) (begun : sent ≠ []) (behind : Behind text sent) :
    afterParts text parts = sent ++ whole parts ↔ text = sent ∧ ∀ part ∈ parts, part.1 = part.2 := by
  induction parts generalizing text sent with
  | nil => simp [afterParts, whole]
  | cons part parts ih =>
    have here := covers part mem_cons_self
    have more : sent ++ part.2 ≠ [] := append_ne_nil_of_left_ne_nil begun _
    have split : sent ++ whole (part :: parts) = sent ++ part.2 ++ whole parts := by simp [whole]
    have rest := ih (fun other member => covers other (mem_cons_of_mem _ member)) more (behind.part here)
    rw [split]
    refine rest.trans ?_
    rw [afterPart_iff here begun behind, forall_mem_cons, and_assoc]

theorem afterGroup_iff {text sent : List α} {parts : List (Delivered α)}
    (covers : ∀ part ∈ parts, part.1 <+: part.2) (begun : sent ≠ []) (behind : Behind text sent) :
    afterGroup text parts = sent ++ whole parts ↔ text = sent ∧ ∀ part ∈ parts, part.1 = part.2 := by
  have complete := afterParts_iff covers begun behind
  have some := length_pos_of_ne_nil begun
  unfold afterGroup
  by_cases goes : afterParts text parts <+: whole parts
  · have less : (whole parts).length < (sent ++ whole parts).length := by
      rw [length_append]
      omega
    rw [catchUp_goes goes]
    refine ⟨fun same => absurd (congrArg List.length same) (Nat.ne_of_lt less), fun all => ?_⟩
    have longer := goes.length_le
    rw [complete.mpr all] at longer
    omega
  · rw [catchUp_other goes]
    exact complete

theorem afterGroups_begun {text sent : List α} {groups : List (List (Delivered α))}
    (covers : ∀ parts ∈ groups, ∀ part ∈ parts, part.1 <+: part.2) (begun : sent ≠ [])
    (behind : Behind text sent) :
    afterGroups text groups = sent ++ (groups.map whole).flatten ↔
      text = sent ∧ ∀ parts ∈ groups, ∀ part ∈ parts, part.1 = part.2 := by
  induction groups generalizing text sent with
  | nil => simp [afterGroups]
  | cons parts groups ih =>
    have here := covers parts mem_cons_self
    have more : sent ++ whole parts ≠ [] := append_ne_nil_of_left_ne_nil begun _
    have rest := ih (fun other member => covers other (mem_cons_of_mem _ member)) more (behind.group here)
    rw [map_cons, flatten_cons, ← append_assoc]
    refine rest.trans ?_
    rw [afterGroup_iff here begun behind, forall_mem_cons, and_assoc]

/-! ### The first group -/

theorem prefix_afterParts (text : List α) (parts : List (Delivered α)) : text <+: afterParts text parts := by
  induction parts generalizing text with
  | nil => exact prefix_refl _
  | cons part parts ih =>
    refine List.IsPrefix.trans ?_ (ih (afterPart text part))
    unfold afterPart catchUp
    split_ifs with goes
    · exact (prefix_append _ _).trans goes
    · exact prefix_append _ _

/-- From place `n` of a group, the increments of each part are what the group goes on with. After a part that begins
with all that came before it, the place is its own length. -/
def GoesOn (group : List α) : Nat → List (Delivered α) → Prop
  | _, [] => True
  | n, part :: parts =>
    if group.take n ++ part.1 <+: part.2 then part.2 <+: group ∧ GoesOn group part.2.length parts
    else part.1 <+: group.drop n ∧ GoesOn group (n + part.1.length) parts

theorem afterParts_prefix_iff {group text : List α} {parts : List (Delivered α)} (begins : text <+: group) :
    afterParts text parts <+: group ↔ GoesOn group text.length parts := by
  induction parts generalizing text with
  | nil => exact ⟨fun _ => trivial, fun _ => begins⟩
  | cons part parts ih =>
    have before : group.take text.length = text := (prefix_iff_eq_take.mp begins).symm
    have first : afterParts text (part :: parts) = afterParts (afterPart text part) parts := rfl
    rw [GoesOn, before, first]
    by_cases goes : text ++ part.1 <+: part.2
    · have after : afterPart text part = part.2 := catchUp_goes goes
      rw [if_pos goes, after]
      constructor
      · intro all
        have here := (prefix_afterParts part.2 parts).trans all
        exact ⟨here, (ih here).mp all⟩
      · rintro ⟨here, rest⟩
        exact (ih here).mpr rest
    · have after : afterPart text part = text ++ part.1 := catchUp_other goes
      have split : text ++ part.1 <+: group ↔ part.1 <+: group.drop text.length := by
        obtain ⟨rest, rfl⟩ := begins
        rw [drop_left, prefix_append_right_inj]
      rw [if_neg goes, after, ← split, ← length_append]
      constructor
      · intro all
        have here := (prefix_afterParts (text ++ part.1) parts).trans all
        exact ⟨here, (ih here).mp all⟩
      · rintro ⟨here, rest⟩
        exact (ih here).mpr rest

theorem afterGroup_first (parts : List (Delivered α)) :
    afterGroup [] parts = whole parts ↔ GoesOn (whole parts) 0 parts := by
  refine Iff.trans ?_ (afterParts_prefix_iff nil_prefix)
  unfold afterGroup
  by_cases goes : afterParts [] parts <+: whole parts
  · simp [catchUp_goes goes, goes]
  · rw [catchUp_other goes]
    exact ⟨fun same => same ▸ prefix_refl _, fun goes' => absurd goes' goes⟩

theorem afterGroup_empty {parts : List (Delivered α)} (covers : ∀ part ∈ parts, part.1 <+: part.2)
    (empty : whole parts = []) : afterGroup [] parts = [] := by
  have each : ∀ part ∈ parts, part = ([], []) := by
    intro part member
    have nothing : part.2 = [] := flatten_eq_nil_iff.mp empty part.2 (mem_map_of_mem member)
    have covered := covers part member
    rw [nothing, prefix_nil] at covered
    exact Prod.ext covered nothing
  have parts' : afterParts [] parts = [] := by
    clear empty covers
    induction parts with
    | nil => rfl
    | cons part parts ih =>
      rw [each part mem_cons_self]
      exact ih fun other member => each other (mem_cons_of_mem _ member)
  rw [afterGroup, parts', empty]
  rfl

/-- The first group that is not empty can be put together from its parts, and the later ones are streamed whole. -/
def Reconciled : List (List (Delivered α)) → Prop
  | [] => True
  | parts :: groups =>
    if whole parts = [] then Reconciled groups
    else GoesOn (whole parts) 0 parts ∧ ∀ later ∈ groups, ∀ part ∈ later, part.1 = part.2

/-- **All that was sent has come exactly when the groups can be reconciled.** -/
theorem afterGroups_iff {groups : List (List (Delivered α))}
    (covers : ∀ parts ∈ groups, ∀ part ∈ parts, part.1 <+: part.2) :
    afterGroups [] groups = (groups.map whole).flatten ↔ Reconciled groups := by
  induction groups with
  | nil => exact ⟨fun _ => trivial, fun _ => rfl⟩
  | cons parts groups ih =>
    have later := fun other member => covers other (mem_cons_of_mem parts member)
    have here := covers parts mem_cons_self
    have first : afterGroups [] (parts :: groups) = afterGroups (afterGroup [] parts) groups := rfl
    rw [Reconciled, first, map_cons, flatten_cons]
    by_cases empty : whole parts = []
    · rw [if_pos empty, afterGroup_empty here empty, empty, nil_append]
      exact ih later
    · have behind : Behind (afterGroup [] parts) (whole parts) := @Behind.group α _ [] [] parts (.inl rfl) here
      rw [if_neg empty, ← afterGroup_first parts]
      exact afterGroups_begun later empty behind

end Byok.Library
