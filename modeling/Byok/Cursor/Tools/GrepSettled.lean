/-
**The card of a search through files, cut twice.**

* `gateGrepContent_settled` — a content that was cut is not cut again by any budget that is not smaller.
* `gateGrep_settled` — nor is the card.
-/

import Byok.Cursor.Tools.GrepCard

namespace Byok.CardGate

open Library Replay

/-! ### The notice is within the limit -/

section Notice

variable {files : List GrepFileMatch} {original : Nat}

theorem startsWith_truncationNotice (name : String) (limit shown original : Nat) :
    startsWith (truncationNotice name limit shown original) ("[truncated: " ++ name ++ " result exceeded") = true := by
  have space : " result exceeded " = " result exceeded" ++ " " := by decide
  rw [startsWith_iff]
  refine ⟨" " ++ toString limit ++ " bytes; showing " ++ toString shown ++ " of " ++ toString original ++ " bytes]", ?_⟩
  unfold truncationNotice
  simp only [space, String.append_assoc, -String.reduceAppend]

theorem isGrepNotice_notice (limit shown original : Nat) :
    isGrepNotice ⟨0, truncationNotice "Grep" limit shown original, true, true⟩ = true := by
  have starts := startsWith_truncationNotice "Grep" limit shown original
  rw [show "[truncated: " ++ "Grep" ++ " result exceeded" = "[truncated: Grep result exceeded" by decide] at starts
  rw [isGrepNotice, starts]
  rfl

/-- How many matches are no notices. -/
def countMatches (files : List GrepFileMatch) : Nat :=
  ((matchesOf files).filter fun matched => !isGrepNotice matched).length

theorem noticeFrom_spec (files : List GrepFileMatch) (original : Nat) :
    countMatches (noticeFrom files original) ≤ countMatches files ∧
      grepContentBytes (noticeFrom files original) ≤ grepContentLimit ∧
      (noticeFrom files original = [] ∨ hasNotice (noticeFrom files original) = true) := by
  induction files using noticeFrom.induct original with
  | case1 files notice room =>
    rw [noticeFrom, if_pos room]
    refine ⟨?_, ?_, .inr ?_⟩
    · simp [countMatches, matchesOf_pushMatch, isGrepNotice_notice]
    · simp only [grepContentBytes, matchesOf_pushMatch, matchBytes, List.map_append, List.sum_append, List.map_singleton,
        List.sum_singleton]
      exact room
    · simp [hasNotice, matchesOf_pushMatch, isGrepNotice_notice]
  | case2 files notice full some ih =>
    rw [noticeFrom, if_neg full, if_pos some]
    obtain ⟨fewer, rest⟩ := ih
    exact ⟨Nat.le_trans fewer ((popMatch_sublist files).filter _).length_le, rest⟩
  | case3 files notice full none =>
    rw [noticeFrom, if_neg full, if_neg none]
    obtain rfl := Decidable.not_not.mp none
    exact ⟨Nat.le_refl _, Nat.zero_le _, .inl rfl⟩

theorem addGrepNotice_marked (files : List GrepFileMatch) (original : Nat) :
    addGrepNotice files original = [] ∨ hasNotice (addGrepNotice files original) = true := by
  unfold addGrepNotice
  split
  · exact .inr (by assumption)
  · exact (noticeFrom_spec files original).2.2

end Notice

/-! ### One content -/

section Content

variable {content : GrepContentResult} {budget more : GrepBudget}

theorem gateGrepContent_left (left : content.files = [] ∨ hasNotice content.files = true) (budget : GrepBudget) :
    gateGrepContent content budget = (content, budget) := by
  unfold gateGrepContent
  split
  · rfl
  · rename_i plain
    have none := left.resolve_right plain
    obtain ⟨files, clientTruncated⟩ := content
    obtain rfl : files = [] := none
    simp [gateFiles]

theorem gateGrepContent_whole (plain : hasNotice content.files = false)
    (uncut : (gateFiles content.files budget).truncated = false)
    (every : content.files.length ≤ (gateFiles content.files budget).list.length) (le : budget ≤ more) :
    gateGrepContent content more = (content, (gateFiles content.files more).budget) ∧
      (gateFiles content.files budget).budget ≤ (gateFiles content.files more).budget := by
  obtain ⟨-, same, uncut', larger⟩ := gateFiles_whole uncut every le
  refine ⟨?_, larger⟩
  simp [gateGrepContent, plain, uncut', same]

theorem gateGrepContent_cases (plain : hasNotice content.files = false) (budget : GrepBudget) :
    (gateGrepContent content budget).2 = (gateFiles content.files budget).budget ∧
      ((gateGrepContent content budget).1.files =
          addGrepNotice (gateFiles content.files budget).list (grepContentBytes content.files) ∨
        (gateGrepContent content budget).1 = content ∧ (gateFiles content.files budget).list = content.files ∧
          ∀ more, budget ≤ more → gateGrepContent content more = (content, (gateFiles content.files more).budget) ∧
            (gateFiles content.files budget).budget ≤ (gateFiles content.files more).budget) := by
  by_cases cut : (gateFiles content.files budget).truncated ∨
      (gateFiles content.files budget).list.length < content.files.length
  · simp only [gateGrepContent, plain, Bool.false_eq_true, if_false, cut, if_true]
    exact ⟨trivial, .inl trivial⟩
  · obtain ⟨uncut, every⟩ := not_or.mp cut
    have uncut := Bool.not_eq_true _ ▸ uncut
    have whole := fun more => @gateGrepContent_whole _ _ more plain uncut (Nat.not_lt.mp every)
    have same := (whole budget ⟨Nat.le_refl _, Nat.le_refl _⟩).1
    rw [same]
    exact ⟨rfl, .inr ⟨rfl, (gateFiles_whole uncut (Nat.not_lt.mp every) ⟨Nat.le_refl _, Nat.le_refl _⟩).1, whole⟩⟩

theorem gateGrepContent_le (content : GrepContentResult) (budget : GrepBudget) :
    (gateGrepContent content budget).2 ≤ budget := by
  by_cases noticed : hasNotice content.files = true
  · rw [gateGrepContent_left (.inr noticed)]
    exact ⟨Nat.le_refl _, Nat.le_refl _⟩
  · have plain := Bool.not_eq_true _ ▸ noticed
    have paid := @gateFiles_paid _ budget plain
    rw [(gateGrepContent_cases plain budget).1]
    exact ⟨by omega, by omega⟩

/-- **A content that was cut is not cut again.** -/
theorem gateGrepContent_settled (content : GrepContentResult) (le : budget ≤ more) :
    (gateGrepContent (gateGrepContent content budget).1 more).1 = (gateGrepContent content budget).1 ∧
      (gateGrepContent content budget).2 ≤ (gateGrepContent (gateGrepContent content budget).1 more).2 := by
  have left := gateGrepContent_le content budget
  have within : (gateGrepContent content budget).2 ≤ more := ⟨Nat.le_trans left.1 le.1, Nat.le_trans left.2 le.2⟩
  by_cases noticed : hasNotice content.files = true
  · simp only [gateGrepContent_left (.inr noticed)]
    exact ⟨trivial, le⟩
  · obtain ⟨spent, cut | ⟨same, -, whole⟩⟩ := gateGrepContent_cases (Bool.not_eq_true _ ▸ noticed) budget
    · have marked : (gateGrepContent content budget).1.files = [] ∨
          hasNotice (gateGrepContent content budget).1.files = true := by
        rw [cut]
        exact addGrepNotice_marked ..
      rw [gateGrepContent_left marked]
      exact ⟨rfl, within⟩
    · obtain ⟨again, larger⟩ := whole more le
      rw [same, again, spent]
      exact ⟨rfl, larger⟩

end Content

/-! ### All of them -/

/-- The results in the order in which they are gated. -/
def GrepSuccess.unions (success : GrepSuccess) : List GrepUnionResult :=
  success.workspaceResults.map Prod.snd ++ success.activeEditorResult.toList

/-- A result whose list is not longer than a message can have it. -/
def GrepUnionResult.Sized : GrepUnionResult → Prop
  | .files list => list.entries.length < 2 ^ 31
  | .count list => list.entries.length < 2 ^ 31
  | _ => True

section Unions

variable {union : GrepUnionResult} {unions : List GrepUnionResult} {budget : GrepBudget}

theorem asI32_of_lt {number : Nat} (small : number < 2 ^ 31) : asI32 number = number := by
  unfold asI32
  rw [Int.bmod_eq_of_le] <;> omega

theorem gateList_settled {Entry : Type} {list : GrepListResult Entry} (sized : list.entries.length < 2 ^ 31) :
    gateList (gateList list) = gateList list := by
  have count := asI32_of_lt sized
  unfold gateList
  dsimp only
  split
  · rename_i long
    have taken : (list.entries.take grepListLimit).length = grepListLimit := List.length_take_of_le (Nat.le_of_lt long)
    have total : ¬ (if list.totalFiles ≤ 0 then asI32 list.entries.length else list.totalFiles) ≤ 0 := by
      split <;> omega
    simp only [taken, Nat.lt_irrefl, if_false, decide_false, Bool.or_false, total]
  · rename_i short
    simp only [short, decide_false, Bool.or_false]
    by_cases none : list.totalFiles ≤ 0
    · simp only [none, if_true, ite_self]
    · simp only [none, if_false]

theorem gateGrepUnion_settled (sized : union.Sized) : Budget.Settled gateGrepUnion union := by
  intro budget more le
  cases union with
  | content content =>
    obtain ⟨same, larger⟩ := gateGrepContent_settled content le
    simp only [gateGrepUnion, same]
    exact ⟨trivial, larger⟩
  | files list =>
    simp only [gateGrepUnion, gateList_settled sized]
    exact ⟨trivial, le⟩
  | count list =>
    simp only [gateGrepUnion, gateList_settled sized]
    exact ⟨trivial, le⟩
  | missing => exact ⟨rfl, le⟩

end Unions

/-! ### The card -/

section Card

variable {success : GrepSuccess}

/-- **A card that was cut is not cut again.** -/
theorem gateGrep_settled (sized : ∀ union ∈ success.unions, union.Sized) :
    gateGrep (gateGrep success) = gateGrep success := by
  obtain ⟨workspaces, active⟩ := success
  have named : ∀ named ∈ workspaces, Budget.Settled gateNamed named := fun named listed budget more le => by
    have union : named.2.Sized := sized _ (List.mem_append_left _ (List.mem_map_of_mem listed))
    obtain ⟨same, larger⟩ := gateGrepUnion_settled union budget more le
    exact ⟨congrArg (Prod.mk named.1) same, larger⟩
  obtain ⟨same, larger⟩ := @Budget.cutFrom_settled _ _ _ _ grepBudget _ _ named ⟨Nat.le_refl _, Nat.le_refl _⟩
  cases active with
  | none => simp only [gateGrep, same, Option.map_none]
  | some union =>
    have union' : union.Sized := sized _ (List.mem_append_right _ (List.mem_singleton_self _))
    have again := (gateGrepUnion_settled union' _ _ larger).1
    simp only [gateGrep, same, Option.map_some, again]

end Card

end Byok.CardGate
