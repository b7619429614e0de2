/-
**The card of a search through files.** `gate_grep` and what it calls, of
`server/src/cursor/tools/tool_call_result/gate.rs`.

The contents of all workspaces share one budget, but the notice of a content is not paid from it, and a content with a
match that looks like a notice is not cut at all.

* `gateGrep` — the gate of the card.
* `gateFiles_paid` — what is kept of the files is paid from the budget.
* `gateFiles_whole` — files of which nothing is left out or cut come as they are.
-/

import Byok.Cursor.Tools.TruncatedText
import Byok.Library.Budget
import Mathlib.Algebra.Order.BigOperators.Group.List

namespace Byok.CardGate

open Library Replay List

/-! ### Limits -/

def grepContentLimit : Nat := 32 * kib

def grepMatchLimit : Nat := 2 * kib

def grepMatchesPerFile : Nat := 100

def grepTotalMatches : Nat := 300

def grepListLimit : Nat := 300

/-- `as i32`. -/
def asI32 (number : Nat) : Int := Int.bmod number (2 ^ 32)

/-! ### The result -/

structure GrepContentMatch where
  lineNumber : Int
  content : String
  contentTruncated : Bool := false
  isContextLine : Bool := false
deriving DecidableEq

/-- `GrepFileMatch`, with its `matches`. -/
structure GrepFileMatch where
  file : String
  matched : List GrepContentMatch
deriving DecidableEq

/-- `GrepContentResult`, with its `matches`. -/
structure GrepContentResult where
  files : List GrepFileMatch
  clientTruncated : Bool := false
deriving DecidableEq

/-- `GrepFilesResult` and `GrepCountResult`, with their `files` and `counts`. -/
structure GrepListResult (Entry : Type) where
  entries : List Entry
  totalFiles : Int := 0
  clientTruncated : Bool := false
deriving DecidableEq

structure GrepFileCount where
  file : String
  count : Int
deriving DecidableEq

inductive GrepUnionResult
  | content (result : GrepContentResult)
  | files (result : GrepListResult String)
  | count (result : GrepListResult GrepFileCount)
  | missing
deriving DecidableEq

/-- `GrepSuccess`, with the workspaces in the order of their names. -/
structure GrepSuccess where
  workspaceResults : List (String × GrepUnionResult) := []
  activeEditorResult : Option GrepUnionResult := none
deriving DecidableEq

/-! ### Cutting the matches -/

/-- `GrepBudget`, with its `matches`. -/
structure GrepBudget where
  contentBytes : Nat
  matched : Nat
deriving DecidableEq

namespace GrepBudget

instance : LE GrepBudget := ⟨fun budget more => budget.contentBytes ≤ more.contentBytes ∧ budget.matched ≤ more.matched⟩

/-- The budget behind a match. -/
def spend (budget : GrepBudget) (bytes : Nat) : GrepBudget := ⟨budget.contentBytes - bytes, budget.matched - 1⟩

theorem spend_mono {budget more : GrepBudget} (le : budget ≤ more) (bytes : Nat) : budget.spend bytes ≤ more.spend bytes :=
  ⟨Nat.sub_le_sub_right le.1 bytes, Nat.sub_le_sub_right le.2 1⟩

end GrepBudget

def isGrepNotice (matched : GrepContentMatch) : Bool :=
  matched.lineNumber == 0 && matched.contentTruncated && startsWith matched.content "[truncated: Grep result exceeded"

/-- The matches of all files. -/
def matchesOf (files : List GrepFileMatch) : List GrepContentMatch := files.flatMap GrepFileMatch.matched

/-- What the contents of matches cost. -/
def matchBytes (list : List GrepContentMatch) : Nat := (list.map fun matched => strLength matched.content).sum

def grepContentBytes (files : List GrepFileMatch) : Nat := matchBytes (matchesOf files)

/-- What a loop keeps of a list: it, the budget behind it, and `truncated`. -/
structure Kept (Part : Type) where
  list : List Part
  budget : GrepBudget
  truncated : Bool

/-- A part before what is kept of the others. -/
def Kept.push {Part : Type} (kept : Kept Part) (part : Part) (truncated : Bool) : Kept Part :=
  ⟨part :: kept.list, kept.budget, truncated || kept.truncated⟩

/-- A match cut to its own limit and to the bytes that are left, and whether it was cut. -/
def cutMatch (matched : GrepContentMatch) (left : Nat) : GrepContentMatch × Bool :=
  let content := truncateText "Grep match" matched.content grepMatchLimit
  let truncated := content ≠ matched.content ∨ left < strLength content
  ({ matched with
      content := if left < strLength content then truncateText "Grep" content left else content
      contentTruncated := matched.contentTruncated || truncated }, truncated)

/-- The matches of a file, behind so many that it has kept: the inner loop of `gate_grep_content`. -/
def gateMatches : List GrepContentMatch → Nat → GrepBudget → Kept GrepContentMatch
  | [], _, budget => ⟨[], budget, false⟩
  | matched :: rest, count, budget =>
    if isGrepNotice matched then (gateMatches rest (count + 1) budget).push matched false
    else if grepMatchesPerFile ≤ count ∨ budget.matched = 0 ∨ budget.contentBytes = 0 then ⟨[], budget, true⟩
    else
      let (next, truncated) := cutMatch matched budget.contentBytes
      if trim next.content = "" then ⟨[], budget, true⟩
      else (gateMatches rest (count + 1) (budget.spend (strLength next.content))).push next truncated

/-- The outer loop of `gate_grep_content`. -/
def gateFiles : List GrepFileMatch → GrepBudget → Kept GrepFileMatch
  | [], budget => ⟨[], budget, false⟩
  | file :: rest, budget =>
    if budget.matched = 0 ∨ budget.contentBytes = 0 then ⟨[], budget, true⟩
    else
      let next := gateMatches file.matched 0 budget
      let after := gateFiles rest next.budget
      let truncated := next.truncated || decide (next.list.length < file.matched.length)
      if next.list = [] then { after with truncated := truncated || after.truncated }
      else after.push { file with matched := next.list } truncated

section Matches

variable {matched : GrepContentMatch} {list : List GrepContentMatch} {files : List GrepFileMatch} {count : Nat}
  {budget more : GrepBudget}

theorem cutMatch_le (matched : GrepContentMatch) (left : Nat) : strLength (cutMatch matched left).1.content ≤ left := by
  unfold cutMatch
  dsimp only
  split
  · exact truncateText_le ..
  · rename_i short
    exact Nat.not_lt.mp short

theorem cutMatch_whole {left larger : Nat} (whole : (cutMatch matched left).2 = false) (le : left ≤ larger) :
    cutMatch matched larger = (matched, false) := by
  simp only [cutMatch, decide_eq_false_iff_not, not_or, ne_eq, Decidable.not_not, Nat.not_lt] at whole
  have short : ¬ larger < strLength matched.content := by
    rw [whole.1] at whole
    omega
  simp [cutMatch, whole.1, short]

theorem gateMatches_paid (plain : ∀ matched ∈ list, isGrepNotice matched = false) :
    matchBytes (gateMatches list count budget).list + (gateMatches list count budget).budget.contentBytes ≤
        budget.contentBytes ∧
      (gateMatches list count budget).list.length + (gateMatches list count budget).budget.matched ≤ budget.matched := by
  induction list generalizing count budget with
  | nil => simp [gateMatches, matchBytes]
  | cons matched rest ih =>
    have others := fun other listed => plain other (mem_cons_of_mem _ listed)
    simp only [gateMatches, plain matched mem_cons_self, Bool.false_eq_true, if_false]
    split
    · simp [matchBytes]
    · rename_i left
      split
      · simp [matchBytes]
      · have within := cutMatch_le matched budget.contentBytes
        have rest := @ih (count + 1) (budget.spend (strLength (cutMatch matched budget.contentBytes).1.content)) others
        simp only [GrepBudget.spend] at rest
        simp only [Kept.push, matchBytes, map_cons, sum_cons, length_cons, GrepBudget.spend] at rest ⊢
        omega

theorem gateMatches_whole (whole : (gateMatches list count budget).truncated = false) (le : budget ≤ more) :
    (gateMatches list count budget).list = list ∧ (gateMatches list count more).list = list ∧
      (gateMatches list count more).truncated = false ∧
      (gateMatches list count budget).budget ≤ (gateMatches list count more).budget := by
  induction list generalizing count budget more with
  | nil => exact ⟨rfl, rfl, rfl, le⟩
  | cons matched rest ih =>
    by_cases notice : isGrepNotice matched = true
    · simp only [gateMatches, notice, if_true, Kept.push, Bool.false_or] at whole ⊢
      obtain ⟨same, same', uncut, larger⟩ := ih whole le
      exact ⟨by rw [same], by rw [same'], uncut, larger⟩
    · rw [Bool.not_eq_true] at notice
      simp only [gateMatches, notice, Bool.false_eq_true, if_false] at whole ⊢
      split at whole
      · cases whole
      · rename_i room
        split at whole
        · cases whole
        · rename_i solid
          simp only [Kept.push, Bool.or_eq_false_iff] at whole
          have here := cutMatch_whole whole.1 (Nat.le_refl _)
          have larger := cutMatch_whole whole.1 le.1
          have room' : ¬ (grepMatchesPerFile ≤ count ∨ more.matched = 0 ∨ more.contentBytes = 0) := by
            have fewer := le.1
            have fewer' := le.2
            omega
          rw [here] at solid whole
          obtain ⟨same, same', uncut, left⟩ := ih whole.2 (GrepBudget.spend_mono le (strLength matched.content))
          simp only [here, larger, room, room', solid, if_false, Kept.push, same, same', uncut, Bool.or_self]
          exact ⟨trivial, trivial, trivial, left⟩

end Matches

/-! ### The notice -/

/-- A match behind the last one, in a file of its own where there is no file. -/
def pushMatch (files : List GrepFileMatch) (matched : GrepContentMatch) : List GrepFileMatch :=
  match files.getLast? with
  | some file => files.dropLast ++ [{ file with matched := file.matched ++ [matched] }]
  | none => [⟨"[truncated]", [matched]⟩]

/-- The files without the last match. -/
def popMatch (files : List GrepFileMatch) : List GrepFileMatch :=
  match files.getLast? with
  | some file =>
    let matched := file.matched.dropLast
    if matched = [] then files.dropLast else files.dropLast ++ [{ file with matched }]
  | none => []

/-- How many files and matches there are. -/
def entries (files : List GrepFileMatch) : Nat := files.length + (matchesOf files).length

@[simp] theorem matchesOf_append (first second : List GrepFileMatch) :
    matchesOf (first ++ second) = matchesOf first ++ matchesOf second := flatMap_append

@[simp] theorem matchesOf_singleton (file : GrepFileMatch) : matchesOf [file] = file.matched := append_nil _

theorem pushMatch_concat (front : List GrepFileMatch) (file : GrepFileMatch) (matched : GrepContentMatch) :
    pushMatch (front ++ [file]) matched = front ++ [{ file with matched := file.matched ++ [matched] }] := by
  simp [pushMatch]

theorem popMatch_concat (front : List GrepFileMatch) (file : GrepFileMatch) : popMatch (front ++ [file]) =
    if file.matched.dropLast = [] then front else front ++ [{ file with matched := file.matched.dropLast }] := by
  simp [popMatch]

theorem matchesOf_pushMatch (files : List GrepFileMatch) (matched : GrepContentMatch) :
    matchesOf (pushMatch files matched) = matchesOf files ++ [matched] := by
  rcases files.eq_nil_or_concat' with rfl | ⟨front, file, rfl⟩
  · rfl
  · simp [pushMatch_concat]

theorem popMatch_sublist (files : List GrepFileMatch) : (matchesOf (popMatch files)).Sublist (matchesOf files) := by
  rcases files.eq_nil_or_concat' with rfl | ⟨front, file, rfl⟩
  · exact nil_sublist _
  · rw [popMatch_concat, matchesOf_append, matchesOf_singleton]
    split
    · exact sublist_append_left _ _
    · rw [matchesOf_append, matchesOf_singleton]
      exact (dropLast_sublist file.matched).append_left _

theorem popMatch_lt {files : List GrepFileMatch} (some : files ≠ []) : entries (popMatch files) < entries files := by
  rcases files.eq_nil_or_concat' with rfl | ⟨front, file, rfl⟩
  · exact absurd rfl some
  · rw [popMatch_concat]
    simp only [entries, matchesOf_append, matchesOf_singleton, length_append, length_singleton]
    split
    · omega
    · rename_i left
      have shorter : file.matched.dropLast.length < file.matched.length := by
        rw [length_dropLast]
        have some : 0 < file.matched.dropLast.length := length_pos_of_ne_nil left
        rw [length_dropLast] at some
        omega
      simp only [matchesOf_append, matchesOf_singleton, length_append, length_singleton]
      omega

/-- The loop of `add_grep_notice`. -/
def noticeFrom (files : List GrepFileMatch) (original : Nat) : List GrepFileMatch :=
  let notice := truncationNotice "Grep" grepContentLimit (grepContentBytes files) original
  if grepContentBytes files + strLength notice ≤ grepContentLimit then pushMatch files ⟨0, notice, true, true⟩
  else if files ≠ [] then noticeFrom (popMatch files) original
  else files
termination_by entries files
decreasing_by exact popMatch_lt (by assumption)

def addGrepNotice (files : List GrepFileMatch) (original : Nat) : List GrepFileMatch :=
  if (matchesOf files).any isGrepNotice then files else noticeFrom files original

/-! ### The gate -/

/-- The first `any` of `gate_grep_content`. -/
def hasNotice (files : List GrepFileMatch) : Bool := (matchesOf files).any isGrepNotice

def gateGrepContent (content : GrepContentResult) (budget : GrepBudget) : GrepContentResult × GrepBudget :=
  if hasNotice content.files then (content, budget)
  else
    let kept := gateFiles content.files budget
    if kept.truncated ∨ kept.list.length < content.files.length then
      ({ content with clientTruncated := true, files := addGrepNotice kept.list (grepContentBytes content.files) },
        kept.budget)
    else ({ content with files := kept.list }, kept.budget)

/-- A list of `gate_grep_union`. -/
def gateList {Entry : Type} (list : GrepListResult Entry) : GrepListResult Entry :=
  let original := list.entries.length
  { entries := if grepListLimit < original then list.entries.take grepListLimit else list.entries
    clientTruncated := list.clientTruncated || decide (grepListLimit < original)
    totalFiles := if list.totalFiles ≤ 0 then asI32 original else list.totalFiles }

def gateGrepUnion (union : GrepUnionResult) (budget : GrepBudget) : GrepUnionResult × GrepBudget :=
  match union with
  | .content content =>
    let (content, budget) := gateGrepContent content budget
    (.content content, budget)
  | .files list => (.files (gateList list), budget)
  | .count list => (.count (gateList list), budget)
  | .missing => (.missing, budget)

/-- The budget that `gate_grep` begins with. -/
def grepBudget : GrepBudget := ⟨grepContentLimit, grepTotalMatches⟩

/-- The result of a workspace under its name. -/
def gateNamed (named : String × GrepUnionResult) (budget : GrepBudget) : (String × GrepUnionResult) × GrepBudget :=
  let (union, budget) := gateGrepUnion named.2 budget
  ((named.1, union), budget)

def gateGrep (success : GrepSuccess) : GrepSuccess :=
  let (workspaceResults, budget) := Budget.cutFrom gateNamed success.workspaceResults grepBudget
  { workspaceResults
    activeEditorResult := success.activeEditorResult.map fun union => (gateGrepUnion union budget).1 }

section Files

variable {files : List GrepFileMatch} {budget more : GrepBudget}

theorem grepContentBytes_cons (file : GrepFileMatch) (files : List GrepFileMatch) :
    grepContentBytes (file :: files) = matchBytes file.matched + grepContentBytes files := by
  simp [grepContentBytes, matchesOf, matchBytes]

theorem plain_cons {file : GrepFileMatch} (plain : hasNotice (file :: files) = false) :
    (∀ matched ∈ file.matched, isGrepNotice matched = false) ∧ hasNotice files = false := by
  simpa [hasNotice, matchesOf, or_imp, forall_and] using plain

theorem gateFiles_paid (plain : hasNotice files = false) :
    grepContentBytes (gateFiles files budget).list + (gateFiles files budget).budget.contentBytes ≤ budget.contentBytes ∧
      (matchesOf (gateFiles files budget).list).length + (gateFiles files budget).budget.matched ≤ budget.matched := by
  induction files generalizing budget with
  | nil => simp [gateFiles, grepContentBytes, matchesOf, matchBytes]
  | cons file rest ih =>
    obtain ⟨here, others⟩ := plain_cons plain
    have paid := @gateMatches_paid _ 0 budget here
    have after := @ih (gateMatches file.matched 0 budget).budget others
    simp only [gateFiles]
    split
    · simp [grepContentBytes, matchesOf, matchBytes]
    · split
      · dsimp only
        omega
      · rw [Kept.push, grepContentBytes_cons]
        simp only [matchesOf, flatMap_cons, length_append] at after ⊢
        omega

theorem gateFiles_length (files : List GrepFileMatch) (budget : GrepBudget) :
    (gateFiles files budget).list.length ≤ files.length := by
  induction files generalizing budget with
  | nil => exact Nat.le_refl _
  | cons file rest ih =>
    have fewer := ih (gateMatches file.matched 0 budget).budget
    simp only [gateFiles]
    split
    · exact Nat.zero_le _
    · split
      · simp only [length_cons]
        omega
      · simp only [Kept.push, length_cons]
        omega

theorem gateFiles_whole (whole : (gateFiles files budget).truncated = false)
    (every : files.length ≤ (gateFiles files budget).list.length) (le : budget ≤ more) :
    (gateFiles files budget).list = files ∧ (gateFiles files more).list = files ∧
      (gateFiles files more).truncated = false ∧ (gateFiles files budget).budget ≤ (gateFiles files more).budget := by
  induction files generalizing budget more with
  | nil => exact ⟨rfl, rfl, rfl, le⟩
  | cons file rest ih =>
    have fewer := gateFiles_length rest (gateMatches file.matched 0 budget).budget
    simp only [gateFiles] at whole every ⊢
    split at whole
    · cases whole
    · rename_i room
      have room' : ¬ (more.matched = 0 ∨ more.contentBytes = 0) := by
        have fewer := le.1
        have fewer' := le.2
        omega
      simp only [room, room', if_false] at every ⊢
      split at whole
      · rename_i none
        simp only [none, if_true, length_cons] at every
        omega
      · rename_i some
        simp only [Kept.push, Bool.or_eq_false_iff] at whole
        simp only [some, if_false, Kept.push, length_cons] at every
        obtain ⟨same, same', uncut, larger⟩ := gateMatches_whole whole.1.1 le
        obtain ⟨after, after', uncut', larger'⟩ := ih whole.2 (by omega) larger
        rw [same] at some
        simp only [same, same', some, if_false, Kept.push, after, after', uncut, uncut', Nat.lt_irrefl, decide_false,
          Bool.or_self]
        exact ⟨trivial, trivial, trivial, larger'⟩

end Files

end Byok.CardGate
