/-
**The replay that a summary is made of.** `truncate_middle`, `prune_replayed_tool_results` and `trim_to_context` of
`server/src/run/compaction.rs`.

A loop of the source that may go on for ever is counted in rounds; it has a result where some number of rounds gives one.

* `truncateMiddle` — both ends of a text, around a notice of how many bytes they are.
* `Alternates` — two widths of that number that leave room for each other.
* `truncateMiddle_iff` — the loop ends, with what it is for, unless they alternate.
-/

import Byok.Model.Text

namespace Byok.Summary

open Library

/-! ### Both ends of a text -/

/-- The `notice` of `truncate_middle`. -/
def prunedNotice (tool : String) (shown original : Nat) : String :=
  "\n\n[old " ++ tool ++ " result pruned for the summary: showing " ++ toString shown ++ " of " ++ toString original ++
    " bytes]\n\n"

/-- The `head` of `truncate_middle`, in what is available. -/
def headOf (content : String) (available : Nat) : String := utf8Prefix content (available / 2)

/-- The `tail` of `truncate_middle`, in what is available. -/
def tailOf (content : String) (available : Nat) : String :=
  utf8Suffix content (available - strLength (headOf content available))

/-- The loop of `truncate_middle`, in as many rounds. -/
def truncateMiddleFrom (content : String) (limit : Nat) (tool : String) : Nat → Nat → Option String
  | 0, _ => none
  | rounds + 1, shown =>
    let notice := prunedNotice tool shown (strLength content)
    let available := limit - strLength notice
    let head := headOf content available
    let tail := tailOf content available
    let nextShown := strLength head + strLength tail
    if nextShown = shown then some (head ++ notice ++ tail)
    else truncateMiddleFrom content limit tool rounds nextShown

/-- `truncate_middle`, in as many rounds. -/
def truncateMiddle (rounds : Nat) (content : String) (limit : Nat) (tool : String) : Option String :=
  if strLength content ≤ limit then some content else truncateMiddleFrom content limit tool rounds limit

/-! ### What is kept -/

/-- The bytes of both ends, in what is available. -/
def keptIn (content : String) (available : Nat) : Nat :=
  strLength (headOf content available) + strLength (tailOf content available)

/-- What a notice costs but for the number of bytes that are shown. -/
def noticeFrame (content tool : String) : Nat := strLength (prunedNotice tool 0 (strLength content)) - 1

/-- The bytes that are kept beside a notice whose number has so many digits. -/
def keptBeside (content : String) (limit : Nat) (tool : String) (wide : Nat) : Nat :=
  keptIn content (limit - (noticeFrame content tool + wide))

/-- Two widths that leave room for each other: beside a number of `wide` digits there is room for a number of one digit
more, and beside that one there is not. -/
def Alternates (content : String) (limit : Nat) (tool : String) : Prop :=
  ∃ wide, 0 < wide ∧ keptBeside content limit tool (wide + 1) < 10 ^ wide ∧ 10 ^ wide ≤ keptBeside content limit tool wide

section Kept

variable {content tool : String} {limit : Nat}

theorem strLength_notice (tool : String) (shown original : Nat) :
    strLength (prunedNotice tool shown original) + 1 = strLength (prunedNotice tool 0 original) + Settle.digits shown := by
  have zero : Settle.digits 0 = 1 := rfl
  simp only [prunedNotice, strLength_append, strLength_toString, zero]
  omega

theorem strLength_notice_frame (content tool : String) (shown : Nat) :
    strLength (prunedNotice tool shown (strLength content)) = noticeFrame content tool + Settle.digits shown := by
  have whole := strLength_notice tool shown (strLength content)
  have digits := strLength_notice tool 0 (strLength content)
  have zero : Settle.digits 0 = 1 := rfl
  have some : 0 < strLength (prunedNotice tool 0 (strLength content)) := by
    simp only [prunedNotice, strLength_append, strLength_toString, zero]
    omega
  unfold noticeFrame
  omega

theorem keptIn_le (content : String) (available : Nat) : keptIn content available ≤ available := by
  have head := utf8Prefix_le content (available / 2)
  have tail := utf8Suffix_le content (available - strLength (headOf content available))
  unfold keptIn tailOf headOf at *
  omega

theorem keptIn_near (content : String) {available : Nat} (long : available < strLength content) :
    available < keptIn content available + 4 := by
  have head := utf8Prefix_le content (available / 2)
  have inside : available - strLength (headOf content available) < strLength content := by omega
  have tail := utf8Suffix_near inside
  unfold keptIn tailOf headOf at *
  omega

theorem keptIn_ascii {available : Nat} (ascii : ∀ character ∈ content.toList, character.utf8Size = 1)
    (inside : available ≤ strLength content) : keptIn content available = available := by
  have head := Utf8.size_front_ascii ascii (available / 2)
  have tail := Utf8.size_back_ascii ascii (available - min (available / 2) (Utf8.size content.toList))
  unfold strLength at inside
  simp only [keptIn, headOf, tailOf, utf8Prefix, utf8Suffix, strLength_ofList, head, tail]
  omega

theorem ends_split {available : Nat} (long : available ≤ strLength content) :
    ∃ middle, content = headOf content available ++ middle ++ tailOf content available :=
  between_of_short (utf8Prefix_split content _) (utf8Suffix_split content _) (Nat.le_trans (keptIn_le content available) long)

theorem truncateMiddleFrom_eq (rounds shown : Nat) :
    truncateMiddleFrom content limit tool rounds shown =
      (Settle.settle (fun shown => keptBeside content limit tool (Settle.digits shown)) rounds shown).map fun shown =>
        headOf content (limit - strLength (prunedNotice tool shown (strLength content))) ++
          prunedNotice tool shown (strLength content) ++
          tailOf content (limit - strLength (prunedNotice tool shown (strLength content))) := by
  induction rounds generalizing shown with
  | zero => rfl
  | succ rounds ih =>
    have next : strLength (headOf content (limit - strLength (prunedNotice tool shown (strLength content)))) +
        strLength (tailOf content (limit - strLength (prunedNotice tool shown (strLength content)))) =
        keptBeside content limit tool (Settle.digits shown) := by
      rw [keptBeside, keptIn, strLength_notice_frame]
    rw [truncateMiddleFrom, Settle.settle, next]
    split
    · rfl
    · exact ih _

end Kept

/-! ### Where the loop ends -/

/-- What `truncate_middle` is for: a text within its limit, and one that is longer as its two ends around a notice that
says how many bytes they are. -/
structure Truncated (content : String) (limit : Nat) (tool text : String) : Prop where
  unchanged : strLength content ≤ limit → text = content
  ends : limit < strLength content → ∃ head middle tail, content = head ++ middle ++ tail ∧
    text = head ++ prunedNotice tool (strLength head + strLength tail) (strLength content) ++ tail
  bounded : strLength text ≤ limit

section Ends

variable {content tool : String} {limit : Nat}

theorem keptBeside_close (tool : String) (long : limit < strLength content) (wide : Nat) {other : Nat} (narrow : other ≤ 20) :
    keptBeside content limit tool wide ≤ keptBeside content limit tool other + 90 := by
  have most := keptIn_le content (limit - (noticeFrame content tool + wide))
  have inside : limit - (noticeFrame content tool + other) < strLength content := by omega
  have least := keptIn_near content inside
  unfold keptBeside
  omega

theorem digits_limit (small : limit < 2 ^ 64) {number : Nat} (le : number ≤ limit) : Settle.digits number ≤ 20 := by
  rw [Settle.digits_le_iff (by decide)]
  omega

theorem keptBeside_le (content : String) (limit : Nat) (tool : String) (wide : Nat) :
    keptBeside content limit tool wide ≤ limit := by
  have most := keptIn_le content (limit - (noticeFrame content tool + wide))
  unfold keptBeside
  omega

theorem alternates_iff (small : limit < 2 ^ 64) (long : limit < strLength content) :
    Alternates content limit tool ↔ ∃ short, Settle.Alternates Settle.digits (keptBeside content limit tool) short := by
  have bounded (wide : Nat) := digits_limit small (keptBeside_le content limit tool wide)
  constructor
  · rintro ⟨wide, some, below, above⟩
    have long' := (Settle.lt_digits_iff some).mpr above
    have back := (Settle.digits_le_iff some).mpr below
    have widest := bounded wide
    have one := Settle.digits_near (keptBeside_close tool long wide (show wide + 1 ≤ 20 by omega))
    refine ⟨wide, ?_, ?_⟩
    · omega
    · omega
  · rintro ⟨short, one, back⟩
    have some : 0 < short := back ▸ Settle.digits_pos _
    refine ⟨short, some, ?_, ?_⟩
    · exact (Settle.digits_le_iff some).mp (Nat.le_of_eq back)
    · exact (Settle.lt_digits_iff some).mp (by omega)

theorem truncateMiddleFrom_ends_iff (small : limit < 2 ^ 64) (long : limit < strLength content) :
    (∃ rounds text, truncateMiddleFrom content limit tool rounds limit = some text) ↔ ¬ Alternates content limit tool := by
  have settles := Settle.settles_iff (digits_limit small (Nat.le_refl limit))
    (fun wide => digits_limit small (keptBeside_le content limit tool wide))
    (fun wide _ other narrow => Settle.digits_near (keptBeside_close tool long wide narrow))
  rw [alternates_iff small long, ← settles]
  simp only [truncateMiddleFrom_eq, Option.map_eq_some_iff]
  constructor
  · rintro ⟨rounds, text, shown, ended, -⟩
    exact ⟨rounds, shown, ended⟩
  · rintro ⟨rounds, shown, ended⟩
    exact ⟨rounds, _, shown, ended, rfl⟩

/-- What the loop ends with: both ends around a notice of how many bytes they are, or the notice alone where it does not
fit. -/
theorem ends_of_ended (long : limit < strLength content) {rounds shown : Nat} {text : String}
    (ended : truncateMiddleFrom content limit tool rounds shown = some text) :
    (∃ head middle tail, content = head ++ middle ++ tail ∧
      text = head ++ prunedNotice tool (strLength head + strLength tail) (strLength content) ++ tail) ∧
    (strLength text ≤ limit ∨ limit < strLength text ∧ strLength text = strLength (prunedNotice tool 0 (strLength content))) := by
  rw [truncateMiddleFrom_eq, Option.map_eq_some_iff] at ended
  obtain ⟨stated, ended, rfl⟩ := ended
  have fixed := Settle.settle_fixed ended
  rw [keptBeside, ← strLength_notice_frame, keptIn] at fixed
  have kept := keptIn_le content (limit - strLength (prunedNotice tool stated (strLength content)))
  rw [keptIn, fixed] at kept
  refine ⟨?_, ?_⟩
  · obtain ⟨middle, split⟩ := ends_split
      (show limit - strLength (prunedNotice tool stated (strLength content)) ≤ strLength content by omega)
    exact ⟨_, middle, _, split, by rw [fixed]⟩
  · have whole : strLength (headOf content (limit - strLength (prunedNotice tool stated (strLength content))) ++
        prunedNotice tool stated (strLength content) ++
        tailOf content (limit - strLength (prunedNotice tool stated (strLength content)))) =
        strLength (prunedNotice tool stated (strLength content)) + stated := by
      simp only [strLength_append]
      omega
    rw [whole]
    by_cases room : strLength (prunedNotice tool stated (strLength content)) ≤ limit
    · exact .inl (by omega)
    · have none : stated = 0 := by omega
      subst none
      exact .inr ⟨by omega, rfl⟩

theorem truncated_of_ended (fits : strLength (prunedNotice tool 0 (strLength content)) ≤ limit)
    (long : limit < strLength content) {rounds shown : Nat} {text : String}
    (ended : truncateMiddleFrom content limit tool rounds shown = some text) : Truncated content limit tool text := by
  obtain ⟨ends, bounded⟩ := ends_of_ended long ended
  exact ⟨fun short => absurd short (Nat.not_le.mpr long), fun _ => ends, by omega⟩

theorem truncateMiddle_more {rounds : Nat} {text : String} (ended : truncateMiddle rounds content limit tool = some text)
    (more : Nat) : truncateMiddle (rounds + more) content limit tool = some text := by
  unfold truncateMiddle at ended ⊢
  split
  · rename_i short
    rwa [if_pos short] at ended
  · rename_i long
    rw [if_neg long, truncateMiddleFrom_eq, Option.map_eq_some_iff] at ended
    obtain ⟨shown, ended, rfl⟩ := ended
    rw [truncateMiddleFrom_eq, Settle.settle_more ended more]
    rfl

/-- **The loop ends, with what it is for, unless two widths of its number leave room for each other.** -/
theorem truncateMiddle_iff (small : limit < 2 ^ 64)
    (fits : strLength (prunedNotice tool 0 (strLength content)) ≤ limit) :
    (∃ rounds text, truncateMiddle rounds content limit tool = some text ∧ Truncated content limit tool text) ↔
      strLength content ≤ limit ∨ ¬ Alternates content limit tool := by
  by_cases short : strLength content ≤ limit
  · simp only [short, true_or, iff_true]
    exact ⟨0, content, if_pos short,
      ⟨fun _ => rfl, fun long => absurd short (Nat.not_le.mpr long), short⟩⟩
  · have long : limit < strLength content := Nat.not_le.mp short
    simp only [short, false_or, ← truncateMiddleFrom_ends_iff small long, truncateMiddle, if_false]
    constructor
    · rintro ⟨rounds, text, ended, -⟩
      exact ⟨rounds, text, ended⟩
    · rintro ⟨rounds, text, ended⟩
      exact ⟨rounds, text, ended, truncated_of_ended fits long ended⟩

/-- The loop is entered, and ends. -/
theorem truncateMiddle_iff_read :
    let content := String.ofList (List.replicate 90 'x')
    80 < strLength content ∧ (truncateMiddle 2 content 80 "Read").isSome ∧
    ((∃ rounds text, truncateMiddle rounds content 80 "Read" = some text ∧
        Truncated content 80 "Read" text) ↔
      strLength content ≤ 80 ∨ ¬ Alternates content 80 "Read") := by
  intro content
  have length : strLength content = 90 := strLength_replicate 'x' (by decide) 90
  have notice : strLength (prunedNotice "Read" 0 (strLength content)) ≤ 80 := by
    rw [length]
    simp only [prunedNotice, strLength_append, strLength_toString]
    decide +kernel
  exact ⟨by omega, by decide +kernel, truncateMiddle_iff (by decide) notice⟩

/-- A result of two hundred bytes. -/
def sampleContent : String := String.ofList (List.replicate 200 'x')

/-- A loop that does not end: beside "99" there is room for a hundred bytes, and beside "100" for one less. -/
theorem truncateMiddle_endless : strLength (prunedNotice "Read" 0 (strLength sampleContent)) ≤ 169 ∧
    ∀ rounds, truncateMiddle rounds sampleContent 169 "Read" = none := by
  have length : strLength sampleContent = 200 := strLength_replicate 'x' (by decide) 200
  have notice : strLength (prunedNotice "Read" 0 (strLength sampleContent)) = 68 := by
    rw [length]
    simp only [prunedNotice, strLength_append, strLength_toString]
    decide +kernel
  have frame : noticeFrame sampleContent "Read" = 67 := by rw [noticeFrame, notice]
  have kept (wide : Nat) : keptBeside sampleContent 169 "Read" wide = 169 - (67 + wide) := by
    rw [keptBeside, frame]
    refine keptIn_ascii (fun character listed => ?_) (by omega)
    have same : sampleContent.toList = List.replicate 200 'x' := String.toList_ofList
    have is : character = 'x' := List.eq_of_mem_replicate (same ▸ listed)
    exact is ▸ rfl
  have long : 169 < strLength sampleContent := by omega
  have alternates : Alternates sampleContent 169 "Read" :=
    ⟨2, by decide, (kept 3).trans_lt (by decide), (by decide : 10 ^ 2 ≤ 169 - (67 + 2)).trans_eq (kept 2).symm⟩
  refine ⟨by omega, fun rounds => ?_⟩
  rw [truncateMiddle, if_neg (Nat.not_le.mpr long)]
  cases ended : truncateMiddleFrom sampleContent 169 "Read" rounds 169 with
  | none => rfl
  | some text => exact absurd alternates ((truncateMiddleFrom_ends_iff (by decide) long).mp ⟨rounds, text, ended⟩)

end Ends

end Byok.Summary
