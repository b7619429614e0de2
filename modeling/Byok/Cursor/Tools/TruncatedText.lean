/-
**Texts that are cut for a tool card.** `truncate_text`, `truncate_edges` and what they call, of
`server/src/cursor/tools/tool_call_result/gate.rs`.

The notice behind a text states how much of it is shown, and that number makes the notice longer or shorter. A loop is
counted in rounds, of which there are enough.

* `truncateText` — the beginning of a text before a notice; `truncateText_le`, it keeps its limit.
* `truncateTextFrom_ends` — the loop ends: from its second round on, what is shown goes back and forth between closer and
  closer numbers.
* `truncateEdges` — the beginning and the end of a text around a notice; `truncateEdgesFrom_ends`, within its limit.
-/

import Byok.Model.ToolResultGate

namespace Byok.CardGate

open Library Replay

/-! ### Notices -/

def truncationNotice (name : String) (limit shown original : Nat) : String :=
  "[truncated: " ++ name ++ " result exceeded " ++ toString limit ++ " bytes; showing " ++ toString shown ++ " of " ++
    toString original ++ " bytes]"

/-- What a notice costs but for the number of bytes that are shown. -/
def frame (name : String) (limit original : Nat) : Nat := strLength (truncationNotice name limit 0 original) - 1

theorem strLength_truncationNotice (name : String) (limit shown original : Nat) :
    strLength (truncationNotice name limit shown original) = frame name limit original + Settle.digits shown := by
  have around := strLength_around ("[truncated: " ++ name ++ " result exceeded " ++ toString limit ++ " bytes; showing ")
    (" of " ++ toString original ++ " bytes]") shown
  simp only [← String.append_assoc] at around
  exact around

theorem frame_le (name : String) (limit original : Nat) :
    frame name limit original ≤ strLength name + Settle.digits limit + Settle.digits original + 128 := by
  have first : strLength "[truncated: " = 12 := strLength_ofList _
  have second : strLength " result exceeded " = 17 := strLength_ofList _
  have third : strLength " bytes; showing " = 16 := strLength_ofList _
  have fourth : strLength " of " = 4 := strLength_ofList _
  have fifth : strLength " bytes]" = 7 := strLength_ofList _
  have zero : Settle.digits 0 = 1 := rfl
  unfold frame truncationNotice
  simp only [strLength_append, strLength_toString, first, second, third, fourth, fifth, zero]
  omega

/-- The notice behind a text. -/
def behind (name : String) (limit shown original : Nat) : String :=
  "\n\n" ++ truncationNotice name limit shown original

theorem strLength_behind (name : String) (limit shown original : Nat) :
    strLength (behind name limit shown original) = frame name limit original + 2 + Settle.digits shown := by
  have breaks : strLength "\n\n" = 2 := by decide
  rw [behind, strLength_append, strLength_truncationNotice, breaks]
  omega

/-! ### The beginning of a text -/

/-- The loop of `truncated_prefix_with_notice`, in as many rounds. -/
def prefixWithNoticeFrom (name content : String) (limit : Nat) : Nat → Nat → Option String
  | 0, _ => none
  | rounds + 1, cap =>
    let kept := trimEndMatches (utf8Prefix content cap) '\n'
    let notice := behind name limit (strLength kept) (strLength content)
    if limit ≤ strLength notice then some (utf8Prefix content limit)
    else
      let available := limit - strLength notice
      if strLength kept ≤ available then some (kept ++ notice)
      else prefixWithNoticeFrom name content limit rounds available

def truncatedPrefixWithNotice (name content : String) (limit initialCap : Nat) : Option String :=
  prefixWithNoticeFrom name content limit (initialCap + 1) initialCap

/-- The loop of `truncate_text`, in as many rounds. -/
def truncateTextFrom (name content : String) (limit : Nat) : Nat → Option Nat → Nat → Option String
  | 0, _, _ => none
  | rounds + 1, previous, shown =>
    let notice := behind name limit shown (strLength content)
    -- the notice alone would be too long
    if limit ≤ strLength notice then some (utf8Prefix content limit)
    else
      let kept := utf8Prefix content (limit - strLength notice)
      if strLength kept = shown ∨ previous = some (strLength kept) then
        truncatedPrefixWithNotice name content limit (strLength kept)
      else truncateTextFrom name content limit rounds (some shown) (strLength kept)

def truncateText (name content : String) (limit : Nat) : String :=
  if strLength content ≤ limit then content
  else (truncateTextFrom name content limit (limit + 2) none limit).getD ""

/-! ### It keeps its limit -/

section Text

variable {name content text : String} {limit : Nat}

theorem truncateText_short (short : strLength content ≤ limit) : truncateText name content limit = content := if_pos short

theorem prefixWithNoticeFrom_le {rounds cap : Nat}
    (ended : prefixWithNoticeFrom name content limit rounds cap = some text) :
    strLength text ≤ limit := by
  induction rounds generalizing cap with
  | zero => cases ended
  | succ rounds ih =>
    unfold prefixWithNoticeFrom at ended
    dsimp only at ended
    split at ended
    · obtain rfl := Option.some.inj ended
      exact utf8Prefix_le content limit
    · split at ended
      · obtain rfl := Option.some.inj ended
        rw [strLength_append]
        omega
      · exact ih ended

theorem truncateTextFrom_le {rounds shown : Nat} {previous : Option Nat}
    (ended : truncateTextFrom name content limit rounds previous shown = some text) : strLength text ≤ limit := by
  induction rounds generalizing previous shown with
  | zero => cases ended
  | succ rounds ih =>
    unfold truncateTextFrom at ended
    dsimp only at ended
    split at ended
    · obtain rfl := Option.some.inj ended
      exact utf8Prefix_le content limit
    · split at ended
      · exact prefixWithNoticeFrom_le ended
      · exact ih ended

/-- **A text is cut to its limit.** -/
theorem truncateText_le (name content : String) (limit : Nat) : strLength (truncateText name content limit) ≤ limit := by
  unfold truncateText
  split
  · assumption
  · cases ended : truncateTextFrom name content limit (limit + 2) none limit with
    | none => exact Nat.zero_le _
    | some text => exact truncateTextFrom_le ended

theorem truncateText_le_length (name content : String) (limit : Nat) :
    strLength (truncateText name content limit) ≤ strLength content := by
  by_cases short : strLength content ≤ limit
  · rw [truncateText_short short]
  · have within := truncateText_le name content limit
    omega

theorem truncateText_idempotent (name content : String) (limit : Nat) :
    truncateText name (truncateText name content limit) limit = truncateText name content limit :=
  truncateText_short (truncateText_le name content limit)

/-! ### Its loops end -/

theorem prefixWithNoticeFrom_ends {rounds cap : Nat} (enough : cap < rounds) :
    ∃ text, prefixWithNoticeFrom name content limit rounds cap = some text := by
  induction rounds generalizing cap with
  | zero => omega
  | succ rounds ih =>
    unfold prefixWithNoticeFrom
    dsimp only
    split
    · exact ⟨_, rfl⟩
    · split
      · exact ⟨_, rfl⟩
      · rename_i large
        have trimmed := strLength_trimEndMatches_le (utf8Prefix content cap) '\n'
        have bounded := utf8Prefix_le content cap
        exact ih (by omega)

/-- What is shown beside the notice of a number. -/
def shownBeside (name content : String) (limit shown : Nat) : Nat :=
  strLength (utf8Prefix content (limit - strLength (behind name limit shown (strLength content))))

theorem shownBeside_anti {shown other : Nat} (le : shown ≤ other) :
    shownBeside name content limit other ≤ shownBeside name content limit shown := by
  refine utf8Prefix_mono content ?_
  rw [strLength_behind, strLength_behind]
  have digits := Settle.digits_mono le
  omega

theorem shownBeside_le (shown : Nat) : shownBeside name content limit shown ≤ limit :=
  Nat.le_trans (utf8Prefix_le _ _) (Nat.sub_le _ _)

theorem truncateTextFrom_swings {rounds previous shown : Nat}
    (swings : Settle.Swings (shownBeside name content limit) previous shown)
    (enough : Settle.gap previous shown < rounds) :
    ∃ text, truncateTextFrom name content limit rounds (some previous) shown = some text := by
  induction rounds generalizing previous shown with
  | zero => omega
  | succ rounds ih =>
    unfold truncateTextFrom
    dsimp only
    split
    · exact ⟨_, rfl⟩
    · split
      · exact prefixWithNoticeFrom_ends (Nat.lt_succ_self _)
      · rename_i moves
        have next : shownBeside name content limit shown ≠ previous :=
          fun same => moves (.inr (congrArg some same.symm))
        have closer := swings.closer next
        exact ih (swings.step shownBeside_anti) (Nat.lt_of_lt_of_le closer (Nat.le_of_lt_succ enough))

/-- **The loop of `truncate_text` ends.** -/
theorem truncateTextFrom_ends (name content : String) (limit : Nat) :
    ∃ text, truncateTextFrom name content limit (limit + 2) none limit = some text := by
  unfold truncateTextFrom
  dsimp only
  split
  · exact ⟨_, rfl⟩
  · split
    · exact prefixWithNoticeFrom_ends (Nat.lt_succ_self _)
    · have below := @shownBeside_le name content limit limit
      refine truncateTextFrom_swings (Settle.Swings.begins shownBeside_anti shownBeside_le) ?_
      show Settle.gap limit (shownBeside name content limit limit) < limit + 1
      unfold Settle.gap
      omega

/-! ### What a notice states -/

theorem trimEndMatches_part (text : String) (character : Char) : ∃ rest, text = trimEndMatches text character ++ rest := by
  have whole := List.takeWhile_append_dropWhile (p := (· = character)) (l := text.toList.reverse)
  refine ⟨String.ofList (text.toList.reverse.takeWhile (· = character)).reverse, String.toList_inj.mp ?_⟩
  rw [String.toList_append, trimEndMatches, String.toList_ofList, String.toList_ofList, ← List.reverse_append, whole,
    List.reverse_reverse]

/-- A text is the beginning of another one, alone or before a notice that states its length. -/
def Truthful (name content : String) (limit : Nat) (text : String) : Prop :=
  ∃ kept rest, content = kept ++ rest ∧
    (text = kept ∨ text = kept ++ behind name limit (strLength kept) (strLength content))

theorem prefixWithNoticeFrom_truthful {rounds cap : Nat}
    (ended : prefixWithNoticeFrom name content limit rounds cap = some text) : Truthful name content limit text := by
  induction rounds generalizing cap with
  | zero => cases ended
  | succ rounds ih =>
    unfold prefixWithNoticeFrom at ended
    dsimp only at ended
    split at ended
    · obtain rfl := Option.some.inj ended
      obtain ⟨rest, whole⟩ := utf8Prefix_split content limit
      exact ⟨_, rest, whole, .inl rfl⟩
    · split at ended
      · obtain rfl := Option.some.inj ended
        obtain ⟨rest, whole⟩ := utf8Prefix_split content cap
        obtain ⟨breaks, trimmed⟩ := trimEndMatches_part (utf8Prefix content cap) '\n'
        refine ⟨_, breaks ++ rest, ?_, .inr rfl⟩
        rw [← String.append_assoc, ← trimmed]
        exact whole
      · exact ih ended

theorem truncateTextFrom_truthful {rounds shown : Nat} {previous : Option Nat}
    (ended : truncateTextFrom name content limit rounds previous shown = some text) :
    Truthful name content limit text := by
  induction rounds generalizing previous shown with
  | zero => cases ended
  | succ rounds ih =>
    unfold truncateTextFrom at ended
    dsimp only at ended
    split at ended
    · obtain rfl := Option.some.inj ended
      obtain ⟨rest, whole⟩ := utf8Prefix_split content limit
      exact ⟨_, rest, whole, .inl rfl⟩
    · split at ended
      · exact prefixWithNoticeFrom_truthful ended
      · exact ih ended

/-- **A text that is cut is a beginning of the whole, within the limit, and its notice states how much is shown.** -/
theorem truncateText_cut (name : String) {content : String} {limit : Nat} (long : limit < strLength content) :
    ∃ text, (∃ rounds, truncateTextFrom name content limit rounds none limit = some text) ∧
      truncateText name content limit = text ∧ strLength text ≤ limit ∧ Truthful name content limit text := by
  obtain ⟨text, ended⟩ := truncateTextFrom_ends name content limit
  refine ⟨text, ⟨_, ended⟩, ?_, truncateTextFrom_le ended, truncateTextFrom_truthful ended⟩
  rw [truncateText, if_neg (Nat.not_le.mpr long), ended, Option.getD_some]

/-- Ninety bytes, in one line. -/
def sampleOutput : String := String.ofList (List.replicate 90 'x')

theorem truncateText_cut_read :
    truncateText "Read" sampleOutput 80 =
      "xxxxxxxxxxxx\n\n[truncated: Read result exceeded 80 bytes; showing 12 of 90 bytes]" ∧
    ∃ text,
      (∃ rounds, truncateTextFrom "Read" sampleOutput 80 rounds none 80 = some text) ∧
      truncateText "Read" sampleOutput 80 = text ∧ strLength text ≤ 80 ∧
        Truthful "Read" sampleOutput 80 text := by
  have length : strLength sampleOutput = 90 := strLength_replicate 'x' (by decide) 90
  have long : 80 < strLength sampleOutput := by omega
  exact ⟨by decide +kernel, truncateText_cut "Read" long⟩

end Text

/-! ### The beginning and the end of a text -/

/-- The `notice` of `truncate_edges`. -/
def edgesNotice (name : String) (limit shown original : Nat) : String :=
  "\n\n[truncated: " ++ name ++ " result exceeded " ++ toString limit ++ " bytes; omitted middle; showing " ++
    toString shown ++ " of " ++ toString original ++ " bytes]\n\n"

/-- The loop of `truncate_edges`, in as many rounds. -/
def truncateEdgesFrom (name content : String) (limit : Nat) : Nat → Nat → Option String
  | 0, _ => none
  | rounds + 1, shown =>
    let notice := edgesNotice name limit shown (strLength content)
    let available := limit - strLength notice
    let head := utf8Prefix content (available / 2)
    let tail := utf8Suffix content (available - strLength head)
    let nextShown := strLength head + strLength tail
    if nextShown = shown then some (head ++ notice ++ tail) else truncateEdgesFrom name content limit rounds nextShown

/-- `truncate_edges`. It ends in its second round where the gate calls it (`truncateEdgesFrom_ends`). -/
def truncateEdges (name content : String) (limit : Nat) : String :=
  if strLength content ≤ limit then content else (truncateEdgesFrom name content limit 2 limit).getD ""

section Edges

variable {name content text : String} {limit : Nat}

/-- What the notice costs but for the number of bytes that are shown. -/
def edgesFrame (name : String) (limit original : Nat) : Nat := strLength (edgesNotice name limit 0 original) - 1

theorem strLength_edgesNotice (name : String) (limit shown original : Nat) :
    strLength (edgesNotice name limit shown original) = edgesFrame name limit original + Settle.digits shown :=
  strLength_middleNotice name limit shown original

theorem edgesFrame_le (name : String) (limit original : Nat) :
    edgesFrame name limit original ≤ strLength name + Settle.digits limit + Settle.digits original + 128 := by
  show middleFrame name limit original ≤ _
  rw [middleFrame_eq]
  omega

/-- **The loop of `truncate_edges` ends in its second round, within its limit.** -/
theorem truncateEdgesFrom_ends (listed : limit ∈ limits) (named : strLength name ≤ 1024)
    (small : strLength content < 2 ^ 64) (long : limit < strLength content) :
    ∃ text, truncateEdgesFrom name content limit 2 limit = some text ∧ strLength text ≤ limit := by
  obtain ⟨few, large, -, many⟩ := limits_wide limit listed
  have frame := edgesFrame_le name limit (strLength content)
  have original : Settle.digits (strLength content) ≤ 20 := (Settle.digits_le_iff (by decide)).mpr (by omega)
  -- the first round shows a number of as many digits, and the second one the same
  have cost := strLength_edgesNotice name limit limit (strLength content)
  set available := limit - strLength (edgesNotice name limit limit (strLength content)) with havailable
  set head := utf8Prefix content (available / 2) with hhead
  set tail := utf8Suffix content (available - strLength head) with htail
  have within : strLength head + strLength tail ≤ available := ends_le content available
  have front : available / 2 < strLength head + 4 := utf8Prefix_near (by omega)
  have back : available - strLength head < strLength tail + 4 := utf8Suffix_near (by omega)
  have digits : Settle.digits (strLength head + strLength tail) = Settle.digits limit :=
    digits_steady listed (by omega) (by omega)
  have same := strLength_edgesNotice name limit (strLength head + strLength tail) (strLength content)
  rw [digits, ← cost] at same
  have moves : strLength head + strLength tail ≠ limit := by omega
  refine ⟨head ++ edgesNotice name limit (strLength head + strLength tail) (strLength content) ++ tail, ?_, ?_⟩
  · simp only [truncateEdgesFrom, ← havailable, ← hhead, ← htail, moves, if_false, same, if_true]
  · simp only [strLength_append, same]
    omega

theorem truncateEdges_le (listed : limit ∈ limits) (named : strLength name ≤ 1024) (small : strLength content < 2 ^ 64) :
    strLength (truncateEdges name content limit) ≤ limit := by
  unfold truncateEdges
  split
  · assumption
  · rename_i long
    obtain ⟨text, ended, bounded⟩ := truncateEdgesFrom_ends listed named small (Nat.not_le.mp long)
    rwa [ended, Option.getD_some]

theorem truncateEdges_idempotent (listed : limit ∈ limits) (named : strLength name ≤ 1024)
    (small : strLength content < 2 ^ 64) :
    truncateEdges name (truncateEdges name content limit) limit = truncateEdges name content limit :=
  if_pos (truncateEdges_le listed named small)

end Edges

end Byok.CardGate
