/-
**The summary that goes into its slot.** `carry_forward_summary` and `fit_summary_slot_to_tokens` of
`server/src/run/compaction.rs`.

* `carryForwardSummary` — an earlier summary and the newest one below it.
* `fitSummarySlotToTokens` — the end of that which a bisection finds to fit.
* `fitSummarySlotToTokens_iff` — where it has the newest summary whole: the lengths tested on the way fit.
-/

import Byok.Library.Bisect
import Byok.Model.Text
import Byok.Run.Compaction

namespace Byok.Summary

open Library List

/-! ### Carrying a summary forward -/

def earlierCompactedHeading : String := "## Earlier Compacted Context (Historical)"

def earlierCompactedNotice : String := "Status, Next Action, and In Flight entries in this section may be obsolete."

def currentCompactedHeading : String := "## Current Compacted Context (Authoritative)"

def currentCompactedNotice : String := "This newest section supersedes earlier status and next-action entries."

def carriedSummaryLimitChars : Nat := 64000

/-- `chars().count()`. -/
def charCount (text : String) : Nat := text.toList.length

/-- `chars().skip(count).collect()`. -/
def skipChars (text : String) (count : Nat) : String := String.ofList (text.toList.drop count)

/-- The notice of `bound_carried_summary`. -/
def carriedNotice (omitted : Nat) : String :=
  "[Earlier handover text omitted from the active slot after the " ++ toString carriedSummaryLimitChars ++
    "-character limit; recover older detail from the Archived History paths below. Omitted characters: " ++
    toString omitted ++ ".]\n\n"

def boundCarriedSummary (summary : String) : String :=
  let total := charCount summary
  if total ≤ carriedSummaryLimitChars then summary
  else
    let notice := carriedNotice (total - carriedSummaryLimitChars)
    let keep := carriedSummaryLimitChars - charCount notice
    notice ++ skipChars summary (total - keep)

def carryForwardSummary (previous : Option String) (current : String) : String :=
  let current := trim current
  match (previous.map trim).filter (· ≠ "") with
  | none => current
  | some previous =>
    if previous = current then current
    else
      boundCarriedSummary (earlierCompactedHeading ++ "\n" ++ earlierCompactedNotice ++ "\n" ++ previous ++ "\n\n" ++
        currentCompactedHeading ++ "\n" ++ currentCompactedNotice ++ "\n" ++ current)

/-! ### Fitting the slot -/

section Fit

variable (toJson : Value → String)

def summarySlotTokens (summary : String) : Nat :=
  match projectMessages [summaryMessage "summary:budget" summary] with
  | .ok messages => estimateProjectedMessagesTokens toJson messages
  | .error _ => maxTokens

/-- The notice of `bounded_summary_tail`. -/
def omittedNotice (omitted : Nat) : String :=
  "[Earlier handover text omitted to fit the active context window; recover older detail from the Archived History paths below. Omitted characters: " ++
    toString omitted ++ ".]\n\n"

/-- The `tail` of `bounded_summary_tail`. -/
def summaryTail (summary : String) (keep : Nat) : String := skipChars summary (charCount summary - keep)

def boundedSummaryTail (summary : String) (keep : Nat) : String :=
  omittedNotice (charCount summary - keep) ++ summaryTail summary keep

/-- The test of the bisection. -/
def tailFits (summary : String) (maxTokens keep : Nat) : Bool :=
  summarySlotTokens toJson (boundedSummaryTail summary keep) ≤ maxTokens

def fitSummarySlotToTokens (summary : String) (maxTokens : Nat) : String :=
  if trim summary = "" ∨ summarySlotTokens toJson summary ≤ maxTokens then summary
  else boundedSummaryTail summary (bisect (tailFits toJson summary maxTokens) 0 (charCount summary))

end Fit

/-! ### The kept end -/

section Tail

variable {summary delta : String} {keep other : Nat}

theorem toList_skipChars (text : String) (count : Nat) : (skipChars text count).toList = text.toList.drop count :=
  String.toList_ofList

theorem summaryTail_suffix (summary : String) (keep : Nat) : (summaryTail summary keep).toList <:+ summary.toList := by
  rw [summaryTail, toList_skipChars]
  exact drop_suffix _ _

theorem suffix_summaryTail_iff (inside : keep ≤ charCount summary) :
    delta.toList <:+ (summaryTail summary keep).toList ↔ delta.toList <:+ summary.toList ∧ charCount delta ≤ keep := by
  have length : (summaryTail summary keep).toList.length = keep := by
    rw [summaryTail, toList_skipChars, length_drop, charCount]
    unfold charCount at inside
    omega
  constructor
  · intro ends
    exact ⟨ends.trans (summaryTail_suffix summary keep), length ▸ ends.length_le⟩
  · rintro ⟨ends, short⟩
    exact suffix_of_suffix_length_le ends (summaryTail_suffix summary keep) (by rw [length]; exact short)

theorem boundedSummaryTail_inj (inside : keep ≤ charCount summary) (inside' : other ≤ charCount summary)
    (same : boundedSummaryTail summary keep = boundedSummaryTail summary other) : keep = other := by
  have lists := congrArg String.toList same
  unfold boundedSummaryTail omittedNotice at lists
  simp only [String.toList_append, append_assoc] at lists
  have numbers := number_split (by decide : '.'.isDigit = false) (append_cancel_left lists)
  omega

end Tail

/-! ### A blank text -/

section Blank

theorem mem_trim {text : String} {character : Char} (listed : character ∈ text.toList)
    (solid : isWhitespace character = false) : character ∈ (trim text).toList := by
  have stays {list : List Char} (listed : character ∈ list) : character ∈ list.dropWhile isWhitespace := by
    rw [← takeWhile_append_dropWhile (p := isWhitespace) (l := list)] at listed
    refine (mem_append.mp listed).resolve_left fun front => ?_
    rw [mem_takeWhile_imp front] at solid
    cases solid
  rw [trim, String.toList_ofList, mem_reverse]
  exact stays (mem_reverse.mpr (stays listed))

theorem trim_blank {text : String} (blank : trim (trim text) = "") : trim text = "" := by
  have none : ∀ character ∈ text.toList, isWhitespace character = true := by
    intro character listed
    by_contra solid
    rw [Bool.not_eq_true] at solid
    have stays := mem_trim (mem_trim listed solid) solid
    rw [blank] at stays
    exact absurd stays not_mem_nil
  rw [trim, dropWhile_eq_nil_iff.mpr none]
  rfl

theorem trim_ne_empty {text : String} {character : Char} (listed : character ∈ text.toList)
    (solid : isWhitespace character = false) : trim text ≠ "" := by
  intro blank
  have stays := mem_trim listed solid
  rw [blank] at stays
  exact absurd stays not_mem_nil

theorem boundCarriedSummary_solid {summary : String} (heading : '#' ∈ summary.toList) :
    trim (boundCarriedSummary summary) ≠ "" := by
  have bracket : '[' ∈ "[Earlier handover text omitted from the active slot after the ".toList := by decide
  unfold boundCarriedSummary carriedNotice
  simp only
  split
  · exact trim_ne_empty heading (by decide)
  · refine trim_ne_empty (?_ : '[' ∈ _) (by decide)
    simp only [String.toList_append, mem_append, bracket, true_or]

theorem carryForwardSummary_blank {previous : Option String} {current : String}
    (blank : trim (carryForwardSummary previous current) = "") : carryForwardSummary previous current = "" := by
  have heading : '#' ∈ earlierCompactedHeading.toList := by decide
  unfold carryForwardSummary at blank ⊢
  cases kept : (previous.map trim).filter (· ≠ "") with
  | none =>
    rw [kept] at blank
    exact trim_blank blank
  | some previous =>
    rw [kept] at blank
    simp only at blank ⊢
    split
    · rename_i same
      rw [if_pos same] at blank
      exact trim_blank blank
    · rename_i differs
      rw [if_neg differs] at blank
      refine absurd blank (boundCarriedSummary_solid ?_)
      simp only [String.toList_append, mem_append, heading, true_or]

end Blank

/-! ### The price of a slot -/

section Price

variable (toJson : Value → String)

/-- The price of a slot by the characters of its summary. -/
def slotTokens (summary : List Char) : Nat :=
  min (8 + scriptTokens ("<conversation_summary>\n".toList ++ summary ++ "\n</conversation_summary>".toList)) maxTokens

theorem summarySlotTokens_eq (summary : String) : summarySlotTokens toJson summary = slotTokens summary.toList := by
  have text : (trim ("<conversation_summary>\n" ++ summary ++ "\n</conversation_summary>")).toList =
      "<conversation_summary>\n".toList ++ summary.toList ++ "\n</conversation_summary>".toList := by
    have between : (trim (String.ofList ("<conversation_summary>\n".toList ++ summary.toList ++
        "\n</conversation_summary>".toList))).toList =
          "<conversation_summary>\n".toList.dropWhile isWhitespace ++ summary.toList ++
            ("\n</conversation_summary>".toList.reverse.dropWhile isWhitespace).reverse :=
      trim_between summary.toList ⟨'<', by decide, by decide⟩ ⟨'<', by decide, by decide⟩
    rw [show "<conversation_summary>\n".toList.dropWhile isWhitespace = "<conversation_summary>\n".toList by decide,
      show ("\n</conversation_summary>".toList.reverse.dropWhile isWhitespace).reverse = "\n</conversation_summary>".toList
        by decide, ← String.toList_append, ← String.toList_append, String.ofList_toList, String.toList_append,
      String.toList_append] at between
    exact between
  have projected : projectMessages [summaryMessage "summary:budget" summary] =
      .ok [projectMessage (summaryMessage "summary:budget" summary)] := by
    rw [projectMessages_single rfl, projectMessages]
    rfl
  have solid : "<conversation_summary>\n".toList ++ summary.toList ++ "\n</conversation_summary>".toList ≠ [] := by
    rw [append_assoc]
    exact append_ne_nil_of_left_ne_nil (by decide) _
  rw [summarySlotTokens, projected]
  simp only [estimateProjectedMessagesTokens, sumTokens_eq, map_cons, map_nil, sum_cons, sum_nil,
    estimateMessageTokens, projectMessage, summaryMessage, estimatePartsTokens, estimatePartTokens, estimateTextTokens, text,
    solid, if_false, saturatingAdd_eq, slotTokens]
  omega

theorem slotTokens_mono {summary more : List Char} (part : summary.Sublist more) : slotTokens summary ≤ slotTokens more := by
  have part := ((List.Sublist.refl "<conversation_summary>\n".toList).append part).append
    (List.Sublist.refl "\n</conversation_summary>".toList)
  have price {fewer more : Nat} (le : fewer ≤ more) (unit : Nat) : divCeil fewer unit ≤ divCeil more unit :=
    Nat.div_le_div_right (by omega)
  have ascii : countScript .ascii _ ≤ countScript .ascii _ := part.countP_le
  have cjk : countScript .cjk _ ≤ countScript .cjk _ := part.countP_le
  have other : countScript .other _ ≤ countScript .other _ := part.countP_le
  have breaks := part.count_le '\n'
  have ascii := price ascii 4
  have cjk := price cjk 2
  have other := price other 2
  simp only [slotTokens, scriptTokens, saturatingAdd_eq]
  omega

theorem summarySlotTokens_empty_le : summarySlotTokens toJson "" ≤ summarySlotTokens toJson (boundedSummaryTail "" 0) := by
  rw [summarySlotTokens_eq, summarySlotTokens_eq, show "".toList = [] from String.toList_ofList]
  exact slotTokens_mono (nil_sublist _)

end Price

/-! ### What the fit is for -/

section Fitted

variable (toJson : Value → String)

/-- The text is returned as it is: it is blank, or within its budget. -/
def Whole (carried : String) (maxTokens : Nat) : Prop := trim carried = "" ∨ summarySlotTokens toJson carried ≤ maxTokens

/-- A kept length whose end has the newest summary whole. -/
def HasDelta (carried delta : String) (keep : Nat) : Prop :=
  keep ≤ charCount carried ∧ delta.toList <:+ (summaryTail carried keep).toList

/-- What `fit_summary_slot_to_tokens` is for: the text ends in a suffix of the carried one; it is within the budget
whenever the notice alone is; and it has the newest summary whole whenever a notice and an end with it are within the
budget. -/
structure Fitted (carried delta : String) (maxTokens : Nat) (fitted : String) : Prop where
  shape : (Whole toJson carried maxTokens ∧ fitted = carried) ∨
    ∃ keep ≤ charCount carried, fitted = boundedSummaryTail carried keep
  within : summarySlotTokens toJson (boundedSummaryTail carried 0) ≤ maxTokens →
    summarySlotTokens toJson fitted ≤ maxTokens
  newest : (∃ keep, HasDelta carried delta keep ∧ summarySlotTokens toJson (boundedSummaryTail carried keep) ≤ maxTokens) →
    (Whole toJson carried maxTokens ∧ fitted = carried) ∨
      ∃ keep, HasDelta carried delta keep ∧ fitted = boundedSummaryTail carried keep

variable {toJson} {carried delta : String} {maxTokens : Nat}

/-- **The newest summary stays whole where the text need not be cut, where no end with it fits, or where the lengths that
are tested on the way to it fit.** -/
theorem fitSummarySlotToTokens_fitted_iff (blank : trim carried = "" → carried = "") :
    Fitted toJson carried delta maxTokens (fitSummarySlotToTokens toJson carried maxTokens) ↔
      Whole toJson carried maxTokens ∨
      (¬ ∃ keep, HasDelta carried delta keep ∧ tailFits toJson carried maxTokens keep = true) ∨
      Clear (tailFits toJson carried maxTokens) (charCount delta) (midpoints 0 (charCount carried) (charCount delta)) := by
  by_cases whole : Whole toJson carried maxTokens
  · have same : fitSummarySlotToTokens toJson carried maxTokens = carried := if_pos whole
    rw [same]
    refine iff_of_true ⟨.inl ⟨whole, rfl⟩, fun notice => ?_, fun _ => .inl ⟨whole, rfl⟩⟩ (.inl whole)
    rcases whole with none | within
    · obtain rfl := blank none
      exact (summarySlotTokens_empty_le toJson).trans notice
    · exact within
  · have cut : fitSummarySlotToTokens toJson carried maxTokens =
        boundedSummaryTail carried (bisect (tailFits toJson carried maxTokens) 0 (charCount carried)) := if_neg whole
    have inside : bisect (tailFits toJson carried maxTokens) 0 (charCount carried) ≤ charCount carried :=
      bisect_le (Nat.zero_le _)
    have reaches (ends : delta.toList <:+ carried.toList) :
        HasDelta carried delta (bisect (tailFits toJson carried maxTokens) 0 (charCount carried)) ↔
          Clear (tailFits toJson carried maxTokens) (charCount delta) (midpoints 0 (charCount carried) (charCount delta)) := by
      have shorter : charCount delta ≤ charCount carried := ends.length_le
      rw [HasDelta, suffix_summaryTail_iff inside, ← le_bisect_iff (Nat.zero_le _) shorter]
      exact ⟨fun has => has.2.2, fun far => ⟨inside, ends, far⟩⟩
    rw [cut, or_iff_right whole]
    constructor
    · intro fitted
      by_cases some : ∃ keep, HasDelta carried delta keep ∧ tailFits toJson carried maxTokens keep = true
      · refine .inr ?_
        obtain ⟨keep, has, fits⟩ := some
        rcases fitted.newest ⟨keep, has, by simpa [tailFits] using fits⟩ with ⟨whole', -⟩ | ⟨keep', has', same⟩
        · exact absurd whole' whole
        · have ends := ((suffix_summaryTail_iff has.1).mp has.2).1
          rw [← reaches ends, boundedSummaryTail_inj inside has'.1 same]
          exact has'
      · exact .inl some
    · intro clear
      refine ⟨.inr ⟨_, inside, rfl⟩, fun notice => ?_, fun ⟨keep, has, fits⟩ => .inr ⟨_, ?_, rfl⟩⟩
      · have found : tailFits toJson carried maxTokens (bisect (tailFits toJson carried maxTokens) 0 (charCount carried)) =
          true :=
          bisect_fits (by simpa [tailFits] using notice)
        simpa [tailFits] using found
      · have ends := ((suffix_summaryTail_iff has.1).mp has.2).1
        refine (reaches ends).mpr (clear.resolve_left fun none => ?_)
        exact none ⟨keep, has, by simpa [tailFits] using fits⟩

/-- **A carried summary is fitted as it should be under the same condition.** -/
theorem fitSummarySlotToTokens_iff (toJson : Value → String) (previous : Option String) (current : String) (maxTokens : Nat) :
    Fitted toJson (carryForwardSummary previous current) (trim current) maxTokens
        (fitSummarySlotToTokens toJson (carryForwardSummary previous current) maxTokens) ↔
      Whole toJson (carryForwardSummary previous current) maxTokens ∨
      (¬ ∃ keep, HasDelta (carryForwardSummary previous current) (trim current) keep ∧
        tailFits toJson (carryForwardSummary previous current) maxTokens keep = true) ∨
      Clear (tailFits toJson (carryForwardSummary previous current) maxTokens) (charCount (trim current))
        (midpoints 0 (charCount (carryForwardSummary previous current)) (charCount (trim current))) :=
  fitSummarySlotToTokens_fitted_iff carryForwardSummary_blank

end Fitted

/-! ### A newest summary that is cut -/

section Sample

theorem trim_solid (text : List Char) (solid : ∀ character ∈ text, isWhitespace character = false) :
    trim (String.ofList text) = String.ofList text := by
  have stays {list : List Char} (solid : ∀ character ∈ list, isWhitespace character = false) :
      list.dropWhile isWhitespace = list := by
    cases list with
    | nil => rfl
    | cons first rest => exact dropWhile_cons_of_neg (by simp [solid first mem_cons_self])
  rw [trim, String.toList_ofList, stays solid, stays fun character listed => solid character (mem_reverse.mp listed),
    reverse_reverse]

/-- What is carried forward of two texts, by their characters. -/
def carriedChars (earlier newest : List Char) : List Char :=
  earlierCompactedHeading.toList ++ "\n".toList ++ earlierCompactedNotice.toList ++ "\n".toList ++ earlier ++
    "\n\n".toList ++ currentCompactedHeading.toList ++ "\n".toList ++ currentCompactedNotice.toList ++ "\n".toList ++ newest

theorem carryForwardSummary_solid {earlier newest : List Char} (solid : ∀ character ∈ earlier, isWhitespace character = false)
    (solid' : ∀ character ∈ newest, isWhitespace character = false) (present : earlier ≠ []) (differs : earlier ≠ newest)
    (short : (carriedChars earlier newest).length ≤ carriedSummaryLimitChars) :
    carryForwardSummary (some (String.ofList earlier)) (String.ofList newest) = String.ofList (carriedChars earlier newest) := by
  have differs : String.ofList earlier ≠ String.ofList newest := fun same => by
    have lists := congrArg String.toList same
    rw [String.toList_ofList, String.toList_ofList] at lists
    exact differs lists
  have present : String.ofList earlier ≠ "" := fun none => by
    have lists := congrArg String.toList none
    rw [String.toList_ofList] at lists
    exact present lists
  have combined : earlierCompactedHeading ++ "\n" ++ earlierCompactedNotice ++ "\n" ++ String.ofList earlier ++ "\n\n" ++
      currentCompactedHeading ++ "\n" ++ currentCompactedNotice ++ "\n" ++ String.ofList newest =
        String.ofList (carriedChars earlier newest) := by
    rw [← String.toList_inj, String.toList_ofList]
    simp only [String.toList_append, String.toList_ofList, carriedChars]
  have short : charCount (String.ofList (carriedChars earlier newest)) ≤ carriedSummaryLimitChars := by
    rwa [charCount, String.toList_ofList]
  have kept : ((some (String.ofList earlier)).map trim).filter (· ≠ "") = some (String.ofList earlier) := by
    rw [Option.map_some, trim_solid earlier solid, Option.filter_some, if_pos (by simpa using present)]
  simp only [carryForwardSummary, kept, trim_solid newest solid', differs, if_false, combined, boundCarriedSummary, short,
    if_true]

theorem tailFits_chars (toJson : Value → String) (text : List Char) (maxTokens keep : Nat) :
    tailFits toJson (String.ofList text) maxTokens keep =
      decide (slotTokens ((omittedNotice (text.length - keep)).toList ++ text.drop (text.length - keep)) ≤ maxTokens) := by
  rw [tailFits, summarySlotTokens_eq, boundedSummaryTail, summaryTail, String.toList_append, toList_skipChars, charCount,
    String.toList_ofList]

/-- An earlier summary of so many characters. -/
def earlier : List Char := List.replicate 763 'p'

/-- The newest summary: two characters that cost half a token each, and some that cost a quarter. -/
def newest : List Char := ['中', '中'] ++ List.replicate 25 'a'

theorem earlier_solid : ∀ character ∈ earlier, isWhitespace character = false := by
  intro character listed
  rw [eq_of_mem_replicate listed]
  decide

theorem newest_solid : ∀ character ∈ newest, isWhitespace character = false := by
  intro character listed
  rcases mem_append.mp listed with wide | narrow
  · rw [eq_of_mem_replicate (n := 2) wide]
    decide
  · rw [eq_of_mem_replicate narrow]
    decide

/-- What is carried forward but for the newest summary and the line break before it. -/
def front : List Char :=
  earlierCompactedHeading.toList ++ "\n".toList ++ earlierCompactedNotice.toList ++ "\n".toList ++ earlier ++
    "\n\n".toList ++ currentCompactedHeading.toList ++ "\n".toList ++ currentCompactedNotice.toList

theorem carriedChars_eq : carriedChars earlier newest = front ++ ('\n' :: newest) := by
  rw [carriedChars, front, append_assoc _ "\n".toList newest]
  rfl

theorem front_length : front.length = 998 := by
  simp only [front, earlier, length_append, length_replicate]
  rw [show earlierCompactedHeading.toList = _ from String.toList_ofList,
    show earlierCompactedNotice.toList = _ from String.toList_ofList,
    show currentCompactedHeading.toList = _ from String.toList_ofList,
    show currentCompactedNotice.toList = _ from String.toList_ofList]
  rfl

theorem carriedChars_length : (carriedChars earlier newest).length = 1026 := by
  rw [carriedChars_eq, length_append, front_length]
  rfl

/-- The price of a slot by what it has of each script. -/
def slotPrice (ascii cjk other breaks : Nat) : Nat :=
  min (8 + max 1 (saturatingAdd (saturatingAdd (saturatingAdd (divCeil ascii 4) (divCeil cjk 2)) (divCeil other 2)) breaks))
    maxTokens

theorem slotPrice_mono {ascii ascii' cjk cjk' other other' breaks breaks' : Nat} (first : ascii ≤ ascii') (second : cjk ≤ cjk')
    (third : other ≤ other') (fourth : breaks ≤ breaks') :
    slotPrice ascii cjk other breaks ≤ slotPrice ascii' cjk' other' breaks' := by
  have ascii : divCeil ascii 4 ≤ divCeil ascii' 4 := Nat.div_le_div_right (by omega)
  have cjk : divCeil cjk 2 ≤ divCeil cjk' 2 := Nat.div_le_div_right (by omega)
  have other : divCeil other 2 ≤ divCeil other' 2 := Nat.div_le_div_right (by omega)
  simp only [slotPrice, saturatingAdd_eq]
  omega

theorem countScript_append (script : Script) (first second : List Char) :
    countScript script (first ++ second) = countScript script first + countScript script second :=
  countP_append

theorem count_toString (number : Nat) : countScript .ascii (toString number).toList = Settle.digits number ∧
    countScript .cjk (toString number).toList = 0 ∧ countScript .other (toString number).toList = 0 ∧
      (toString number).toList.count '\n' = 0 := by
  have digit : ∀ character ∈ (toString number).toList, scriptOf character = .ascii ∧ character ≠ '\n' := by
    intro character listed
    have digit : character.isDigit = true := by
      refine Nat.isDigit_of_mem_toDigits (b := 10) (by decide) (by decide) (n := number) ?_
      simpa [Nat.repr] using listed
    refine ⟨?_, ?_⟩
    · simp only [Char.isDigit, ge_iff_le, Bool.and_eq_true, decide_eq_true_eq] at digit
      have small : character.toNat < 128 := Nat.lt_of_le_of_lt (UInt32.le_iff_toNat_le.mp digit.2) (by decide)
      rw [scriptOf, isAscii, if_pos (by simpa using small)]
    · rintro rfl
      exact absurd digit (by decide)
  refine ⟨?_, ?_, ?_, ?_⟩
  · rw [countScript, countP_eq_length.mpr fun character listed => by simp [digit character listed],
      String.length_toList]
    rfl
  · exact countP_eq_zero.mpr fun character listed => by simp [digit character listed]
  · exact countP_eq_zero.mpr fun character listed => by simp [digit character listed]
  · exact count_eq_zero.mpr fun listed => (digit _ listed).2 rfl

/-- What the text around a number in a notice and around a slot has: no script but ASCII, and four line breaks. -/
theorem count_around (rest : List Char) (omitted : Nat) :
    (∀ script, countScript script ("<conversation_summary>\n".toList ++ ((omittedNotice omitted).toList ++ rest) ++
        "\n</conversation_summary>".toList) =
      (if script = .ascii then 196 else 0) + countScript script (toString omitted).toList + countScript script rest) ∧
    ("<conversation_summary>\n".toList ++ ((omittedNotice omitted).toList ++ rest) ++
        "\n</conversation_summary>".toList).count '\n' = 4 + (toString omitted).toList.count '\n' + rest.count '\n' := by
  have opening : ∀ script, countScript script "<conversation_summary>\n".toList = if script = .ascii then 23 else 0 := by
    rw [show "<conversation_summary>\n".toList = _ from String.toList_ofList]
    rintro (_ | _ | _) <;> decide
  have closing : ∀ script, countScript script "\n</conversation_summary>".toList = if script = .ascii then 24 else 0 := by
    rw [show "\n</conversation_summary>".toList = _ from String.toList_ofList]
    rintro (_ | _ | _) <;> decide
  have ending : ∀ script, countScript script ".]\n\n".toList = if script = .ascii then 4 else 0 := by
    rw [show ".]\n\n".toList = _ from String.toList_ofList]
    rintro (_ | _ | _) <;> decide
  obtain ⟨text, notice, counts, breaks⟩ : ∃ text : String, omittedNotice omitted = text ++ toString omitted ++ ".]\n\n" ∧
      (∀ script, countScript script text.toList = if script = .ascii then 145 else 0) ∧ text.toList.count '\n' = 0 :=
    ⟨_, rfl, by
      rw [show String.toList _ = _ from String.toList_ofList]
      exact ⟨by rintro (_ | _ | _) <;> decide +kernel, by decide⟩⟩
  constructor
  · intro script
    rw [notice, String.toList_append, String.toList_append]
    simp only [countScript_append, opening, closing, ending, counts]
    split <;> omega
  · rw [notice, String.toList_append, String.toList_append]
    simp only [count_append, breaks]
    have one : "<conversation_summary>\n".toList.count '\n' = 1 := by
      rw [show "<conversation_summary>\n".toList = _ from String.toList_ofList]
      decide
    have two : "\n</conversation_summary>".toList.count '\n' = 1 := by
      rw [show "\n</conversation_summary>".toList = _ from String.toList_ofList]
      decide
    have three : ".]\n\n".toList.count '\n' = 2 := by
      rw [show ".]\n\n".toList = _ from String.toList_ofList]
      decide
    omega

theorem slotTokens_notice (omitted : Nat) (rest : List Char) :
    slotTokens ((omittedNotice omitted).toList ++ rest) =
      slotPrice (196 + Settle.digits omitted + countScript .ascii rest) (countScript .cjk rest) (countScript .other rest)
        (4 + rest.count '\n') := by
  obtain ⟨ascii, cjk, other, breaks⟩ := count_toString omitted
  obtain ⟨scripts, lines⟩ := count_around rest omitted
  rw [slotTokens, scriptTokens, scripts, scripts, scripts, lines, ascii, cjk, other, breaks]
  simp [slotPrice]

theorem slotPrice_le_slotTokens (summary : List Char) : slotPrice (countScript .ascii summary) 0 0 0 ≤ slotTokens summary := by
  refine slotPrice_mono (List.Sublist.countP_le ?_) (Nat.zero_le _) (Nat.zero_le _) (Nat.zero_le _)
  rw [append_assoc]
  exact (sublist_append_left _ _).trans (sublist_append_right _ _)

theorem tailFits_sample (toJson : Value → String) (keep : Nat) :
    tailFits toJson (String.ofList (carriedChars earlier newest)) 69 keep =
      decide (slotTokens ((omittedNotice (1026 - keep)).toList ++ (carriedChars earlier newest).drop (1026 - keep)) ≤ 69) := by
  rw [tailFits_chars, carriedChars_length]

theorem tailFits_more (toJson : Value → String) {keep : Nat} (more : 28 ≤ keep) (few : keep ≤ 926) :
    tailFits toJson (String.ofList (carriedChars earlier newest)) 69 keep = false := by
  have digits : Settle.digits (1026 - keep) = 3 := by
    have least : 2 < Settle.digits (1026 - keep) := (Settle.lt_digits_iff (by decide)).mpr (by omega)
    have most : Settle.digits (1026 - keep) ≤ 3 := (Settle.digits_le_iff (by decide)).mpr (by omega)
    omega
  have part : ('\n' :: newest).Sublist ((carriedChars earlier newest).drop (1026 - keep)) := by
    have dropped : (carriedChars earlier newest).drop 998 = '\n' :: newest := by
      rw [carriedChars_eq, ← front_length, drop_left]
    rw [← dropped, show 998 = (1026 - keep) + (keep - 28) by omega, ← drop_drop]
    exact drop_sublist _ _
  have least : 69 < slotPrice (196 + 3 + countScript .ascii ('\n' :: newest)) (countScript .cjk ('\n' :: newest))
      (countScript .other ('\n' :: newest)) (4 + ('\n' :: newest).count '\n') := by decide
  rw [tailFits_sample, slotTokens_notice, digits, decide_eq_false_iff_not, Nat.not_le]
  refine Nat.lt_of_lt_of_le least (slotPrice_mono ?_ part.countP_le part.countP_le ?_)
  · exact Nat.add_le_add_left part.countP_le _
  · exact Nat.add_le_add_left (part.count_le _) _

theorem tailFits_newest (toJson : Value → String) :
    tailFits toJson (String.ofList (carriedChars earlier newest)) 69 27 = true ∧
      tailFits toJson (String.ofList (carriedChars earlier newest)) 69 26 = false := by
  have whole : (carriedChars earlier newest).drop 999 = newest := by
    rw [carriedChars_eq, show 999 = front.length + 1 by rw [front_length], drop_length_add_append]
    rfl
  have rest : (carriedChars earlier newest).drop 1000 = newest.drop 1 := by
    rw [show 1000 = 999 + 1 by rfl, ← drop_drop, whole]
  rw [tailFits_sample, tailFits_sample, show 1026 - 27 = 999 by rfl, show 1026 - 26 = 1000 by rfl, whole, rest,
    slotTokens_notice, slotTokens_notice]
  exact ⟨by decide, by decide⟩

theorem sample_not_clear {fits : Nat → Bool} (more : ∀ keep, 28 ≤ keep → keep ≤ 926 → fits keep = false)
    (missed : fits 26 = false) : ¬ Clear fits 27 (midpoints 0 1026 27) := by
  have path : midpoints 0 1026 27 = [513, 256, 128, 64, 32, 16, 24, 28, 26, 27] := by decide
  simp [path, Clear, more, missed]

/-- The newest summary is cut though a notice and an end with it are within the budget: the number of omitted characters
has a digit less there. -/
theorem fitSummarySlotToTokens_cuts :
    ¬ ∃ toJson : Value → String,
      Fitted toJson (carryForwardSummary (some (String.ofList earlier)) (String.ofList newest)) (trim (String.ofList newest)) 69
        (fitSummarySlotToTokens toJson (carryForwardSummary (some (String.ofList earlier)) (String.ofList newest)) 69) := by
  rintro ⟨toJson, fitted⟩
  have total : charCount (String.ofList (carriedChars earlier newest)) = 1026 := by
    rw [charCount, String.toList_ofList, carriedChars_length]
  have length : charCount (String.ofList newest) = 27 := by
    rw [charCount, String.toList_ofList]
    rfl
  obtain ⟨fits, missed⟩ := tailFits_newest toJson
  rw [fitSummarySlotToTokens_fitted_iff carryForwardSummary_blank,
    carryForwardSummary_solid earlier_solid newest_solid (by decide +kernel) (by decide +kernel)
      (by rw [carriedChars_length]; decide),
    trim_solid newest newest_solid, length, total] at fitted
  rcases fitted with whole | none | clear
  · rcases whole with blank | within
    · have heading : '#' ∈ (String.ofList (carriedChars earlier newest)).toList := by
        rw [String.toList_ofList, carriedChars_eq]
        exact mem_append_left _ (by decide +kernel)
      exact trim_ne_empty heading (by decide) blank
    · have part : earlier.Sublist (carriedChars earlier newest) := by
        rw [carriedChars]
        simp only [append_assoc]
        iterate 4 refine List.Sublist.trans ?_ (sublist_append_right _ _)
        exact sublist_append_left _ _
      have price := slotPrice_le_slotTokens (carriedChars earlier newest)
      have most : 69 < slotPrice (countScript .ascii earlier) 0 0 0 := by decide +kernel
      have longer : countScript .ascii earlier ≤ countScript .ascii (carriedChars earlier newest) := part.countP_le
      have more := slotPrice_mono longer (Nat.le_refl 0) (Nat.le_refl 0) (Nat.le_refl 0)
      rw [summarySlotTokens_eq, String.toList_ofList] at within
      omega
  · refine none ⟨27, ⟨by rw [total]; decide, ?_⟩, fits⟩
    rw [suffix_summaryTail_iff (by rw [total]; decide), String.toList_ofList, String.toList_ofList, length]
    exact ⟨suffix_append _ _, Nat.le_refl _⟩
  · exact sample_not_clear (fun _ => tailFits_more toJson) missed clear

end Sample

end Byok.Summary
