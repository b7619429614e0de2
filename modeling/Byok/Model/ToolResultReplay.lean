/-
**The parts of a tool result that are cut before its whole is.** `replace_image_data`, `compact_shell_fields` and
`truncate_middle` of `server/src/model/tool_result_replay.rs`.

* `truncateMiddle` — both ends of a text, around a notice; its loop ends within two rounds.
* `compactShellFields`, `replaceImageData` — the walks through a JSON value.
* `compact_nested_iff` — where they do what they are for: no array has two items that they would change.
-/

import Byok.Model.Message
import Byok.Model.NestedTexts
import Byok.Model.Text

namespace Byok.Replay

open Library

def kib : Nat := 1024

/-! ### Both ends of a text -/

/-- The `notice` of `truncate_middle`. -/
def middleNotice (name : String) (limit shown original : Nat) : String :=
  "\n\n[truncated: " ++ name ++ " result exceeded " ++ toString limit ++ " bytes; omitted middle; showing " ++
    toString shown ++ " of " ++ toString original ++ " bytes]\n\n"

/-- The loop of `truncate_middle`, in as many rounds. -/
def truncateMiddleFrom (name content : String) (limit : Nat) : Nat → Nat → Option String
  | 0, _ => none
  | rounds + 1, shown =>
    let original := strLength content
    let notice := middleNotice name limit shown original
    let available := limit - strLength notice
    let head := utf8Prefix content (available / 2)
    let tail := utf8Suffix content (available - strLength head)
    let nextShown := strLength head + strLength tail
    let nextNotice := middleNotice name limit nextShown original
    let output := head ++ nextNotice ++ tail
    if strLength output ≤ limit ∨ nextNotice = notice then some output
    else truncateMiddleFrom name content limit rounds nextShown

section Middle

variable {name content : String} {limit : Nat}

/-- What a notice costs but for the number of bytes that are shown. -/
def middleFrame (name : String) (limit original : Nat) : Nat := strLength (middleNotice name limit 0 original) - 1

theorem strLength_middleNotice (name : String) (limit shown original : Nat) :
    strLength (middleNotice name limit shown original) = middleFrame name limit original + Settle.digits shown := by
  have around := strLength_around ("\n\n[truncated: " ++ name ++ " result exceeded " ++ toString limit ++
    " bytes; omitted middle; showing ") (" of " ++ toString original ++ " bytes]\n\n") shown
  have unfolded (shown : Nat) : middleNotice name limit shown original = "\n\n[truncated: " ++ name ++ " result exceeded " ++
      toString limit ++ " bytes; omitted middle; showing " ++ toString shown ++
      (" of " ++ toString original ++ " bytes]\n\n") := by
    unfold middleNotice
    simp only [String.append_assoc]
  rwa [← unfolded, ← unfolded] at around

theorem middleFrame_eq (name : String) (limit original : Nat) :
    middleFrame name limit original = strLength name + Settle.digits limit + Settle.digits original + 76 := by
  have first : strLength "\n\n[truncated: " = 14 := strLength_ofList _
  have second : strLength " result exceeded " = 17 := strLength_ofList _
  have third : strLength " bytes; omitted middle; showing " = 32 := strLength_ofList _
  have fourth : strLength " of " = 4 := strLength_ofList _
  have fifth : strLength " bytes]\n\n" = 9 := strLength_ofList _
  have zero : Settle.digits 0 = 1 := rfl
  unfold middleFrame middleNotice
  simp only [strLength_append, strLength_toString, first, second, third, fourth, fifth, zero]
  omega

theorem ends_le (content : String) (available : Nat) :
    strLength (utf8Prefix content (available / 2)) +
      strLength (utf8Suffix content (available - strLength (utf8Prefix content (available / 2)))) ≤ available := by
  have head := utf8Prefix_le content (available / 2)
  have tail := utf8Suffix_le content (available - strLength (utf8Prefix content (available / 2)))
  omega

/-- The text that a round of the loop makes. -/
def middleAround (name content : String) (limit available : Nat) : String :=
  let head := utf8Prefix content (available / 2)
  let tail := utf8Suffix content (available - strLength head)
  head ++ middleNotice name limit (strLength head + strLength tail) (strLength content) ++ tail

theorem strLength_middleAround_le (name content : String) (limit available : Nat) :
    strLength (middleAround name content limit available) ≤
      available + (middleFrame name limit (strLength content) + Settle.digits available) := by
  have ends := ends_le content available
  have digits := Settle.digits_mono ends
  simp only [middleAround, strLength_append, strLength_middleNotice]
  omega

theorem middleAround_zero (name content : String) (limit : Nat) :
    middleAround name content limit 0 = middleNotice name limit 0 (strLength content) := by
  have head : utf8Prefix content 0 = "" := eq_empty_of_strLength (Nat.le_zero.mp (utf8Prefix_le content 0))
  have tail : utf8Suffix content 0 = "" := eq_empty_of_strLength (Nat.le_zero.mp (utf8Suffix_le content 0))
  simp only [middleAround, Nat.zero_div, Nat.zero_sub, head, tail]
  simp [strLength]

theorem truncateMiddleFrom_succ (rounds shown : Nat) :
    truncateMiddleFrom name content limit (rounds + 1) shown =
      let available := limit - strLength (middleNotice name limit shown (strLength content))
      let kept := strLength (utf8Prefix content (available / 2)) +
        strLength (utf8Suffix content (available - strLength (utf8Prefix content (available / 2))))
      if strLength (middleAround name content limit available) ≤ limit ∨
          middleNotice name limit kept (strLength content) = middleNotice name limit shown (strLength content) then
        some (middleAround name content limit available)
      else truncateMiddleFrom name content limit rounds kept := rfl

/-- **The loop ends in its first round where the notice is within the limit, and in its second one at the latest.** -/
theorem truncateMiddleFrom_limit (name content : String) (limit more : Nat) :
    truncateMiddleFrom name content limit (more + 2) limit =
      some (middleAround name content limit (limit - strLength (middleNotice name limit limit (strLength content)))) := by
  have frame := strLength_middleNotice name limit limit (strLength content)
  rcases Nat.lt_or_ge limit (strLength (middleNotice name limit limit (strLength content))) with tight | wide
  · have none : limit - strLength (middleNotice name limit limit (strLength content)) = 0 := by omega
    have nothing : strLength (utf8Prefix content (0 / 2)) +
        strLength (utf8Suffix content (0 - strLength (utf8Prefix content (0 / 2)))) = 0 := Nat.le_zero.mp (ends_le content 0)
    rw [truncateMiddleFrom_succ]
    simp only [none, middleAround_zero, nothing]
    split
    · rfl
    · rename_i missed
      -- the notice that shows nothing is over the limit too, and states itself
      have beyond : limit - strLength (middleNotice name limit 0 (strLength content)) = 0 := by
        rw [not_or] at missed
        omega
      rw [truncateMiddleFrom_succ]
      simp only [beyond, middleAround_zero, nothing, or_true, if_true]
  · have fits : strLength (middleAround name content limit
        (limit - strLength (middleNotice name limit limit (strLength content)))) ≤ limit := by
      have le := strLength_middleAround_le name content limit
        (limit - strLength (middleNotice name limit limit (strLength content)))
      have digits := Settle.digits_mono (Nat.sub_le limit (strLength (middleNotice name limit limit (strLength content))))
      omega
    rw [truncateMiddleFrom_succ]
    simp only [fits, true_or, if_true]

/-- `truncate_middle`. Two rounds of its loop are enough, whatever comes in. -/
def truncateMiddle (name content : String) (limit : Nat) : String :=
  if strLength content ≤ limit then content
  else (truncateMiddleFrom name content limit 2 limit).get (by rw [truncateMiddleFrom_limit name content limit 0]; rfl)

theorem truncateMiddleFrom_eq (long : limit < strLength content) (more : Nat) :
    truncateMiddleFrom name content limit (more + 2) limit = some (truncateMiddle name content limit) := by
  rw [truncateMiddle, if_neg (Nat.not_le.mpr long), Option.some_get, truncateMiddleFrom_limit, truncateMiddleFrom_limit]

theorem truncateMiddle_short (name : String) (short : strLength content ≤ limit) : truncateMiddle name content limit = content :=
  if_pos short

theorem truncateMiddle_long (name : String) (long : limit < strLength content) : truncateMiddle name content limit =
    middleAround name content limit (limit - strLength (middleNotice name limit limit (strLength content))) := by
  have ended : truncateMiddleFrom name content limit (0 + 2) limit = some (truncateMiddle name content limit) :=
    truncateMiddleFrom_eq long 0
  rw [truncateMiddleFrom_limit] at ended
  exact (Option.some.inj ended).symm

theorem truncateMiddle_le (content : String) (fits : strLength (middleNotice name limit limit (strLength content)) ≤ limit) :
    strLength (truncateMiddle name content limit) ≤ limit := by
  rcases Nat.lt_or_ge limit (strLength content) with long | short
  · rw [truncateMiddle_long name long]
    have frame := strLength_middleNotice name limit limit (strLength content)
    have le := strLength_middleAround_le name content limit
      (limit - strLength (middleNotice name limit limit (strLength content)))
    have digits := Settle.digits_mono (Nat.sub_le limit (strLength (middleNotice name limit limit (strLength content))))
    omega
  · rwa [truncateMiddle_short name short]

end Middle

/-! ### Shell streams -/

/-- The limits of `compact_shell_fields`. -/
def shellLimit (key : String) : Option Nat :=
  if key = "stdout" ∨ key = "stderr" then some (16 * kib)
  else if key = "interleaved_output" ∨ key = "interleavedOutput" then some (32 * kib)
  else none

/-- What `compact_shell_fields` makes of a text under a key, where it is another. -/
def compactShellText (key text : String) : Option String :=
  (shellLimit key).bind fun limit =>
    let next := truncateMiddle ("Shell " ++ key) text limit
    if next ≠ text then some next else none

theorem shellLimit_eq {key : String} {limit : Nat} (found : shellLimit key = some limit) :
    (key = "stdout" ∨ key = "stderr") ∧ limit = 16 * kib ∨
      (key = "interleaved_output" ∨ key = "interleavedOutput") ∧ limit = 32 * kib := by
  unfold shellLimit at found
  split at found
  · exact .inl ⟨‹_›, (Option.some.inj found).symm⟩
  · split at found
    · exact .inr ⟨‹_›, (Option.some.inj found).symm⟩
    · cases found

theorem shellFrame_le {key : String} {limit : Nat} (found : shellLimit key = some limit) :
    strLength ("Shell " ++ key) ≤ 24 ∧ 16 * kib ≤ limit ∧ Settle.digits limit = 5 := by
  have named : strLength key ≤ 18 := by
    obtain ⟨rfl | rfl, -⟩ | ⟨rfl | rfl, -⟩ := shellLimit_eq found
    · exact (show strLength "stdout" = 6 from strLength_ofList _).trans_le (by decide)
    · exact (show strLength "stderr" = 6 from strLength_ofList _).trans_le (by decide)
    · exact (show strLength "interleaved_output" = 18 from strLength_ofList _).trans_le (by decide)
    · exact (show strLength "interleavedOutput" = 17 from strLength_ofList _).trans_le (by decide)
  have shell : strLength "Shell " = 6 := strLength_ofList _
  refine ⟨?_, ?_⟩
  · rw [strLength_append, shell]
    omega
  · obtain ⟨-, rfl⟩ | ⟨-, rfl⟩ := shellLimit_eq found <;> decide

def compactShellFields (value : Value) : Value × Bool := rewriteTexts compactShellText value

/-! ### Images -/

/-- What the texts that stand for images begin with. -/
def omittedImage : String := "[base64 image data omitted from replay; bytes="

/-- The omission marker for so many bytes. -/
def imageMarker (bytes : Nat) : String := omittedImage ++ toString bytes ++ "]"

/-- What `replace_image_data` makes of a text under a key. -/
def replaceImageText (key data : String) : Option String :=
  if key = "image_data" ∨ key = "imageData" then
    if startsWith data omittedImage then none else some (imageMarker (strLength (trim data)))
  else none

def replaceImageData (value : Value) : Value × Bool := rewriteTexts replaceImageText value

/-! ### Where the walks do what they are for -/

section Nested

/-- A text of a shell stream that is over its limit. -/
def overlong (field : String × String) : Bool := (shellLimit field.1).any fun limit => limit < strLength field.2

theorem due_compactShellText : due compactShellText = overlong := by
  funext ⟨key, text⟩
  unfold due overlong compactShellText
  cases found : shellLimit key with
  | none => rfl
  | some limit =>
    obtain ⟨frame, large, digits⟩ := shellFrame_le found
    rcases Nat.lt_or_ge limit (strLength text) with long | short
    · have differs : truncateMiddle ("Shell " ++ key) text limit ≠ text := by
        intro same
        have cost := strLength_middleNotice ("Shell " ++ key) limit limit (strLength text)
        rcases Nat.lt_or_ge limit (strLength (middleNotice ("Shell " ++ key) limit limit (strLength text))) with tight | fits
        · -- nothing but the notice, and that is not so long for the number of digits
          have available : limit - strLength (middleNotice ("Shell " ++ key) limit limit (strLength text)) = 0 := by omega
          rw [truncateMiddle_long _ long, available, middleAround_zero] at same
          have size := congrArg strLength same
          rw [strLength_middleNotice, show Settle.digits 0 = 1 from rfl] at size
          have split := middleFrame_eq ("Shell " ++ key) limit (strLength text)
          have few := Settle.digits_add_le (show 2 * 1000 + 2 ≤ strLength text by unfold kib at large; omega)
          omega
        · have le := truncateMiddle_le text fits
          rw [same] at le
          omega
      simp [differs, long]
    · simp [truncateMiddle_short _ short, short]

/-- A text of a shell stream is within its limit. -/
def ShellRight (field : String × String) : Prop := ∀ limit ∈ shellLimit field.1, strLength field.2 ≤ limit

theorem shellRight_iff {field : String × String} : ShellRight field ↔ overlong field = false := by
  unfold ShellRight overlong
  cases shellLimit field.1 <;> simp

theorem compactShellText_right {key text rewritten : String} (small : strLength text < 2 ^ 64)
    (becomes : compactShellText key text = some rewritten) : ShellRight (key, rewritten) := by
  intro limit found
  obtain ⟨limit', found', becomes⟩ := Option.bind_eq_some_iff.mp becomes
  obtain rfl : limit = limit' := Option.some.inj (found.symm.trans found')
  obtain ⟨frame, large, digits⟩ := shellFrame_le found'
  have fits : strLength (middleNotice ("Shell " ++ key) limit limit (strLength text)) ≤ limit := by
    have cost := strLength_middleNotice ("Shell " ++ key) limit limit (strLength text)
    have split := middleFrame_eq ("Shell " ++ key) limit (strLength text)
    have few : Settle.digits (strLength text) ≤ 20 := (Settle.digits_le_iff (by decide)).mpr (by omega)
    unfold kib at large
    omega
  simp only [Option.ite_none_right_eq_some, Option.some.injEq] at becomes
  obtain rfl := becomes.2
  exact truncateMiddle_le text fits

theorem compactShellText_mends {fields : List (String × String)} (small : ∀ field ∈ fields, strLength field.2 < 2 ^ 64) :
    Mends compactShellText ShellRight fields where
  mended field listed _ becomes := compactShellText_right (small field listed) becomes
  stable field listed rewritten becomes := by
    have right := compactShellText_right (small field listed) becomes
    rw [shellRight_iff, ← due_compactShellText] at right
    simpa [due] using right

/-- A text under a key of images is an omission marker. -/
def ImageRight (field : String × String) : Prop :=
  field.1 = "image_data" ∨ field.1 = "imageData" → ∃ bytes, field.2 = imageMarker bytes

theorem replaceImageText_mends (fields : List (String × String)) : Mends replaceImageText ImageRight fields where
  mended field _ rewritten becomes image := by
    rw [replaceImageText, if_pos image] at becomes
    split at becomes
    · cases becomes
    · exact ⟨_, (Option.some.inj becomes).symm⟩
  stable field _ rewritten becomes := by
    unfold replaceImageText at becomes ⊢
    split at becomes
    · split at becomes
      · cases becomes
      · obtain rfl := Option.some.inj becomes
        rw [if_pos ‹_›, if_pos]
        unfold imageMarker
        rw [String.append_assoc]
        exact startsWith_append _ _
    · cases becomes

/-- A text under a key of images that does not begin as an omission marker does. -/
def unmarked (field : String × String) : Bool :=
  (field.1 = "image_data" || field.1 = "imageData") && !startsWith field.2 omittedImage

theorem due_replaceImageText : due replaceImageText = unmarked := by
  funext ⟨key, data⟩
  unfold due unmarked replaceImageText
  by_cases image : key = "image_data" ∨ key = "imageData"
  · cases marked : startsWith data omittedImage <;> simp [image]
  · rw [if_neg image]
    rw [not_or] at image
    simp [image.1, image.2]

/-- **Shell streams are cut and images are left out everywhere where no array has two items that need it, and no text only
begins as an omission marker does.** -/
theorem compact_nested_iff {value : Value} (small : ∀ field ∈ value.texts, strLength field.2 < 2 ^ 64) :
    (Fulfilled compactShellFields compactShellText ShellRight value ↔ ∀ items ∈ value.arrays, AtMostOne overlong items) ∧
    (Fulfilled replaceImageData replaceImageText ImageRight value ↔
      (∀ field ∈ value.texts, ImageRight field ∨ unmarked field = true) ∧
        ∀ items ∈ value.arrays, AtMostOne unmarked items) := by
  constructor
  · rw [show compactShellFields = rewriteTexts compactShellText from rfl, fulfilled_iff (compactShellText_mends small),
      due_compactShellText, and_iff_right]
    intro field _
    rw [shellRight_iff]
    exact (Bool.eq_false_or_eq_true _).symm
  · rw [show replaceImageData = rewriteTexts replaceImageText from rfl, fulfilled_iff (replaceImageText_mends _),
      due_replaceImageText]

/-- Two results of images side by side. -/
def sampleImages : Value :=
  .array [.object [("image_data", .string "AAAA")], .object [("image_data", .string "BBBB")]]

theorem compact_nested_iff_images :
    (Fulfilled compactShellFields compactShellText ShellRight sampleImages ↔
      ∀ items ∈ sampleImages.arrays, AtMostOne overlong items) ∧
    (Fulfilled replaceImageData replaceImageText ImageRight sampleImages ↔
      (∀ field ∈ sampleImages.texts, ImageRight field ∨ unmarked field = true) ∧
        ∀ items ∈ sampleImages.arrays, AtMostOne unmarked items) :=
  compact_nested_iff (by decide +kernel)

/-- The second image of an array stays. -/
theorem replaceImageData_passes :
    replaceImageData sampleImages =
      (.array [.object [("image_data", .string (imageMarker 4))], .object [("image_data", .string "BBBB")]], true) ∧
    ¬ Fulfilled replaceImageData replaceImageText ImageRight sampleImages := by
  have walked : replaceImageData sampleImages =
      (.array [.object [("image_data", .string (imageMarker 4))], .object [("image_data", .string "BBBB")]], true) := rfl
  refine ⟨walked, fun fulfilled => ?_⟩
  have again := congrArg Prod.snd fulfilled.again
  rw [walked] at again
  exact absurd again (by decide +kernel)

end Nested

end Byok.Replay
