/-
**The end of an Anthropic request loses nothing of the history.**

* `Block.Sound` — a text of the history is not blank.
* `anthropicMarks_trim` — so trimming the last message takes no text of the history away.
* `AnthropicCarries.trim` — and what is left is what the items say, but for blanks behind the last texts.
-/

import Byok.Codex.HistoryContents
import Byok.Codex.HistoryTurns
import Mathlib.Data.List.TakeWhile

namespace Byok.Codex

open Library List

variable {bridge : Bridge} {owner : String} {messages : List AnthropicMessage} {block : Block}

/-! ### Sound blocks -/

/-- A block of the history that is a text is not blank. -/
def Block.Sound (block : Block) : Prop :=
  block.mark ≠ none → str block.value "type" = some "text" →
    ∃ text, block.value = textBlock text ∧ visible text = true

theorem BlockCarries.sound {entries : List (Value × Nat)} {role : String}
    (carries : BlockCarries bridge owner entries role block) : block.Sound := by
  intro marked isText
  cases carries with
  | user listed given seen => exact ⟨_, rfl, seen⟩
  | text listed given seen => exact ⟨_, rfl, seen⟩
  | replayed listed given member quiet => exact absurd rfl marked
  | reasoning listed given member thinks =>
    rw [isThinking, isText] at thinks
    exact absurd thinks (by decide)
  | image listed => exact absurd (Option.some.inj isText) (by decide)
  | call listed given read => exact absurd (Option.some.inj isText) (by decide)
  | result listed given sent => exact absurd (Option.some.inj isText) (by decide)

/-! ### The end of a request -/

theorem dropWhile_ne_nil {text : List Char} (seen : text.dropWhile isWhitespace ≠ []) :
    text.reverse.dropWhile isWhitespace ≠ [] := by
  rw [ne_eq, dropWhile_eq_nil_iff] at seen ⊢
  exact fun blank => seen fun character member => blank character (mem_reverse.mpr member)

theorem trimEnd_ne {text : String} (seen : visible text = true) : trimEnd text ≠ "" := by
  intro empty
  have start : text.toList.dropWhile isWhitespace ≠ [] := by
    intro none
    rw [visible, trim, none] at seen
    exact absurd seen (by decide)
  have chars := congrArg String.toList empty
  rw [trimEnd, String.toList_ofList, String.toList_empty, reverse_eq_nil_iff] at chars
  exact dropWhile_ne_nil start chars

theorem trimBlock_mark (block : Block) : (trimBlock block).mark = block.mark := by
  rw [trimBlock]
  split <;> rfl

theorem trimBlock_text (text : String) (mark : Option Mark) :
    str (trimBlock ⟨mark, textBlock text⟩).value "text" = some (trimEnd text) := rfl

theorem anthropicMarks_singleton (message : AnthropicMessage) :
    anthropicMarks [message] = message.items.filterMap Block.mark := by
  rw [anthropicMarks, flatMap_singleton]

theorem marks_trimMessage {message : AnthropicMessage} (sound : ∀ block ∈ message.items, block.Sound) :
    anthropicMarks (trimMessage message) = message.items.filterMap Block.mark := by
  rw [trimMessage]
  split
  · rename_i texts
    have kinds := all_eq_true.mp texts.2
    have same : ∀ blocks : List Block, (∀ block ∈ blocks, block ∈ message.items) →
        ((blocks.map trimBlock).filter fun block => (str block.value "text").any (· != "")).filterMap Block.mark =
          blocks.filterMap Block.mark := by
      intro blocks inside
      induction blocks with
      | nil => rfl
      | cons block blocks ih =>
        have rest := ih fun other member => inside other (mem_cons_of_mem _ member)
        have member := inside block mem_cons_self
        rw [map_cons, filter_cons]
        cases marked : block.mark with
        | none =>
          rw [filterMap_cons_none marked]
          split
          · rw [filterMap_cons_none ((trimBlock_mark block).trans marked)]
            exact rest
          · exact rest
        | some mark =>
          obtain ⟨text, value, seen⟩ := sound block member (by rw [marked]; exact Option.some_ne_none mark)
            (by simpa using kinds block member)
          have kept : (str (trimBlock block).value "text").any (· != "") = true := by
            have equal : block = ⟨block.mark, textBlock text⟩ := by rw [← value]
            rw [equal, trimBlock_text]
            simpa using trimEnd_ne seen
          rw [if_pos kept, filterMap_cons_some marked,
            filterMap_cons_some ((trimBlock_mark block).trans marked), rest]
    rw [← same message.items fun _ member => member]
    dsimp only
    split
    · rename_i empty
      rw [isEmpty_iff.mp empty]
      rfl
    · exact anthropicMarks_singleton _
  · exact anthropicMarks_singleton message

/-- **Trimming takes nothing of the history away.** -/
theorem anthropicMarks_trim (sound : ∀ block ∈ messages.flatMap Group.items, block.Sound) :
    anthropicMarks (trimTrailingAssistantPrefill messages) = anthropicMarks messages := by
  rw [trimTrailingAssistantPrefill]
  split
  · rename_i last found
    obtain ⟨front, rfl⟩ := getLast?_eq_some_iff.mp found
    have inside : ∀ block ∈ last.items, block.Sound := fun block member =>
      sound block (mem_flatMap.mpr ⟨last, mem_append_right _ mem_cons_self, member⟩)
    have split : ∀ other, anthropicMarks (front ++ other) = anthropicMarks front ++ anthropicMarks other :=
      fun other => flatMap_append
    rw [dropLast_concat, split, split, marks_trimMessage inside, anthropicMarks_singleton]
  · rfl

theorem anthropicMarks_dropEmpty (messages : List AnthropicMessage) :
    anthropicMarks (dropEmptyMessages messages) = anthropicMarks messages := by
  induction messages with
  | nil => rfl
  | cons message messages ih =>
    rw [dropEmptyMessages, filter_cons]
    split
    · rw [anthropicMarks, flatMap_cons, anthropicMarks, flatMap_cons]
      exact congrArg (_ ++ ·) ih
    · rename_i empty
      have none : message.items = [] := by simpa using empty
      rw [anthropicMarks, anthropicMarks, flatMap_cons, none]
      exact ih

/-! ### What is left is what the items say -/

/-- A text at the end of a request: the same one, without the blanks behind it. -/
structure Trims (original block : Block) : Prop where
  mark : block.mark = original.mark
  isText : str block.value "type" = some "text"
  text : str block.value "text" = (str original.value "text").map trimEnd

/-- What the messages of a request contain; at the end of the last message blanks may be missing. -/
structure RequestCarries (bridge : Bridge) (owner : String) (entries : List (Value × Nat))
    (messages : List AnthropicMessage) : Prop where
  blocks : ∀ message ∈ messages, ∀ block ∈ message.items, ∃ original,
    BlockCarries bridge owner entries message.key original ∧
      (block = original ∨ messages.getLast? = some message ∧ Trims original block)
  users : userTexts messages = entries.flatMap givenUserTexts

theorem get_setField (fields : List (String × Value)) (name : String) (field : Value) :
    (setField (.object fields) name field).get name = some field := by
  rw [setField]
  split
  · rename_i known
    rw [Value.get]
    induction fields with
    | nil => cases known
    | cons entry fields ih =>
      rw [map_cons]
      by_cases own : entry.1 = name
      · rw [if_pos own, find?_cons_of_pos (by simp)]
        rfl
      · rw [if_neg own, find?_cons_of_neg (by simpa using own)]
        exact ih (by simpa [own] using known)
  · rename_i unknown
    have none : fields.find? (fun entry => entry.1 = name) = none := by
      rw [find?_eq_none]
      intro entry member same
      exact unknown (any_eq_true.mpr ⟨entry, member, by simpa using same⟩)
    rw [Value.get, find?_append, none, Option.none_or, find?_cons_of_pos (by simp)]
    rfl

theorem get_setField_ne {name other : String} (differs : other ≠ name) (value field : Value) :
    (setField value name field).get other = value.get other := by
  cases value with
  | object fields =>
    rw [setField]
    split
    · rw [Value.get, Value.get]
      congr 1
      clear * - differs
      induction fields with
      | nil => rfl
      | cons entry fields ih =>
        rw [map_cons, find?_cons, find?_cons, ih]
        by_cases own : entry.1 = name
        · simp [own, differs.symm]
        · simp [own]
    · rw [Value.get, Value.get, find?_append, find?_cons_of_neg (by simpa using differs.symm), find?_nil,
        Option.or_none]
  | _ => rfl

theorem trimBlock_trims {block : Block} (isText : str block.value "type" = some "text")
    (kept : (str (trimBlock block).value "text").any (· != "") = true) : Trims block (trimBlock block) := by
  refine ⟨trimBlock_mark block, ?_, ?_⟩
  · rw [trimBlock]
    split
    · rw [str, get_setField_ne (by decide), ← str, isText]
    · exact isText
  · cases found : str block.value "text" with
    | none => simp [trimBlock, found] at kept
    | some text =>
      obtain ⟨fields, object⟩ : ∃ fields, block.value = .object fields := by
        cases known : block.value with
        | object fields => exact ⟨fields, rfl⟩
        | _ => rw [known] at found; cases found
      rw [trimBlock, found, object]
      dsimp only
      rw [str, get_setField]
      rfl

section Request

variable {entries : List (Value × Nat)} {role : String}

theorem mem_trimMessage {message trimmed : AnthropicMessage} (listed : trimmed ∈ trimMessage message) :
    trimMessage message = [trimmed] ∧ trimmed.key = message.key ∧
      ∀ block ∈ trimmed.items, ∃ original ∈ message.items, block = original ∨ Trims original block := by
  rw [trimMessage] at listed ⊢
  split at listed
  · rename_i texts
    rw [if_pos texts]
    dsimp only at listed ⊢
    split at listed
    · cases listed
    · rename_i filled
      obtain rfl := mem_singleton.mp listed
      refine ⟨if_neg filled, rfl, fun block member => ?_⟩
      obtain ⟨inside, kept⟩ := mem_filter.mp member
      obtain ⟨original, known, rfl⟩ := mem_map.mp inside
      have isText := all_eq_true.mp texts.2 original known
      exact ⟨original, known, .inr (trimBlock_trims (by simpa using isText) kept)⟩
  · rename_i others
    rw [if_neg others]
    obtain rfl := mem_singleton.mp listed
    exact ⟨rfl, rfl, fun block member => ⟨block, member, .inl rfl⟩⟩

theorem BlockCarries.not_user (carries : BlockCarries bridge owner entries role block) (other : role ≠ "user")
    (origin : Nat) : block.mark ≠ some (.user origin) := by
  cases carries <;> first | exact absurd rfl other | simp

theorem userText_none (other : ∀ origin, block.mark ≠ some (.user origin)) : block.userText? = none := by
  rw [Block.userText?]
  split
  · exact absurd ‹_› (other _)
  · rfl

theorem userTexts_append (front back : List AnthropicMessage) :
    userTexts (front ++ back) = userTexts front ++ userTexts back := by
  rw [userTexts, flatMap_append, filterMap_append]
  rfl

theorem userTexts_trimMessage {message : AnthropicMessage}
    (carries : ∀ block ∈ message.items, BlockCarries bridge owner entries message.key block) :
    userTexts (trimMessage message) = userTexts [message] := by
  by_cases texts : message.key = "assistant" ∧ message.items.all (fun block => str block.value "type" == some "text")
  · have other : message.key ≠ "user" := by
      rw [texts.1]
      decide
    have before : userTexts [message] = [] := by
      rw [userTexts, flatMap_singleton, filterMap_eq_nil_iff]
      exact fun block member => (carries block member).userText other
    have after : userTexts (trimMessage message) = [] := by
      rw [userTexts, filterMap_eq_nil_iff]
      intro block member
      obtain ⟨trimmed, listed, inside⟩ := mem_flatMap.mp member
      obtain ⟨-, -, each⟩ := mem_trimMessage listed
      obtain ⟨original, known, same⟩ := each block inside
      have marks : block.mark = original.mark := same.elim (congrArg Block.mark) Trims.mark
      exact userText_none fun origin => marks ▸ (carries original known).not_user other origin
    rw [before, after]
  · rw [trimMessage, if_neg texts]

/-- **What a request contains, is what the items say.** -/
theorem AnthropicCarries.trim (carries : AnthropicCarries bridge owner entries entries messages) :
    RequestCarries bridge owner entries (trimTrailingAssistantPrefill messages) := by
  rcases eq_nil_or_concat' messages with rfl | ⟨front, last, rfl⟩
  · exact ⟨fun _ none => absurd none not_mem_nil, carries.users⟩
  · have whole : trimTrailingAssistantPrefill (front ++ [last]) = front ++ trimMessage last := by
      rw [trimTrailingAssistantPrefill, getLast?_concat, dropLast_concat]
    obtain ⟨before, own⟩ := forall_mem_append.mp carries.blocks
    have ownBlocks := own last mem_cons_self
    rw [whole]
    refine ⟨fun message listed block member => ?_, ?_⟩
    · rcases mem_append.mp listed with early | late
      · exact ⟨block, before message early block member, .inl rfl⟩
      · obtain ⟨single, key, each⟩ := mem_trimMessage late
        obtain ⟨original, known, same⟩ := each block member
        refine ⟨original, key ▸ ownBlocks original known, same.imp_right fun trims => ⟨?_, trims⟩⟩
        rw [single, getLast?_concat]
    · rw [userTexts_append, userTexts_trimMessage ownBlocks, ← userTexts_append, carries.users]

theorem AnthropicCarries.dropEmpty {read : List (Value × Nat)}
    (carries : AnthropicCarries bridge owner entries read messages) :
    AnthropicCarries bridge owner entries read (dropEmptyMessages messages) := by
  refine ⟨fun message listed => carries.blocks message (mem_filter.mp listed).1, ?_⟩
  rw [← carries.users, userTexts, userTexts]
  congr 1
  clear carries
  induction messages with
  | nil => rfl
  | cons message messages ih =>
    rw [dropEmptyMessages, filter_cons, flatMap_cons]
    split
    · rw [flatMap_cons]
      exact congrArg (message.items ++ ·) ih
    · rename_i empty
      have none : message.items = [] := by simpa using empty
      rw [none]
      exact ih

end Request

end Byok.Codex
