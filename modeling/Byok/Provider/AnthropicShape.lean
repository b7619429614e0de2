/-
**Requests to Anthropic have the shape that the API asks for.**

* `HistoryBlock`, `historyBlocks` — what a history has, and how each piece is sent (`HistoryBlock.value`).
* `anthropicMessages_eq` — the messages are the pieces of the history, neighbours of one role joined.
* `answered_collect` — every call is answered in the message behind it, before anything else there.
* `request_shape` — the rules of messages and of thinking.
-/

import Byok.Provider.Anthropic

namespace Byok.Anthropic

open Library List

variable {base64 : Base64}

/-! ### What a history has -/

/-- A piece of a history: a block that is replayed, a text or an image, a call, or a result. -/
inductive HistoryBlock where
  | replayed (block : Value)
  | part (part : ContentPart)
  | call (call : ToolCallContent)
  | result (result : ToolResultContent)

/-- How a text or an image is sent. -/
def partValue (base64 : Base64) : ContentPart → Value
  | .text text => .object [("type", .string "text"), ("text", .string text)]
  | .image mimeType data => .object [("type", .string "image"), ("source", .object [("type", .string "base64"),
      ("media_type", .string mimeType), ("data", .string (base64.encode data))])]

/-- Parts without the empty texts. -/
def shownParts (parts : List ContentPart) : List ContentPart := parts.filter fun part => part ≠ .text ""

/-- How a piece is sent. -/
def HistoryBlock.value (base64 : Base64) : HistoryBlock → Value
  | .replayed block => block
  | .part shown => partValue base64 shown
  | .call called => .object [("type", .string "tool_use"), ("id", .string called.callId),
      ("name", .string called.name), ("input", called.arguments)]
  | .result given => .object ([("type", .string "tool_result"), ("tool_use_id", .string given.callId),
      ("content", if given.providerParts = [] then .string given.content
        else .array ((shownParts given.providerParts).map (partValue base64)))] ++
      if given.isError then [("is_error", .bool true)] else [])

/-- The blocks of a state that Anthropic left. -/
def replayed : Option ProviderReplayState → List Value
  | some ⟨"anthropic", value⟩ =>
    match value.get "blocks" with
    | some (.array blocks) => blocks
    | _ => []
  | _ => []

/-- The pieces of a message. -/
def historyBlocks (message : ProjectedMessage) : List HistoryBlock :=
  match message.content with
  | .parts parts => (shownParts parts).map .part
  | .toolResult result => [.result result]
  | .assistant text _ replayState calls =>
    (replayed replayState).map .replayed ++ (if text = "" then [] else [.part (.text text)]) ++ calls.map .call

/-- The role that they are sent under. -/
def sentRole (message : ProjectedMessage) : String :=
  match message.content with
  | .parts _ => if message.role = .assistant then "assistant" else "user"
  | .toolResult _ => "user"
  | .assistant .. => "assistant"

/-- A message by its pieces. -/
abbrev Pieces := Group String HistoryBlock

def pieces (message : ProjectedMessage) : Pieces := ⟨sentRole message, historyBlocks message⟩

/-! ### The messages are joined blocks -/

/-- The entries that are not empty. -/
def full {α : Type} (entries : List (Group String α)) : List (Group String α) :=
  entries.filter fun entry => !entry.items.isEmpty

theorem full_cons {α : Type} (entry : Group String α) (entries : List (Group String α)) :
    full (entry :: entries) = if entry.items = [] then full entries else entry :: full entries := by
  rw [full, filter_cons]
  by_cases empty : entry.items = []
  · rw [if_pos empty, if_neg (by simp [empty])]
    rfl
  · rw [if_neg empty, if_pos (by simp [empty])]
    rfl

theorem full_map {α β : Type} (f : α → β) (entries : List (Group String α)) :
    full (entries.map (Group.map f)) = (full entries).map (Group.map f) := by
  rw [full, full, filter_map]
  congr 1
  refine filter_congr fun entry _ => ?_
  simp

theorem keyed_full {α : Type} (entries : List (Group String α)) :
    (full entries).flatMap Group.keyed = entries.flatMap Group.keyed := by
  induction entries with
  | nil => rfl
  | cons entry entries ih =>
    rw [full_cons]
    split
    · rename_i empty
      rw [ih, flatMap_cons, Group.keyed, empty, map_nil, nil_append]
    · rw [flatMap_cons, flatMap_cons, ih]

theorem flatMap_full {α : Type} (entries : List (Group String α)) :
    (full entries).flatMap Group.items = entries.flatMap Group.items := by
  rw [← Group.flatMap_keyed, keyed_full, Group.flatMap_keyed]

theorem anthropicParts_eq {role : Role} {parts : List ContentPart} {blocks : List Value}
    (built : anthropicParts base64 role parts = .ok blocks) : blocks = (shownParts parts).map (partValue base64) := by
  induction parts generalizing blocks with
  | nil => exact (Except.ok.inj built).symm
  | cons part parts ih =>
    cases part with
    | text text =>
      obtain ⟨rest, tail, built⟩ := except_bind_eq_ok.mp built
      rw [← Except.ok.inj built, ih tail]
      by_cases empty : text = "" <;> simp [empty, shownParts, textBlock, partValue]
    | image mimeType data =>
      rw [anthropicParts] at built
      split at built
      · obtain ⟨rest, tail, built⟩ := except_bind_eq_ok.mp built
        rw [← Except.ok.inj built, ih tail]
        rfl
      · cases built

theorem replayBlocks_eq (replayState : Option ProviderReplayState) : replayBlocks replayState = replayed replayState := by
  cases replayState with
  | none => rfl
  | some state =>
    obtain ⟨providerKind, value⟩ := state
    rw [replayBlocks]
    by_cases own : providerKind = "anthropic"
    · subst own
      rw [if_pos rfl, replayed]
      cases value.get "blocks" with
      | none => rfl
      | some blocks => cases blocks <;> rfl
    · rw [if_neg own, replayed]
      intro value same
      simp only [Option.some.injEq, ProviderReplayState.mk.injEq] at same
      exact own same.1

theorem messageBlocks_eq {message : ProjectedMessage} {entry : AnthropicMessage}
    (built : messageBlocks base64 message = .ok entry) : entry = (pieces message).map (HistoryBlock.value base64) := by
  obtain ⟨messageId, role, content⟩ := message
  cases content with
  | parts parts =>
    obtain ⟨blocks, parted, rfl⟩ := except_map_eq_ok built
    have names : roleName role = if role = .assistant then "assistant" else "user" := by cases role <;> rfl
    simp only [pieces, Group.map, sentRole, historyBlocks, names, anthropicParts_eq parted, map_map]
    rfl
  | toolResult result =>
    obtain ⟨block, made, rfl⟩ := except_map_eq_ok built
    obtain ⟨content, found, equal⟩ := except_bind_eq_ok.mp made
    have shown : content = if result.providerParts = [] then .string result.content
        else .array ((shownParts result.providerParts).map (partValue base64)) := by
      rw [resultContent] at found
      split at found
      · rw [if_pos ‹_›, Except.ok.inj found]
      · obtain ⟨blocks, parted, rfl⟩ := except_map_eq_ok found
        rw [if_neg ‹_›, anthropicParts_eq parted]
    rw [← Except.ok.inj equal, shown]
    cases failed : result.isError <;> simp [pieces, Group.map, sentRole, historyBlocks, HistoryBlock.value, failed,
      Value.insertField]
  | assistant text thinking replayState calls =>
    rw [← Except.ok.inj built, replayBlocks_eq]
    by_cases empty : text = "" <;>
      simp [pieces, Group.map, sentRole, historyBlocks, HistoryBlock.value, partValue, textBlock, toolUseBlock, empty,
        Function.comp_def]

theorem pushMessages_eq {output final : List AnthropicMessage} {history : List ProjectedMessage}
    (built : pushMessages base64 output history = .ok final) :
    ∃ entries, history.mapM (messageBlocks base64) = .ok entries ∧
      final = (full entries).foldl Group.push output := by
  induction history generalizing output with
  | nil =>
    obtain rfl := Except.ok.inj built
    exact ⟨[], rfl, rfl⟩
  | cons message history ih =>
    rw [pushMessages] at built
    obtain ⟨entry, blocks, built⟩ := except_bind_eq_ok.mp built
    obtain ⟨entries, rest, equal⟩ := ih built
    refine ⟨entry :: entries, ?_, ?_⟩
    · rw [mapM_cons, blocks, except_ok_bind, rest]
      rfl
    · rw [equal, pushAnthropic, full_cons]
      by_cases empty : entry.content = []
      · rw [if_pos empty, if_pos empty]
      · rw [if_neg empty, if_neg empty, foldl_cons]

theorem mapM_messageBlocks {history : List ProjectedMessage} {entries : List AnthropicMessage}
    (mapped : history.mapM (messageBlocks base64) = .ok entries) :
    entries = (history.map pieces).map (Group.map (HistoryBlock.value base64)) := by
  have each := mapM_view id (fun message => (pieces message).map (HistoryBlock.value base64))
    (fun message _ entry built => messageBlocks_eq built) mapped
  rw [map_id] at each
  rw [each, map_map]
  rfl

/-- The messages by the pieces of the history. -/
def joinedPieces (history : List ProjectedMessage) : List Pieces := Group.collect (full (history.map pieces))

/-- **The messages are the pieces of the history**, neighbours of one role joined. -/
theorem anthropicMessages_eq {history : List ProjectedMessage} {output : List AnthropicMessage}
    (built : anthropicMessages base64 history = .ok output) :
    output = (joinedPieces history).map (Group.map (HistoryBlock.value base64)) := by
  obtain ⟨entries, mapped, equal⟩ := pushMessages_eq built
  rw [equal, Group.foldl_push, mapM_messageBlocks mapped, full_map, Group.collect_map]
  rfl

theorem flatMap_joinedPieces (history : List ProjectedMessage) :
    (joinedPieces history).flatMap Group.items = history.flatMap historyBlocks := by
  rw [joinedPieces, Group.flatMap_collect, flatMap_full, flatMap_map]
  rfl

theorem keyed_joinedPieces (history : List ProjectedMessage) :
    (joinedPieces history).flatMap Group.keyed =
      history.flatMap fun message => (historyBlocks message).map (sentRole message, ·) := by
  rw [joinedPieces, Group.keyed_collect, keyed_full, flatMap_map]
  rfl

/-! ### Calls and their answers -/

theorem assistant_ne_user : ("assistant" : String) ≠ "user" := by decide

/-- The piece is a text or an image. -/
def HistoryBlock.IsPart (piece : HistoryBlock) : Prop := ∃ part, piece = .part part

/-- A call is answered by a message of the user: its result is among those that come before texts and images. -/
def Answers (answer : Pieces) (call : ToolCallContent) : Prop :=
  answer.key = "user" ∧ ∃ (results : List ToolResultContent) (others : List HistoryBlock),
    answer.items = results.map .result ++ others ∧ (∀ piece ∈ others, piece.IsPart) ∧
      ∃ result ∈ results, result.callId = call.callId

/-- Every call is answered by the message behind it. -/
def CallsAnswered : List Pieces → Prop
  | [] => True
  | message :: messages =>
    (∀ call, .call call ∈ message.items → ∃ answer ∈ messages.head?, Answers answer call) ∧ CallsAnswered messages

/-- A user's message at the head only has texts and images: the results of a round come behind its calls. -/
def HeadPlain (messages : List Pieces) : Prop :=
  ∀ message ∈ messages.head?, message.key = "user" → ∀ piece ∈ message.items, piece.IsPart

theorem CallsAnswered.prepend {group : Pieces} {messages : List Pieces} (answered : CallsAnswered messages)
    (plain : ∀ call, .call call ∉ group.items) : CallsAnswered (Group.prepend group messages) := by
  cases messages with
  | nil => exact ⟨fun call member => absurd member (plain call), trivial⟩
  | cons next messages =>
    rw [Group.prepend]
    split
    · refine ⟨fun call member => ?_, answered.2⟩
      rcases mem_append.mp member with member | member
      · exact absurd member (plain call)
      · exact answered.1 call member
    · exact ⟨fun call member => absurd member (plain call), answered⟩

theorem HeadPlain.prepend {group : Pieces} {messages : List Pieces} (head : HeadPlain messages)
    (plain : group.key = "user" → ∀ piece ∈ group.items, piece.IsPart) :
    HeadPlain (Group.prepend group messages) := by
  cases messages with
  | nil =>
    intro message member user
    obtain rfl := Option.some.inj member
    exact plain user
  | cons next messages =>
    rw [Group.prepend]
    split
    · rename_i same
      intro message member user piece inside
      obtain rfl := Option.some.inj member
      rcases mem_append.mp inside with inside | inside
      · exact plain user piece inside
      · exact head next rfl (same.symm.trans user) piece inside
    · intro message member user
      obtain rfl := Option.some.inj member
      exact plain user

theorem foldr_results {results : List ToolResultContent} (some : results ≠ []) {messages : List Pieces}
    (answered : CallsAnswered messages) (head : HeadPlain messages) :
    ∃ others rest, (results.map fun result => (⟨"user", [.result result]⟩ : Pieces)).foldr Group.prepend messages =
        ⟨"user", results.map .result ++ others⟩ :: rest ∧ (∀ piece ∈ others, piece.IsPart) ∧
      CallsAnswered (⟨"user", results.map .result ++ others⟩ :: rest) := by
  induction results with
  | nil => exact absurd rfl some
  | cons result results ih =>
    have plain : ∀ call, HistoryBlock.call call ∉ [.result result] := fun call => by simp
    by_cases last : results = []
    · subst last
      have joined := @CallsAnswered.prepend ⟨"user", [.result result]⟩ _ answered plain
      show ∃ others rest, Group.prepend ⟨"user", [.result result]⟩ messages = _ ∧ _
      cases messages with
      | nil => exact ⟨[], [], by rw [append_nil]; rfl, by simp, by rw [append_nil]; exact joined⟩
      | cons next messages =>
        rw [Group.prepend] at joined ⊢
        by_cases same : "user" = next.key
        · rw [if_pos same] at joined ⊢
          exact ⟨next.items, messages, rfl, head next rfl same.symm, joined⟩
        · rw [if_neg same] at joined ⊢
          exact ⟨[], next :: messages, by rw [append_nil]; rfl, by simp, by rw [append_nil]; exact joined⟩
    · obtain ⟨others, rest, equal, apart, calls⟩ := ih last
      have joined := @CallsAnswered.prepend ⟨"user", [.result result]⟩ _ calls plain
      rw [Group.prepend, if_pos rfl] at joined
      refine ⟨others, rest, ?_, apart, joined⟩
      rw [map_cons, foldr_cons, equal, Group.prepend, if_pos rfl]
      rfl

theorem joinedPieces_cons (message : ProjectedMessage) (history : List ProjectedMessage) :
    joinedPieces (message :: history) =
      if historyBlocks message = [] then joinedPieces history
      else Group.prepend (pieces message) (joinedPieces history) := by
  rw [joinedPieces, map_cons, full_cons]
  split
  · rw [if_pos (show historyBlocks message = [] from ‹_›)]
    rfl
  · rw [if_neg (show ¬ historyBlocks message = [] from ‹_›)]
    rfl

theorem joinedPieces_plain {message : ProjectedMessage} {history : List ProjectedMessage}
    (answered : CallsAnswered (joinedPieces history) ∧ HeadPlain (joinedPieces history))
    (calls : ∀ call, .call call ∉ historyBlocks message)
    (parts : sentRole message = "user" → ∀ piece ∈ historyBlocks message, piece.IsPart) :
    CallsAnswered (joinedPieces (message :: history)) ∧ HeadPlain (joinedPieces (message :: history)) := by
  rw [joinedPieces_cons]
  split
  · exact answered
  · exact ⟨answered.1.prepend calls, answered.2.prepend parts⟩

theorem joinedPieces_results (results : List (String × ToolResultContent)) (history : List ProjectedMessage) :
    joinedPieces (results.map (fun entry => ⟨entry.1, .tool, .toolResult entry.2⟩) ++ history) =
      ((results.map Prod.snd).map fun result => (⟨"user", [.result result]⟩ : Pieces)).foldr Group.prepend
        (joinedPieces history) := by
  induction results with
  | nil => rfl
  | cons entry results ih =>
    have filled : historyBlocks ⟨entry.1, .tool, .toolResult entry.2⟩ ≠ [] := cons_ne_nil _ _
    rw [map_cons, cons_append, joinedPieces_cons, if_neg filled, ih]
    rfl

/-- **Every call is answered in the message behind it, before anything else there.** -/
theorem answered_collect {history : List ProjectedMessage} (answered : Answered history) :
    CallsAnswered (joinedPieces history) ∧ HeadPlain (joinedPieces history) := by
  induction answered with
  | nil => exact ⟨trivial, fun _ member => by cases member⟩
  | @parts messageId role parts rest more ih =>
    refine joinedPieces_plain ih (by simp [historyBlocks]) fun _ piece member => ?_
    obtain ⟨part, -, rfl⟩ := mem_map.mp member
    exact ⟨part, rfl⟩
  | @assistant messageId text thinking replayState rest more ih =>
    refine joinedPieces_plain ih (fun call => ?_) fun user => absurd user assistant_ne_user
    by_cases empty : text = "" <;> simp [historyBlocks, empty]
  | @round messageId text thinking replayState calls results rest called answers answered distinct more ih =>
    have some : results.map Prod.snd ≠ [] := by
      obtain ⟨call, listed⟩ := exists_mem_of_ne_nil _ called
      obtain ⟨entry, inside, -⟩ := mem_map.mp (answered call listed)
      exact ne_nil_of_mem (mem_map_of_mem inside)
    obtain ⟨others, last, joined, apart, follow⟩ := foldr_results some ih.1 ih.2
    have filled : historyBlocks ⟨messageId, .assistant, .assistant text thinking replayState calls⟩ ≠ [] := by
      simp [historyBlocks, called]
    have apart' : ¬ (pieces ⟨messageId, .assistant, .assistant text thinking replayState calls⟩).key = "user" :=
      assistant_ne_user
    rw [roundMessages, cons_append, joinedPieces_cons, if_neg filled, joinedPieces_results, joined, Group.prepend,
      if_neg apart']
    refine ⟨⟨fun call member => ?_, follow⟩, fun message member user => ?_⟩
    · have listed : call ∈ calls := by by_cases empty : text = "" <;> simpa [pieces, historyBlocks, empty] using member
      obtain ⟨entry, inside, same⟩ := mem_map.mp (answered call listed)
      exact ⟨_, rfl, rfl, results.map Prod.snd, others, rfl, apart, entry.2, mem_map_of_mem inside, same⟩
    · obtain rfl := Option.some.inj member
      exact absurd user assistant_ne_user

theorem CallsAnswered.split {before after : List Pieces} {message : Pieces}
    (answered : CallsAnswered (before ++ message :: after)) {call : ToolCallContent}
    (member : .call call ∈ message.items) : ∃ answer rest, after = answer :: rest ∧ Answers answer call := by
  induction before with
  | nil =>
    obtain ⟨answer, head, this⟩ := answered.1 call member
    cases after with
    | nil => cases head
    | cons next rest =>
      obtain rfl := Option.some.inj head
      exact ⟨next, rest, rfl, this⟩
  | cons first before ih => exact ih answered.2

/-! ### Calls and their answers, as they are sent -/

/-- The results of a message come before its other blocks. -/
def ResultsFirst (content : List Value) : Prop :=
  ∃ results others, content = results ++ others ∧ (∀ block ∈ results, isKind "tool_result" block = true) ∧
    ∀ block ∈ others, isKind "tool_result" block = false

/-- A call is answered by the message behind it. -/
def AnsweredBy (call : Value) (answer : AnthropicMessage) : Prop :=
  answer.role = "user" ∧ ResultsFirst answer.content ∧
    ∃ result ∈ answer.content, isKind "tool_result" result = true ∧
      result.get "tool_use_id" = call.get "id"

theorem isKind_part {kind : String} (text : kind ≠ "text") (image : kind ≠ "image") (part : ContentPart) :
    isKind kind (HistoryBlock.value base64 (.part part)) = false := by
  cases part with
  | text => simpa [isKind, HistoryBlock.value, partValue, Value.get, Value.asStr] using text.symm
  | image => simpa [isKind, HistoryBlock.value, partValue, Value.get, Value.asStr] using image.symm

theorem isKind_result (kind : String) (result : ToolResultContent) :
    isKind kind (HistoryBlock.value base64 (.result result)) = (("tool_result" : String) == kind) := by
  simp [isKind, HistoryBlock.value, Value.get, Value.asStr]

theorem Answers.sent {answer : Pieces} {call : ToolCallContent} (answers : Answers answer call) :
    AnsweredBy (HistoryBlock.value base64 (.call call)) (answer.map (HistoryBlock.value base64)) := by
  obtain ⟨user, results, others, items, parts, result, listed, same⟩ := answers
  have sent : (answer.map (HistoryBlock.value base64)).items =
      (results.map .result).map (HistoryBlock.value base64) ++ others.map (HistoryBlock.value base64) := by
    rw [Group.map_items, items, map_append]
  refine ⟨user, ⟨_, _, sent, fun block member => ?_, fun block member => ?_⟩,
    HistoryBlock.value base64 (.result result), ?_, ?_, ?_⟩
  · obtain ⟨piece, inside, rfl⟩ := mem_map.mp member
    obtain ⟨given, -, rfl⟩ := mem_map.mp inside
    rw [isKind_result]
    decide
  · obtain ⟨piece, inside, rfl⟩ := mem_map.mp member
    obtain ⟨part, rfl⟩ := parts piece inside
    exact isKind_part (by decide) (by decide) part
  · show _ ∈ (answer.map (HistoryBlock.value base64)).items
    rw [sent]
    exact mem_append_left _ (mem_map_of_mem (mem_map_of_mem listed))
  · rw [isKind_result]
    decide
  · simp [HistoryBlock.value, Value.get, same]

theorem piece_at {history : List ProjectedMessage} {before after : List Pieces} {message : Pieces}
    (split : joinedPieces history = before ++ message :: after) {front back : List HistoryBlock} {piece : HistoryBlock}
    (inside : message.items = front ++ piece :: back) :
    (history.flatMap historyBlocks)[(before.flatMap Group.items).length + front.length]? = some piece := by
  have whole : history.flatMap historyBlocks =
      (before.flatMap Group.items ++ front) ++ piece :: (back ++ after.flatMap Group.items) := by
    rw [← flatMap_joinedPieces, split, flatMap_append, flatMap_cons, inside]
    simp
  rw [whole, ← length_append, getElem?_append_right (Nat.le_refl _), Nat.sub_self]
  rfl

theorem tool_answered {history : List ProjectedMessage} (answered : Answered history) {messages : List AnthropicMessage}
    (built : anthropicMessages base64 history = .ok messages) {before after : List AnthropicMessage}
    {message : AnthropicMessage} (split : messages = before ++ message :: after) {front back : List Value} {block : Value}
    (inside : message.content = front ++ block :: back) (uses : isKind "tool_use" block = true) :
    (∃ answer rest, after = answer :: rest ∧ AnsweredBy block answer) ∨
      (history.flatMap historyBlocks)[(before.flatMap Group.items).length + front.length]? =
        some (.replayed block) := by
  rw [anthropicMessages_eq built] at split
  obtain ⟨before, behind, known, rfl, tail⟩ := map_eq_append_iff.mp split
  obtain ⟨message, after, rfl, rfl, rfl⟩ := map_eq_cons_iff.mp tail
  obtain ⟨front, behind, listed, rfl, tail⟩ := map_eq_append_iff.mp inside
  obtain ⟨piece, back, rfl, rfl, rfl⟩ := map_eq_cons_iff.mp tail
  have place := piece_at known listed
  cases piece with
  | replayed block =>
    refine .inr ?_
    rw [Group.flatMap_map_items, length_map, length_map]
    exact place
  | part part =>
    rw [isKind_part (by decide) (by decide)] at uses
    cases uses
  | result result =>
    rw [isKind_result] at uses
    exact absurd uses (by decide)
  | call call =>
    have calls := (answered_collect answered).1
    rw [known] at calls
    obtain ⟨answer, rest, rfl, answers⟩ := calls.split (listed ▸ mem_append_right _ mem_cons_self)
    exact .inl ⟨answer.map (HistoryBlock.value base64), rest.map (Group.map (HistoryBlock.value base64)), rfl, answers.sent⟩

/-! ### Thinking -/

theorem applyModel_messages (body : AnthropicBody) (reasoning : ReasoningSpec) (maxTokens : Nat) :
    (applyModel body reasoning maxTokens).messages = body.messages := by
  by_cases thinks : (reasoning.isEnabled && trailingTurnSupportsThinking body.messages) = true <;>
    by_cases strength : (trailingTurnSupportsThinking body.messages &&
      reasoning.thinkingBudgetTokens.isNone) = true <;>
    cases effort : reasoning.effort <;> simp only [applyModel, thinks, strength, effort, if_true] <;> rfl

theorem applyModel_thinking (body : AnthropicBody) (reasoning : ReasoningSpec) (maxTokens : Nat) :
    (applyModel body reasoning maxTokens).thinking =
      if reasoning.isEnabled && trailingTurnSupportsThinking body.messages then
        some (thinkingConfig reasoning maxTokens)
      else body.thinking := by
  by_cases thinks : (reasoning.isEnabled && trailingTurnSupportsThinking body.messages) = true <;>
    by_cases strength : (trailingTurnSupportsThinking body.messages &&
      reasoning.thinkingBudgetTokens.isNone) = true <;>
    cases effort : reasoning.effort <;> simp only [applyModel, thinks, strength, effort, if_true] <;> rfl

theorem thinkingConfig_budget {reasoning : ReasoningSpec} {maxTokens : Nat} (positive : 1 ≤ maxTokens)
    (enabled : isKind "enabled" (thinkingConfig reasoning maxTokens) = true) :
    ∃ budget : Nat, (thinkingConfig reasoning maxTokens).get "budget_tokens" = some (.number (.int budget)) ∧
      budget < maxTokens ∧ (minThinkingBudget < maxTokens → minThinkingBudget ≤ budget) := by
  rw [thinkingConfig] at enabled ⊢
  split at enabled
  · rename_i budget known
    refine ⟨clampBudget budget maxTokens, rfl, ?_, ?_⟩
    · rw [clampBudget]
      omega
    · rw [clampBudget]
      omega
  · exact absurd enabled (by decide)

theorem find_last {messages before after : List AnthropicMessage} {message : AnthropicMessage}
    (split : messages = before ++ message :: after) (assistant : message.role = "assistant")
    (last : ∀ other ∈ after, other.role ≠ "assistant") :
    messages.reverse.find? (fun message => message.role == "assistant") = some message := by
  rw [split, reverse_append, reverse_cons, append_assoc, find?_append,
    find?_eq_none.mpr, Option.none_or]
  · show List.find? _ (message :: before.reverse) = _
    rw [find?_cons_of_pos]
    exact beq_iff_eq.mpr assistant
  · intro other member
    have := last other (mem_reverse.mp member)
    simpa using this

theorem thinking_sent {messages : List AnthropicMessage} {reasoning : ReasoningSpec} {maxTokens : Nat}
    (sent : (requestBody messages reasoning maxTokens).thinking.isSome = true)
    {before after : List AnthropicMessage} {message : AnthropicMessage}
    (split : (requestBody messages reasoning maxTokens).messages = before ++ message :: after)
    (assistant : message.role = "assistant") (last : ∀ other ∈ after, other.role ≠ "assistant")
    (uses : hasToolUse message = true) : hasThinking message = true := by
  rw [requestBody, applyModel_messages] at split
  rw [requestBody, applyModel_thinking] at sent
  split at sent
  · rename_i both
    have supports := (Bool.and_eq_true _ _ ▸ both).2
    rw [trailingTurnSupportsThinking, find_last split assistant last] at supports
    simpa [uses] using supports
  · cases sent

/-! ### The rules -/

/-- **A request to Anthropic has the shape that the API asks for.** Of a history whose calls are followed by
their results: roles alternate, no message is empty, every call is answered in the message behind it, where
results come first, unless it is a block that is replayed, and the blocks are those of the history in their order,
each under its role and with its contents. A budget of thinking is below the limit of the answer, and at least 1024
where the limit is more than that; thinking is not sent where the last of the assistant's messages calls a tool
without a block of thinking. -/
theorem request_shape {history : List ProjectedMessage} (answered : Answered history)
    {messages : List AnthropicMessage} (built : anthropicMessages base64 history = .ok messages)
    (reasoning : ReasoningSpec) {maxTokens : Nat} (positive : 1 ≤ maxTokens) :
    (messages.IsChain fun first second => first.role ≠ second.role) ∧
    (∀ message ∈ messages, message.content ≠ []) ∧
    (∀ before message after, messages = before ++ message :: after → ∀ front block back,
      message.content = front ++ block :: back → isKind "tool_use" block = true →
        (∃ answer rest, after = answer :: rest ∧ AnsweredBy block answer) ∨
          (history.flatMap historyBlocks)[(before.flatMap Group.items).length + front.length]? =
            some (.replayed block)) ∧
    (messages.flatMap Group.keyed = history.flatMap fun message =>
      (historyBlocks message).map fun piece => (sentRole message, piece.value base64)) ∧
    (∀ thinking, (requestBody messages reasoning maxTokens).thinking = some thinking →
      isKind "enabled" thinking = true → ∃ budget : Nat,
        thinking.get "budget_tokens" = some (.number (.int budget)) ∧ budget < maxTokens ∧
        (minThinkingBudget < maxTokens → minThinkingBudget ≤ budget)) ∧
    ((requestBody messages reasoning maxTokens).thinking.isSome = true → ∀ before message after,
      (requestBody messages reasoning maxTokens).messages = before ++ message :: after →
      message.role = "assistant" → (∀ other ∈ after, other.role ≠ "assistant") →
      hasToolUse message = true → hasThinking message = true) := by
  have equal := anthropicMessages_eq built
  have sent : messages = Group.collect (full ((history.map pieces).map (Group.map (HistoryBlock.value base64)))) := by
    rw [equal, full_map, Group.collect_map]
    rfl
  refine ⟨?_, fun message member => ?_,
    fun before message after split front block back inside uses => tool_answered answered built split inside uses,
    ?_, fun thinking sent enabled => ?_,
    fun sent before message after split assistant last uses => thinking_sent sent split assistant last uses⟩
  · rw [sent]
    exact Group.collect_chain _
  · rw [sent] at member
    refine Group.collect_items_ne_nil (fun entry listed => ?_) message member
    simpa using (mem_filter.mp listed).2
  · rw [equal, Group.keyed_map, keyed_joinedPieces, map_flatMap]
    simp [Function.comp_def]
  · rw [requestBody, applyModel_thinking] at sent
    split at sent
    · obtain rfl := Option.some.inj sent
      exact thinkingConfig_budget positive enabled
    · cases sent

/-! ### A conversation with a round behind it -/

/-- A call, and what was said after its result. -/
def laterTurn : List ProjectedMessage :=
  [⟨"m1", .user, .parts [.text "list the files"]⟩] ++
    roundMessages "m2" "" "" none [⟨0, "call_1", "list", .object []⟩]
      [("m3", ⟨"call_1", "list", "a.txt", false, none, []⟩)] ++
    [⟨"m4", .assistant, .assistant "There is one file." "" none []⟩,
      ⟨"m5", .user, .parts [.text "think about it"]⟩]

def laterMessages : List AnthropicMessage :=
  [⟨"user", [textBlock "list the files"]⟩,
    ⟨"assistant", [toolUseBlock ⟨0, "call_1", "list", .object []⟩]⟩,
    ⟨"user", [.object [("type", .string "tool_result"), ("tool_use_id", .string "call_1"),
      ("content", .string "a.txt")]]⟩,
    ⟨"assistant", [textBlock "There is one file."]⟩,
    ⟨"user", [textBlock "think about it"]⟩]

/-- Thinking with a budget. -/
def budgeted : ReasoningSpec := ⟨some true, none, some 2048⟩

def plainBase64 : Base64 := ⟨fun _ => ""⟩

theorem answered_laterTurn : Answered laterTurn :=
  .parts (.round (by decide) (by decide) (by decide) (by decide) (.assistant (.parts .nil)))

theorem anthropicMessages_laterTurn : anthropicMessages plainBase64 laterTurn = .ok laterMessages := rfl

/-- An answer with a block that is replayed, as a state of Anthropic may have any. -/
def replayedTurn : List ProjectedMessage :=
  [⟨"m1", .user, .parts [.text "list the files"]⟩,
    ⟨"m2", .assistant, .assistant "There is one file." "" (some ⟨"anthropic", .object [("blocks", .array
      [.object [("type", .string "tool_use"), ("id", .string "call_1")]])]⟩) []⟩]

def replayedMessages : List AnthropicMessage :=
  [⟨"user", [textBlock "list the files"]⟩,
    ⟨"assistant", [.object [("type", .string "tool_use"), ("id", .string "call_1")], textBlock "There is one file."]⟩]

/-- Of 1000 tokens a budget of 1024 is not to be had, a call without thinking further back does not keep
thinking from being sent, and a call that is only replayed has no answer. -/
theorem request_shape_not_literal :
    Answered laterTurn ∧ anthropicMessages plainBase64 laterTurn = .ok laterMessages ∧
    ¬ ((∀ thinking, (requestBody laterMessages budgeted 1000).thinking = some thinking →
          isKind "enabled" thinking = true → ∃ budget : Nat,
            thinking.get "budget_tokens" = some (.number (.int budget)) ∧ minThinkingBudget ≤ budget ∧
              budget < 1000)) ∧
    ¬ ((requestBody laterMessages budgeted 1000).thinking.isSome = true →
        ∀ message, (requestBody laterMessages budgeted 1000).messages.reverse.find? hasToolUse = some message →
          hasThinking message = true) ∧
    Answered replayedTurn ∧ anthropicMessages plainBase64 replayedTurn = .ok replayedMessages ∧
    ¬ (∀ before message after, replayedMessages = before ++ message :: after → ∀ block ∈ message.content,
        isKind "tool_use" block = true → ∃ answer rest, after = answer :: rest ∧ AnsweredBy block answer) := by
  refine ⟨answered_laterTurn, anthropicMessages_laterTurn, fun bounded => ?_, fun sent => ?_,
    .parts (.assistant .nil), rfl, fun answers => ?_⟩
  · obtain ⟨budget, -, large, small⟩ := bounded (thinkingConfig budgeted 1000) rfl rfl
    rw [minThinkingBudget] at large
    omega
  · exact absurd (sent rfl ⟨"assistant", [toolUseBlock ⟨0, "call_1", "list", .object []⟩]⟩ rfl) (by decide)
  · obtain ⟨answer, rest, none, -⟩ := answers [_] _ [] rfl _ mem_cons_self rfl
    cases none

theorem request_shape_sample :
    (laterMessages.IsChain fun first second => first.role ≠ second.role) ∧
      (∃ answer rest, laterMessages.drop 2 = answer :: rest ∧
        AnsweredBy (toolUseBlock ⟨0, "call_1", "list", .object []⟩) answer) ∧
      (laterMessages.flatMap Group.keyed = laterTurn.flatMap fun message =>
        (historyBlocks message).map fun piece => (sentRole message, piece.value plainBase64)) ∧
      isKind "enabled" (thinkingConfig budgeted 4096) = true ∧
      ∃ budget : Nat, (thinkingConfig budgeted 4096).get "budget_tokens" = some (.number (.int budget)) ∧
        budget < 4096 ∧ (minThinkingBudget < 4096 → minThinkingBudget ≤ budget) := by
  obtain ⟨chain, -, calls, contents, bounded, -⟩ := request_shape answered_laterTurn anthropicMessages_laterTurn budgeted
    (by decide : 1 ≤ 4096)
  refine ⟨chain, (calls [_] _ _ rfl [] _ [] rfl rfl).resolve_right ?_, contents, rfl, bounded _ rfl rfl⟩
  intro again
  cases Option.some.inj again

end Byok.Anthropic
