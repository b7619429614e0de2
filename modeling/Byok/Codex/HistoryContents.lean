/-
**What the messages of a history contain.** The value of a message, against the items that its marks name.

* `itemTexts`, `GivenCall`, `SendsOutput` — what an item says, by its fields.
* `ChatCarries`, `BlockCarries` — a message or a block says what the items of its marks do.
* `Format.Keeps` — what a format has to do for that at each kind of item.
* `chat_carries`, `anthropic_keeps` — both formats do.
-/

import Byok.Codex.HistoryLoop

namespace Byok.Codex

open Library List

/-! ### What an item says -/

/-- The text of a part. -/
def textOfPart (part : Value) : Option String :=
  if str part "type" = some "text" ∨ str part "type" = some "input_text" ∨ str part "type" = some "output_text" then
    some ((str part "text").getD "")
  else none

/-- The texts of a content: the one that it is, or those of its parts. -/
def textsOf : Option Value → List String
  | some (.string text) => [text]
  | some (.array parts) => parts.filterMap textOfPart
  | _ => []

/-- The texts of an item: the input of a thread, or those of a message. -/
def itemTexts (item : Value) : List String :=
  if (createThreadInput item).isSome then (str item "output").toList else textsOf (item.get "content")

/-- Texts as one. -/
def joined (texts : List String) : String := "\n\n".intercalate texts

/-- Texts that are sent as one. -/
def Together (given sent : List String) : Prop := joined sent = joined given

/-- Texts that are sent one by one, but for the blank ones. -/
def OneByOne (given sent : List String) : Prop := sent = given.filter visible

/-- A call has the id, the name and the arguments of its item. -/
structure GivenCall (bridge : Bridge) (item : Value) (call : Call) : Prop where
  callId : (str item "call_id").map trim = some call.callId
  name : (str item "name").map (fun name => bridge.upstreamName (trim name) (str item "namespace")) = some call.name
  arguments : (if itemType item = "custom_tool_call" then
      (str item "input").map fun input => bridge.toJson (.object [("input", .string input)])
    else (str item "arguments").map trim) = some call.arguments

/-- What is sent of an output. -/
def SendsOutput (bridge : Bridge) (sends : List String → List String → Prop) (output content : Value) : Prop :=
  match output with
  | .string text => content = .string text
  | .array parts => sends (textsOf (some (.array parts))) (textsOf (some content))
  | other => content = .string (bridge.toJson other)

/-- A result has the id and the output of its item. -/
structure GivenOutput (item : Value) (result : ToolOutput) : Prop where
  callId : (str item "call_id").map trim = some result.callId
  output : (item.get "output").getD .null = result.output

/-- A turn of the loop has what its items say. -/
structure Turn.Carries (bridge : Bridge) (entries : List (Value × Nat)) (turn : Turn) : Prop where
  text : ∀ text ∈ turn.text,
    ∃ item, (item, text.1) ∈ entries ∧ text.2 = joined (itemTexts item) ∧ visible text.2 = true
  calls : ∀ call ∈ turn.calls, ∃ item, (item, call.origin) ∈ entries ∧ GivenCall bridge item call
  results : ∀ result ∈ turn.results, ∃ item, (item, result.origin) ∈ entries ∧ GivenOutput item result
  own : ∀ text ∈ turn.reasoningText, ∃ call ∈ turn.calls, ∃ item, (item, call.origin) ∈ entries ∧
    (str item "reasoning_content").map trim = some text

/-! ### What is sent -/

/-- The texts of an item of reasoning. -/
def thoughtTexts (item : Value) : List String :=
  let texts (key : String) := match item.get key with
    | some (.array parts) => parts.filterMap (str · "text")
    | _ => []
  ((texts "summary" ++ texts "content" ++ (str item "text").toList).map trim).filter (· != "")

/-- A piece of reasoning is the replayed state of its item, or else has the texts of it. -/
def GivenThought (bridge : Bridge) (owner : String) (item : Value) (text : String) : Prop :=
  (∃ state, decode bridge item .chat owner = .ok (some (.string state)) ∧ text = trim state) ∨
    (decode bridge item .chat owner = .ok none ∧ text = joined (thoughtTexts item))

/-- Pieces of reasoning are those of their items. -/
def GivenThoughts (bridge : Bridge) (owner : String) (entries : List (Value × Nat)) (thoughts : List (Nat × String)) :
    Prop :=
  ∀ thought ∈ thoughts, ∃ item, (item, thought.1) ∈ entries ∧ GivenThought bridge owner item thought.2

/-- What the message of a turn says besides reasoning. -/
def Turn.fields (turn : Turn) : List (String × Value) :=
  [("role", .string "assistant"), ("content", turn.text.elim .null fun text => .string text.2)] ++
    if turn.calls = [] then []
    else [("tool_calls", .array (turn.calls.map fun call => .object [("id", .string call.callId),
      ("type", .string "function"),
      ("function", .object [("name", .string call.name), ("arguments", .string call.arguments)])]))]

/-- A message of Chat says what the items of its marks do. -/
inductive ChatCarries (bridge : Bridge) (owner : String) (entries : List (Value × Nat)) : ChatMessage → Prop where
  | system (text : String) :
    ChatCarries bridge owner entries ⟨[], .object [("role", .string "system"), ("content", .string text)]⟩
  | user {item content : Value} {origin : Nat} (listed : (item, origin) ∈ entries)
    (texts : Together (itemTexts item) (textsOf (some content))) :
    ChatCarries bridge owner entries ⟨[.user origin], .object [("role", .string "user"), ("content", content)]⟩
  | result {item content : Value} {result : ToolOutput} (listed : (item, result.origin) ∈ entries)
    (given : GivenOutput item result) (sent : SendsOutput bridge Together result.output content) :
    ChatCarries bridge owner entries ⟨[.result result.origin result.callId], .object [("role", .string "tool"),
      ("tool_call_id", .string result.callId), ("content", content)]⟩
  | assistant {turn : Turn} {thoughts : List (Nat × String)} {reasoning : List String}
    (carries : turn.Carries bridge entries) (given : GivenThoughts bridge owner entries thoughts)
    (all : reasoning.Perm (turn.reasoningText.toList ++ thoughts.map Prod.snd)) :
    ChatCarries bridge owner entries
      ⟨thoughts.map (fun thought => .reasoning thought.1) ++ (turn.text.toList.map (fun text => .text text.1) ++
          turn.calls.map fun call => .call call.origin call.callId),
        .object (turn.fields ++ if reasoning = [] then [] else [("reasoning_content", .string (joined reasoning))])⟩

/-- A block of Anthropic says what the item of its mark does; one without a mark is replayed and does not think. -/
inductive BlockCarries (bridge : Bridge) (owner : String) (entries : List (Value × Nat)) : String → Block → Prop where
  | user {item : Value} {origin : Nat} {text : String} (listed : (item, origin) ∈ entries)
    (given : text ∈ itemTexts item) (seen : visible text = true) :
    BlockCarries bridge owner entries "user"
      ⟨some (.user origin), .object [("type", .string "text"), ("text", .string text)]⟩
  | image {item source : Value} {origin : Nat} (listed : (item, origin) ∈ entries) :
    BlockCarries bridge owner entries "user"
      ⟨some (.user origin), .object [("type", .string "image"), ("source", source)]⟩
  | text {item : Value} {origin : Nat} {text : String} (listed : (item, origin) ∈ entries)
    (given : text = joined (itemTexts item)) (seen : visible text = true) :
    BlockCarries bridge owner entries "assistant"
      ⟨some (.text origin), .object [("type", .string "text"), ("text", .string text)]⟩
  | reasoning {item value : Value} {origin : Nat} {values : List Value} (listed : (item, origin) ∈ entries)
    (given : anthropicThinkingBlocks bridge item owner = .ok values) (member : value ∈ values)
    (thinks : isThinking value = true) :
    BlockCarries bridge owner entries "assistant" ⟨some (.reasoning origin), value⟩
  | replayed {item value : Value} {origin : Nat} {values : List Value} (listed : (item, origin) ∈ entries)
    (given : anthropicThinkingBlocks bridge item owner = .ok values) (member : value ∈ values)
    (quiet : isThinking value = false) : BlockCarries bridge owner entries "assistant" ⟨none, value⟩
  | call {item input : Value} {call : Call} (listed : (item, call.origin) ∈ entries)
    (given : GivenCall bridge item call) (read : bridge.fromStr call.arguments = some input) :
    BlockCarries bridge owner entries "assistant" ⟨some (.call call.origin call.callId), .object
      [("type", .string "tool_use"), ("id", .string call.callId), ("name", .string call.name), ("input", input)]⟩
  | result {item content : Value} {result : ToolOutput} (listed : (item, result.origin) ∈ entries)
    (given : GivenOutput item result) (sent : SendsOutput bridge OneByOne result.output content) :
    BlockCarries bridge owner entries "user" ⟨some (.result result.origin result.callId), .object
      [("type", .string "tool_result"), ("tool_use_id", .string result.callId), ("content", content)]⟩

/-- A text of the user among the blocks. -/
def Block.userText? (block : Block) : Option (Nat × String) :=
  match block.mark with
  | some (.user origin) => (str block.value "text").map (origin, ·)
  | _ => none

/-- The texts of the user, in their order. -/
def userTexts (messages : List AnthropicMessage) : List (Nat × String) :=
  (messages.flatMap Group.items).filterMap Block.userText?

/-- The texts of the user in an item. -/
def givenUserTexts (entry : Value × Nat) : List (Nat × String) :=
  if (createThreadInput entry.1).isSome ∨ isMessageOf "user" entry.1 = true then
    ((itemTexts entry.1).filter visible).map (entry.2, ·)
  else []

/-! ### Texts of parts -/

section Parts

variable {bridge : Bridge} {item : Value} {parts : List Part}

/-- The texts of parts. -/
def partTexts (parts : List Part) : List String :=
  parts.filterMap fun
    | .text text => some text
    | .image _ => none

theorem contentParts_texts (read : contentParts bridge item = .ok parts) :
    partTexts parts = textsOf (item.get "content") := by
  rw [contentParts] at read
  split at read
  · rename_i text known
    rw [known, ← Except.ok.inj read]
    rfl
  · rename_i values known
    rw [known, textsOf]
    clear known
    induction values generalizing parts with
    | nil =>
      cases read
      rfl
    | cons value values ih =>
      rw [mapM_cons] at read
      obtain ⟨part, first, read⟩ := except_bind_eq_ok.mp read
      obtain ⟨more, rest, rfl⟩ := except_bind_ok_eq.mp read
      rw [contentPart] at first
      split at first
      · rename_i kind
        obtain rfl := Except.ok.inj first
        have own : textOfPart value = some ((str value "text").getD "") := if_pos kind
        rw [filterMap_cons_some own, ← ih rest]
        rfl
      · rename_i kind
        split at first
        · obtain rfl := Except.ok.inj first
          have none : textOfPart value = none := if_neg kind
          rw [filterMap_cons_none none, ← ih rest]
          rfl
        · cases first
  · cases read

theorem partTexts_of_mapM {texts : List String} (read : parts.mapM partText = .ok texts) : texts = partTexts parts := by
  induction parts generalizing texts with
  | nil =>
    cases read
    rfl
  | cons part parts ih =>
    rw [mapM_cons] at read
    obtain ⟨text, first, read⟩ := except_bind_eq_ok.mp read
    obtain ⟨more, rest, rfl⟩ := except_bind_ok_eq.mp read
    cases part with
    | text own =>
      obtain rfl := Except.ok.inj first
      rw [ih rest]
      rfl
    | image value => cases first

theorem messageText_joined {text : String} (read : messageText bridge item = .ok text) :
    text = joined (textsOf (item.get "content")) := by
  obtain ⟨parts, found, read⟩ := except_bind_eq_ok.mp read
  obtain ⟨texts, mapped, equal⟩ := except_bind_eq_ok.mp read
  rw [← Except.ok.inj equal, partTexts_of_mapM mapped, contentParts_texts found]
  rfl

end Parts

/-! ### Texts of items -/

section Items

variable {item : Value}

theorem itemTexts_thread {text : String} (thread : createThreadInput item = some text) : itemTexts item = [text] := by
  rw [itemTexts, thread, Option.isSome_some, if_pos rfl]
  rw [createThreadInput] at thread
  split at thread
  · rw [(Option.filter_eq_some_iff.mp thread).1]
    rfl
  · cases thread

theorem itemTexts_message {role : String} (message : isMessageOf role item = true) :
    itemTexts item = textsOf (item.get "content") := by
  simp only [isMessageOf, Bool.and_eq_true, Option.isNone_iff_eq_none] at message
  rw [itemTexts, message.1.1]
  rfl

theorem summaryParts (parts : List Value) :
    parts.filterMap summaryPart = ((parts.filterMap (str · "text")).map trim).filter (· != "") := by
  induction parts with
  | nil => rfl
  | cons part parts ih =>
    rw [filterMap_cons, ih, filterMap_cons, summaryPart]
    cases str part "text" with
    | none => rfl
    | some text => by_cases blank : trim text = "" <;> simp [blank, Option.filter]

theorem summaryText_joined {text : String} (found : summaryText item = some text) :
    text = joined (thoughtTexts item) := by
  have listed (key : String) : (((item.get key).bind Value.asArray).getD []).filterMap summaryPart =
      ((match item.get key with
        | some (.array parts) => parts.filterMap (str · "text")
        | _ => []).map trim).filter (· != "") := by
    split
    · rename_i parts known
      rw [known, ← summaryParts]
      rfl
    · rename_i other
      have none : (item.get key).bind Value.asArray = none := by
        cases known : item.get key with
        | none => rfl
        | some value =>
          cases value with
          | array parts => exact absurd known (other parts)
          | _ => rfl
      rw [none]
      rfl
  have own : (summaryPart item).toList = ((str item "text").toList.map trim).filter (· != "") := by
    rw [summaryPart]
    cases str item "text" with
    | none => rfl
    | some text => by_cases blank : trim text = "" <;> simp [blank]
  have parts : ["summary", "content"].flatMap (fun key =>
      (((item.get key).bind Value.asArray).getD []).filterMap summaryPart) ++ (summaryPart item).toList =
        thoughtTexts item := by
    rw [own, thoughtTexts, map_append, map_append, filter_append, filter_append, ← listed, ← listed]
    simp
  rw [summaryText, parts] at found
  split at found
  · cases found
  · exact (Option.some.inj found).symm

end Items

/-! ### A rule for both formats -/

section Rule

variable {μ π : Type} {format : Format μ π} {bridge : Bridge} {entries : List (Value × Nat)}
variable {holds : List (Value × Nat) → List μ → Prop} {waits : π → Prop}

/-- What a format has to do at each kind of item, for what its messages are to contain. -/
structure Format.Keeps (format : Format μ π) (bridge : Bridge) (entries : List (Value × Nat))
    (holds : List (Value × Nat) → List μ → Prop) (waits : π → Prop) : Prop where
  thread : ∀ {read messages item origin text}, holds read messages → (item, origin) ∈ entries →
    createThreadInput item = some text → holds (read ++ [(item, origin)]) (format.thread messages origin text)
  user : ∀ {read messages item origin after}, holds read messages → (item, origin) ∈ entries →
    isMessageOf "user" item = true → format.user messages origin item = .ok after →
    holds (read ++ [(item, origin)]) after
  other : ∀ {read messages item}, holds read messages → createThreadInput item = none →
    isMessageOf "user" item = false → ∀ origin, holds (read ++ [(item, origin)]) messages
  reasoning : ∀ {pending item origin after}, waits pending → (item, origin) ∈ entries →
    format.reasoning pending origin item = .ok after → waits after
  callReasoning : ∀ turn item, ∃ own, format.callReasoning turn item = { turn with reasoningText := own } ∧
    ∀ text ∈ own, turn.reasoningText = some text ∨ (str item "reasoning_content").map trim = some text
  flush : ∀ {read messages turn pending after last}, holds read messages → turn.Carries bridge entries →
    waits pending → format.flush messages turn pending = .ok (after, last) → holds read after ∧ waits last

/-- What the loop has, is what its items say. -/
structure Translation.Carries (bridge : Bridge) (entries : List (Value × Nat))
    (holds : List (Value × Nat) → List μ → Prop) (waits : π → Prop) (read : List (Value × Nat))
    (state : Translation μ π) : Prop where
  messages : holds read state.messages
  turn : state.turn.Carries bridge entries
  pending : waits state.pending

variable {read : List (Value × Nat)} {state next : Translation μ π} {entry : Value × Nat}

theorem carries_empty (bridge : Bridge) (entries : List (Value × Nat)) : ({} : Turn).Carries bridge entries where
  text _ none := by cases none
  calls _ none := absurd none not_mem_nil
  results _ none := absurd none not_mem_nil
  own _ none := by cases none

theorem requiredStr_ok {item : Value} {key text : String} (found : requiredStr item key = .ok text) :
    (str item key).map trim = some text := by
  rw [requiredStr] at found
  split at found
  · rename_i known
    obtain rfl := Except.ok.inj found
    exact (Option.filter_eq_some_iff.mp known).1
  · cases found

theorem historyCall_given {item : Value} {origin : Nat} {call : Call}
    (found : historyCall bridge origin item = .ok call) : call.origin = origin ∧ GivenCall bridge item call := by
  obtain ⟨name, named, found⟩ := except_bind_eq_ok.mp found
  obtain ⟨callId, identified, found⟩ := except_bind_eq_ok.mp found
  obtain ⟨arguments, given, rfl⟩ := except_bind_ok_eq.mp found
  refine ⟨rfl, requiredStr_ok identified, ?_, ?_⟩
  · obtain ⟨whole, known, rfl⟩ := Option.map_eq_some_iff.mp (requiredStr_ok named)
    rw [known]
    rfl
  · rw [callArguments] at given
    split at given
    · rename_i custom
      rw [if_pos custom]
      split at given
      · rename_i input known
        obtain rfl := Except.ok.inj given
        rw [known]
        rfl
      · cases given
    · rename_i plain
      rw [if_neg plain]
      exact requiredStr_ok given

theorem Translation.Carries.flushed (keeps : format.Keeps bridge entries holds waits)
    (carries : state.Carries bridge entries holds waits read) (flushed : format.flushed state = .ok next) :
    next.Carries bridge entries holds waits read := by
  obtain ⟨⟨messages, pending⟩, flush, rfl⟩ := except_bind_ok_eq.mp flushed
  obtain ⟨held, waited⟩ := keeps.flush carries.messages carries.turn carries.pending flush
  exact ⟨held, carries_empty bridge entries, waited⟩

theorem Translation.Carries.message (keeps : format.Keeps bridge entries holds waits)
    (carries : state.Carries bridge entries holds waits read) {item : Value} {origin : Nat}
    (listed : (item, origin) ∈ entries) (thread : createThreadInput item = none) (isMessage : itemType item = "message")
    (stepped : format.message bridge state origin item = .ok next) :
    next.Carries bridge entries holds waits (read ++ [(item, origin)]) := by
  have other (role : str item "role" ≠ some "user") : isMessageOf "user" item = false := by
    simp [isMessageOf, thread, isMessage, role]
  rw [Format.message] at stepped
  split at stepped
  case h_2 => cases stepped
  case h_1 role known =>
    split at stepped
    · rename_i quiet
      have own : isMessageOf "user" item = false := other (by rw [known]; rcases quiet with rfl | rfl <;> decide)
      exact Except.ok.inj stepped ▸ ⟨keeps.other carries.messages thread own origin, carries.turn, carries.pending⟩
    · split at stepped
      · rename_i user
        obtain ⟨mid, flushed, stepped⟩ := except_bind_eq_ok.mp stepped
        obtain ⟨messages, pushed, rfl⟩ := except_bind_ok_eq.mp stepped
        have before := carries.flushed keeps flushed
        have own : isMessageOf "user" item = true := by simp [isMessageOf, thread, isMessage, known, user]
        exact ⟨keeps.user before.messages listed own pushed, before.turn, before.pending⟩
      · split at stepped
        · rename_i assistant
          obtain ⟨mid, flushed, stepped⟩ := except_bind_eq_ok.mp stepped
          obtain ⟨text, said, equal⟩ := except_bind_eq_ok.mp stepped
          have before := carries.flushed keeps flushed
          have held := keeps.other before.messages thread (other (by rw [known, assistant]; decide)) origin
          by_cases seen : visible text = true
          · rw [if_pos seen] at equal
            obtain rfl := Except.ok.inj equal
            refine ⟨held, ⟨fun own same => ?_, before.turn.calls, before.turn.results, before.turn.own⟩, before.pending⟩
            obtain rfl := Option.some.inj same
            refine ⟨item, listed, ?_, seen⟩
            rw [messageText_joined said, itemTexts, thread]
            rfl
          · rw [if_neg seen] at equal
            exact Except.ok.inj equal ▸ ⟨held, before.turn, before.pending⟩
        · cases stepped

/-- **Each item leaves the loop with what the items say.** -/
theorem Translation.Carries.step (keeps : format.Keeps bridge entries holds waits)
    (carries : state.Carries bridge entries holds waits read) (listed : entry ∈ entries)
    (stepped : format.step bridge state entry = .ok next) :
    next.Carries bridge entries holds waits (read ++ [entry]) := by
  obtain ⟨item, origin⟩ := entry
  cases thread : createThreadInput item with
  | some text =>
    simp only [Format.step, thread] at stepped
    obtain ⟨mid, flushed, rfl⟩ := except_bind_ok_eq.mp stepped
    have before := carries.flushed keeps flushed
    exact ⟨keeps.thread before.messages listed thread, before.turn, before.pending⟩
  | none =>
    simp only [Format.step, thread] at stepped
    split at stepped
    · rename_i isMessage
      exact carries.message keeps listed thread isMessage stepped
    · rename_i notMessage
      have own : isMessageOf "user" item = false := by simp [isMessageOf, notMessage]
      have held := keeps.other carries.messages thread own origin
      split at stepped
      · obtain ⟨pending, waited, rfl⟩ := except_bind_ok_eq.mp stepped
        exact ⟨held, carries.turn, keeps.reasoning carries.pending listed waited⟩
      · split at stepped
        · obtain ⟨call, built, rfl⟩ := except_bind_ok_eq.mp stepped
          obtain ⟨place, given⟩ := historyCall_given built
          obtain ⟨own, same, owned⟩ := keeps.callReasoning state.turn item
          rw [← place] at listed
          have turn := carries.turn
          rw [← place] at held ⊢
          refine ⟨held, ?_, carries.pending⟩
          rw [same]
          refine ⟨turn.text, ?_, turn.results, fun text said => ?_⟩
          · exact forall_mem_append.mpr ⟨turn.calls, forall_mem_singleton.mpr ⟨item, listed, given⟩⟩
          · rcases owned text said with old | new
            · obtain ⟨earlier, member, found⟩ := turn.own text old
              exact ⟨earlier, mem_append_left _ member, found⟩
            · exact ⟨call, mem_append_right _ mem_cons_self, item, listed, new⟩
        · split at stepped
          · obtain ⟨turn, pushed, equal⟩ := except_bind_eq_ok.mp stepped
            obtain ⟨callId, named, rfl⟩ := except_bind_ok_eq.mp pushed
            obtain rfl := Except.ok.inj equal
            have turn := carries.turn
            refine ⟨held, ⟨turn.text, turn.calls, ?_, turn.own⟩, carries.pending⟩
            exact forall_mem_append.mpr
              ⟨turn.results, forall_mem_singleton.mpr ⟨item, listed, requiredStr_ok named, rfl⟩⟩
          · cases stepped

/-- **A translation has what its items say.** -/
theorem Format.Keeps.translate {items : List Value} (keeps : format.Keeps bridge items.zipIdx holds waits)
    {messages : List μ} {pending : π} (start : holds [] messages) (waiting : waits pending)
    (ran : format.translate bridge ⟨messages, {}, pending⟩ items = .ok next) :
    next.Carries bridge items.zipIdx holds waits items.zipIdx := by
  obtain ⟨between, ran, flushed⟩ := except_bind_eq_ok.mp ran
  refine Translation.Carries.flushed keeps ?_ flushed
  refine @foldlM_invariant _ _ _ _
    (fun read state => read ⊆ items.zipIdx → state.Carries bridge items.zipIdx holds waits read) _ _ _ ?_ ?_ ran
    (List.Subset.refl _)
  · exact fun _ => ⟨start, carries_empty bridge _, waiting⟩
  · intro read state entry next carries stepped inside
    obtain ⟨before, own⟩ := append_subset.mp inside
    exact (carries before).step keeps (own mem_cons_self) stepped

end Rule

/-! ### Chat Completions -/

section Chat

variable {bridge : Bridge} {owner : String} {entries : List (Value × Nat)} {turn : Turn}

theorem chatBlocks_texts {parts : List Part} {blocks : List Value} (built : parts.mapM chatBlock = .ok blocks) :
    blocks.filterMap textOfPart = partTexts parts ∧ blocks.filterMap (str · "text") = partTexts parts := by
  induction parts generalizing blocks with
  | nil =>
    cases built
    exact ⟨rfl, rfl⟩
  | cons part parts ih =>
    rw [mapM_cons] at built
    obtain ⟨block, first, built⟩ := except_bind_eq_ok.mp built
    obtain ⟨more, rest, rfl⟩ := except_bind_ok_eq.mp built
    obtain ⟨own, all⟩ := ih rest
    cases part with
    | text text =>
      obtain rfl := Except.ok.inj first
      exact ⟨congrArg (text :: ·) own, congrArg (text :: ·) all⟩
    | image value =>
      obtain ⟨url, -, first⟩ := except_bind_eq_ok.mp first
      obtain rfl := Except.ok.inj first
      exact ⟨own, all⟩

theorem chatContent_together {item content : Value} (built : chatContent bridge item = .ok content) :
    Together (textsOf (item.get "content")) (textsOf (some content)) := by
  obtain ⟨parts, found, built⟩ := except_bind_eq_ok.mp built
  obtain ⟨blocks, mapped, equal⟩ := except_bind_eq_ok.mp built
  obtain ⟨own, all⟩ := chatBlocks_texts mapped
  rw [← contentParts_texts found, ← Except.ok.inj equal]
  split
  · rw [all]
    exact String.intercalate_singleton
  · exact congrArg joined own

theorem toolOutput_together {output content : Value} (built : toolOutput bridge output false = .ok content) :
    SendsOutput bridge Together output content := by
  rw [toolOutput.eq_def] at built
  cases output with
  | array items => exact chatContent_together built
  | string text => exact (Except.ok.inj built).symm
  | null => exact (Except.ok.inj built).symm
  | bool value => exact (Except.ok.inj built).symm
  | number value => exact (Except.ok.inj built).symm
  | object fields => exact (Except.ok.inj built).symm

theorem assistantValue_fields (turn : Turn) : assistantValue turn = .object turn.fields := by
  rw [assistantValue, Turn.fields]
  cases turn.text with
  | none => dsimp only; split <;> rfl
  | some text => dsimp only; split <;> rfl

theorem set_reasoning (turn : Turn) (old : Option Value) (new : Value) :
    setField (.object (turn.fields ++ old.toList.map fun value => ("reasoning_content", value))) "reasoning_content" new =
      .object (turn.fields ++ [("reasoning_content", new)]) := by
  by_cases none : turn.calls = []
  · cases old <;> simp [setField, Turn.fields, none]
  · cases old <;> simp [setField, Turn.fields, none]

theorem get_reasoning (turn : Turn) (old : Option Value) :
    (Value.object (turn.fields ++ old.toList.map fun value => ("reasoning_content", value))).get "reasoning_content" =
      old := by
  by_cases none : turn.calls = []
  · cases old <;> simp [Value.get, Turn.fields, none]
  · cases old <;> simp [Value.get, Turn.fields, none]

/-- Reasoning that waits has what its items say. -/
def PendingReasoning.Carries (bridge : Bridge) (owner : String) (entries : List (Value × Nat))
    (pending : PendingReasoning) : Prop :=
  ∃ thoughts : List (Nat × String), thoughts ≠ [] ∧ GivenThoughts bridge owner entries thoughts ∧
    pending.marks = thoughts.map (fun thought => .reasoning thought.1) ∧
    pending.text = joined (thoughts.map Prod.snd)

theorem assistantMessage_carries (carries : turn.Carries bridge entries) {pending : Option PendingReasoning}
    (waits : ∀ reasoning ∈ pending, reasoning.Carries bridge owner entries) :
    ChatCarries bridge owner entries (assistantMessage turn (takeReasoning turn pending).1) := by
  have plain := get_reasoning turn none
  have said : turn.said = turn.text.toList.map (fun text => .text text.1) ++
      turn.calls.map fun call => .call call.origin call.callId := rfl
  have given : GivenThoughts bridge owner entries [] := fun _ none => absurd none not_mem_nil
  have set (text : String) : setField (assistantValue turn) "reasoning_content" (.string text) =
      .object (turn.fields ++ [("reasoning_content", .string text)]) := by
    rw [assistantValue_fields]
    simpa using set_reasoning turn none (.string text)
  rw [takeReasoning]
  cases own : turn.reasoningText with
  | some reasoning =>
    have all : [reasoning].Perm (turn.reasoningText.toList ++ ([] : List (Nat × String)).map Prod.snd) := by
      rw [own]
      exact .refl _
    have carried := ChatCarries.assistant carries given all
    rw [if_neg (cons_ne_nil _ _), joined, String.intercalate_singleton, map_nil, nil_append] at carried
    show ChatCarries bridge owner entries ⟨[] ++ turn.said, _⟩
    rw [nil_append, said, set]
    exact carried
  | none =>
    cases pending with
    | none =>
      have all : [].Perm (turn.reasoningText.toList ++ ([] : List (Nat × String)).map Prod.snd) := by
        rw [own]
        exact .refl _
      have carried := ChatCarries.assistant carries given all
      rw [if_pos rfl, append_nil, map_nil, nil_append] at carried
      show ChatCarries bridge owner entries ⟨turn.said, assistantValue turn⟩
      rw [said, assistantValue_fields]
      exact carried
    | some pending =>
      obtain ⟨thoughts, some, given, marks, text⟩ := waits pending rfl
      have all : (thoughts.map Prod.snd).Perm (turn.reasoningText.toList ++ thoughts.map Prod.snd) := by
        rw [own]
        exact .refl _
      have carried := ChatCarries.assistant carries given all
      rw [if_neg (map_eq_nil_iff.not.mpr some)] at carried
      show ChatCarries bridge owner entries ⟨pending.marks ++ turn.said,
        setField (assistantValue turn) "reasoning_content" (.string pending.text)⟩
      rw [marks, said, set, text]
      exact carried

theorem toolMessages_carry (carries : turn.Carries bridge entries) {calls : List Call} {messages : List ChatMessage}
    (built : toolMessages bridge turn calls = .ok messages) :
    ∀ message ∈ messages, ChatCarries bridge owner entries message := by
  induction calls generalizing messages with
  | nil =>
    obtain rfl := Except.ok.inj built
    exact fun _ none => absurd none not_mem_nil
  | cons call calls ih =>
    rw [toolMessages] at built
    cases found : turn.result? call with
    | none =>
      rw [found] at built
      exact ih built
    | some result =>
      rw [found] at built
      obtain ⟨message, first, built⟩ := except_bind_eq_ok.mp built
      obtain ⟨more, rest, rfl⟩ := except_bind_ok_eq.mp built
      obtain ⟨content, sent, rfl⟩ := except_bind_ok_eq.mp first
      obtain ⟨item, listed, given⟩ := carries.results result (mem_of_find?_eq_some found)
      have named : result.callId = call.callId := by simpa using find?_some found
      refine forall_mem_cons.mpr ⟨?_, ih rest⟩
      rw [← named]
      exact .result listed given (toolOutput_together sent)

theorem chatReasoningText_given {item : Value} {text : String}
    (read : chatReasoningText bridge item owner = .ok (some text)) : GivenThought bridge owner item text := by
  obtain ⟨state, decoded, read⟩ := except_bind_eq_ok.mp read
  split at read
  · split at read
    · obtain rfl := Option.some.inj (Except.ok.inj read)
      exact .inl ⟨_, decoded, rfl⟩
    · cases Except.ok.inj read
  · cases read
  · exact .inr ⟨decoded, summaryText_joined (Except.ok.inj read)⟩

theorem pendingReasoning_carries {pending : Option PendingReasoning} {item : Value} {origin : Nat} {text : String}
    (waits : ∀ reasoning ∈ pending, reasoning.Carries bridge owner entries) (listed : (item, origin) ∈ entries)
    (given : GivenThought bridge owner item text) :
    (pendingReasoning pending origin text).Carries bridge owner entries := by
  have own : GivenThoughts bridge owner entries [(origin, text)] :=
    forall_mem_singleton.mpr ⟨item, listed, given⟩
  cases pending with
  | none => exact ⟨[(origin, text)], cons_ne_nil _ _, own, rfl, String.intercalate_singleton.symm⟩
  | some pending =>
    obtain ⟨thoughts, some, before, marks, joins⟩ := waits pending rfl
    refine ⟨thoughts ++ [(origin, text)], by simp, forall_mem_append.mpr ⟨before, own⟩, ?_, ?_⟩
    · show pending.marks ++ _ = _
      rw [marks, map_append]
      rfl
    · show pending.text ++ "\n\n" ++ text = _
      rw [joins, map_append, joined, joined,
        String.intercalate_append_of_ne_nil (map_eq_nil_iff.not.mpr some) (by simp)]
      rfl

theorem takeReasoning_left {pending : Option PendingReasoning} {reasoning : PendingReasoning}
    (left : reasoning ∈ (takeReasoning turn pending).2) : reasoning ∈ pending := by
  rw [takeReasoning] at left
  split at left
  · exact left
  · cases left

theorem chat_keeps (bridge : Bridge) (owner : String) (entries : List (Value × Nat)) :
    (chatFormat bridge owner).Keeps bridge entries (fun _ messages => ∀ message ∈ messages,
      ChatCarries bridge owner entries message) fun pending => ∀ reasoning ∈ pending,
        reasoning.Carries bridge owner entries where
  thread held listed thread := by
    refine forall_mem_append.mpr ⟨held, forall_mem_singleton.mpr (.user listed ?_)⟩
    rw [itemTexts_thread thread]
    rfl
  user held listed user pushed := by
    obtain ⟨content, built, rfl⟩ := except_bind_ok_eq.mp pushed
    refine forall_mem_append.mpr ⟨held, forall_mem_singleton.mpr (.user listed ?_)⟩
    rw [itemTexts_message user]
    exact chatContent_together built
  other held _ _ _ := held
  reasoning waits listed read := by
    obtain ⟨text, found, rfl⟩ := except_bind_ok_eq.mp read
    cases text with
    | none => exact waits
    | some text =>
      intro reasoning same
      obtain rfl := Option.some.inj same
      exact pendingReasoning_carries waits listed (chatReasoningText_given found)
  callReasoning turn item := by
    refine ⟨_, rfl, fun text own => ?_⟩
    rcases Option.or_eq_some_iff.mp own with old | ⟨-, new⟩
    · exact .inl old
    · exact .inr (Option.filter_eq_some_iff.mp new).1
  flush held carries waits flushed := by
    change flushChat bridge _ _ _ = _ at flushed
    rw [flushChat] at flushed
    split at flushed
    · obtain ⟨results, answered, equal⟩ := except_bind_eq_ok.mp flushed
      obtain ⟨rfl, rfl⟩ := Prod.mk.inj (Except.ok.inj equal)
      refine ⟨forall_mem_append.mpr ⟨forall_mem_append.mpr ⟨held, forall_mem_singleton.mpr
        (assistantMessage_carries carries waits)⟩, toolMessages_carry carries answered⟩, fun reasoning left => ?_⟩
      exact waits reasoning (takeReasoning_left left)
    · obtain ⟨rfl, rfl⟩ := Prod.mk.inj (Except.ok.inj flushed)
      exact ⟨held, waits⟩

theorem addReasoning_carries {message : ChatMessage} (carries : ChatCarries bridge owner entries message)
    (assistant : message.isAssistant = true) {pending : PendingReasoning}
    (waits : pending.Carries bridge owner entries) : ChatCarries bridge owner entries (addReasoning message pending) := by
  obtain ⟨more, filled, givenMore, marks, text⟩ := waits
  cases carries with
  | system text => cases assistant
  | user listed texts => cases assistant
  | result listed given sent => cases assistant
  | @assistant turn thoughts reasoning turnCarries given all =>
    have whole : (reasoning ++ more.map Prod.snd).Perm
        (turn.reasoningText.toList ++ (more ++ thoughts).map Prod.snd) := by
      rw [map_append]
      refine (all.append_right _).trans ?_
      rw [append_assoc]
      exact perm_append_comm.append_left _
    have carried := ChatCarries.assistant turnCarries (forall_mem_append.mpr ⟨givenMore, given⟩) whole
    rw [if_neg (by simp [filled]), map_append, append_assoc] at carried
    rw [addReasoning, marks]
    by_cases free : reasoning = []
    · subst free
      have old := get_reasoning turn none
      have set := set_reasoning turn none (.string pending.text)
      simp only [Option.toList_none, map_nil] at old set
      rw [if_pos rfl, str, old]
      dsimp only [Option.bind_none]
      rw [set, text]
      exact carried
    · have old := get_reasoning turn (some (.string (joined reasoning)))
      have set := set_reasoning turn (some (.string (joined reasoning)))
        (.string (joined reasoning ++ "\n\n" ++ pending.text))
      simp only [Option.toList_some, map_cons, map_nil] at old set
      rw [joined, String.intercalate_append_of_ne_nil free (map_eq_nil_iff.not.mpr filled)] at carried
      rw [if_neg free, str, old]
      dsimp only [Option.bind_some, Value.asStr]
      rw [set, text]
      exact carried

theorem attachBackwards_carries {pending : PendingReasoning} (waits : pending.Carries bridge owner entries)
    {messages after : List ChatMessage} (carries : ∀ message ∈ messages, ChatCarries bridge owner entries message)
    (attached : attachBackwards pending messages = some after) :
    ∀ message ∈ after, ChatCarries bridge owner entries message := by
  induction messages generalizing after with
  | nil => cases attached
  | cons message messages ih =>
    obtain ⟨first, rest⟩ := forall_mem_cons.mp carries
    rw [attachBackwards] at attached
    split at attached
    · rename_i assistant
      obtain rfl := Option.some.inj attached
      exact forall_mem_cons.mpr ⟨addReasoning_carries first assistant waits, rest⟩
    · obtain ⟨later, found, rfl⟩ := Option.map_eq_some_iff.mp attached
      exact forall_mem_cons.mpr ⟨first, ih rest found⟩

theorem attachTrailingReasoning_carries {pending : PendingReasoning} (waits : pending.Carries bridge owner entries)
    {messages : List ChatMessage} (carries : ∀ message ∈ messages, ChatCarries bridge owner entries message) :
    ∀ message ∈ attachTrailingReasoning messages pending, ChatCarries bridge owner entries message := by
  rw [attachTrailingReasoning]
  split
  · rename_i after attached
    have backwards := attachBackwards_carries waits (fun message listed => carries message (mem_reverse.mp listed))
      attached
    exact fun message listed => backwards message (mem_reverse.mp listed)
  · refine forall_mem_append.mpr ⟨carries, forall_mem_singleton.mpr ?_⟩
    obtain ⟨thoughts, filled, given, marks, text⟩ := waits
    have all : (thoughts.map Prod.snd).Perm (({} : Turn).reasoningText.toList ++ thoughts.map Prod.snd) := .refl _
    have carried := ChatCarries.assistant (carries_empty bridge entries) given all
    rw [if_neg (map_eq_nil_iff.not.mpr filled)] at carried
    rw [marks, text]
    simpa [Turn.fields] using carried

/-- **The messages of Chat say what the items of a history do.** -/
theorem chat_carries {system : String} {items : List Value} {messages : List ChatMessage}
    (translated : chatMessages bridge owner system items = .ok messages) :
    ∀ message ∈ messages, ChatCarries bridge owner items.zipIdx message := by
  obtain ⟨last, ran, equal⟩ := except_bind_eq_ok.mp translated
  have start : ∀ message ∈ systemMessages system, ChatCarries bridge owner items.zipIdx message := by
    rw [systemMessages]
    split
    · exact fun _ none => absurd none not_mem_nil
    · exact forall_mem_singleton.mpr (.system system)
  have carries := (chat_keeps bridge owner items.zipIdx).translate start (fun _ none => by cases none) ran
  rw [← Except.ok.inj equal]
  split
  · rename_i pending waits
    exact attachTrailingReasoning_carries (carries.pending pending waits) carries.messages
  · exact carries.messages

end Chat

/-! ### Anthropic Messages -/

section Anthropic

variable {bridge : Bridge} {owner : String} {entries : List (Value × Nat)} {messages : List AnthropicMessage}

/-- What `anthropic_blocks` makes of a content. -/
structure Blocks (given : List String) (blocks : List Value) : Prop where
  parts : blocks.filterMap textOfPart = given.filter visible
  texts : blocks.filterMap (str · "text") = given.filter visible
  each : ∀ block ∈ blocks, (∃ text ∈ given, visible text = true ∧ block = textBlock text) ∨
    ∃ source, block = .object [("type", .string "image"), ("source", source)]

theorem anthropicBlock_blocks {parts : List Part} {found : List (Option Value)}
    (built : parts.mapM anthropicBlock = .ok found) : Blocks (partTexts parts) (found.filterMap id) := by
  induction parts generalizing found with
  | nil =>
    cases built
    exact ⟨rfl, rfl, fun _ none => absurd none not_mem_nil⟩
  | cons part parts ih =>
    rw [mapM_cons] at built
    obtain ⟨block, first, built⟩ := except_bind_eq_ok.mp built
    obtain ⟨more, rest, rfl⟩ := except_bind_ok_eq.mp built
    obtain ⟨inner, texts, each⟩ := ih rest
    cases part with
    | text text =>
      have kept : ∀ block ∈ more.filterMap id, (∃ other ∈ text :: partTexts parts, visible other = true ∧
          block = textBlock other) ∨ ∃ source, block = .object [("type", .string "image"), ("source", source)] := by
        intro block member
        refine (each block member).imp_left ?_
        rintro ⟨other, listed, seen⟩
        exact ⟨other, mem_cons_of_mem _ listed, seen⟩
      have own : partTexts (.text text :: parts) = text :: partTexts parts := rfl
      rw [own]
      rw [anthropicBlock] at first
      by_cases seen : visible text = true
      · rw [if_pos seen] at first
        obtain rfl := Except.ok.inj first
        refine ⟨?_, ?_, forall_mem_cons.mpr ⟨.inl ⟨text, mem_cons_self, seen, rfl⟩, kept⟩⟩
        · rw [filter_cons_of_pos seen, ← inner]
          rfl
        · rw [filter_cons_of_pos seen, ← texts]
          rfl
      · rw [if_neg seen] at first
        obtain rfl := Except.ok.inj first
        refine ⟨?_, ?_, kept⟩
        · rw [filter_cons_of_neg seen, ← inner]
          rfl
        · rw [filter_cons_of_neg seen, ← texts]
          rfl
    | image value =>
      obtain ⟨image, read, rfl⟩ := except_map_eq_ok first
      obtain ⟨url, -, read⟩ := except_bind_eq_ok.mp read
      obtain ⟨source, -, equal⟩ := except_bind_eq_ok.mp read
      obtain rfl := Except.ok.inj equal
      exact ⟨inner, texts, forall_mem_cons.mpr ⟨.inr ⟨source, rfl⟩, each⟩⟩

theorem anthropicBlocks_blocks {item : Value} {blocks : List Value}
    (built : anthropicBlocks bridge item = .ok blocks) : Blocks (textsOf (item.get "content")) blocks := by
  obtain ⟨parts, found, built⟩ := except_bind_eq_ok.mp built
  obtain ⟨blocks, mapped, equal⟩ := except_bind_eq_ok.mp built
  rw [← Except.ok.inj equal, ← contentParts_texts found]
  exact anthropicBlock_blocks mapped

theorem toolOutput_oneByOne {output content : Value} (built : toolOutput bridge output true = .ok content) :
    SendsOutput bridge OneByOne output content := by
  rw [toolOutput.eq_def] at built
  cases output with
  | array items =>
    obtain ⟨blocks, found, rfl⟩ := except_map_eq_ok built
    exact (anthropicBlocks_blocks found).parts
  | string text => exact (Except.ok.inj built).symm
  | null => exact (Except.ok.inj built).symm
  | bool value => exact (Except.ok.inj built).symm
  | number value => exact (Except.ok.inj built).symm
  | object fields => exact (Except.ok.inj built).symm

/-- What the messages of Anthropic contain, when items were read. -/
structure AnthropicCarries (bridge : Bridge) (owner : String) (entries read : List (Value × Nat))
    (messages : List AnthropicMessage) : Prop where
  blocks : ∀ message ∈ messages, ∀ block ∈ message.items, BlockCarries bridge owner entries message.key block
  users : userTexts messages = read.flatMap givenUserTexts

theorem BlockCarries.userText {role : String} {block : Block} (carries : BlockCarries bridge owner entries role block)
    (other : role ≠ "user") : block.userText? = none := by
  cases carries <;> first | exact absurd rfl other | rfl

theorem pushAnthropic_blocks {role : String} {blocks : List Block}
    (carries : ∀ message ∈ messages, ∀ block ∈ message.items, BlockCarries bridge owner entries message.key block)
    (more : ∀ block ∈ blocks, BlockCarries bridge owner entries role block) :
    ∀ message ∈ pushAnthropic messages role blocks, ∀ block ∈ message.items,
      BlockCarries bridge owner entries message.key block := by
  rw [pushAnthropic]
  split
  · exact carries
  · exact Group.forall_push carries more

theorem pushAnthropic_users (messages : List AnthropicMessage) (role : String) (blocks : List Block) :
    userTexts (pushAnthropic messages role blocks) = userTexts messages ++ blocks.filterMap Block.userText? := by
  rw [pushAnthropic]
  split
  · rename_i empty
    rw [isEmpty_iff.mp empty, filterMap_nil, append_nil]
  · rw [userTexts, Group.flatMap_push, filterMap_append]
    rfl

theorem AnthropicCarries.push {read : List (Value × Nat)} (carries : AnthropicCarries bridge owner entries read messages)
    {role : String} {blocks : List Block} (more : ∀ block ∈ blocks, BlockCarries bridge owner entries role block)
    (quiet : ∀ block ∈ blocks, block.userText? = none) :
    AnthropicCarries bridge owner entries read (pushAnthropic messages role blocks) := by
  refine ⟨pushAnthropic_blocks carries.blocks more, ?_⟩
  rw [pushAnthropic_users, filterMap_eq_nil_iff.mpr quiet, append_nil, carries.users]

theorem toolUse_carries {turn : Turn} (carries : turn.Carries bridge entries) {blocks : List Block}
    (built : turn.calls.mapM (toolUseBlock bridge) = .ok blocks) :
    ∀ block ∈ blocks, BlockCarries bridge owner entries "assistant" block := by
  intro block member
  obtain ⟨call, listed, made⟩ := mapM_mem built member
  obtain ⟨input, read, rfl⟩ := except_bind_ok_eq.mp made
  obtain ⟨item, entry, given⟩ := carries.calls call listed
  refine .call entry given ?_
  rw [toolUseInput] at read
  split at read
  · rename_i fields known
    rw [known, ← Except.ok.inj read]
  · cases read
  · cases read

theorem toolResult_carries {turn : Turn} (carries : turn.Carries bridge entries) {blocks : List Block}
    (built : turn.calls.mapM (toolResultBlock bridge turn) = .ok blocks) :
    ∀ block ∈ blocks, BlockCarries bridge owner entries "user" block ∧ block.userText? = none := by
  intro block member
  obtain ⟨call, -, made⟩ := mapM_mem built member
  rw [toolResultBlock] at made
  split at made
  · rename_i result found
    obtain ⟨content, sent, rfl⟩ := except_bind_ok_eq.mp made
    obtain ⟨item, listed, given⟩ := carries.results result (mem_of_find?_eq_some found)
    have named : result.callId = call.callId := by simpa using find?_some found
    rw [← named]
    exact ⟨.result listed given (toolOutput_oneByOne sent), rfl⟩
  · cases made

theorem anthropic_keeps (bridge : Bridge) (owner : String) (entries : List (Value × Nat)) :
    (anthropicFormat bridge owner).Keeps bridge entries (AnthropicCarries bridge owner entries) fun pending =>
      ∀ block ∈ pending, BlockCarries bridge owner entries "assistant" block where
  thread := by
    intro read messages item origin text carries listed thread
    have texts := itemTexts_thread thread
    have seen : visible text = true := by
      rw [createThreadInput] at thread
      split at thread
      · exact (Option.filter_eq_some_iff.mp thread).2
      · cases thread
    refine ⟨pushAnthropic_blocks carries.blocks (forall_mem_singleton.mpr (.user listed ?_ seen)), ?_⟩
    · rw [texts]
      exact mem_cons_self
    · have given : givenUserTexts (item, origin) = [(origin, text)] := by
        rw [givenUserTexts, if_pos (.inl (by rw [thread]; rfl)), texts, filter_cons_of_pos seen]
        rfl
      show userTexts (pushAnthropic messages "user" [⟨some (.user origin), textBlock text⟩]) = _
      rw [pushAnthropic_users, carries.users, flatMap_append, flatMap_singleton, given]
      rfl
  user := by
    intro read messages item origin after carries listed user pushed
    obtain ⟨values, built, rfl⟩ := except_bind_ok_eq.mp pushed
    obtain ⟨-, texts, each⟩ := anthropicBlocks_blocks built
    rw [← itemTexts_message user] at texts each
    refine ⟨pushAnthropic_blocks carries.blocks fun block member => ?_, ?_⟩
    · obtain ⟨value, inside, rfl⟩ := mem_map.mp member
      rcases each value inside with ⟨text, given, seen, rfl⟩ | ⟨source, rfl⟩
      · exact .user listed given seen
      · exact .image listed
    · have given : givenUserTexts (item, origin) = ((itemTexts item).filter visible).map (origin, ·) :=
        if_pos (.inr user)
      rw [pushAnthropic_users, carries.users, flatMap_append, flatMap_singleton, given, ← texts,
        filterMap_map, map_filterMap]
      rfl
  other := by
    intro read messages item carries thread user origin
    refine ⟨carries.blocks, ?_⟩
    have given : givenUserTexts (item, origin) = [] := if_neg (by simp [thread, user])
    rw [carries.users, flatMap_append, flatMap_singleton, given, append_nil]
  reasoning := by
    intro pending item origin after waits listed read
    obtain ⟨values, given, rfl⟩ := except_bind_ok_eq.mp read
    refine forall_mem_append.mpr ⟨waits, fun block member => ?_⟩
    obtain ⟨value, inside, rfl⟩ := mem_map.mp member
    rw [replayedBlock]
    split
    · exact .reasoning listed given inside ‹_›
    · exact .replayed listed given inside (Bool.eq_false_iff.mpr ‹_›)
  callReasoning turn item := ⟨turn.reasoningText, rfl, fun _ same => .inl same⟩
  flush := by
    intro read messages turn pending after last carries turnCarries waits flushed
    change flushAnthropic bridge _ _ _ = _ at flushed
    have texts : ∀ block ∈ turn.text.toList.map textOf, BlockCarries bridge owner entries "assistant" block := by
      intro block member
      obtain ⟨text, known, rfl⟩ := mem_map.mp member
      obtain ⟨item, listed, given, seen⟩ := turnCarries.text text (Option.mem_toList.mp known)
      exact .text listed given seen
    have nothing : ∀ block ∈ ([] : List Block), BlockCarries bridge owner entries "assistant" block :=
      fun _ none => absurd none not_mem_nil
    rw [flushAnthropic] at flushed
    split at flushed
    · obtain ⟨uses, used, flushed⟩ := except_bind_eq_ok.mp flushed
      obtain ⟨results, answered, equal⟩ := except_bind_eq_ok.mp flushed
      obtain ⟨rfl, rfl⟩ := Prod.mk.inj (Except.ok.inj equal)
      have said := forall_mem_append.mpr
        ⟨forall_mem_append.mpr ⟨waits, texts⟩, toolUse_carries turnCarries used⟩
      have sent : ∀ block ∈ results, BlockCarries bridge owner entries "user" block ∧ block.userText? = none :=
        toolResult_carries turnCarries answered
      refine ⟨?_, nothing⟩
      exact (carries.push said fun block member => (said block member).userText (by decide)).push
        (fun block member => (sent block member).1) fun block member => (sent block member).2
    · split at flushed
      · rename_i text known
        obtain ⟨rfl, rfl⟩ := Prod.mk.inj (Except.ok.inj flushed)
        rw [known] at texts
        have said := forall_mem_append.mpr ⟨waits, texts⟩
        exact ⟨carries.push said fun block member => (said block member).userText (by decide), nothing⟩
      · obtain ⟨rfl, rfl⟩ := Prod.mk.inj (Except.ok.inj flushed)
        exact ⟨carries, waits⟩

end Anthropic

end Byok.Codex
