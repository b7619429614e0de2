/-
**A translated request and its history.** `translate_request` of `server/src/codex/bridge/request.rs`.

* `ChatKeeps`, `AnthropicKeeps` — the order of a history is kept, and its contents are.
* `anthropic_kept_iff` — when Anthropic keeps the order.
* `history_kept_iff` — both formats, for an accepted request.
* `history_lost` — two histories that are not kept: sequential rounds, and reasoning before a user's message.
-/

import Byok.Codex.HistoryTrim

namespace Byok.Codex

open Library

variable {bridge : Bridge} {owner system : String} {source : Value} {items : List Value}

/-- Chat keeps a history: its order, and what the items say. -/
structure ChatKeeps (bridge : Bridge) (owner : String) (items : List Value) (messages : List ChatMessage) : Prop where
  order : Kept bridge (chatReading bridge owner) items (chatMarks messages)
  contents : ∀ message ∈ messages, ChatCarries bridge owner items.zipIdx message

/-- Anthropic keeps a history: its order, and what the items say. -/
structure AnthropicKeeps (bridge : Bridge) (owner : String) (items : List Value) (messages : List AnthropicMessage) :
    Prop where
  order : Kept bridge (anthropicReading bridge owner) items (anthropicMarks messages)
  contents : RequestCarries bridge owner items.zipIdx messages

/-! ### Anthropic Messages -/

theorem anthropicMessages_ok {messages : List AnthropicMessage}
    (translated : anthropicMessages bridge owner items = .ok messages) :
    ∃ last, (anthropicFormat bridge owner).translate bridge ⟨[], {}, []⟩ items = .ok last ∧
      AnthropicCarries bridge owner items.zipIdx items.zipIdx (dropEmptyMessages last.messages) ∧
      messages = trimTrailingAssistantPrefill (dropEmptyMessages last.messages) := by
  obtain ⟨last, ran, equal⟩ := except_bind_eq_ok.mp translated
  have nothing : AnthropicCarries bridge owner items.zipIdx [] [] := ⟨fun _ none => absurd none List.not_mem_nil, rfl⟩
  have carries := (anthropic_keeps bridge owner items.zipIdx).translate nothing
    (fun _ none => absurd none List.not_mem_nil) ran
  refine ⟨last, ran, carries.messages.dropEmpty, ?_⟩
  dsimp only at equal
  split at equal
  · cases equal
  · exact (Except.ok.inj equal).symm

/-- **Anthropic keeps the order of a history where rounds are apart and no turn leaves reasoning to another.** -/
theorem anthropic_kept_iff {messages : List AnthropicMessage} (validated : validateToolHistory items = .ok ())
    (translated : anthropicMessages bridge owner items = .ok messages) :
    Kept bridge (anthropicReading bridge owner) items (anthropicMarks messages) ↔
      RoundsApart (segments bridge (anthropicReading bridge owner) items) ∧
        AnthropicStays (anthropicReading bridge owner) (segments bridge (anthropicReading bridge owner) items) := by
  obtain ⟨last, ran, carries, rfl⟩ := anthropicMessages_ok translated
  have sound : ∀ block ∈ (dropEmptyMessages last.messages).flatMap Group.items, block.Sound := by
    intro block member
    obtain ⟨message, listed, inside⟩ := List.mem_flatMap.mp member
    exact (carries.blocks message listed block inside).sound
  obtain ⟨between, ran, flushed⟩ := except_bind_eq_ok.mp ran
  have start : AnthropicShows [] [] := rfl
  obtain ⟨shown, -⟩ := run_start (anthropic_follows bridge owner) start ran flushed rfl
  have marks : anthropicMarks (trimTrailingAssistantPrefill (dropEmptyMessages last.messages)) =
      (place (anthropicReading bridge owner) [] (segments bridge (anthropicReading bridge owner) items)).1.flatMap
        placedMarks := by
    rw [anthropicMarks_trim sound, anthropicMarks_dropEmpty]
    rw [List.nil_append] at shown
    rw [← lineMarks_allPlaced (place_quiet [] _)]
    exact shown
  rw [marks, (placement_place items).kept_iff validated, homed_place,
    ← anthropicStays_iff (segments_ordered items) rfl]
  simp

/-! ### Both formats -/

/-- **A request keeps its history where rounds are apart and no turn leaves reasoning to another.** What
`translate_request` accepts, and what either format makes of it. -/
theorem history_kept_iff (accepted : acceptedItems source = .ok items) :
    (∀ messages, chatMessages bridge owner system items = .ok messages →
      (ChatKeeps bridge owner items messages ↔
        RoundsApart (segments bridge (chatReading bridge owner) items) ∧
          ChatStays (chatReading bridge owner) (segments bridge (chatReading bridge owner) items))) ∧
    ∀ messages, anthropicMessages bridge owner items = .ok messages →
      (AnthropicKeeps bridge owner items messages ↔
        RoundsApart (segments bridge (anthropicReading bridge owner) items) ∧
          AnthropicStays (anthropicReading bridge owner) (segments bridge (anthropicReading bridge owner) items)) := by
  obtain ⟨_, -, accepted⟩ := except_bind_eq_ok.mp accepted
  obtain ⟨listed, -, accepted⟩ := except_bind_eq_ok.mp accepted
  obtain ⟨⟨⟩, validated, rfl⟩ := except_bind_ok_eq.mp accepted
  constructor
  · intro messages translated
    have kept := chat_kept_iff validated translated
    exact ⟨fun keeps => kept.mp keeps.order, fun apart => ⟨kept.mpr apart, chat_carries translated⟩⟩
  · intro messages translated
    have kept := anthropic_kept_iff validated translated
    obtain ⟨last, -, carries, rfl⟩ := anthropicMessages_ok translated
    exact ⟨fun keeps => kept.mp keeps.order, fun apart => ⟨kept.mpr apart, carries.trim⟩⟩

/-! ### Samples -/

/-- The libraries, at arguments that are the text of an empty object. -/
def plainBridge : Bridge where
  base64Decode _ := none
  fromSlice _ := none
  fromStr text := if text = "\x7b\x7d" then some (.object []) else none
  toJson _ := "\x7b\x7d"
  debug _ := "None"
  upstreamName name _ := name

def sampleMessage (role text : String) : Value :=
  .object [("type", .string "message"), ("role", .string role), ("content", .string text)]

def sampleCall (callId : String) : Value :=
  .object [("type", .string "function_call"), ("name", .string "read"), ("call_id", .string callId),
    ("arguments", .string "\x7b\x7d")]

def sampleOutput (callId : String) : Value :=
  .object [("type", .string "function_call_output"), ("call_id", .string callId), ("output", .string "done")]

def sampleReasoning : Value :=
  .object [("type", .string "reasoning"), ("summary", .array [.object [("text", .string "a plan")]])]

def sampleRequest (items : List Value) : Value := .object [("input", .array items)]

/-- One round, and an answer. -/
def oneRound : List Value :=
  [sampleMessage "user" "go", sampleCall "a", sampleOutput "a", sampleMessage "assistant" "done"]

theorem stays_of_none {reading : Reading} {all : List Segment} (none : ∀ segment ∈ all, segment.thoughts = []) :
    ChatStays reading all ∧ AnthropicStays reading all := by
  have nothing : ∀ before segment after, all = before ++ segment :: after → ¬ LeftOver reading segment after := by
    rintro before segment after rfl left
    exact left.1 (none segment (List.mem_append_right _ List.mem_cons_self))
  exact ⟨fun before segment after split left => absurd left (nothing before segment after split),
    fun before segment after split left => absurd left (nothing before segment after split)⟩

/-- One round is kept by both formats. -/
theorem history_kept_oneRound :
    (∃ messages, chatMessages plainBridge "owner" "" oneRound = .ok messages ∧
      ChatKeeps plainBridge "owner" oneRound messages) ∧
    ∃ messages, anthropicMessages plainBridge "owner" oneRound = .ok messages ∧
      AnthropicKeeps plainBridge "owner" oneRound messages := by
  have accepted : acceptedItems (sampleRequest oneRound) = .ok oneRound := rfl
  have kept := @history_kept_iff plainBridge "owner" "" (sampleRequest oneRound) oneRound accepted
  constructor
  · refine ⟨_, rfl, (kept.1 _ rfl).mpr ⟨?_, (stays_of_none ?_).1⟩⟩
    · unfold RoundsApart
      decide
    · decide
  · refine ⟨_, rfl, (kept.2 _ rfl).mpr ⟨?_, (stays_of_none ?_).2⟩⟩
    · unfold RoundsApart
      decide
    · decide

/-- Two rounds, one after the other. -/
def twoRounds : List Value :=
  [sampleMessage "user" "go", sampleCall "a", sampleOutput "a", sampleCall "b", sampleOutput "b"]

/-- Reasoning before the next message of the user. -/
def lateReasoning : List Value :=
  [sampleMessage "user" "go", sampleReasoning, sampleMessage "user" "now", sampleMessage "assistant" "done"]

/-- **Two histories that are not kept.** Two rounds become one batch, in both formats; and reasoning before a
message of the user goes to the answer behind it. -/
theorem history_lost :
    (acceptedItems (sampleRequest twoRounds) = .ok twoRounds ∧
      (∃ messages, chatMessages plainBridge "owner" "" twoRounds = .ok messages ∧
        ¬ ChatKeeps plainBridge "owner" twoRounds messages) ∧
      ∃ messages, anthropicMessages plainBridge "owner" twoRounds = .ok messages ∧
        ¬ AnthropicKeeps plainBridge "owner" twoRounds messages) ∧
    acceptedItems (sampleRequest lateReasoning) = .ok lateReasoning ∧
      ∃ messages, chatMessages plainBridge "owner" "" lateReasoning = .ok messages ∧
        ¬ ChatKeeps plainBridge "owner" lateReasoning messages := by
  have batch : ¬ [Mark.result 2 "a", .call 3 "b"].Sublist
      [.user 0, .call 1 "a", .call 3 "b", .result 2 "a", .result 4 "b"] := by decide
  refine ⟨⟨rfl, ⟨_, rfl, fun kept => batch ?_⟩, _, rfl, fun kept => batch ?_⟩, rfl, _, rfl, fun kept => ?_⟩
  · exact kept.order.rounds (2, "a") (by decide) (3, "b") (by decide) (by decide)
  · exact kept.order.rounds (2, "a") (by decide) (3, "b") (by decide) (by decide)
  · have later : [Mark.user 2, .reasoning 1].Sublist [.user 0, .user 2, .reasoning 1, .text 3] := by decide
    exact absurd ((kept.order.inTurn 2 1).1 later) (by decide)

end Byok.Codex
