/-
**The shape of a projected history.**

A projected history is a sequence of single messages and of whole tool rounds: an assistant message
with calls, then results that answer all of them, each once; and no stray result right behind a
round answers one of its calls (`Segmented`, `segmented_of_projectMessages`). Messages of parts and
tool results come through one by one, in their order (`projectMessages_others`), and no replay state
is made up (`projectMessages_replayState`).
-/

import Byok.Model.ProjectionLaws

namespace Byok

open Library List

/-- The role is the one that messages of this content have. -/
def ProjectedMessage.RoleFits (message : ProjectedMessage) : Prop :=
  match message.content with
  | .parts _ => message.role = .system ∨ message.role = .user
  | .assistant .. => message.role = .assistant
  | .toolResult _ => message.role = .tool

/-- A message that is an assistant's. -/
def ProjectedMessage.isAssistant (message : ProjectedMessage) : Bool :=
  match message.content with
  | .assistant .. => true
  | _ => false

/-- What every constructor of the source gives a message: the role of its content, and the id of
the round to an assistant message with calls. -/
structure CanonicalMessage.Shaped (message : CanonicalMessage) : Prop where
  role : (projectMessage message).RoleFits
  named : ∀ text thinking replayState toolCalls,
    message.content = .assistant text thinking none replayState toolCalls → toolCalls = []

/-- A message outside every tool round. -/
def ProjectedMessage.Plain (message : ProjectedMessage) : Prop :=
  message.RoleFits ∧
  match message.content with
  | .parts _ => True
  | .assistant _ _ _ calls => calls = []
  | .toolResult result => normalizedToolResult result = result

/-- The messages of one tool round. -/
def roundMessages (messageId text thinking : String) (replayState : Option ProviderReplayState)
    (calls : List ToolCallContent) (results : List (String × ToolResultContent)) :
    List ProjectedMessage :=
  ⟨messageId, .assistant, .assistant text thinking replayState calls⟩ ::
    results.map fun entry => ⟨entry.1, .tool, .toolResult entry.2⟩

/-- A list of single messages and whole rounds. `answerable` are the call ids of the round right
before the list. -/
inductive Segmented : List String → List ProjectedMessage → Prop
  | nil (answerable : List String) : Segmented answerable []
  | single {answerable : List String} {message : ProjectedMessage} {rest : List ProjectedMessage}
      (plain : message.Plain)
      (apart : ∀ result, message.content = .toolResult result → result.callId ∉ answerable)
      (more : Segmented [] rest) : Segmented answerable (message :: rest)
  | round {answerable : List String} {messageId text thinking : String}
      {replayState : Option ProviderReplayState} {calls : List ToolCallContent}
      {results : List (String × ToolResultContent)} {rest : List ProjectedMessage}
      (called : calls ≠ []) (callNames : ∀ call ∈ calls, normalizedToolCall call = call)
      (resultNames : ∀ entry ∈ results, normalizedToolResult entry.2 = entry.2)
      (answers : ∀ entry ∈ results, entry.2.callId ∈ calls.map (·.callId))
      (distinct : (results.map (·.2.callId)).Nodup)
      (answered : ∀ call ∈ calls, call.callId ∈ results.map (·.2.callId))
      (more : Segmented (calls.map (·.callId)) rest) :
      Segmented answerable
        (roundMessages messageId text thinking replayState calls results ++ rest)

/-! ### The open round -/

theorem normalizedToolCall_idempotent (call : ToolCallContent) :
    normalizedToolCall (normalizedToolCall call) = normalizedToolCall call := by
  simp [normalizedToolCall, normalizeToolName_idempotent]

theorem normalizedToolResult_idempotent (result : ToolResultContent) :
    normalizedToolResult (normalizedToolResult result) = normalizedToolResult result := by
  simp [normalizedToolResult, normalizeToolName_idempotent]

/-- What the loops of a tool round keep. -/
structure ToolRoundScan.Sound (scan : ToolRoundScan) : Prop where
  called : scan.calls ≠ []
  names : ∀ call ∈ scan.calls, normalizedToolCall call = call
  answers : ∀ entry ∈ scan.results, entry.2.callId ∈ scan.calls.map (·.callId)
  distinct : (scan.results.map (·.2.callId)).Nodup

namespace ToolRoundScan

variable {scan next : ToolRoundScan}

theorem hasResult_iff {callId : String} :
    scan.hasResult callId = true ↔ callId ∈ scan.results.map (·.2.callId) := by
  simp [hasResult]

theorem mem_sortedCalls {call : ToolCallContent} : call ∈ scan.sortedCalls ↔ call ∈ scan.calls :=
  mem_insertionSort _

theorem sortedCalls_callIds {callId : String} :
    callId ∈ scan.sortedCalls.map (·.callId) ↔ callId ∈ scan.calls.map (·.callId) := by
  simp only [mem_map, mem_sortedCalls]

theorem sound_addPart {text thinking : String} {replayState : Option ProviderReplayState}
    {toolCalls : List ToolCallContent} (sound : scan = .empty ∨ scan.Sound) (some : toolCalls ≠ [])
    (added : scan.addPart text thinking replayState toolCalls = .ok next) : next.Sound := by
  obtain ⟨rfl, -⟩ := addPart_ok added
  have fresh : ∀ call ∈ toolCalls.map normalizedToolCall, normalizedToolCall call = call := by
    intro call member
    obtain ⟨original, -, rfl⟩ := mem_map.mp member
    exact normalizedToolCall_idempotent original
  have nonempty : scan.calls ++ toolCalls.map normalizedToolCall ≠ [] := by simp [some]
  rcases sound with rfl | sound
  · exact ⟨nonempty, fresh, by simp [empty], by simp [empty]⟩
  · refine ⟨nonempty, fun call member => ?_, fun entry member => ?_, sound.distinct⟩
    · rcases mem_append.mp member with old | new
      · exact sound.names call old
      · exact fresh call new
    · rw [map_append]
      exact mem_append_left _ (sound.answers entry member)

theorem sound_addResult {messageId : String} {result : ToolResultContent} (sound : scan.Sound)
    (called : scan.hasCall result.callId = true)
    (added : scan.addResult messageId result = .ok next) : next.Sound := by
  obtain ⟨rfl, new⟩ := addResult_ok added
  refine ⟨sound.called, sound.names, fun entry member => ?_, ?_⟩
  · rcases mem_append.mp member with old | last
    · exact sound.answers entry old
    · rw [mem_singleton.mp last]
      exact hasCall_iff.mp called
  · have unseen : result.callId ∉ scan.results.map (·.2.callId) := by
      rw [← hasResult_iff, new]
      simp
    rw [map_append]
    exact nodup_append.mpr ⟨sound.distinct, nodup_singleton _, by
      intro callId old other last equal
      simp only [map_cons, map_nil, mem_singleton] at last
      subst last
      subst equal
      exact unseen old⟩

theorem close_ok {messageId : String} {out : List ProjectedMessage}
    (closed : scan.close messageId = .ok out) :
    out = roundMessages messageId scan.text scan.thinking scan.replayState scan.sortedCalls
      (scan.results.map fun entry => (entry.1, normalizedToolResult entry.2)) ∧
    ∀ call ∈ scan.calls, call.callId ∈ scan.results.map (·.2.callId) := by
  rw [close] at closed
  split at closed
  · cases closed
  · rename_i answered
    cases closed
    refine ⟨?_, fun call member => ?_⟩
    · simp [roundMessages, Function.comp_def]
    · have seen := find?_eq_none.mp answered call (mem_sortedCalls.mpr member)
      rw [← hasResult_iff]
      simpa using seen

end ToolRoundScan

theorem run_results (round : OpenRound) {messages : List CanonicalMessage}
    {results : List (String × ToolResultContent)}
    (answers : List.Forall₂ (fun message entry => message.messageId = entry.1 ∧
      message.content = .toolResult entry.2) messages results)
    (called : ∀ entry ∈ results, entry.2.callId ∈ round.scan.calls.map (·.callId))
    (distinct : ((round.scan.results ++ results).map (·.2.callId)).Nodup) :
    projector.run (some round) messages = .ok ([], some { round with
      scan := { round.scan with results := round.scan.results ++ results } }) := by
  induction answers generalizing round with
  | nil => simp
  | @cons message entry messages results answer more ih =>
    obtain ⟨messageId, content⟩ := answer
    have hasCall : round.scan.hasCall entry.2.callId = true :=
      hasCall_iff.mpr (called entry mem_cons_self)
    have continued : round.continues message = true := by
      simpa [OpenRound.continues, content] using hasCall
    have unseen : round.scan.hasResult entry.2.callId = false := by
      rw [← Bool.not_eq_true, ToolRoundScan.hasResult_iff]
      intro seen
      rw [map_append] at distinct
      exact (nodup_append.mp distinct).2.2 _ seen _
        (mem_map_of_mem mem_cons_self) rfl
    have added : round.scan.addResult message.messageId entry.2 = .ok { round.scan with
        results := round.scan.results ++ [entry] } := by
      rw [ToolRoundScan.addResult, if_neg (by simp [unseen]), messageId]
    have later := ih { round with
        scan := { round.scan with results := round.scan.results ++ [entry] } }
      (fun other member => called other (mem_cons_of_mem _ member))
      (by simpa [append_assoc] using distinct)
    have absorbed : projector.step (some round) message = .ok ([], some { round with
        scan := { round.scan with results := round.scan.results ++ [entry] } }) := by
      rw [step_continue continued]
      simp only [OpenRound.absorb, content, added, except_ok_bind]
    simpa using projector.run_cons_ok absorbed later

/-! ### The shape -/

theorem projectMessage_plain {message : CanonicalMessage} (shaped : message.Shaped)
    (single : toolRoundPart message = none) : (projectMessage message).Plain := by
  refine ⟨shaped.role, ?_⟩
  unfold projectMessage
  rcases content : message.content with parts | ⟨text, thinking, group, replayState, calls⟩ | result
  · trivial
  · cases group with
    | none => simp [shaped.named _ _ _ _ content]
    | some group =>
      cases calls with
      | nil => rfl
      | cons call calls => simp [toolRoundPart, content] at single
  · exact normalizedToolResult_idempotent result

theorem segmented_transduce {messages : List CanonicalMessage}
    (shaped : ∀ message ∈ messages, message.Shaped) :
    (∀ answerable out, (∀ message ∈ messages.head?, ∀ result,
        message.content = .toolResult result → result.callId ∉ answerable) →
      projector.transduce none messages = .ok out → Segmented answerable out) ∧
    ∀ (round : OpenRound) answerable out, round.scan.Sound →
      projector.transduce (some round) messages = .ok out → Segmented answerable out := by
  -- a round that closes in front of a list whose shape is known
  have closing : ∀ (round : OpenRound) answerable group rest, round.scan.Sound →
      round.close = .ok group → Segmented (round.scan.sortedCalls.map (·.callId)) rest →
      Segmented answerable (group ++ rest) := by
    intro round answerable group rest sound closed more
    obtain ⟨rfl, answered⟩ := ToolRoundScan.close_ok closed
    refine .round ?_ ?_ ?_ ?_ ?_ ?_ more
    · intro empty
      refine sound.called (eq_nil_iff_forall_not_mem.mpr fun call member => ?_)
      rw [← ToolRoundScan.mem_sortedCalls, empty] at member
      cases member
    · exact fun call member => sound.names call (ToolRoundScan.mem_sortedCalls.mp member)
    · simp only [mem_map, forall_exists_index, and_imp]
      rintro _ entry - rfl
      exact normalizedToolResult_idempotent entry.2
    · simp only [mem_map (l := round.scan.results), forall_exists_index, and_imp]
      rintro _ entry member rfl
      exact ToolRoundScan.sortedCalls_callIds.mpr (sound.answers entry member)
    · simpa [Function.comp_def, normalizedToolResult] using sound.distinct
    · intro call member
      simpa [Function.comp_def, normalizedToolResult] using
        answered call (ToolRoundScan.mem_sortedCalls.mp member)
  induction messages with
  | nil =>
    refine ⟨fun answerable out _ done => ?_, fun round answerable out sound done => ?_⟩
    · cases done
      exact .nil answerable
    · have whole := closing round answerable out [] sound (by simpa using done) (.nil _)
      rwa [append_nil] at whole
  | cons message rest ih =>
    obtain ⟨ihNone, ihSome⟩ := ih fun other member => shaped other (mem_cons_of_mem _ member)
    have atNone : ∀ answerable out, (∀ result, message.content = .toolResult result →
        result.callId ∉ answerable) →
        projector.transduce none (message :: rest) = .ok out → Segmented answerable out := by
      intro answerable out apart done
      rcases transduce_none_ok done with ⟨single, more, ran, rfl⟩ |
        ⟨groupId, text, thinking, replayState, toolCalls, scan, content, calls, added, ran⟩
      · refine .single (projectMessage_plain (shaped message mem_cons_self) single) ?_
          (ihNone [] more (by simp) ran)
        intro result content
        unfold projectMessage at content
        cases original : message.content with
        | parts parts => simp [original] at content
        | assistant => simp [original] at content
        | toolResult found =>
          simp only [original, ProjectedContent.toolResult.injEq] at content
          subst content
          exact apart found original
      · exact ihSome _ answerable out (ToolRoundScan.sound_addPart (.inl rfl) calls added) ran
    refine ⟨fun answerable out apart => atNone answerable out (apart message rfl), ?_⟩
    intro round answerable out sound done
    rcases transduce_some_ok done with ⟨result, scan, content, called, added, ran⟩ |
      ⟨text, thinking, replayState, toolCalls, scan, content, calls, added, ran⟩ |
      ⟨apart, group, more, closed, ran, rfl⟩
    · exact ihSome _ answerable out (ToolRoundScan.sound_addResult sound called added) ran
    · exact ihSome _ answerable out (ToolRoundScan.sound_addPart (.inr sound) calls added) ran
    · refine closing round answerable group more sound closed (atNone _ more ?_ ran)
      intro result content member
      have called : round.scan.hasCall result.callId = true :=
        hasCall_iff.mpr (ToolRoundScan.sortedCalls_callIds.mp member)
      simp [OpenRound.continues, content, called] at apart

/-- **A projected history is single messages and whole rounds.** -/
theorem segmented_of_projectMessages {messages : List CanonicalMessage} {out : List ProjectedMessage}
    (shaped : ∀ message ∈ messages, message.Shaped) (projects : projectMessages messages = .ok out) :
    Segmented [] out := by
  rw [projectMessages_eq_transduce] at projects
  exact (segmented_transduce shaped).1 [] out (by simp) projects

/-! ### The messages of a segmented history -/

namespace Segmented

variable {answerable : List String} {messages : List ProjectedMessage}

theorem head_apart (segmented : Segmented answerable messages) :
    ∀ message ∈ messages.head?, ∀ result, message.content = .toolResult result →
      result.callId ∉ answerable := by
  intro message head result content
  cases segmented with
  | nil => cases head
  | single plain apart more =>
    cases head
    exact apart result content
  | round called callNames resultNames answers distinct answered more =>
    cases head
    cases content

theorem roleFits (segmented : Segmented answerable messages) :
    ∀ message ∈ messages, message.RoleFits := by
  induction segmented with
  | nil => simp
  | single plain apart more ih =>
    intro message member
    rcases mem_cons.mp member with rfl | later
    · exact plain.1
    · exact ih message later
  | round called callNames resultNames answers distinct answered more ih =>
    intro message member
    rcases mem_append.mp member with inside | later
    · rcases mem_cons.mp inside with rfl | result
      · rfl
      · obtain ⟨entry, -, rfl⟩ := mem_map.mp result
        rfl
    · exact ih message later

end Segmented

/-- The results of a round that is still open, as the messages they come through as. -/
def OpenRound.resultMessages (round : OpenRound) : List ProjectedMessage :=
  round.scan.results.map fun entry => ⟨entry.1, .tool, .toolResult (normalizedToolResult entry.2)⟩

theorem OpenRound.close_others {round : OpenRound} {group : List ProjectedMessage}
    (closed : round.close = .ok group) :
    group.filter (!·.isAssistant) = round.resultMessages := by
  obtain ⟨rfl, -⟩ := ToolRoundScan.close_ok closed
  rw [roundMessages, filter_cons_of_neg (by simp [ProjectedMessage.isAssistant]),
    map_map, filter_eq_self.mpr]
  · rfl
  · simp only [mem_map, forall_exists_index, and_imp]
    rintro _ entry - rfl
    rfl

theorem transduce_others {messages : List CanonicalMessage}
    (shaped : ∀ message ∈ messages, message.Shaped) (open? : Option OpenRound)
    {out : List ProjectedMessage} (done : projector.transduce open? messages = .ok out) :
    out.filter (!·.isAssistant) = (open?.elim [] OpenRound.resultMessages) ++
      (messages.map projectMessage).filter (!·.isAssistant) := by
  induction messages generalizing open? out with
  | nil =>
    rw [Transducer.transduce_nil] at done
    cases open? with
    | none => cases done; rfl
    | some round => simpa using OpenRound.close_others done
  | cons message rest ih =>
    have later := ih fun other member => shaped other (mem_cons_of_mem _ member)
    have fresh : ∀ out, projector.transduce none (message :: rest) = .ok out →
        out.filter (!·.isAssistant) =
          ((message :: rest).map projectMessage).filter (!·.isAssistant) := by
      intro out done
      rcases transduce_none_ok done with ⟨single, more, ran, rfl⟩ |
        ⟨groupId, text, thinking, replayState, toolCalls, scan, content, calls, added, ran⟩
      · rw [map_cons, filter_cons, filter_cons, later _ ran]
        rfl
      · obtain ⟨rfl, -⟩ := addPart_ok added
        rw [later _ ran, map_cons, filter_cons_of_neg
          (by simp [projectMessage, content, ProjectedMessage.isAssistant])]
        rfl
    cases open? with
    | none => exact fresh out done
    | some round =>
      rcases transduce_some_ok done with ⟨result, scan, content, called, added, ran⟩ |
        ⟨text, thinking, replayState, toolCalls, scan, content, calls, added, ran⟩ |
        ⟨apart, group, more, closed, ran, rfl⟩
      · obtain ⟨rfl, -⟩ := addResult_ok added
        have role : message.role = .tool := by
          simpa [projectMessage, ProjectedMessage.RoleFits, content] using
            (shaped message mem_cons_self).role
        rw [later _ ran, map_cons, filter_cons_of_pos
          (by simp [projectMessage, content, ProjectedMessage.isAssistant])]
        simp [OpenRound.resultMessages, projectMessage, content, role]
      · obtain ⟨rfl, -⟩ := addPart_ok added
        rw [later _ ran, map_cons, filter_cons_of_neg
          (by simp [projectMessage, content, ProjectedMessage.isAssistant])]
        rfl
      · rw [filter_append, OpenRound.close_others closed, fresh more ran]
        rfl

theorem projectMessages_others {messages : List CanonicalMessage} {out : List ProjectedMessage}
    (shaped : ∀ message ∈ messages, message.Shaped) (projects : projectMessages messages = .ok out) :
    out.filter (!·.isAssistant) = (messages.map projectMessage).filter (!·.isAssistant) := by
  rw [projectMessages_eq_transduce] at projects
  exact transduce_others shaped none projects

/-! ### Replay states -/

/-- The replay state that a message carries. -/
def CanonicalMessage.replayState? (message : CanonicalMessage) : Option ProviderReplayState :=
  match message.content with
  | .assistant _ _ _ replayState _ => replayState
  | _ => none

/-- The replay state that a projected message carries. -/
def ProjectedMessage.replayState? (message : ProjectedMessage) : Option ProviderReplayState :=
  match message.content with
  | .assistant _ _ replayState _ => replayState
  | _ => none

theorem projectMessage_replayState (message : CanonicalMessage) :
    (projectMessage message).replayState? = message.replayState? := by
  unfold ProjectedMessage.replayState? projectMessage CanonicalMessage.replayState?
  cases message.content <;> rfl

theorem addPart_replayState {scan next : ToolRoundScan} {text thinking : String}
    {replayState : Option ProviderReplayState} {toolCalls : List ToolCallContent}
    (added : scan.addPart text thinking replayState toolCalls = .ok next) :
    ∀ state ∈ next.replayState, state ∈ scan.replayState ∨ state ∈ replayState := by
  obtain ⟨rfl, -⟩ := addPart_ok added
  cases scan.replayState <;> simp

theorem close_replayState {round : OpenRound} {group : List ProjectedMessage}
    (closed : round.close = .ok group) :
    ∀ message ∈ group, ∀ state ∈ message.replayState?, state ∈ round.scan.replayState := by
  obtain ⟨rfl, -⟩ := ToolRoundScan.close_ok closed
  intro message member state carried
  rcases mem_cons.mp member with rfl | result
  · exact carried
  · obtain ⟨entry, -, rfl⟩ := mem_map.mp result
    cases carried

theorem transduce_replayState {messages : List CanonicalMessage} {open? : Option OpenRound}
    {out : List ProjectedMessage} (done : projector.transduce open? messages = .ok out) :
    ∀ message ∈ out, ∀ state ∈ message.replayState?,
      state ∈ open?.bind (·.scan.replayState) ∨
        ∃ original ∈ messages, state ∈ original.replayState? := by
  induction messages generalizing open? out with
  | nil =>
    rw [Transducer.transduce_nil] at done
    cases open? with
    | none => cases done; simp
    | some round =>
      exact fun message member state carried =>
        .inl (close_replayState done message member state carried)
  | cons first rest ih =>
    have part : ∀ {text thinking group replayState toolCalls},
        first.content = .assistant text thinking group replayState toolCalls →
        ∀ state ∈ replayState, ∃ original ∈ first :: rest, state ∈ original.replayState? := by
      intro text thinking group replayState toolCalls content state carried
      exact ⟨first, mem_cons_self, by simpa [CanonicalMessage.replayState?, content]⟩
    have fresh : ∀ out, projector.transduce none (first :: rest) = .ok out →
        ∀ message ∈ out, ∀ state ∈ message.replayState?,
          ∃ original ∈ first :: rest, state ∈ original.replayState? := by
      intro out done message member state carried
      rcases transduce_none_ok done with ⟨single, more, ran, rfl⟩ |
        ⟨groupId, text, thinking, replayState, toolCalls, scan, content, calls, added, ran⟩
      · rcases mem_cons.mp member with rfl | later
        · exact ⟨first, mem_cons_self, projectMessage_replayState first ▸ carried⟩
        · rcases ih ran message later state carried with none | ⟨original, inside, kept⟩
          · cases none
          · exact ⟨original, mem_cons_of_mem _ inside, kept⟩
      · rcases ih ran message member state carried with kept | ⟨original, inside, kept⟩
        · rcases addPart_replayState added state kept with none | new
          · cases none
          · exact part content state new
        · exact ⟨original, mem_cons_of_mem _ inside, kept⟩
    intro message member state carried
    cases open? with
    | none => exact .inr (fresh out done message member state carried)
    | some round =>
      rcases transduce_some_ok done with ⟨result, scan, content, called, added, ran⟩ |
        ⟨text, thinking, replayState, toolCalls, scan, content, calls, added, ran⟩ |
        ⟨apart, group, more, closed, ran, rfl⟩
      · obtain ⟨rfl, -⟩ := addResult_ok added
        rcases ih ran message member state carried with kept | ⟨original, inside, kept⟩
        · exact .inl kept
        · exact .inr ⟨original, mem_cons_of_mem _ inside, kept⟩
      · rcases ih ran message member state carried with kept | ⟨original, inside, kept⟩
        · rcases addPart_replayState added state kept with old | new
          · exact .inl old
          · exact .inr (part content state new)
        · exact .inr ⟨original, mem_cons_of_mem _ inside, kept⟩
      · rcases mem_append.mp member with old | new
        · exact .inl (close_replayState closed message old state carried)
        · exact .inr (fresh more ran message new state carried)

theorem projectMessages_replayState {messages : List CanonicalMessage} {out : List ProjectedMessage}
    (projects : projectMessages messages = .ok out) :
    ∀ message ∈ out, ∀ state ∈ message.replayState?,
      ∃ original ∈ messages, state ∈ original.replayState? := by
  rw [projectMessages_eq_transduce] at projects
  intro message member state carried
  rcases transduce_replayState projects message member state carried with none | found
  · cases none
  · exact found

end Byok
