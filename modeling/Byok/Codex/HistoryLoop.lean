/-
**The loop over a history.** What waits is taken by the next segment that takes reasoning (`place`).

* `Format.Follows` — what a format has to do at each kind of item.
* `Format.Follows.run` — the messages are then the lines of the placed segments.
* `chat_follows`, `anthropic_follows` — both formats do.
-/

import Byok.Codex.History

namespace Byok.Codex

open Library List

/-! ### Placed segments -/

/-- The reasoning of a segment, under its turn. -/
def Segment.pieces (segment : Segment) : List (Nat × Mark) := segment.thoughts.map fun mark => (segment.turn, mark)

/-- The segments with the reasoning that each takes, and what waits behind them. -/
def place (reading : Reading) (pending : List (Nat × Mark)) :
    List Segment → List (Segment × List (Nat × Mark)) × List (Nat × Mark)
  | [] => ([], pending)
  | segment :: segments =>
    if segment.takes reading then
      let (placed, last) := place reading [] segments
      ((segment, pending ++ segment.pieces) :: placed, last)
    else
      let (placed, last) := place reading (pending ++ segment.pieces) segments
      ((segment, []) :: placed, last)

theorem place_takes {reading : Reading} {segment : Segment} (takes : segment.takes reading = true)
    (pending : List (Nat × Mark)) (segments : List Segment) :
    place reading pending (segment :: segments) =
      ((segment, pending ++ segment.pieces) :: (place reading [] segments).1, (place reading [] segments).2) := by
  rw [place, if_pos takes]

theorem place_waits {reading : Reading} {segment : Segment} (waits : segment.takes reading = false)
    (pending : List (Nat × Mark)) (segments : List Segment) :
    place reading pending (segment :: segments) =
      ((segment, []) :: (place reading (pending ++ segment.pieces) segments).1,
        (place reading (pending ++ segment.pieces) segments).2) := by
  rw [place, if_neg (by simp [waits])]

/-- A message, or a part of one: whether it is the assistant's, and its marks. -/
abbrev Line := Bool × List Mark

def Segment.userLines (segment : Segment) : List Line :=
  if segment.user = [] then [] else [(false, segment.user)]

/-- What a segment says, besides reasoning. -/
def Segment.said (segment : Segment) : List Mark :=
  segment.text.toList.map .text ++ segment.calls.map fun call => .call call.1 call.2

/-- The result of a call. -/
def Segment.answer? (segment : Segment) (call : Nat × String) : Option (Nat × String) :=
  segment.results.find? fun result => result.2 = call.2

/-- The results of a segment, by its calls. -/
def Segment.answers (segment : Segment) : List (Nat × String) := segment.calls.filterMap segment.answer?

def answerLine (result : Nat × String) : Line := (false, [.result result.1 result.2])

/-- The lines of a segment behind the user's. -/
def Segment.lines (segment : Segment) (taken : List Mark) : List Line :=
  if segment.speaks then (true, taken ++ segment.said) :: segment.answers.map answerLine else []

/-- The lines of a placed segment. -/
def placedLines (placed : Segment × List (Nat × Mark)) : List Line :=
  placed.1.userLines ++ placed.1.lines (placed.2.map Prod.snd)

/-- The marks of lines. -/
def lineMarks (lines : List Line) : List Mark := lines.flatMap Prod.snd

theorem lineMarks_append (lines more : List Line) : lineMarks (lines ++ more) = lineMarks lines ++ lineMarks more :=
  flatMap_append

/-! ### What a format has to do -/

/-- The turn of the loop is the open segment. -/
structure Gathers (reading : Reading) (turn : Turn) (segment : Segment) : Prop where
  text : turn.text.map Prod.fst = segment.text
  calls : (turn.calls.map fun call => (call.origin, call.callId)) = segment.calls
  results : (turn.results.map fun result => (result.origin, result.callId)) = segment.results
  own : reading.ownReasoning = true → turn.reasoningText.isSome = segment.own

theorem Gathers.of_none {reading : Reading} {turn : Turn} {segment : Segment} {entry : Value × Nat}
    (gathers : Gathers reading turn segment) (call : callOf entry = none)
    (output : outputOf entry = none) (own : hasReasoning entry.1 = false) :
    Gathers reading turn (segment.add reading entry) := by
  refine ⟨gathers.text, ?_, ?_, fun sends => ?_⟩
  · rw [gathers.calls, Segment.add, call]
    simp
  · rw [gathers.results, Segment.add, output]
    simp
  · rw [gathers.own sends, Segment.add, own, Bool.or_false]

variable {μ π : Type}

/-- A format shows the lines that the segments have. -/
structure Format.Follows (format : Format μ π) (reading : Reading) (Shows : List μ → List Line → Prop)
    (waiting : π → List Mark) : Prop where
  thread : ∀ {messages lines}, Shows messages lines → ∀ origin text,
    Shows (format.thread messages origin text) (lines ++ [(false, [.user origin])])
  user : ∀ {messages lines}, Shows messages lines → ∀ {origin item after},
    format.user messages origin item = .ok after →
    Shows after (lines ++ (if reading.blocks item = 0 then []
      else [(false, List.replicate (reading.blocks item) (.user origin))]))
  reasoning : ∀ {pending origin item after}, format.reasoning pending origin item = .ok after →
    waiting after = waiting pending ++ List.replicate (reading.thoughts item) (.reasoning origin)
  callReasoning : ∀ turn item, isCallType (itemType item) = true →
    (format.callReasoning turn item).text = turn.text ∧ (format.callReasoning turn item).calls = turn.calls ∧
      (format.callReasoning turn item).results = turn.results ∧
      (reading.ownReasoning = true →
        (format.callReasoning turn item).reasoningText.isSome = (turn.reasoningText.isSome || hasReasoning item))
  flush : ∀ {messages lines turn segment pending after last}, Shows messages lines →
    Gathers reading turn segment → format.flush messages turn pending = .ok (after, last) →
    Shows after (lines ++ segment.lines (if segment.takes reading then waiting pending else [])) ∧
      waiting last = if segment.takes reading then [] else waiting pending

namespace Format.Follows

variable {format : Format μ π} {reading : Reading} {Shows : List μ → List Line → Prop} {waiting : π → List Mark}
variable {bridge : Bridge} {state next : Translation μ π} {entry : Value × Nat} {segment : Segment}

theorem flushed_turn (flushed : format.flushed state = .ok next) : next.turn = {} := by
  obtain ⟨⟨messages, pending⟩, -, equal⟩ := except_bind_eq_ok.mp flushed
  obtain rfl := Except.ok.inj equal
  rfl

theorem createThread_output {item : Value} (thread : (createThreadInput item).isSome = true) :
    isOutputType (itemType item) = true := by
  rw [createThreadInput] at thread
  split at thread
  · rename_i conditions
    simp only [Bool.and_eq_true] at conditions
    exact conditions.1.1.1
  · cases thread

theorem step_opens (follows : format.Follows reading Shows waiting) (opening : opens entry.1 = true)
    (stepped : format.step bridge state entry = .ok next) (turn : Nat) :
    ∃ mid, format.flushed state = .ok mid ∧ next.pending = mid.pending ∧
      Gathers reading next.turn (opened bridge reading turn entry) ∧
      ∀ lines, Shows mid.messages lines →
        Shows next.messages (lines ++ (opened bridge reading turn entry).userLines) := by
  obtain ⟨item, origin⟩ := entry
  cases thread : createThreadInput item with
  | some text =>
    simp only [step, thread] at stepped
    obtain ⟨mid, flushed, rfl⟩ := except_bind_ok_eq.mp stepped
    have user : userMarks reading (item, origin) = [.user origin] := by simp [userMarks, thread]
    refine ⟨mid, flushed, rfl, ?_, fun lines shown => ?_⟩
    · show Gathers reading mid.turn _
      rw [flushed_turn flushed]
      refine ⟨?_, rfl, rfl, fun _ => rfl⟩
      simp [opened, textOrigin, isMessageOf, thread]
    · have shows := follows.thread shown origin text
      simpa [Segment.userLines, opened, user] using shows
  | none =>
    simp only [opens, isMessageOf, thread, Option.isSome_none, Option.isNone_none, Bool.false_or, Bool.true_and,
      Bool.or_eq_true, Bool.and_eq_true, beq_iff_eq] at opening
    have message : itemType item = "message" := opening.elim And.left And.left
    simp only [step, thread, if_pos message] at stepped
    rcases opening with ⟨-, role⟩ | ⟨-, role⟩
    · simp only [Format.message, role] at stepped
      rw [if_neg (by decide), if_pos trivial] at stepped
      obtain ⟨mid, flushed, stepped⟩ := except_bind_eq_ok.mp stepped
      obtain ⟨messages, pushed, rfl⟩ := except_bind_ok_eq.mp stepped
      have user : userMarks reading (item, origin) = List.replicate (reading.blocks item) (.user origin) := by
        simp [userMarks, thread, isMessageOf, message, role]
      refine ⟨mid, flushed, rfl, ?_, fun lines shown => ?_⟩
      · show Gathers reading mid.turn _
        rw [flushed_turn flushed]
        refine ⟨?_, rfl, rfl, fun _ => rfl⟩
        simp [opened, textOrigin, isMessageOf, role]
      · have shows := follows.user shown pushed
        by_cases zero : reading.blocks item = 0
        · simpa [Segment.userLines, opened, user, zero] using shows
        · simpa [Segment.userLines, opened, user, zero] using shows
    · simp only [Format.message, role] at stepped
      rw [if_neg (by decide), if_neg (by decide), if_pos trivial] at stepped
      obtain ⟨mid, flushed, stepped⟩ := except_bind_eq_ok.mp stepped
      obtain ⟨text, read, equal⟩ := except_bind_eq_ok.mp stepped
      have user : userMarks reading (item, origin) = [] := by
        simp [userMarks, thread, isMessageOf, role]
      have place : textOrigin bridge (item, origin) = if visible text then some origin else none := by
        simp [textOrigin, isMessageOf, thread, message, role, read, Except.toOption]
      have none : (opened bridge reading turn (item, origin)).userLines = [] := by
        simp [Segment.userLines, opened, user]
      by_cases seen : visible text = true
      · rw [if_pos seen] at equal place
        obtain rfl := Except.ok.inj equal
        refine ⟨mid, flushed, rfl, ?_, fun lines shown => ?_⟩
        · show Gathers reading { mid.turn with text := some (origin, text) } _
          rw [flushed_turn flushed]
          exact ⟨place.symm, rfl, rfl, fun _ => rfl⟩
        · rw [none, append_nil]
          exact shown
      · rw [if_neg seen] at equal place
        obtain rfl := Except.ok.inj equal
        refine ⟨mid, flushed, rfl, ?_, fun lines shown => ?_⟩
        · rw [flushed_turn flushed]
          exact ⟨place.symm, rfl, rfl, fun _ => rfl⟩
        · rw [none, append_nil]
          exact shown

theorem step_inner (follows : format.Follows reading Shows waiting) (inner : opens entry.1 = false)
    (gathers : Gathers reading state.turn segment) (stepped : format.step bridge state entry = .ok next) :
    next.messages = state.messages ∧ Gathers reading next.turn (segment.add reading entry) ∧
      waiting next.pending = waiting state.pending ++ thoughtMarks reading entry := by
  obtain ⟨item, origin⟩ := entry
  simp only [opens, Bool.or_eq_false_iff, Option.isSome_eq_false_iff, Option.isNone_iff_eq_none] at inner
  obtain ⟨⟨thread, user⟩, assistant⟩ := inner
  simp only [isMessageOf, thread, Option.isNone_none, Bool.true_and, Bool.and_eq_false_iff, beq_eq_false_iff_ne,
    ne_eq] at user assistant
  simp only [step, thread] at stepped
  by_cases message : itemType item = "message"
  · rw [if_pos message] at stepped
    have user : str item "role" ≠ some "user" := user.resolve_left (not_not_intro message)
    have assistant : str item "role" ≠ some "assistant" := assistant.resolve_left (not_not_intro message)
    have same : state = next := by
      cases role : str item "role" with
      | none =>
        simp only [Format.message, role] at stepped
        cases stepped
      | some role' =>
        rw [role] at user assistant
        simp only [Format.message, role] at stepped
        split at stepped
        · exact Except.ok.inj stepped
        · rw [if_neg fun same => user (congrArg some same), if_neg fun same => assistant (congrArg some same)]
            at stepped
          cases stepped
    subst same
    have kind : isCallType (itemType item) = false := by rw [message]; rfl
    have output : isOutputType (itemType item) = false := by rw [message]; rfl
    refine ⟨rfl, gathers.of_none ?_ ?_ ?_, ?_⟩
    · rw [callOf, kind]
      rfl
    · rw [outputOf, output, Bool.and_false]
      rfl
    · rw [hasReasoning, kind, Bool.false_and]
    · rw [thoughtMarks, message, if_neg (by decide), append_nil]
  · rw [if_neg message] at stepped
    by_cases reasoning : itemType item = "reasoning"
    · rw [if_pos reasoning] at stepped
      obtain ⟨pending, waits, rfl⟩ := except_bind_ok_eq.mp stepped
      have kind : isCallType (itemType item) = false := by rw [reasoning]; rfl
      have output : isOutputType (itemType item) = false := by rw [reasoning]; rfl
      refine ⟨rfl, gathers.of_none ?_ ?_ ?_, ?_⟩
      · rw [callOf, kind]
        rfl
      · rw [outputOf, output, Bool.and_false]
        rfl
      · rw [hasReasoning, kind, Bool.false_and]
      · rw [thoughtMarks, if_pos reasoning]
        exact follows.reasoning waits
    · rw [if_neg reasoning] at stepped
      by_cases call : isCallType (itemType item) = true
      · rw [if_pos call] at stepped
        obtain ⟨found, read, rfl⟩ := except_bind_ok_eq.mp stepped
        obtain ⟨name, -, read⟩ := except_bind_eq_ok.mp read
        obtain ⟨callId, known, read⟩ := except_bind_eq_ok.mp read
        obtain ⟨arguments, -, read⟩ := except_bind_eq_ok.mp read
        obtain rfl := Except.ok.inj read
        obtain ⟨text, calls, results, own⟩ := follows.callReasoning state.turn item call
        have output : isOutputType (itemType item) = false := by
          simp only [isCallType, Bool.or_eq_true, beq_iff_eq] at call
          rcases call with kind | kind <;> rw [kind] <;> rfl
        refine ⟨rfl, ⟨text ▸ gathers.text, ?_, ?_, fun sends => ?_⟩, ?_⟩
        · show List.map _ ((format.callReasoning state.turn item).calls ++ _) = _
          rw [calls, map_append, gathers.calls, Segment.add, callOf, if_pos call, known]
          rfl
        · show List.map _ (format.callReasoning state.turn item).results = _
          rw [results, gathers.results, Segment.add, outputOf, output, Bool.and_false]
          simp
        · show (format.callReasoning state.turn item).reasoningText.isSome = _
          rw [own sends, gathers.own sends, Segment.add]
        · rw [thoughtMarks, if_neg reasoning, append_nil]
      · rw [if_neg call] at stepped
        by_cases output : isOutputType (itemType item) = true
        · rw [if_pos output] at stepped
          obtain ⟨turn, pushed, rfl⟩ := except_bind_ok_eq.mp stepped
          obtain ⟨callId, known, rfl⟩ := except_bind_ok_eq.mp pushed
          have kind : isCallType (itemType item) = false := Bool.not_eq_true _ ▸ call
          refine ⟨rfl, ⟨gathers.text, ?_, ?_, fun sends => ?_⟩, ?_⟩
          · show List.map _ state.turn.calls = _
            rw [gathers.calls, Segment.add, callOf, kind]
            simp
          · show List.map _ (state.turn.results ++ _) = _
            rw [map_append, gathers.results, Segment.add, outputOf, thread, output, known]
            rfl
          · show state.turn.reasoningText.isSome = _
            rw [gathers.own sends, Segment.add, hasReasoning, kind, Bool.false_and, Bool.or_false]
          · rw [thoughtMarks, if_neg reasoning, append_nil]
        · rw [if_neg output] at stepped
          cases stepped

theorem flushed_shows (follows : format.Follows reading Shows waiting) {lines : List Line}
    {pending : List (Nat × Mark)} (shown : Shows state.messages (lines ++ segment.userLines))
    (gathers : Gathers reading state.turn segment)
    (waits : waiting state.pending = (pending ++ segment.pieces).map Prod.snd)
    (flushed : format.flushed state = .ok next) (segments : List Segment) :
    ∃ placed rest, place reading pending (segment :: segments) =
        ((segment, placed) :: (place reading rest segments).1, (place reading rest segments).2) ∧
      Shows next.messages (lines ++ placedLines (segment, placed)) ∧ waiting next.pending = rest.map Prod.snd := by
  obtain ⟨⟨messages, last⟩, flush, rfl⟩ := except_bind_ok_eq.mp flushed
  obtain ⟨shows, left⟩ := follows.flush shown gathers flush
  cases takes : segment.takes reading with
  | true =>
    rw [takes, if_pos rfl] at shows left
    refine ⟨pending ++ segment.pieces, [], place_takes takes pending segments, ?_, left⟩
    rw [placedLines, ← append_assoc, ← waits]
    exact shows
  | false =>
    rw [takes, if_neg Bool.false_ne_true] at shows left
    refine ⟨[], pending ++ segment.pieces, place_waits takes pending segments, ?_, left.trans waits⟩
    rw [placedLines, ← append_assoc]
    exact shows

/-- **The loop shows the placed segments.** -/
theorem run (follows : format.Follows reading Shows waiting) {entries : List (Value × Nat)} {lines : List Line}
    {pending : List (Nat × Mark)} {between last : Translation μ π}
    (shown : Shows state.messages (lines ++ segment.userLines)) (gathers : Gathers reading state.turn segment)
    (waits : waiting state.pending = (pending ++ segment.pieces).map Prod.snd)
    (ran : entries.foldlM (format.step bridge) state = .ok between) (flushed : format.flushed between = .ok last) :
    Shows last.messages (lines ++
        (place reading pending (segmentsFrom bridge reading segment entries)).1.flatMap placedLines) ∧
      waiting last.pending =
        (place reading pending (segmentsFrom bridge reading segment entries)).2.map Prod.snd := by
  induction entries generalizing state segment lines pending with
  | nil =>
    obtain rfl := Except.ok.inj ran
    obtain ⟨placed, rest, equal, shows, left⟩ := flushed_shows follows shown gathers waits flushed []
    rw [segmentsFrom, equal]
    refine ⟨?_, left⟩
    show Shows last.messages (lines ++ List.flatMap placedLines [(segment, placed)])
    rw [flatMap_cons, flatMap_nil, append_nil]
    exact shows
  | cons entry entries ih =>
    rw [foldlM_cons] at ran
    obtain ⟨next, stepped, ran⟩ := except_bind_eq_ok.mp ran
    cases opening : opens entry.1 with
    | true =>
      obtain ⟨mid, flush, same, gathered, pushed⟩ := step_opens follows opening stepped segment.turn
      obtain ⟨placed, rest, equal, shows, left⟩ := flushed_shows follows shown gathers waits flush
        (segmentsFrom bridge reading (opened bridge reading segment.turn entry) entries)
      have nothing : (opened bridge reading segment.turn entry).pieces = [] := rfl
      have later := ih (pushed _ shows) gathered (by rw [same, left, nothing, append_nil]) ran
      rw [segmentsFrom, if_pos opening, equal]
      refine ⟨?_, later.2⟩
      rw [flatMap_cons, ← append_assoc]
      exact later.1
    | false =>
      obtain ⟨same, gathered, waited⟩ := step_inner follows opening gathers stepped
      have users : (segment.add reading entry).userLines = segment.userLines := rfl
      have more : waiting next.pending = (pending ++ (segment.add reading entry).pieces).map Prod.snd := by
        rw [waited, waits]
        simp [Segment.pieces, Segment.add, Function.comp_def]
      have shows : Shows next.messages (lines ++ (segment.add reading entry).userLines) := by
        rw [same, users]
        exact shown
      have later := ih shows gathered more ran
      rw [segmentsFrom, if_neg (by simp [opening])]
      exact later

end Format.Follows

/-! ### Chat Completions -/

section Chat

variable {bridge : Bridge} {owner : String} {turn : Turn} {segment : Segment}

/-- A message as a line. -/
def ChatMessage.line (message : ChatMessage) : Line := (message.isAssistant, message.marks)

def ChatShows (messages : List ChatMessage) (lines : List Line) : Prop := messages.map ChatMessage.line = lines

def chatWaiting (pending : Option PendingReasoning) : List Mark := (pending.map (·.marks)).getD []

theorem line_userMessage (origin : Nat) (content : Value) :
    (userMessage origin content).line = (false, [.user origin]) := by
  simp [ChatMessage.line, ChatMessage.isAssistant, userMessage, str, Value.get, Value.asStr]

theorem role_setField (fields : List (String × Value)) (role : String) (field : Value) :
    str (setField (.object (("role", .string role) :: fields)) "reasoning_content" field) "role" = some role := by
  rw [setField]
  split <;> simp [str, Value.get, Value.asStr]

theorem role_assistantValue (turn : Turn) :
    ∃ fields, assistantValue turn = .object (("role", .string "assistant") :: fields) := by
  rw [assistantValue]
  split <;> exact ⟨_, rfl⟩

theorem line_assistantMessage (turn : Turn) (reasoning : Option (List Mark × String)) :
    (assistantMessage turn reasoning).line = (true, (reasoning.map Prod.fst).getD [] ++ turn.said) := by
  obtain ⟨fields, equal⟩ := role_assistantValue turn
  cases reasoning with
  | none =>
    show (str (assistantValue turn) "role" == some "assistant", turn.said) = _
    rw [equal]
    simp [str, Value.get, Value.asStr]
  | some reasoning =>
    show (str (setField (assistantValue turn) "reasoning_content" (.string reasoning.2)) "role" ==
      some "assistant", reasoning.1 ++ turn.said) = _
    rw [equal, role_setField]
    simp

namespace Gathers

variable {reading : Reading}

theorem said_eq (gathers : Gathers reading turn segment) : turn.said = segment.said := by
  rw [Turn.said, Segment.said, ← gathers.text, ← gathers.calls]
  cases turn.text <;> simp [Function.comp_def]

theorem speaks_iff (gathers : Gathers reading turn segment) :
    segment.speaks = true ↔ turn.calls ≠ [] ∨ turn.text.isSome = true := by
  rw [Segment.speaks, ← gathers.text, ← gathers.calls]
  simp

theorem result_eq (gathers : Gathers reading turn segment) (call : Call) :
    segment.answer? (call.origin, call.callId) =
      (turn.result? call).map fun result => (result.origin, result.callId) := by
  rw [Segment.answer?, ← gathers.results, find?_map, Turn.result?]
  rfl

end Gathers

theorem line_toolMessage {call : Call} {result : ToolOutput} {message : ChatMessage}
    (built : toolMessage bridge call result = .ok message) :
    message.line = answerLine (result.origin, result.callId) := by
  obtain ⟨content, -, equal⟩ := except_bind_eq_ok.mp built
  obtain rfl := Except.ok.inj equal
  simp [ChatMessage.line, ChatMessage.isAssistant, answerLine, str, Value.get, Value.asStr]

theorem lines_toolMessages {reading : Reading} (gathers : Gathers reading turn segment) {calls : List Call}
    {messages : List ChatMessage} (built : toolMessages bridge turn calls = .ok messages) :
    messages.map ChatMessage.line =
      ((calls.map fun call => (call.origin, call.callId)).filterMap segment.answer?).map answerLine := by
  induction calls generalizing messages with
  | nil =>
    obtain rfl := Except.ok.inj built
    rfl
  | cons call calls ih =>
    have answer := gathers.result_eq call
    rw [toolMessages] at built
    cases found : turn.result? call with
    | none =>
      rw [found] at built answer
      rw [map_cons, filterMap_cons_none answer]
      exact ih built
    | some result =>
      rw [found] at built answer
      obtain ⟨message, first, built⟩ := except_bind_eq_ok.mp built
      obtain ⟨more, rest, rfl⟩ := except_bind_ok_eq.mp built
      rw [map_cons, map_cons, filterMap_cons_some answer, map_cons, line_toolMessage first,
        ih rest]

theorem chat_follows (bridge : Bridge) (owner : String) :
    (chatFormat bridge owner).Follows (chatReading bridge owner) ChatShows chatWaiting where
  thread := by
    rintro messages lines rfl origin text
    show List.map _ (messages ++ [_]) = _
    rw [map_append, map_singleton, line_userMessage]
  user := by
    rintro messages lines rfl origin item after pushed
    obtain ⟨content, -, equal⟩ := except_bind_eq_ok.mp pushed
    obtain rfl := Except.ok.inj equal
    show List.map _ (messages ++ [_]) = _
    rw [map_append, map_singleton, line_userMessage, if_neg (by exact Nat.one_ne_zero)]
    rfl
  reasoning := by
    intro pending origin item after waits
    obtain ⟨text, read, rfl⟩ := except_bind_ok_eq.mp waits
    have count : (chatReading bridge owner).thoughts item = text.toList.length := by
      show ((chatReasoningText bridge item owner).toOption.getD none).toList.length = _
      rw [read]
      rfl
    rw [count]
    cases text with
    | none => exact (append_nil _).symm
    | some text =>
      cases pending with
      | none => rfl
      | some pending => rfl
  callReasoning := by
    intro turn item call
    refine ⟨rfl, rfl, rfl, fun _ => ?_⟩
    show (turn.reasoningText.or (((str item "reasoning_content").map trim).filter (· != ""))).isSome = _
    rw [Option.isSome_or, hasReasoning, call, Bool.true_and]
    congr 1
    cases (str item "reasoning_content").map trim with
    | none => rfl
    | some text =>
      by_cases empty : text = ""
      · simp [Option.filter, empty]
      · simp [Option.filter, empty]
  flush := by
    rintro messages lines turn segment pending after last rfl gathers flushed
    show List.map _ after = _ ∧ _
    rw [show (chatFormat bridge owner).flush messages turn pending = flushChat bridge messages turn pending from rfl,
      flushChat] at flushed
    by_cases speaks : segment.speaks = true
    · rw [if_pos (gathers.speaks_iff.mp speaks)] at flushed
      obtain ⟨results, built, equal⟩ := except_bind_eq_ok.mp flushed
      obtain ⟨rfl, rfl⟩ := Prod.mk.inj (Except.ok.inj equal)
      have answers : results.map ChatMessage.line = segment.answers.map answerLine := by
        rw [lines_toolMessages gathers built, gathers.calls]
        rfl
      have own := gathers.own rfl
      rw [Segment.takes, speaks, Segment.lines, if_pos speaks, map_append, map_append,
        map_singleton, line_assistantMessage, gathers.said_eq, answers, ← own]
      cases known : turn.reasoningText with
      | none =>
        cases pending with
        | none => simp [chatWaiting]
        | some pending => simp [chatWaiting]
      | some reasoning => simp [chatReading]
    · rw [if_neg fun calls => speaks (gathers.speaks_iff.mpr calls)] at flushed
      obtain ⟨rfl, rfl⟩ := Prod.mk.inj (Except.ok.inj flushed)
      have quiet : segment.speaks = false := Bool.not_eq_true _ ▸ speaks
      rw [Segment.lines, if_neg speaks, Segment.takes, quiet, Bool.false_and, if_neg Bool.false_ne_true,
        append_nil]
      exact ⟨rfl, rfl⟩

end Chat

/-! ### Anthropic Messages -/

section Anthropic

variable {bridge : Bridge} {owner : String} {turn : Turn} {segment : Segment}

def AnthropicShows (messages : List AnthropicMessage) (lines : List Line) : Prop :=
  anthropicMarks messages = lineMarks lines

def anthropicWaiting (pending : List Block) : List Mark := pending.filterMap Block.mark

theorem anthropicMarks_eq (messages : List AnthropicMessage) :
    anthropicMarks messages = (messages.flatMap Group.items).filterMap Block.mark := by
  rw [anthropicMarks, filterMap_flatMap]

theorem anthropicMarks_push (messages : List AnthropicMessage) (role : String) (blocks : List Block) :
    anthropicMarks (pushAnthropic messages role blocks) =
      anthropicMarks messages ++ blocks.filterMap Block.mark := by
  rw [pushAnthropic]
  by_cases empty : blocks = []
  · subst empty
    simp
  · rw [if_neg (by simp [empty]), anthropicMarks_eq, Group.flatMap_push, filterMap_append, anthropicMarks_eq]

theorem filterMap_of_map_some {α β : Type} {f : α → Option β} {list : List α} {values : List β}
    (mapped : list.map f = values.map some) : list.filterMap f = values := by
  have all := congrArg (List.filterMap id) mapped
  rwa [filterMap_map, filterMap_map, Function.id_comp, Function.id_comp, filterMap_some] at all

theorem marks_toolUse {calls : List Call} {blocks : List Block}
    (built : calls.mapM (toolUseBlock bridge) = .ok blocks) :
    blocks.filterMap Block.mark = calls.map fun call => .call call.origin call.callId := by
  refine filterMap_of_map_some ?_
  rw [map_map]
  refine mapM_view Block.mark _ (fun call _ block one => ?_) built
  obtain ⟨input, -, equal⟩ := except_bind_eq_ok.mp one
  obtain rfl := Except.ok.inj equal
  rfl

theorem marks_toolResult {reading : Reading} (gathers : Gathers reading turn segment) {calls : List Call}
    {blocks : List Block} (built : calls.mapM (toolResultBlock bridge turn) = .ok blocks) :
    blocks.filterMap Block.mark =
      lineMarks (((calls.map fun call => (call.origin, call.callId)).filterMap segment.answer?).map answerLine) := by
  induction calls generalizing blocks with
  | nil =>
    obtain rfl := Except.ok.inj built
    rfl
  | cons call calls ih =>
    rw [mapM_cons] at built
    obtain ⟨block, first, built⟩ := except_bind_eq_ok.mp built
    obtain ⟨more, rest, rfl⟩ := except_bind_ok_eq.mp built
    have answer := gathers.result_eq call
    rw [toolResultBlock] at first
    cases found : turn.result? call with
    | none =>
      rw [found] at first
      cases first
    | some result =>
      rw [found] at first answer
      obtain ⟨content, -, equal⟩ := except_bind_eq_ok.mp first
      obtain rfl := Except.ok.inj equal
      rw [map_cons, filterMap_cons_some answer]
      show .result result.origin result.callId :: List.filterMap Block.mark more = _
      rw [ih rest]
      rfl

theorem anthropic_follows (bridge : Bridge) (owner : String) :
    (anthropicFormat bridge owner).Follows (anthropicReading bridge owner) AnthropicShows anthropicWaiting where
  thread := by
    intro messages lines shown origin text
    show anthropicMarks (pushAnthropic messages "user" [⟨some (.user origin), textBlock text⟩]) =
      lineMarks (lines ++ [(false, [.user origin])])
    rw [anthropicMarks_push, lineMarks_append, ← shown]
    rfl
  user := by
    intro messages lines shown origin item after pushed
    obtain ⟨blocks, read, rfl⟩ := except_bind_ok_eq.mp pushed
    have count : (anthropicReading bridge owner).blocks item = blocks.length := by
      show ((anthropicBlocks bridge item).toOption.getD []).length = _
      rw [read]
      rfl
    have marks : (blocks.map fun block => (⟨some (.user origin), block⟩ : Block)).filterMap Block.mark =
        List.replicate blocks.length (.user origin) := by
      refine filterMap_of_map_some ?_
      rw [map_map, map_replicate]
      exact map_const'
    show anthropicMarks (pushAnthropic messages "user" _) = lineMarks _
    rw [anthropicMarks_push, marks, count, lineMarks_append, ← shown]
    cases blocks with
    | nil => rfl
    | cons block blocks =>
      rw [if_neg (by simp)]
      show _ = _ ++ List.flatMap Prod.snd [_]
      rw [flatMap_cons, flatMap_nil, append_nil]
  reasoning := by
    intro pending origin item after waits
    obtain ⟨blocks, read, rfl⟩ := except_bind_ok_eq.mp waits
    have count : (anthropicReading bridge owner).thoughts item = (blocks.filter isThinking).length := by
      show (((anthropicThinkingBlocks bridge item owner).toOption.getD []).filter isThinking).length = _
      rw [read]
      rfl
    show List.filterMap Block.mark (pending ++ _) = _
    rw [filterMap_append, count]
    refine congrArg (_ ++ ·) ?_
    clear read count waits
    induction blocks with
    | nil => rfl
    | cons block blocks ih =>
      rw [map_cons]
      by_cases thinks : isThinking block = true
      · rw [filterMap_cons_some (b := .reasoning origin) (by rw [replayedBlock, if_pos thinks]), ih,
          filter_cons_of_pos thinks]
        rfl
      · rw [filterMap_cons_none (by rw [replayedBlock, if_neg thinks]), ih, filter_cons_of_neg thinks]
  callReasoning turn item _ := ⟨rfl, rfl, rfl, fun sends => by cases sends⟩
  flush := by
    intro messages lines turn segment pending after last shown gathers flushed
    have takes : segment.takes (anthropicReading bridge owner) = segment.speaks := by
      rw [Segment.takes, anthropicReading, Bool.false_and, Bool.not_false, Bool.and_true]
    have texts : (turn.text.toList.map textOf).filterMap Block.mark = segment.text.toList.map .text := by
      rw [← gathers.text]
      cases turn.text <;> rfl
    rw [show (anthropicFormat bridge owner).flush messages turn pending = flushAnthropic bridge messages turn pending
      from rfl, flushAnthropic] at flushed
    by_cases called : turn.calls ≠ []
    · have speaks : segment.speaks = true := gathers.speaks_iff.mpr (.inl called)
      rw [if_pos called] at flushed
      obtain ⟨uses, used, flushed⟩ := except_bind_eq_ok.mp flushed
      obtain ⟨results, answered, equal⟩ := except_bind_eq_ok.mp flushed
      obtain ⟨rfl, rfl⟩ := Prod.mk.inj (Except.ok.inj equal)
      rw [takes, speaks, if_pos rfl, if_pos rfl]
      refine ⟨?_, rfl⟩
      show anthropicMarks _ = lineMarks _
      rw [anthropicMarks_push, anthropicMarks_push, lineMarks_append, ← shown, Segment.lines, if_pos speaks,
        filterMap_append, filterMap_append, texts, marks_toolUse used, marks_toolResult gathers answered,
        gathers.calls]
      have said : segment.said = segment.text.toList.map .text ++
          turn.calls.map fun call => .call call.origin call.callId := by
        rw [Segment.said, ← gathers.calls, map_map]
        rfl
      show _ = _ ++ ((anthropicWaiting pending ++ segment.said) ++ lineMarks (segment.answers.map answerLine))
      simp only [said, append_assoc]
      rfl
    · rw [if_neg called] at flushed
      have none : turn.calls = [] := not_not.mp called
      have nothing : segment.calls = [] := by rw [← gathers.calls, none, map_nil]
      cases known : turn.text with
      | some text =>
        rw [known] at flushed
        obtain ⟨rfl, rfl⟩ := Prod.mk.inj (Except.ok.inj flushed)
        have speaks : segment.speaks = true := gathers.speaks_iff.mpr (.inr (by rw [known]; rfl))
        rw [takes, speaks, if_pos rfl, if_pos rfl]
        refine ⟨?_, rfl⟩
        show anthropicMarks _ = lineMarks _
        rw [known] at texts
        rw [anthropicMarks_push, lineMarks_append, ← shown, Segment.lines, if_pos speaks, Segment.said, nothing,
          ← texts, filterMap_append]
        simp [lineMarks, anthropicWaiting, Segment.answers, nothing]
      | none =>
        rw [known] at flushed
        obtain ⟨rfl, rfl⟩ := Prod.mk.inj (Except.ok.inj flushed)
        have quiet : segment.speaks = false := by
          rw [← Bool.not_eq_true, gathers.speaks_iff, known]
          rintro (calls | text)
          · exact calls none
          · cases text
        rw [takes, quiet, if_neg Bool.false_ne_true, if_neg Bool.false_ne_true, Segment.lines,
          if_neg (by simp [quiet]), append_nil]
        exact ⟨shown, rfl⟩

end Anthropic

end Byok.Codex
