/-
**What the OpenAI Responses adapter makes of a response.**

Every call has a buffer of its own, so its arguments are always put together. All texts share one: the final text
of a part, and of a message, is compared with everything that came before, of other messages too. A text that
is not streamed is found only where that comparison still makes sense (`Library.Reconciled`).

* `follows_message` — the parts of a message.
* `follows_call` — a call, however much of its arguments is streamed.
* `responses_decode_iff` — the responses that are decoded.
-/

import Byok.Library.Snapshots
import Byok.Provider.OpenAiResponses

namespace Byok.Provider.OpenAiResponses

open Library CycleState List

/-! ### What an upstream sends -/

/-- A text, and the deltas that come before it; they are a beginning of it. -/
structure Streamed where
  deltas : List String
  text : String
  covers : (String.join deltas).toList <+: text.toList

/-- The same as a part of a group. -/
def Streamed.part (streamed : Streamed) : Delivered Char := ((String.join streamed.deltas).toList, streamed.text.toList)

structure ResponseCall where
  index : Nat
  callId : String
  name : String
  arguments : Streamed
  fields : List (String × Value)

def ResponseCall.sent (call : ResponseCall) : SentCall :=
  ⟨call.index, call.callId, call.name, some call.arguments.text, call.fields⟩

/-- An output item. Nothing but the deltas is read of a reasoning. -/
inductive OutputItem where
  | reasoning (parts : List (List String))
  | message (parts : List Streamed)
  | call (call : ResponseCall)

namespace OutputItem

def text : OutputItem → String
  | .message parts => String.join (parts.map Streamed.text)
  | _ => ""

def thought : OutputItem → String
  | .reasoning parts => String.join parts.flatten
  | _ => ""

def parts? : OutputItem → Option (List (Delivered Char))
  | .message parts => some (parts.map Streamed.part)
  | _ => none

def call? : OutputItem → Option ResponseCall
  | .call made => some made
  | _ => none

end OutputItem

/-- The messages among some items. -/
def messagesOf (items : List OutputItem) : List (List (Delivered Char)) := items.filterMap OutputItem.parts?

def callsOf (items : List OutputItem) : List ResponseCall := items.filterMap OutputItem.call?

def answerOf (items : List OutputItem) : SentAnswer :=
  ⟨String.join (items.map OutputItem.text), String.join (items.map OutputItem.thought),
    (callsOf items).map ResponseCall.sent⟩

/-- An event of some kind. -/
structure IsKind (sse : SseEvent) (value : Value) (kind : String) : Prop where
  carries : Adapter.Carries "OpenAI Responses" sse value
  kind : (value.textAt "type").getD sse.event = kind

/-- An event that brings a text. -/
def Delivers (kind field text : String) (sse : SseEvent) : Prop :=
  ∃ value, IsKind sse value kind ∧ value.textAt field = some text

/-- An event that brings a part of the arguments of a call. -/
def DeliversTo (index : Nat) (kind field text : String) (sse : SseEvent) : Prop :=
  ∃ value, IsKind sse value kind ∧ requiredU64 value "output_index" = .ok index ∧ value.textAt field = some text

/-- An event that brings an item. -/
def BringsItem (kind type : String) (holds : Value → Value → Prop) (sse : SseEvent) : Prop :=
  ∃ value item, IsKind sse value kind ∧ value.get "item" = some item ∧ item.textAt "type" = some type ∧
    holds value item

def ThoughtDelta (text : String) (sse : SseEvent) : Prop :=
  Delivers "response.reasoning_summary_text.delta" "delta" text sse ∨
    Delivers "response.reasoning_text.delta" "delta" text sse

def ThoughtDone (sse : SseEvent) : Prop :=
  ∃ value, IsKind sse value "response.reasoning_summary_text.done" ∨
    IsKind sse value "response.reasoning_text.done"

/-- The events of the parts of a reasoning. -/
inductive ThoughtParts : List (List String) → List SseEvent → Prop
  | none : ThoughtParts [] []
  | part {part : List String} {parts : List (List String)} {deltas sses : List SseEvent} {done : SseEvent}
      (thoughts : List.Forall₂ ThoughtDelta part deltas) (ends : ThoughtDone done)
      (rest : ThoughtParts parts sses) : ThoughtParts (part :: parts) (deltas ++ done :: sses)

/-- The events of the parts of a message: the deltas of a part, and then its final text. -/
inductive TextParts : List Streamed → List SseEvent → Prop
  | none : TextParts [] []
  | part {part : Streamed} {parts : List Streamed} {deltas sses : List SseEvent} {done : SseEvent}
      (texts : List.Forall₂ (Delivers "response.output_text.delta" "delta") part.deltas deltas)
      (ends : Delivers "response.output_text.done" "text" part.text done)
      (rest : TextParts parts sses) : TextParts (part :: parts) (deltas ++ done :: sses)

/-- What an item says of its call. -/
structure ResponseCall.Named (call : ResponseCall) (value item : Value) : Prop where
  index : requiredU64 value "output_index" = .ok call.index
  callId : item.textAt "call_id" = some call.callId
  name : item.textAt "name" = some call.name

/-- The events of an item. -/
inductive SendsItem : OutputItem → List SseEvent → Prop
  | reasoning {parts : List (List String)} {start stop : SseEvent} {sses : List SseEvent}
      (added : BringsItem "response.output_item.added" "reasoning" (fun _ _ => True) start)
      (thoughts : ThoughtParts parts sses)
      (done : BringsItem "response.output_item.done" "reasoning" (fun _ _ => True) stop) :
      SendsItem (.reasoning parts) (start :: (sses ++ [stop]))
  | message {parts : List Streamed} {start stop : SseEvent} {sses : List SseEvent}
      (added : BringsItem "response.output_item.added" "message" (fun _ _ => True) start)
      (texts : TextParts parts sses)
      (done : BringsItem "response.output_item.done" "message"
        (fun _ item => responseItemText item = some (String.join (parts.map Streamed.text))) stop) :
      SendsItem (.message parts) (start :: (sses ++ [stop]))
  | call {call : ResponseCall} {start final stop : SseEvent} {sses : List SseEvent}
      (added : BringsItem "response.output_item.added" "function_call" call.Named start)
      (deltas : List.Forall₂ (DeliversTo call.index "response.function_call_arguments.delta" "delta")
        call.arguments.deltas sses)
      (whole : DeliversTo call.index "response.function_call_arguments.done" "arguments" call.arguments.text final)
      (done : BringsItem "response.output_item.done" "function_call"
        (fun value item => call.Named value item ∧ item.textAt "arguments" = some call.arguments.text) stop) :
      SendsItem (.call call) (start :: (sses ++ [final, stop]))

/-- The events of items that come one after another. -/
inductive SendsItems : List OutputItem → List SseEvent → Prop
  | none : SendsItems [] []
  | item {item : OutputItem} {items : List OutputItem} {sses more : List SseEvent} (sends : SendsItem item sses)
      (rest : SendsItems items more) : SendsItems (item :: items) (sses ++ more)

/-- An event that only says how far the response is. -/
def Quiet (sse : SseEvent) : Prop :=
  ∃ value kind, IsKind sse value kind ∧ kind ∈ ["response.created", "response.queued", "response.in_progress",
    "response.content_part.added", "response.content_part.done", "response.reasoning_summary_part.added",
    "response.reasoning_summary_part.done"]

/-- The same events, with quiet ones between them. -/
inductive Padded : List SseEvent → List SseEvent → Prop
  | none : Padded [] []
  | keep {sses padded : List SseEvent} (sse : SseEvent) (rest : Padded sses padded) :
      Padded (sse :: sses) (sse :: padded)
  | quiet {sses padded : List SseEvent} {sse : SseEvent} (quiet : Quiet sse) (rest : Padded sses padded) :
      Padded sses (sse :: padded)

/-- Some events send a response, item by item, and complete it. -/
structure Sends (parse : String → Except String Value) (items : List OutputItem) (front : List SseEvent)
    (completed : SseEvent) : Prop where
  events : ∃ sses, SendsItems items sses ∧ Padded sses front
  completed : ∃ value, IsKind completed value "response.completed"
  indexes : ((callsOf items).map ResponseCall.index).Nodup
  callIds : ((callsOf items).map ResponseCall.callId).Nodup
  objects : ∀ call ∈ callsOf items,
    trim call.arguments.text ≠ "" ∧ parse call.arguments.text = .ok (.object call.fields)

/-! ### One event -/

section

variable {parse : String → Except String Value} {owner : Value} {state : ResponsesState} {cycle : CycleState}

theorem follows_one {sse : SseEvent} {value : Value} {kind : String} {next : ResponsesState}
    {later : CycleState} {events : List ModelEvent} (is : IsKind sse value kind)
    (stepped : state.step owner sse.event value = (events, .ok next)) (reads : Reads parse cycle events later) :
    Follows (adapter owner) parse state cycle [sse] next later :=
  .one is.carries stepped reads

theorem Padded.runs {sses front : List SseEvent} {last : ResponsesState} {events : List ModelEvent}
    (padded : Padded sses front) (runs : (adapter owner).Runs state sses events last) :
    (adapter owner).Runs state front events last := by
  induction padded generalizing state events with
  | none => exact runs
  | keep sse _ ih =>
    cases runs with
    | more carries stepped rest => exact .more carries stepped (ih rest)
  | @quiet _ _ sse quiet _ ih =>
    obtain ⟨value, kind, is, listed⟩ := quiet
    have stepped : state.step owner sse.event value = ([], .ok state) := by
      rw [ResponsesState.step, is.kind]
      simp only [mem_cons, not_mem_nil, or_false] at listed
      rcases listed with rfl | rfl | rfl | rfl | rfl | rfl | rfl <;> rfl
    exact .more is.carries stepped (ih runs)

/-! ### Texts -/

/-- The text that the adapter keeps, and whether a block is open. -/
def ResponsesState.saying (state : ResponsesState) (running : Bool) (text : String) : ResponsesState :=
  { state with textOpen := running, text := text }

/-- The same of the model call. -/
def hearing (cycle : CycleState) (running : Bool) (text : String) : CycleState :=
  { cycle with textOpen := running, text := text }

/-- The adapter and the model call agree on the text, and nothing is being thought. -/
structure Talks (state : ResponsesState) (cycle : CycleState) : Prop where
  text : cycle.text = state.text
  textOpen : cycle.textOpen = state.textOpen
  thinking : state.thinkingOpen = false
  started : cycle.modelCallId.isSome

theorem Talks.saying (talks : Talks state cycle) (running : Bool) (text : String) :
    Talks (state.saying running text) (hearing cycle running text) :=
  ⟨rfl, rfl, talks.thinking, talks.started⟩

theorem closeThinking_closed (closed : state.thinkingOpen = false) : state.closeThinking = ([], state) := by
  cases state
  cases closed
  rfl

theorem closeText_closed (closed : state.textOpen = false) : state.closeText = ([], state) := by
  cases state
  cases closed
  rfl

theorem follows_textDelta {delta : String} {sse : SseEvent} (talks : Talks state cycle)
    (delivers : Delivers "response.output_text.delta" "delta" delta sse) :
    Follows (adapter owner) parse state cycle [sse] (state.saying true (state.text ++ delta))
      (hearing cycle true (state.text ++ delta)) := by
  obtain ⟨value, is, field⟩ := delivers
  have stepped : state.step owner sse.event value =
      ((if state.textOpen then [] else [.textStart]) ++ [.textDelta delta],
        .ok (state.saying true (state.text ++ delta))) := by
    rw [ResponsesState.step, is.kind]
    show written (.ok (state.textDelta value)) = _
    simp only [ResponsesState.textDelta, closeThinking_closed talks.thinking, field, written]
    rfl
  refine follows_one is stepped ?_
  rw [← talks.textOpen, ← talks.text]
  have opened : Reads parse cycle _ _ := reads_openText talks.started
  exact opened.append (reads_say delta rfl)

theorem follows_textDeltas {deltas : List String} {sses : List SseEvent} (talks : Talks state cycle)
    (delivers : List.Forall₂ (Delivers "response.output_text.delta" "delta") deltas sses) :
    ∃ running, Follows (adapter owner) parse state cycle sses
      (state.saying running (state.text ++ String.join deltas))
      (hearing cycle running (state.text ++ String.join deltas)) := by
  induction delivers generalizing state cycle with
  | nil =>
    refine ⟨state.textOpen, ?_⟩
    have same : state.saying state.textOpen (state.text ++ String.join []) = state := by
      rw [String.join_nil, String.append_empty]
      rfl
    have same' : hearing cycle state.textOpen (state.text ++ String.join []) = cycle := by
      rw [String.join_nil, String.append_empty, ← talks.text, ← talks.textOpen]
      rfl
    rw [same, same']
    exact .none
  | cons first _ ih =>
    have here := @follows_textDelta parse owner state cycle _ _ talks first
    obtain ⟨running, rest⟩ := @ih _ _ (talks.saying true _)
    refine ⟨running, ?_⟩
    rw [String.join_cons, ← String.append_assoc]
    exact here.append rest

/-- What is known of a text, once a final text was compared with it. -/
def caughtUp (text final : String) : String := String.ofList (catchUp text.toList final.toList)

theorem caughtUp_goes {text final : String} (goes : text.toList <+: final.toList) :
    caughtUp text final = final := by
  rw [caughtUp, catchUp_goes goes, String.ofList_toList]

theorem caughtUp_other {text final : String} (other : ¬ text.toList <+: final.toList) :
    caughtUp text final = text := by
  rw [caughtUp, catchUp_other other, String.ofList_toList]

theorem append_suffix {text final : String} (goes : text.toList <+: final.toList) :
    text ++ String.ofList (final.toList.drop text.length) = final := by
  obtain ⟨rest, whole⟩ := goes
  apply String.toList_inj.mp
  rw [String.toList_append, String.toList_ofList, ← whole, ← String.length_toList, drop_left]

theorem reads_textDone (talks : Talks state cycle) (final : String) :
    (state.textDone (some final)).2 = state.saying false (caughtUp state.text final) ∧
      Reads parse cycle (state.textDone (some final)).1 (hearing cycle false (caughtUp state.text final)) := by
  by_cases more : state.text.toList <+: final.toList ∧ state.text.length < final.length
  · have whole := append_suffix more.1
    have done : state.textDone (some final) =
        ((if state.textOpen then [] else [.textStart]) ++
            [.textDelta (String.ofList (final.toList.drop state.text.length))] ++ [.textEnd],
          state.saying false final) := by
      simp only [ResponsesState.textDone, ResponsesState.reconcileResponseText, if_pos more, whole]
      rfl
    rw [caughtUp_goes more.1, done]
    refine ⟨rfl, ?_⟩
    rw [← talks.textOpen]
    have opened : Reads parse cycle _ _ := reads_openText talks.started
    have said := opened.append (reads_say (String.ofList (final.toList.drop state.text.length)) rfl)
    rw [talks.text, whole] at said
    exact said.append reads_closeText
  · have kept : caughtUp state.text final = state.text := by
      by_cases goes : state.text.toList <+: final.toList
      · rw [caughtUp_goes goes]
        refine (String.toList_inj.mp (goes.eq_of_length_le ?_)).symm
        rw [String.length_toList, String.length_toList]
        exact Nat.le_of_not_lt fun less => more ⟨goes, less⟩
      · exact caughtUp_other goes
    have done : state.textDone (some final) =
        (if state.textOpen then [.textEnd] else [], state.saying false state.text) := by
      simp only [ResponsesState.textDone, ResponsesState.reconcileResponseText, if_neg more]
      rfl
    rw [kept, done]
    refine ⟨rfl, ?_⟩
    rw [← talks.textOpen, ← talks.text]
    exact reads_closeText

theorem follows_textDone {final : String} {sse : SseEvent} (talks : Talks state cycle)
    (delivers : Delivers "response.output_text.done" "text" final sse) :
    Follows (adapter owner) parse state cycle [sse] (state.saying false (caughtUp state.text final))
      (hearing cycle false (caughtUp state.text final)) := by
  obtain ⟨value, is, field⟩ := delivers
  obtain ⟨next, reads⟩ := @reads_textDone parse state cycle talks final
  refine follows_one is ?_ reads
  rw [ResponsesState.step, is.kind]
  show written (.ok (state.textDone (value.textAt "text"))) = _
  rw [field, ← next]
  rfl

theorem follows_part {part : Streamed} {sses : List SseEvent} {done : SseEvent} (talks : Talks state cycle)
    (texts : List.Forall₂ (Delivers "response.output_text.delta" "delta") part.deltas sses)
    (ends : Delivers "response.output_text.done" "text" part.text done) :
    Follows (adapter owner) parse state cycle (sses ++ [done])
      (state.saying false (String.ofList (afterPart state.text.toList part.part)))
      (hearing cycle false (String.ofList (afterPart state.text.toList part.part))) := by
  obtain ⟨running, streamed⟩ := @follows_textDeltas parse owner state cycle _ _ talks texts
  have last := streamed.append (follows_textDone (talks.saying running _) ends)
  have same : caughtUp (state.saying running (state.text ++ String.join part.deltas)).text part.text =
      String.ofList (afterPart state.text.toList part.part) := by
    show String.ofList (catchUp (state.text ++ String.join part.deltas).toList part.text.toList) = _
    rw [String.toList_append]
    rfl
  rw [same] at last
  exact last

theorem follows_parts {parts : List Streamed} {sses : List SseEvent} (talks : Talks state cycle)
    (closed : state.textOpen = false) (texts : TextParts parts sses) :
    Follows (adapter owner) parse state cycle sses
      (state.saying false (String.ofList (afterParts state.text.toList (parts.map Streamed.part))))
      (hearing cycle false (String.ofList (afterParts state.text.toList (parts.map Streamed.part)))) := by
  induction texts generalizing state cycle with
  | none =>
    have same : String.ofList (afterParts state.text.toList []) = state.text := String.ofList_toList
    rw [map_nil, same]
    have unchanged : state.saying false state.text = state := by rw [ResponsesState.saying, ← closed]
    have unchanged' : hearing cycle false state.text = cycle := by
      rw [hearing, ← closed, ← talks.text, ← talks.textOpen]
    rw [unchanged, unchanged']
    exact .none
  | @part part parts deltas sses done texts ends _ ih =>
    have first := @follows_part parse owner state cycle _ _ _ talks texts ends
    have between := talks.saying false (String.ofList (afterPart state.text.toList part.part))
    have whole := first.append (ih between rfl)
    have split : deltas ++ done :: sses = (deltas ++ [done]) ++ sses := by simp
    rw [split]
    have text : (state.saying false (String.ofList (afterPart state.text.toList part.part))).text.toList =
        afterPart state.text.toList part.part := String.toList_ofList
    rw [text] at whole
    exact whole

/-! ### Items without a call -/

theorem follows_added {type : String} {holds : Value → Value → Prop} {sse : SseEvent}
    (added : BringsItem "response.output_item.added" type holds sse) (other : type ≠ "function_call") :
    Follows (adapter owner) parse state cycle [sse] state cycle := by
  obtain ⟨value, item, is, held, kind, -⟩ := added
  refine follows_one is ?_ .none
  rw [ResponsesState.step, is.kind]
  show written (state.itemAdded value) = _
  simp only [ResponsesState.itemAdded, held, Option.getD_some, kind, Option.some.injEq, if_neg other]
  rfl

theorem follows_messageDone {final : String} {sse : SseEvent} (talks : Talks state cycle)
    (done : BringsItem "response.output_item.done" "message" (fun _ item => responseItemText item = some final) sse) :
    Follows (adapter owner) parse state cycle [sse]
      ({ state with sawCompletedItem := true }.saying false (caughtUp state.text final))
      (hearing cycle false (caughtUp state.text final)) := by
  obtain ⟨value, item, is, held, kind, content⟩ := done
  have talks' : Talks { state with sawCompletedItem := true } cycle :=
    ⟨talks.text, talks.textOpen, talks.thinking, talks.started⟩
  obtain ⟨next, reads⟩ := @reads_textDone parse _ cycle talks' final
  refine follows_one is ?_ reads
  rw [ResponsesState.step, is.kind]
  show written (state.itemDone value) = _
  simp only [ResponsesState.itemDone, held, Option.getD_some, kind, content]
  rw [← next]
  rfl

theorem whole_parts (parts : List Streamed) :
    (String.join (parts.map Streamed.text)).toList = whole (parts.map Streamed.part) := by
  rw [String.toList_join, whole, map_map, flatMap_map]
  rfl

theorem follows_message {parts : List Streamed} {sses : List SseEvent} (talks : Talks state cycle)
    (closed : state.textOpen = false) (sends : SendsItem (.message parts) sses) :
    Follows (adapter owner) parse state cycle sses
      ({ state with sawCompletedItem := true }.saying false
        (String.ofList (afterGroup state.text.toList (parts.map Streamed.part))))
      (hearing cycle false (String.ofList (afterGroup state.text.toList (parts.map Streamed.part)))) := by
  cases sends with
  | @message _ start stop sses added texts done =>
    have first : Follows (adapter owner) parse state cycle [start] state cycle :=
      follows_added added (by decide)
    have middle := @follows_parts parse owner state cycle _ _ talks closed texts
    have between := talks.saying false (String.ofList (afterParts state.text.toList (parts.map Streamed.part)))
    have last := first.append (middle.append (follows_messageDone between done))
    have same : caughtUp (String.ofList (afterParts state.text.toList (parts.map Streamed.part)))
        (String.join (parts.map Streamed.text)) =
          String.ofList (afterGroup state.text.toList (parts.map Streamed.part)) := by
      rw [caughtUp, whole_parts, String.toList_ofList]
      rfl
    have text : (state.saying false (String.ofList (afterParts state.text.toList (parts.map Streamed.part)))).text =
        String.ofList (afterParts state.text.toList (parts.map Streamed.part)) := rfl
    rw [text, same] at last
    exact last

/-- The model call with more thoughts, and its block open or not. -/
def thinking (cycle : CycleState) (running : Bool) (thought : String) : CycleState :=
  { cycle with thinkingOpen := running, reasoning := cycle.reasoning ++ thought }

theorem follows_thoughtDelta {delta : String} {sse : SseEvent} (agree : cycle.thinkingOpen = state.thinkingOpen)
    (started : cycle.modelCallId.isSome) (delivers : ThoughtDelta delta sse) :
    Follows (adapter owner) parse state cycle [sse] { state with thinkingOpen := true }
      (thinking cycle true delta) := by
  have opened : Reads parse cycle _ _ := reads_openThinking started
  have reads := opened.append (reads_think delta rfl)
  rw [agree] at reads
  rcases delivers with ⟨value, is, field⟩ | ⟨value, is, field⟩
  all_goals
    refine follows_one is ?_ reads
    rw [ResponsesState.step, is.kind]
    show written (.ok (state.thinkingDelta value)) = _
    rw [ResponsesState.thinkingDelta, field]
    rfl

theorem follows_thoughtDeltas {deltas : List String} {sses : List SseEvent}
    (agree : cycle.thinkingOpen = state.thinkingOpen) (started : cycle.modelCallId.isSome)
    (delivers : List.Forall₂ ThoughtDelta deltas sses) :
    ∃ running, Follows (adapter owner) parse state cycle sses { state with thinkingOpen := running }
      (thinking cycle running (String.join deltas)) := by
  induction delivers generalizing state cycle with
  | nil =>
    refine ⟨state.thinkingOpen, ?_⟩
    have same : thinking cycle state.thinkingOpen (String.join []) = cycle := by
      rw [thinking, String.join_nil, String.append_empty, ← agree]
    rw [same]
    exact .none
  | @cons delta _ deltas _ first _ ih =>
    have here := @follows_thoughtDelta parse owner state cycle _ _ agree started first
    have between : (thinking cycle true delta).modelCallId.isSome := started
    obtain ⟨running, rest⟩ := @ih { state with thinkingOpen := true } (thinking cycle true delta) rfl between
    refine ⟨running, ?_⟩
    have joined : thinking (thinking cycle true delta) running (String.join deltas) =
        thinking cycle running (String.join (delta :: deltas)) := by
      simp only [thinking, String.join_cons, String.append_assoc]
    rw [← joined]
    exact here.append rest

theorem follows_thoughtDone {sse : SseEvent} (agree : cycle.thinkingOpen = state.thinkingOpen)
    (done : ThoughtDone sse) :
    Follows (adapter owner) parse state cycle [sse] { state with thinkingOpen := false }
      { cycle with thinkingOpen := false } := by
  have reads : Reads parse cycle _ _ := reads_closeThinking
  rw [agree] at reads
  obtain ⟨value, is | is⟩ := done
  all_goals
    refine follows_one is ?_ reads
    rw [ResponsesState.step, is.kind]
    rfl

theorem follows_thoughtParts {parts : List (List String)} {sses : List SseEvent}
    (closed : state.thinkingOpen = false) (agree : cycle.thinkingOpen = false) (started : cycle.modelCallId.isSome)
    (thoughts : ThoughtParts parts sses) :
    Follows (adapter owner) parse state cycle sses state (thinking cycle false (String.join parts.flatten)) := by
  induction thoughts generalizing cycle with
  | none =>
    have same : thinking cycle false (String.join ([] : List (List String)).flatten) = cycle := by
      rw [thinking, flatten_nil, String.join_nil, String.append_empty, ← agree]
    rw [same]
    exact .none
  | @part part parts deltas sses done texts ends _ ih =>
    obtain ⟨running, streamed⟩ :=
      @follows_thoughtDeltas parse owner state cycle _ _ (agree.trans closed.symm) started texts
    have ended : Follows (adapter owner) parse { state with thinkingOpen := running }
        (thinking cycle running (String.join part)) [done] _ _ := follows_thoughtDone rfl ends
    have unchanged : ({ state with thinkingOpen := false } : ResponsesState) = state := by rw [← closed]
    have between : (thinking cycle false (String.join part)).modelCallId.isSome := started
    have rest := ih rfl between
    have joined : thinking (thinking cycle false (String.join part)) false (String.join parts.flatten) =
        thinking cycle false (String.join (part :: parts).flatten) := by
      simp only [thinking, flatten_cons, String.join_append, String.append_assoc]
    have first := streamed.append ended
    rw [show ({ ({ state with thinkingOpen := running } : ResponsesState) with thinkingOpen := false } :
      ResponsesState) = state from unchanged] at first
    have split : deltas ++ done :: sses = (deltas ++ [done]) ++ sses := by simp
    rw [split, ← joined]
    exact first.append rest

theorem follows_reasoning {parts : List (List String)} {sses : List SseEvent} (closed : state.thinkingOpen = false)
    (agree : cycle.thinkingOpen = false) (started : cycle.modelCallId.isSome)
    (sends : SendsItem (.reasoning parts) sses) :
    ∃ kept, Follows (adapter owner) parse state cycle sses { state with reasoningItems := kept }
      (thinking cycle false (String.join parts.flatten)) := by
  cases sends with
  | @reasoning _ start stop sses added thoughts done =>
    obtain ⟨value, item, is, held, kind, -⟩ := done
    have first : Follows (adapter owner) parse state cycle [start] state cycle :=
      follows_added added (by decide)
    have middle := @follows_thoughtParts parse owner state cycle _ _ closed agree started thoughts
    refine ⟨state.reasoningItems ++ [item], first.append (middle.append (follows_one is ?_ .none))⟩
    rw [ResponsesState.step, is.kind]
    show written (state.itemDone value) = _
    simp only [ResponsesState.itemDone, held, Option.getD_some, kind, closeThinking_closed closed]
    rfl

/-! ### Calls -/

variable {call : ResponseCall} {id old new : String} {ended : Bool}

/-- The tool of a call that has started, and sent on all of its arguments. -/
def ResponseCall.held (call : ResponseCall) (text : String) (ended : Bool) : ResponseToolState :=
  ⟨some call.callId, some call.name, text, text.length, true, ended⟩

/-- The same in the model call. -/
def ResponseCall.tool (parse : String → Except String Value) (id : String) (call : ResponseCall) (text : String)
    (ended : Bool) : OpenTool :=
  if ended then (holding id call.index call.callId call.name text).close parse
  else holding id call.index call.callId call.name text

theorem emit_held (grown : old.toList <+: new.toList) :
    ({ call.held old ended with arguments := new } : ResponseToolState).emit call.index =
      (remainder call.index old new, call.held new ended) := by
  unfold ResponseToolState.emit remainder
  by_cases more : old.length < new.length
  · rw [if_pos (by simp [ResponseCall.held, more]), if_pos more]
    rfl
  · have same : new = old := by
      refine (String.toList_inj.mp (grown.eq_of_length_le ?_)).symm
      rw [String.length_toList, String.length_toList]
      exact Nat.le_of_not_lt more
    subst same
    rw [if_neg (by simp [ResponseCall.held]), if_neg more]
    rfl

theorem taken_snapshot (grown : old.toList <+: new.toList) :
    (call.held old ended).take (.snapshot new) = .ok { call.held old ended with arguments := new } := by
  unfold ResponseToolState.take
  by_cases same : new = old
  · subst same
    exact if_pos rfl
  · have whole : (call.held old ended).arguments ++
        String.ofList (new.toList.drop (call.held old ended).arguments.length) = new := append_suffix grown
    have begins : (call.held old ended).arguments.toList <+: new.toList := grown
    show (if new = old then _ else _) = _
    rw [if_neg same, if_pos begins, whole]

theorem update_held {tools : Std.TreeMap Nat ResponseToolState} {arguments : ResponseToolArguments} {done : Bool}
    (item : Value) (found : tools[call.index]? = some (call.held old ended))
    (taken : (call.held old ended).take arguments = .ok { call.held old ended with arguments := new })
    (grown : old.toList <+: new.toList) :
    updateResponseTool tools call.index item arguments done =
      .ok (remainder call.index old new ++ (if done && !ended then [ModelEvent.toolCallEnd call.index] else []),
        tools.insert call.index (call.held new (ended || done))) := by
  have known : (call.held old ended).identify item = call.held old ended := rfl
  have goes_on : ({ call.held old ended with arguments := new } : ResponseToolState).start call.index =
      ([], { call.held old ended with arguments := new }) := rfl
  have ends : (call.held new ended).close call.index done =
      .ok (if done && !ended then [.toolCallEnd call.index] else [], call.held new (ended || done)) := by
    cases ended <;> cases done <;> rfl
  simp only [updateResponseTool, found, Option.getD_some, known, taken, except_ok_bind, goes_on, emit_held grown, ends,
    nil_append]

theorem tools_insert (tools : Std.TreeMap Nat ResponseToolState) (index other : Nat) (tool : ResponseToolState) :
    (tools.insert index tool)[other]? = if index = other then some tool else tools[other]? := by
  rw [Std.TreeMap.getElem?_insert]
  simp only [Std.compare_eq_iff_eq]

/-- The call has started, and `text` has come of its arguments; all else is as it was. -/
structure Calling (parse : String → Except String Value) (id : String) (call : ResponseCall) (text : String)
    (ended : Bool) (state : ResponsesState) (cycle : CycleState) (next : ResponsesState) (later : CycleState) :
    Prop where
  kept : next = { state with
    tools := next.tools, sawTool := true, sawCompletedItem := next.sawCompletedItem }
  read : later = { cycle with tools := later.tools, callIds := call.callId :: cycle.callIds }
  tools : ∀ other : Nat, next.tools[other]? =
    if call.index = other then some (call.held text ended) else state.tools[other]?
  calls : ∀ other : Nat, later.tools[other]? =
    if call.index = other then some (call.tool parse id text ended) else cycle.tools[other]?

variable {next : ResponsesState} {later : CycleState}

theorem follows_callAdded {sse : SseEvent} (started : cycle.modelCallId = some id)
    (free : state.tools[call.index]? = none) (unused : cycle.tools[call.index]? = none)
    (fresh : call.callId ∉ cycle.callIds)
    (added : BringsItem "response.output_item.added" "function_call" call.Named sse) :
    ∃ next later, Follows (adapter owner) parse state cycle [sse] next later ∧
      Calling parse id call "" false state cycle next later := by
  obtain ⟨value, item, is, held, kind, named⟩ := added
  have reads : Reads parse cycle _ _ := reads_startTool call.index call.callId call.name started unused fresh
  have identified : ResponseToolState.fresh.identify item =
      ⟨some call.callId, some call.name, "", 0, false, false⟩ := by
    rw [ResponseToolState.identify, named.callId, named.name]
    rfl
  have updated : updateResponseTool state.tools call.index item .none false =
      .ok ([.toolCallStart call.index call.callId call.name], state.tools.insert call.index (call.held "" false)) := by
    rw [updateResponseTool, free, Option.getD_none, identified]
    rfl
  refine ⟨{ state with sawTool := true, tools := state.tools.insert call.index (call.held "" false) }, _,
    follows_one is ?_ reads, rfl, rfl, fun other => tools_insert _ _ _ _, fun other => found_insert _ _ _ _⟩
  rw [ResponsesState.step, is.kind]
  show written (state.itemAdded value) = _
  simp only [ResponsesState.itemAdded, held, Option.getD_some, kind, if_true, named.index, except_ok_bind,
    ResponsesState.updateTools, updated]
  rfl

theorem calling_grows {sse : SseEvent} {value item : Value} {kind : String} {arguments : ResponseToolArguments}
    {done : Bool} (calling : Calling parse id call old false state cycle next later) (is : IsKind sse value kind)
    (updates : next.step owner sse.event value = written (next.updateTools call.index item arguments done))
    (taken : (call.held old false).take arguments = .ok { call.held old false with arguments := new })
    (grown : old.toList <+: new.toList) :
    ∃ after last, Follows (adapter owner) parse next later [sse] after last ∧
      Calling parse id call new done state cycle after last := by
  have found : next.tools[call.index]? = some (call.held old false) := by rw [calling.tools, if_pos rfl]
  have running : later.tools[call.index]? = some (holding id call.index call.callId call.name old) := by
    rw [calling.calls, if_pos rfl]
    rfl
  have updated := @update_held call old new false next.tools arguments done item found taken grown
  obtain ⟨tools, extended, known⟩ : ∃ tools,
      Reads parse later (remainder call.index old new) { later with tools := tools } ∧
      ∀ other : Nat, tools[other]? = if call.index = other then
        some (holding id call.index call.callId call.name new) else later.tools[other]? :=
    reads_extend running grown
  have kept : ∀ tools : Std.TreeMap Nat ResponseToolState, ({ next with tools := tools } : ResponsesState) =
      { state with tools := tools, sawTool := true, sawCompletedItem := next.sawCompletedItem } := by
    intro tools
    rw [calling.kept]
  have read : ∀ tools : Std.TreeMap Nat OpenTool, ({ later with tools := tools } : CycleState) =
      { cycle with tools := tools, callIds := call.callId :: cycle.callIds } := by
    intro tools
    rw [calling.read]
  have stepped : next.step owner sse.event value = (remainder call.index old new ++
      (if done then [.toolCallEnd call.index] else []),
        .ok { next with tools := next.tools.insert call.index (call.held new done) }) := by
    rw [updates, ResponsesState.updateTools, updated, except_ok_bind, Bool.not_false, Bool.and_true, Bool.false_or]
    rfl
  have held : ∀ other : Nat, (next.tools.insert call.index (call.held new done))[other]? =
      if call.index = other then some (call.held new done) else state.tools[other]? := by
    intro other
    rw [tools_insert, calling.tools]
    by_cases here : call.index = other
    · rw [if_pos here, if_pos here]
    · rw [if_neg here, if_neg here, if_neg here]
  have others : ∀ other : Nat, tools[other]? =
      if call.index = other then some (call.tool parse id new false) else cycle.tools[other]? := by
    intro other
    rw [known, calling.calls]
    by_cases here : call.index = other
    · rw [if_pos here, if_pos here]
      rfl
    · rw [if_neg here, if_neg here, if_neg here]
  cases done with
  | false =>
    rw [if_neg Bool.false_ne_true, append_nil] at stepped
    exact ⟨_, _, follows_one is stepped extended, kept _, read _, held, others⟩
  | true =>
    rw [if_pos rfl] at stepped
    have running' : ({ later with tools := tools } : CycleState).tools[call.index]? =
        some (holding id call.index call.callId call.name new) := by
      rw [known, if_pos rfl]
    have ends : Reads parse { later with tools := tools } [.toolCallEnd call.index] _ := reads_endTool running' rfl
    refine ⟨_, _, follows_one is stepped (extended.append ends), kept _, read _, held, fun other => ?_⟩
    rw [found_insert, others]
    by_cases here : call.index = other
    · rw [if_pos here, if_pos here]
      rfl
    · rw [if_neg here, if_neg here, if_neg here]

theorem Calling.sawTool (calling : Calling parse id call old ended state cycle next later) : next.sawTool = true := by
  rw [calling.kept]

theorem follows_argumentsDeltas {deltas : List String} {sses : List SseEvent}
    (calling : Calling parse id call old false state cycle next later)
    (delivers : List.Forall₂ (DeliversTo call.index "response.function_call_arguments.delta" "delta") deltas sses) :
    ∃ after last, Follows (adapter owner) parse next later sses after last ∧
      Calling parse id call (old ++ String.join deltas) false state cycle after last := by
  induction delivers generalizing old next later with
  | nil =>
    rw [String.join_nil, String.append_empty]
    exact ⟨next, later, .none, calling⟩
  | @cons delta sse deltas _ first _ ih =>
    obtain ⟨value, is, index, field⟩ := first
    have saw : ({ next with sawTool := true } : ResponsesState) = next := by rw [← calling.sawTool]
    have updates : next.step owner sse.event value =
        written (next.updateTools call.index .null (.delta delta) false) := by
      rw [ResponsesState.step, is.kind]
      show written (next.argumentsDelta value) = _
      simp only [ResponsesState.argumentsDelta, index, field, except_ok_bind, saw]
    have grown : old.toList <+: (old ++ delta).toList := by
      rw [String.toList_append]
      exact prefix_append _ _
    obtain ⟨between, middle, here, more⟩ := calling_grows calling is updates rfl grown
    obtain ⟨after, last, rest, whole⟩ := ih more
    rw [String.append_assoc, ← String.join_cons] at whole
    exact ⟨after, last, here.append rest, whole⟩

theorem follows_argumentsDone {sse : SseEvent} (calling : Calling parse id call old false state cycle next later)
    (grown : old.toList <+: new.toList) (some : new ≠ "")
    (done : DeliversTo call.index "response.function_call_arguments.done" "arguments" new sse) :
    ∃ after last, Follows (adapter owner) parse next later [sse] after last ∧
      Calling parse id call new true state cycle after last := by
  obtain ⟨value, is, index, field⟩ := done
  have updates : next.step owner sse.event value =
      written (next.updateTools call.index .null (.snapshot new) true) := by
    rw [ResponsesState.step, is.kind]
    show written (next.argumentsDone value) = _
    rw [ResponsesState.argumentsDone, index, except_ok_bind, field]
    split
    · rename_i empty
      exact absurd (Option.some.inj empty) some
    · rename_i same
      rw [Option.some.inj same]
    · contradiction
  exact calling_grows calling is updates (taken_snapshot grown) grown

theorem follows_callDone {sse : SseEvent} (calling : Calling parse id call new true state cycle next later)
    (done : BringsItem "response.output_item.done" "function_call"
      (fun value item => call.Named value item ∧ item.textAt "arguments" = some new) sse) :
    ∃ after, Follows (adapter owner) parse next later [sse] after later ∧
      Calling parse id call new true state cycle after later := by
  obtain ⟨value, item, is, held, kind, named, field⟩ := done
  have found : next.tools[call.index]? = some (call.held new true) := by rw [calling.tools, if_pos rfl]
  have same : remainder call.index new new = [] := if_neg (Nat.lt_irrefl _)
  have updated : updateResponseTool next.tools call.index item (.snapshot new) true =
      .ok ([], next.tools.insert call.index (call.held new true)) := by
    rw [update_held item found (taken_snapshot (prefix_refl _)) (prefix_refl _), same]
    rfl
  refine ⟨{ next with
      sawCompletedItem := true, sawTool := true, tools := next.tools.insert call.index (call.held new true) },
    follows_one is ?_ .none, ?_, calling.read, fun other => ?_, calling.calls⟩
  · rw [ResponsesState.step, is.kind]
    show written (next.itemDone value) = _
    simp only [ResponsesState.itemDone, held, Option.getD_some, kind, named.index, except_ok_bind, field,
      Option.elim_some, ResponsesState.updateTools, updated]
    rfl
  · rw [calling.kept]
  · rw [tools_insert, calling.tools]
    by_cases here : call.index = other
    · rw [if_pos here, if_pos here]
    · rw [if_neg here, if_neg here]

theorem follows_call {sses : List SseEvent} (started : cycle.modelCallId = some id)
    (free : state.tools[call.index]? = none) (unused : cycle.tools[call.index]? = none)
    (fresh : call.callId ∉ cycle.callIds) (some : call.arguments.text ≠ "") (sends : SendsItem (.call call) sses) :
    ∃ next later, Follows (adapter owner) parse state cycle sses next later ∧
      Calling parse id call call.arguments.text true state cycle next later := by
  cases sends with
  | @call _ start final stop sses added deltas whole done =>
    obtain ⟨next, later, first, calling⟩ : ∃ next later,
        Follows (adapter owner) parse state cycle [start] next later ∧
        Calling parse id call "" false state cycle next later :=
      follows_callAdded started free unused fresh added
    obtain ⟨between, middle, streamed, calling⟩ : ∃ between middle,
        Follows (adapter owner) parse next later sses between middle ∧
        Calling parse id call ("" ++ String.join call.arguments.deltas) false state cycle between middle :=
      follows_argumentsDeltas calling deltas
    have covers : ("" ++ String.join call.arguments.deltas).toList <+: call.arguments.text.toList := by
      rw [String.empty_append]
      exact call.arguments.covers
    obtain ⟨after, last, ended, calling⟩ : ∃ after last,
        Follows (adapter owner) parse between middle [final] after last ∧
        Calling parse id call call.arguments.text true state cycle after last :=
      follows_argumentsDone calling covers some whole
    obtain ⟨after', closed, calling⟩ : ∃ after', Follows (adapter owner) parse after last [stop] after' last ∧
        Calling parse id call call.arguments.text true state cycle after' last :=
      follows_callDone calling done
    exact ⟨after', last, first.append (streamed.append (ended.append closed)), calling⟩

/-! ### Between items -/

/-- The calls that have come are ended, on both sides, and there are no others. -/
structure Called (parse : String → Except String Value) (id : String) (calls : List ResponseCall)
    (state : ResponsesState) (cycle : CycleState) : Prop where
  sawTool : state.sawTool = true ↔ calls ≠ []
  callIds : ∀ callId ∈ cycle.callIds, callId ∈ calls.map ResponseCall.callId
  tools : ∀ index : Nat, state.tools[index]? =
    (calls.find? fun call => call.index = index).map fun call => call.held call.arguments.text true
  calls : ∀ index : Nat, cycle.tools[index]? =
    (calls.find? fun call => call.index = index).map fun call => call.tool parse id call.arguments.text true

/-- Some items have come. -/
structure Between (parse : String → Except String Value) (id : String) (items : List OutputItem)
    (state : ResponsesState) (cycle : CycleState) : Prop where
  talks : Talks state cycle
  textOpen : state.textOpen = false
  thinkingOpen : cycle.thinkingOpen = false
  started : cycle.modelCallId = some id
  usage : cycle.usage = none
  replay : cycle.replayState = none
  text : state.text.toList = afterGroups [] (messagesOf items)
  reasoning : cycle.reasoning = String.join (items.map OutputItem.thought)
  called : Called parse id (callsOf items) state cycle

theorem find_absent {calls : List ResponseCall} {index : Nat} (fresh : index ∉ calls.map ResponseCall.index) :
    (calls.find? fun call => call.index = index) = none := by
  refine find?_eq_none.mpr fun call member here => fresh ?_
  rw [← of_decide_eq_true here]
  exact mem_map_of_mem member

theorem Called.none {calls : List ResponseCall} (called : Called parse id calls state cycle) {index : Nat}
    (fresh : index ∉ calls.map ResponseCall.index) :
    state.tools[index]? = none ∧ cycle.tools[index]? = none := by
  rw [called.tools, called.calls, find_absent fresh]
  exact ⟨rfl, rfl⟩

theorem find_concat {calls : List ResponseCall} (fresh : call.index ∉ calls.map ResponseCall.index) (index : Nat) :
    ((calls ++ [call]).find? fun call => call.index = index) =
      if call.index = index then some call else calls.find? fun call => call.index = index := by
  rw [find?_append, find?_singleton]
  by_cases here : call.index = index
  · subst here
    simp [find_absent fresh]
  · simp [here]

theorem Called.concat {calls : List ResponseCall} (called : Called parse id calls state cycle)
    (fresh : call.index ∉ calls.map ResponseCall.index)
    (calling : Calling parse id call call.arguments.text true state cycle next later) :
    Called parse id (calls ++ [call]) next later where
  sawTool := ⟨fun _ => concat_ne_nil call calls, fun _ => calling.sawTool⟩
  callIds callId member := by
    rw [calling.read, mem_cons] at member
    rw [map_append, mem_append]
    rcases member with rfl | member
    · exact .inr (mem_singleton_self _)
    · exact .inl (called.callIds callId member)
  tools index := by
    rw [calling.tools, called.tools, find_concat fresh]
    split_ifs <;> rfl
  calls index := by
    rw [calling.calls, called.calls, find_concat fresh]
    split_ifs <;> rfl

/-- **A whole item.** -/
theorem between_item {items : List OutputItem} {item : OutputItem} {sses : List SseEvent}
    (between : Between parse id items state cycle) (sends : SendsItem item sses)
    (indexes : ((callsOf (items ++ [item])).map ResponseCall.index).Nodup)
    (callIds : ((callsOf (items ++ [item])).map ResponseCall.callId).Nodup)
    (some : ∀ call ∈ item.call?, call.arguments.text ≠ "") :
    ∃ next later, Follows (adapter owner) parse state cycle sses next later ∧
      Between parse id (items ++ [item]) next later := by
  have joined : String.join ((items ++ [item]).map OutputItem.thought) =
      String.join (items.map OutputItem.thought) ++ item.thought := by
    rw [map_append, String.join_append, map_singleton, String.join_cons, String.join_nil,
      String.append_empty]
  cases item with
  | reasoning parts =>
    obtain ⟨kept, follows⟩ : ∃ kept, Follows (adapter owner) parse state cycle sses _ _ :=
      follows_reasoning between.talks.thinking between.thinkingOpen between.talks.started sends
    have calls : callsOf (items ++ [.reasoning parts]) = callsOf items := by simp [callsOf, OutputItem.call?]
    have messages : messagesOf (items ++ [.reasoning parts]) = messagesOf items := by
      simp [messagesOf, OutputItem.parts?]
    obtain ⟨text, textOpen, thinking, started⟩ := between.talks
    refine ⟨_, _, follows, ⟨text, textOpen, thinking, started⟩, between.textOpen, rfl, between.started, between.usage,
      between.replay, ?_, ?_, ?_⟩
    · rw [messages]
      exact between.text
    · rw [joined, ← between.reasoning]
      rfl
    · rw [calls]
      exact ⟨between.called.sawTool, between.called.callIds, between.called.tools, between.called.calls⟩
  | message parts =>
    have follows : Follows (adapter owner) parse state cycle sses _ _ :=
      follows_message between.talks between.textOpen sends
    have calls : callsOf (items ++ [.message parts]) = callsOf items := by simp [callsOf, OutputItem.call?]
    have messages : messagesOf (items ++ [.message parts]) = messagesOf items ++ [parts.map Streamed.part] := by
      simp [messagesOf, OutputItem.parts?]
    refine ⟨_, _, follows, ⟨rfl, rfl, between.talks.thinking, between.talks.started⟩, rfl, between.thinkingOpen,
      between.started, between.usage, between.replay, ?_, ?_, ?_⟩
    · rw [messages, afterGroups_concat, ← between.text]
      exact String.toList_ofList
    · rw [joined, ← between.reasoning]
      exact String.append_empty.symm
    · rw [calls]
      exact ⟨between.called.sawTool, between.called.callIds, between.called.tools, between.called.calls⟩
  | call call =>
    have calls : callsOf (items ++ [.call call]) = callsOf items ++ [call] := by simp [callsOf, OutputItem.call?]
    have messages : messagesOf (items ++ [.call call]) = messagesOf items := by simp [messagesOf, OutputItem.parts?]
    rw [calls, map_append, map_singleton, nodup_append] at indexes callIds
    have fresh : call.index ∉ (callsOf items).map ResponseCall.index := fun member =>
      indexes.2.2 _ member _ (mem_singleton_self _) rfl
    have fresh' : call.callId ∉ cycle.callIds := fun member =>
      callIds.2.2 _ (between.called.callIds _ member) _ (mem_singleton_self _) rfl
    obtain ⟨free, unused⟩ := between.called.none fresh
    obtain ⟨next, later, follows, calling⟩ : ∃ next later,
        Follows (adapter owner) parse state cycle sses next later ∧
        Calling parse id call call.arguments.text true state cycle next later :=
      follows_call between.started free unused fresh' (some call rfl) sends
    have called := between.called.concat fresh calling
    refine ⟨next, later, follows, ?_⟩
    rw [calling.kept, calling.read] at called ⊢
    refine ⟨⟨between.talks.text, between.talks.textOpen, between.talks.thinking, between.talks.started⟩,
      between.textOpen, between.thinkingOpen, between.started, between.usage, between.replay, ?_, ?_, ?_⟩
    · rw [messages]
      exact between.text
    · rw [joined, ← between.reasoning]
      exact String.append_empty.symm
    · rw [calls]
      exact called

theorem between_items {earlier items : List OutputItem} {sses : List SseEvent}
    (between : Between parse id earlier state cycle) (sends : SendsItems items sses)
    (indexes : ((callsOf (earlier ++ items)).map ResponseCall.index).Nodup)
    (callIds : ((callsOf (earlier ++ items)).map ResponseCall.callId).Nodup)
    (some : ∀ call ∈ callsOf items, call.arguments.text ≠ "") :
    ∃ next later, Follows (adapter owner) parse state cycle sses next later ∧
      Between parse id (earlier ++ items) next later := by
  induction sends generalizing earlier state cycle with
  | none =>
    rw [append_nil]
    exact ⟨state, cycle, .none, between⟩
  | @item item items sses more sends _ ih =>
    have split : earlier ++ item :: items = (earlier ++ [item]) ++ items := by simp
    have parts : callsOf ((earlier ++ [item]) ++ items) = callsOf (earlier ++ [item]) ++ callsOf items :=
      filterMap_append
    rw [split] at indexes callIds ⊢
    have here : ∀ call ∈ item.call?, call.arguments.text ≠ "" := fun call same =>
      some call (mem_filterMap.mpr ⟨item, mem_cons_self, same⟩)
    have there : ∀ call ∈ callsOf items, call.arguments.text ≠ "" := by
      intro call member
      obtain ⟨other, inside, same⟩ := mem_filterMap.mp member
      exact some call (mem_filterMap.mpr ⟨other, mem_cons_of_mem _ inside, same⟩)
    have before := indexes
    have before' := callIds
    rw [parts, map_append, nodup_append] at before before'
    obtain ⟨next, later, first, known⟩ : ∃ next later,
        Follows (adapter owner) parse state cycle sses next later ∧
        Between parse id (earlier ++ [item]) next later :=
      between_item between sends before.1 before'.1 here
    obtain ⟨after, last, rest, whole⟩ := ih known indexes callIds there
    exact ⟨after, last, first.append rest, whole⟩

/-! ### The end of a response -/

theorem Between.all_ended {items : List OutputItem} (between : Between parse id items state cycle) :
    ∀ entry ∈ state.tools.toList, entry.2.started = true ∧ entry.2.ended = true := by
  intro entry member
  have found := Std.TreeMap.mem_toList_iff_getElem?_eq_some.mp member
  rw [between.called.tools] at found
  obtain ⟨call, -, held⟩ := Option.map_eq_some_iff.mp found
  rw [← held]
  exact ⟨rfl, rfl⟩

theorem Between.closed {items : List OutputItem} (between : Between parse id items state cycle) :
    cycle.hasOpenBlock = false := by
  refine hasOpenBlock_eq_false.mpr ⟨between.talks.textOpen.trans between.textOpen, between.thinkingOpen,
    fun index running => ?_⟩
  obtain ⟨tool, found, open'⟩ := toolPhase_running.mp running
  rw [between.called.calls] at found
  obtain ⟨call, -, closed⟩ := Option.map_eq_some_iff.mp found
  rw [← closed] at open'
  cases open'

/-- The calls, and how the response ends for them. -/
def reasonOf (items : List OutputItem) : FinishReason := if callsOf items = [] then .stop else .toolUse

theorem response_ends {items : List OutputItem} {completed : SseEvent}
    (between : Between parse id items state cycle) (is : ∃ value, IsKind completed value "response.completed") :
    ∃ usage replay body, (adapter owner).read state [.event completed] =
        (body ++ [.done (reasonOf items)]).map .event ∧
      Reads parse cycle body { cycle with usage := usage, replayState := replay } := by
  obtain ⟨value, is⟩ := is
  have quiet : state.running = [] := by
    rw [ResponsesState.running, filter_eq_nil_iff.mpr, map_nil]
    intro entry member
    simp [(between.all_ended entry member).2]
  have closed : state.closeAll = ([], state.endTools) := by
    simp only [ResponsesState.closeAll, closeThinking_closed between.talks.thinking, closeText_closed between.textOpen,
      quiet]
    rfl
  have complete : (state.endTools.tools.toList.any fun entry => !entry.2.started) = false := by
    refine any_eq_false.mpr fun entry member => ?_
    have found := Std.TreeMap.mem_toList_iff_getElem?_eq_some.mp member
    rw [ResponsesState.endTools, Std.TreeMap.getElem?_map] at found
    obtain ⟨tool, known, same⟩ := Option.map_eq_some_iff.mp found
    have inside := Std.TreeMap.mem_toList_iff_getElem?_eq_some.mpr known
    rw [← same, (between.all_ended _ inside).1]
    exact Bool.false_ne_true
  have reason : state.endTools.finishReason = reasonOf items := by
    have saw : state.endTools.sawTool = true ↔ callsOf items ≠ [] := between.called.sawTool
    by_cases none : callsOf items = []
    · rw [ResponsesState.finishReason, reasonOf, if_pos none, if_neg fun called => saw.mp called none]
    · rw [ResponsesState.finishReason, reasonOf, if_neg none, if_pos (saw.mpr none)]
  let usage := (value.pointer ["response", "usage"]).map responsesUsage
  let replay := state.replay owner
  have costs : (value.pointer ["response", "usage"]).toList.map (fun usage => ModelEvent.usage (responsesUsage usage)) =
      usage.toList.map .usage := by
    cases here : value.pointer ["response", "usage"] <;> simp [usage, here]
  have stepped : state.step owner completed.event value =
      (usage.toList.map ModelEvent.usage ++ replay.toList.map ModelEvent.providerReplayState ++
          [ModelEvent.done (reasonOf items)],
        .ok { state.endTools with reasoningItems := [], terminal := true }) := by
    rw [ResponsesState.step, is.kind]
    show state.completed owner value = _
    rw [ResponsesState.completed, closed, ← reason]
    simp only [complete, Bool.false_eq_true, if_false, append_nil, costs]
    rfl
  have runs : (adapter owner).Runs state [completed] _ _ := .one is.carries stepped
  have used : Reads parse cycle _ _ := reads_usages usage between.usage
  have replayed : Reads parse { cycle with usage := usage } _ _ := reads_replays replay between.replay
  refine ⟨usage, replay, _, ?_, used.append replayed⟩
  have read := Adapter.read_of_runs runs []
  rw [append_nil] at read
  exact read.trans (append_nil _)

/-! ### What is decoded -/

theorem covers_messages {items : List OutputItem} :
    ∀ parts ∈ messagesOf items, ∀ part ∈ parts, part.1 <+: part.2 := by
  intro parts member part inside
  obtain ⟨item, -, message⟩ := mem_filterMap.mp member
  cases item with
  | message streamed =>
    obtain rfl := Option.some.inj message
    obtain ⟨origin, -, rfl⟩ := mem_map.mp inside
    exact origin.covers
  | reasoning _ => cases message
  | call _ => cases message

theorem whole_messages (items : List OutputItem) :
    (answerOf items).text.toList = ((messagesOf items).map whole).flatten := by
  induction items with
  | nil => rfl
  | cons item items ih =>
    have joined : (answerOf (item :: items)).text = item.text ++ (answerOf items).text := String.join_cons
    rw [joined, String.toList_append, ih]
    cases item with
    | message parts =>
      have here : messagesOf (.message parts :: items) = parts.map Streamed.part :: messagesOf items := rfl
      rw [here, map_cons, flatten_cons, ← whole_parts]
      rfl
    | reasoning _ => rfl
    | call _ => rfl

theorem find_call {calls : List ResponseCall} (indexes : (calls.map ResponseCall.index).Nodup)
    (member : call ∈ calls) : (calls.find? fun other => other.index = call.index) = some call := by
  cases found : calls.find? fun other => other.index = call.index with
  | none => exact absurd (decide_eq_true rfl) (find?_eq_none.mp found call member)
  | some other =>
    have same : other.index = call.index := by simpa using find?_some found
    rw [inj_on_of_nodup_map indexes (mem_of_find?_eq_some found) member same]

theorem Between.called_iff {items : List OutputItem} (between : Between parse id items state cycle) :
    cycle.tools.toList ≠ [] ↔ callsOf items ≠ [] := by
  constructor
  · intro held
    obtain ⟨entry, member⟩ := exists_mem_of_ne_nil _ held
    have found := Std.TreeMap.mem_toList_iff_getElem?_eq_some.mp member
    rw [between.called.calls] at found
    obtain ⟨call, first, -⟩ := Option.map_eq_some_iff.mp found
    exact ne_nil_of_mem (mem_of_find?_eq_some first)
  · intro called none
    obtain ⟨first, rest, calls⟩ := exists_cons_of_ne_nil called
    have found := between.called.calls first.index
    rw [calls, find?_cons_of_pos (by simp)] at found
    have member := Std.TreeMap.mem_toList_iff_getElem?_eq_some.mpr found
    rw [none] at member
    cases member

theorem answers_of_between {items : List OutputItem} {front : List SseEvent} {completed : SseEvent}
    (sends : Sends parse items front completed) (between : Between parse id items state cycle)
    (replay : Option ProviderReplayState) (usage : Option Usage) (reason : FinishReason)
    (text : cycle.text = (answerOf items).text) :
    Answers (answerOf items) id ⟨⟨id, cycle.text, cycle.reasoning, replay,
      cycle.tools.toList.map fun entry => entry.2.call⟩, usage, reason⟩ := by
  rw [text, between.reasoning]
  refine answers_of_tools (fun index tool found => ?_) fun origin member => ?_
  · rw [between.called.calls] at found
    obtain ⟨call, first, -⟩ := Option.map_eq_some_iff.mp found
    have same : call.index = index := by simpa using find?_some first
    exact ⟨call.sent, mem_map_of_mem (mem_of_find?_eq_some first), same⟩
  · obtain ⟨call, held, rfl⟩ := mem_map.mp member
    obtain ⟨some, object⟩ := sends.objects call held
    have found := between.called.calls call.index
    rw [find_call sends.indexes held] at found
    have arrives : call.sent.Arrives id (call.tool parse id call.arguments.text true).call :=
      arrives_of_close (closed_object _ some object) fun text same => Option.some.inj same
    exact ⟨_, found, arrives⟩

end

/-- **The responses that the adapter decodes.** `consume_model_cycle` accepts the events of the adapter and gives
the calls and the texts that were sent, exactly when the messages can be reconciled. -/
theorem responses_decode_iff (parse : String → Except String Value) (client : ClientChannel)
    (stays : client.closes = false) (owner : Value) (modelCallId : String) (items : List OutputItem)
    (front : List SseEvent) (completed : SseEvent) (sends : Sends parse items front completed) :
    (∃ result, (consumeModelCycle parse client
        ((adapter owner).stream .initial modelCallId ((front ++ [completed]).map .event))).2 = .ok result ∧
      Answers (answerOf items) modelCallId result) ↔ Reconciled (messagesOf items) := by
  have start : Between parse modelCallId [] .initial (begun modelCallId) :=
    ⟨⟨rfl, rfl, rfl, rfl⟩, rfl, rfl, rfl, rfl, rfl, rfl, rfl,
      ⟨by simp [ResponsesState.initial, callsOf], nofun, fun _ => Std.TreeMap.getElem?_emptyc,
        fun _ => Std.TreeMap.getElem?_emptyc⟩⟩
  obtain ⟨sses, sent, padded⟩ := sends.events
  have some : ∀ call ∈ callsOf items, call.arguments.text ≠ "" := by
    intro call member empty
    refine (sends.objects call member).1 ?_
    rw [empty]
    rfl
  obtain ⟨state, cycle, ⟨events, runs, reads⟩, between⟩ : ∃ state cycle,
      Follows (adapter owner) parse .initial (begun modelCallId) sses state cycle ∧
      Between parse modelCallId ([] ++ items) state cycle :=
    between_items start sent sends.indexes sends.callIds some
  rw [nil_append] at between
  have follows : Follows (adapter owner) parse .initial (begun modelCallId) front state cycle :=
    ⟨events, padded.runs runs, reads⟩
  obtain ⟨usage, replay, body, ends, read⟩ : ∃ usage replay body,
      (adapter owner).read state [.event completed] = (body ++ [.done (reasonOf items)]).map .event ∧
      Reads parse cycle body { cycle with usage := usage, replayState := replay } :=
    response_ends between sends.completed
  have split : (front ++ [completed]).map SseItem.event = front.map SseItem.event ++ [SseItem.event completed] := by simp
  have closed : ({ cycle with usage := usage, replayState := replay } : CycleState).hasOpenBlock = false :=
    between.closed
  have consumed := fun result => consume_stream result stays follows ends read between.started closed
  have whole : cycle.text = (answerOf items).text ↔ Reconciled (messagesOf items) := by
    rw [← afterGroups_iff covers_messages, ← between.text, ← whole_messages, between.talks.text,
      String.toList_inj]
  rw [split, ← whole]
  constructor
  · rintro ⟨result, ok, answers⟩
    obtain ⟨-, -, rfl⟩ := (consumed result).mp ok
    exact answers.text
  · intro text
    refine ⟨_, (consumed _).mpr ⟨?_, ?_, rfl⟩, answers_of_between sends between replay usage _ text⟩
    · unfold reasonOf
      split_ifs <;> decide
    · refine Iff.trans ?_ between.called_iff.symm
      unfold reasonOf
      split_ifs with none
      · simp [none]
      · simp [none]

/-! ### Two messages -/

def responseEvent (kind : String) (fields : List (String × Value)) : SseEvent :=
  ⟨kind, false, .ok (.object (("type", .string kind) :: fields))⟩

def messageItem (content : List Value) : Value := .object [("type", .string "message"), ("content", .array content)]

def outputText (text : String) : Value := .object [("type", .string "output_text"), ("text", .string text)]

/-- The events of a message of one part. -/
def messageEvents (part : Streamed) : List SseEvent :=
  responseEvent "response.output_item.added" [("item", messageItem [])] ::
    (part.deltas.map (fun delta => responseEvent "response.output_text.delta" [("delta", .string delta)]) ++
      [responseEvent "response.output_text.done" [("text", .string part.text)]] ++
      [responseEvent "response.output_item.done" [("item", messageItem [outputText part.text])]])

def responseCompleted : SseEvent := responseEvent "response.completed" []

theorem sends_message (part : Streamed) : SendsItem (.message [part]) (messageEvents part) := by
  refine .message ⟨_, _, ⟨⟨rfl, rfl, rfl⟩, rfl⟩, rfl, rfl, trivial⟩ (.part ?_ ?_ .none)
    ⟨_, _, ⟨⟨rfl, rfl, rfl⟩, rfl⟩, rfl, rfl, rfl⟩
  · refine List.forall₂_map_right_iff.mpr (List.forall₂_same.mpr fun delta _ => ?_)
    exact ⟨_, ⟨⟨rfl, rfl, rfl⟩, rfl⟩, rfl⟩
  · exact ⟨_, ⟨⟨rfl, rfl, rfl⟩, rfl⟩, rfl⟩

theorem padded_self (sses : List SseEvent) : Padded sses sses := by
  induction sses with
  | nil => exact .none
  | cons sse sses ih => exact .keep sse ih

theorem sends_messages (parse : String → Except String Value) (first second : Streamed) :
    Sends parse [.message [first], .message [second]] (messageEvents first ++ messageEvents second)
      responseCompleted where
  events := by
    refine ⟨_, .item (sends_message first) (.item (sends_message second) .none), ?_⟩
    rw [append_nil]
    exact padded_self _
  completed := ⟨_, ⟨⟨rfl, rfl, rfl⟩, rfl⟩⟩
  indexes := nodup_nil
  callIds := nodup_nil
  objects call member := by cases member

/-- A text whose end comes with its done event. -/
def greetingText : Streamed := ⟨["Hel"], "Hello", by decide⟩

def streamedMark : Streamed := ⟨["!"], "!", by decide⟩

def unstreamedMark : Streamed := ⟨[], "!", by decide⟩

/-- The end of the first message is found, and the second is streamed whole. -/
theorem responses_decode_iff_sample :
    ∃ result, (consumeModelCycle (fun _ => .error "") .live ((adapter .null).stream .initial "model-call"
        ((messageEvents greetingText ++ messageEvents streamedMark ++ [responseCompleted]).map .event))).2 =
          .ok result ∧
      Answers (answerOf [.message [greetingText], .message [streamedMark]]) "model-call" result := by
  refine (responses_decode_iff (fun _ => .error "") .live rfl .null "model-call" _ _ _
    (sends_messages _ greetingText streamedMark)).mpr ?_
  simp [messagesOf, OutputItem.parts?, Streamed.part, Reconciled, whole, GoesOn, greetingText, streamedMark]

/-- The text of the second message comes with its done event only, and is lost. -/
theorem second_message_lost :
    ¬ ∀ (items : List OutputItem) (front : List SseEvent) (completed : SseEvent),
      Sends (fun _ => .error "") items front completed →
      ∃ result, (consumeModelCycle (fun _ => .error "") .live ((adapter .null).stream .initial "model-call"
          ((front ++ [completed]).map .event))).2 = .ok result ∧ Answers (answerOf items) "model-call" result := by
  intro always
  obtain ⟨result, consumed, answers⟩ := always _ _ _ (sends_messages _ greetingText unstreamedMark)
  have lost : (consumeModelCycle (fun _ => .error "") .live ((adapter .null).stream .initial "model-call"
      ((messageEvents greetingText ++ messageEvents unstreamedMark ++ [responseCompleted]).map .event))).2 =
      .ok ⟨⟨"model-call", "Hello", "", none, []⟩, none, .stop⟩ := by
    decide +kernel
  rw [lost] at consumed
  obtain rfl := Except.ok.inj consumed
  exact absurd answers.text (by decide)

end Byok.Provider.OpenAiResponses
