/-
**What a translated history keeps.** The items of a request fall into segments: a message of the user or of
the assistant opens one, and the calls, results and reasoning behind it belong to it.

* `Kept` — calls, results, texts, rounds and reasoning of the items, in the messages.
* `RoundsApart` — no segment has a call behind a result.
* `ChatStays`, `AnthropicStays` — no reasoning is left behind the last message that could take it.
-/

import Byok.Codex.Request

namespace Byok.Codex

open Library

/-! ### What a format makes of an item -/

/-- The parts of a user's message, the pieces of an item of reasoning, and whether a call's own reasoning is
sent. -/
structure Reading where
  blocks : Value → Nat
  thoughts : Value → Nat
  ownReasoning : Bool

def chatReading (bridge : Bridge) (owner : String) : Reading where
  blocks _ := 1
  thoughts item := ((chatReasoningText bridge item owner).toOption.getD none).toList.length
  ownReasoning := true

def anthropicReading (bridge : Bridge) (owner : String) : Reading where
  blocks item := ((anthropicBlocks bridge item).toOption.getD []).length
  thoughts item := (((anthropicThinkingBlocks bridge item owner).toOption.getD []).filter isThinking).length
  ownReasoning := false

/-- A message of the user or of the assistant. -/
def isMessageOf (role : String) (item : Value) : Bool :=
  (createThreadInput item).isNone && itemType item == "message" && str item "role" == some role

/-- An item that flushes the turn before it. -/
def opens (item : Value) : Bool :=
  (createThreadInput item).isSome || isMessageOf "user" item || isMessageOf "assistant" item

/-- The user's marks of an item. -/
def userMarks (reading : Reading) (entry : Value × Nat) : List Mark :=
  if (createThreadInput entry.1).isSome then [.user entry.2]
  else if isMessageOf "user" entry.1 then List.replicate (reading.blocks entry.1) (.user entry.2)
  else []

/-- The place of an assistant's text. -/
def textOrigin (bridge : Bridge) (entry : Value × Nat) : Option Nat :=
  if isMessageOf "assistant" entry.1 && ((messageText bridge entry.1).toOption.any visible) then some entry.2
  else none

/-- The id of a call. -/
def callOf (entry : Value × Nat) : Option (Nat × String) :=
  if isCallType (itemType entry.1) then (requiredStr entry.1 "call_id").toOption.map (entry.2, ·) else none

/-- The id of a result. -/
def outputOf (entry : Value × Nat) : Option (Nat × String) :=
  if (createThreadInput entry.1).isNone && isOutputType (itemType entry.1) then
    (requiredStr entry.1 "call_id").toOption.map (entry.2, ·)
  else none

/-- The marks of an item of reasoning. -/
def thoughtMarks (reading : Reading) (entry : Value × Nat) : List Mark :=
  if itemType entry.1 = "reasoning" then List.replicate (reading.thoughts entry.1) (.reasoning entry.2) else []

/-- A call with reasoning of its own. -/
def hasReasoning (item : Value) : Bool :=
  isCallType (itemType item) && ((str item "reasoning_content").map trim).any (· != "")

/-! ### Segments -/

/-- What is gathered between two messages, and the number of messages of the user up to there. -/
structure Segment where
  turn : Nat := 0
  user : List Mark := []
  text : Option Nat := none
  calls : List (Nat × String) := []
  results : List (Nat × String) := []
  thoughts : List Mark := []
  own : Bool := false

/-- An item of a segment. -/
def Segment.add (reading : Reading) (segment : Segment) (entry : Value × Nat) : Segment :=
  { segment with
    calls := segment.calls ++ (callOf entry).toList
    results := segment.results ++ (outputOf entry).toList
    thoughts := segment.thoughts ++ thoughtMarks reading entry
    own := segment.own || hasReasoning entry.1 }

/-- The segment that an item opens. -/
def opened (bridge : Bridge) (reading : Reading) (turn : Nat) (entry : Value × Nat) : Segment where
  turn := if userMarks reading entry = [] then turn else turn + 1
  user := userMarks reading entry
  text := textOrigin bridge entry

/-- The segments of a list of items, behind an open one. -/
def segmentsFrom (bridge : Bridge) (reading : Reading) (segment : Segment) : List (Value × Nat) → List Segment
  | [] => [segment]
  | entry :: entries =>
    if opens entry.1 then segment :: segmentsFrom bridge reading (opened bridge reading segment.turn entry) entries
    else segmentsFrom bridge reading (segment.add reading entry) entries

/-- The segments of a history. -/
def segments (bridge : Bridge) (reading : Reading) (items : List Value) : List Segment :=
  segmentsFrom bridge reading {} items.zipIdx

/-- The segment becomes a message of the assistant. -/
def Segment.speaks (segment : Segment) : Bool := !segment.calls.isEmpty || segment.text.isSome

/-- That message takes the reasoning that waits. -/
def Segment.takes (reading : Reading) (segment : Segment) : Bool :=
  segment.speaks && !(reading.ownReasoning && segment.own)

/-! ### What is kept -/

def Mark.call? : Mark → Option (Nat × String)
  | .call origin callId => some (origin, callId)
  | _ => none

def Mark.result? : Mark → Option (Nat × String)
  | .result origin callId => some (origin, callId)
  | _ => none

/-- A text of the user or of the assistant. -/
def Mark.isSpoken : Mark → Bool
  | .user _ => true
  | .text _ => true
  | _ => false

/-- The texts of an item. -/
def spokenMarks (bridge : Bridge) (reading : Reading) (entry : Value × Nat) : List Mark :=
  userMarks reading entry ++ (textOrigin bridge entry).toList.map .text

/-- The messages keep the order of a history. -/
structure Kept (bridge : Bridge) (reading : Reading) (items : List Value) (marks : List Mark) : Prop where
  /-- Every call is there once. -/
  calls : marks.filterMap Mark.call? = items.zipIdx.filterMap callOf
  distinct : ((items.zipIdx.filterMap callOf).map Prod.snd).Nodup
  /-- Every result is there once. -/
  results : (marks.filterMap Mark.result?).Perm (items.zipIdx.filterMap outputOf)
  /-- A result comes behind its call, with other calls of that message and other results in between. -/
  answered : ∀ origin callId, .result origin callId ∈ marks → ∃ before place calls results after,
    marks = before ++ .call place callId :: (calls ++ (results ++ .result origin callId :: after)) ∧
      (∀ mark ∈ calls, mark.call?.isSome = true) ∧ ∀ mark ∈ results, mark.result?.isSome = true
  /-- Texts keep their order. -/
  spoken : marks.filter Mark.isSpoken = items.zipIdx.flatMap (spokenMarks bridge reading)
  /-- A call that comes behind a result still does. -/
  rounds : ∀ result ∈ items.zipIdx.filterMap outputOf, ∀ call ∈ items.zipIdx.filterMap callOf,
    result.1 < call.1 → [.result result.1 result.2, .call call.1 call.2].Sublist marks
  /-- Reasoning stays between the messages of the user where it was. -/
  inTurn : ∀ user thought, ([.user user, .reasoning thought].Sublist marks → user < thought) ∧
    ([.reasoning thought, .user user].Sublist marks → thought < user)

/-- No call comes behind a result. -/
def RoundsApart (segments : List Segment) : Prop :=
  ∀ segment ∈ segments, ∀ call ∈ segment.calls, ∀ result ∈ segment.results, ¬ result.1 < call.1

/-- Reasoning that no message of its own turn takes. -/
def LeftOver (reading : Reading) (segment : Segment) (after : List Segment) : Prop :=
  segment.thoughts ≠ [] ∧
    ∀ later ∈ segment :: after, later.turn = segment.turn → later.takes reading = false

/-- The assistant says nothing in later turns. -/
def SilentAfter (segment : Segment) (after : List Segment) : Prop :=
  ∀ later ∈ after, later.turn ≠ segment.turn → later.speaks = false

/-- Chat: where reasoning is left over, the assistant says nothing in later turns; and it says something in
the same turn, or this is the last turn and it says nothing in any. -/
def ChatStays (reading : Reading) (segments : List Segment) : Prop :=
  ∀ before segment after, segments = before ++ segment :: after → LeftOver reading segment after →
    SilentAfter segment after ∧
      ((∃ other ∈ segments, other.turn = segment.turn ∧ other.speaks = true) ∨
        ((∀ other ∈ segments, other.speaks = false) ∧ ∀ later ∈ after, later.turn = segment.turn))

/-- Anthropic: where reasoning is left over, the assistant says nothing in later turns. -/
def AnthropicStays (reading : Reading) (segments : List Segment) : Prop :=
  ∀ before segment after, segments = before ++ segment :: after → LeftOver reading segment after →
    SilentAfter segment after

end Byok.Codex
