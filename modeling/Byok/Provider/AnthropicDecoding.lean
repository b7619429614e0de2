/-
**What the Anthropic adapter makes of a message.**

Blocks come one after another: a start, deltas, a stop. The adapter reads the deltas only, so what a start
already brings is lost.

* `follows_pieces` — the deltas of a block.
* `between_block` — a whole block, of any kind.
* `anthropic_decodes_iff` — the messages that are decoded.
-/

import Byok.Provider.AnthropicStream
import Mathlib.Algebra.BigOperators.Group.List.Basic

namespace Byok.Provider.AnthropicStream

open Library CycleState List

/-! ### What an upstream sends -/

/-- What the start of a block says. A call has an input, and the part of it that comes with the start. -/
inductive Opening where
  | text (text : String)
  | thinking (thinking signature : String)
  | redacted (block : Value)
  | toolUse (callId name : String) (input initial : List (String × Value))

/-- What an event of an open block brings; a ping brings nothing. -/
inductive Piece where
  | text (text : String)
  | thinking (text : String)
  | signature (signature : String)
  | arguments (text : String)
  | quiet

namespace Piece

def text? : Piece → Option String
  | .text part => some part
  | _ => none

def thinking? : Piece → Option String
  | .thinking part => some part
  | _ => none

def signature? : Piece → Option String
  | .signature part => some part
  | _ => none

def arguments? : Piece → Option String
  | .arguments part => some part
  | _ => none

end Piece

/-- The deltas that belong to a block. -/
def Opening.takes : Opening → Piece → Bool
  | _, .quiet => true
  | .text _, .text _ => true
  | .thinking _ _, .thinking _ => true
  | .thinking _ _, .signature _ => true
  | .toolUse _ _ _ _, .arguments _ => true
  | _, _ => false

/-- A content block. -/
structure Block where
  index : Nat
  opening : Opening
  pieces : List Piece
  fits : ∀ piece ∈ pieces, opening.takes piece = true

/-- The text of some pieces. -/
def joined (part : Piece → Option String) (pieces : List Piece) : String := String.join (pieces.filterMap part)

/-- An event of some kind. -/
structure IsKind (sse : SseEvent) (value : Value) (kind : String) : Prop where
  carries : Adapter.Carries "Anthropic" sse value
  kind : StreamState.kindOf sse.event value = kind

/-- An event that is not of the message, or only says what it costs so far. -/
def Quiet (sse : SseEvent) : Prop :=
  ∃ value kind, IsKind sse value kind ∧ (kind = "message_start" ∨ kind = "ping")

/-- An event that brings a text to a block. -/
def Delivers (index : Nat) (kind field text : String) (sse : SseEvent) : Prop :=
  ∃ value delta, IsKind sse value "content_block_delta" ∧ requiredU64 value "index" = .ok index ∧
    value.get "delta" = some delta ∧ delta.textAt "type" = some kind ∧ delta.textAt field = some text

def Piece.Sent (index : Nat) (sse : SseEvent) : Piece → Prop
  | .text part => Delivers index "text_delta" "text" part sse
  | .thinking part => Delivers index "thinking_delta" "thinking" part sse
  | .signature part => Delivers index "signature_delta" "signature" part sse
  | .arguments part => Delivers index "input_json_delta" "partial_json" part sse
  | .quiet => Quiet sse

/-- The value of a start. -/
def Opening.Reads (block : Value) : Opening → Prop
  | .text said => block.textAt "type" = some "text" ∧ (block.textAt "text").getD "" = said
  | .thinking thought signature => block.textAt "type" = some "thinking" ∧
      (block.textAt "thinking").getD "" = thought ∧ (block.textAt "signature").getD "" = signature
  | .redacted value => block.textAt "type" = some "redacted_thinking" ∧ block = value
  | .toolUse callId name _ initial => block.textAt "type" = some "tool_use" ∧
      block.textAt "id" = some callId ∧ block.textAt "name" = some name ∧
      block.get "input" = some (.object initial)

def Opening.Sent (index : Nat) (sse : SseEvent) (opening : Opening) : Prop :=
  ∃ value block, IsKind sse value "content_block_start" ∧ requiredU64 value "index" = .ok index ∧
    value.get "content_block" = some block ∧ opening.Reads block

def Stops (index : Nat) (sse : SseEvent) : Prop :=
  ∃ value, IsKind sse value "content_block_stop" ∧ requiredU64 value "index" = .ok index

/-- The events of a message before its `message_delta`. -/
inductive Blocks : List Block → List SseEvent → Prop
  | none : Blocks [] []
  | quiet {blocks : List Block} {sses : List SseEvent} {sse : SseEvent} (quiet : Quiet sse)
      (rest : Blocks blocks sses) : Blocks blocks (sse :: sses)
  | block {blocks : List Block} {sses deltas : List SseEvent} {start stop : SseEvent} (block : Block)
      (starts : block.opening.Sent block.index start)
      (pieces : List.Forall₂ (fun piece sse => piece.Sent block.index sse) block.pieces deltas)
      (stops : Stops block.index stop) (rest : Blocks blocks sses) :
      Blocks (block :: blocks) (start :: (deltas ++ stop :: sses))

/-! ### One event -/

variable {parse : String → Except String Value} {modelCallId : String} {state : StreamState}
  {cycle : CycleState}

theorem follows_one {sse : SseEvent} {value : Value} {kind : String} {next : StreamState}
    {later : CycleState} {events : List ModelEvent} (is : IsKind sse value kind)
    (stepped : state.step sse.event value = .ok (events, next)) (reads : Reads parse cycle events later) :
    Follows adapter parse state cycle [sse] next later := by
  refine .one is.carries ?_ reads
  show written (state.step sse.event value) = _
  rw [stepped]
  rfl

theorem follows_quiet {sse : SseEvent} (quiet : Quiet sse) :
    ∃ usage, Follows adapter parse state cycle [sse] { state with finalUsage := usage } cycle := by
  obtain ⟨value, kind, is, rfl | rfl⟩ := quiet
  · have noted : state.noteUsage (value.pointer ["message", "usage"]) =
        { state with finalUsage := (state.noteUsage (value.pointer ["message", "usage"])).finalUsage } := by
      unfold StreamState.noteUsage
      cases value.pointer ["message", "usage"] <;> rfl
    refine ⟨(state.noteUsage (value.pointer ["message", "usage"])).finalUsage, ?_⟩
    rw [← noted]
    refine follows_one is ?_ .none
    rw [StreamState.step, is.kind]
    rfl
  · refine ⟨state.finalUsage, follows_one is ?_ .none⟩
    rw [StreamState.step, is.kind]
    rfl

theorem stepped_delta {sse : SseEvent} {value delta : Value} {index : Nat} {kind : String}
    (is : IsKind sse value "content_block_delta") (index' : requiredU64 value "index" = .ok index)
    (held : value.get "delta" = some delta) (type : delta.textAt "type" = some kind)
    (known : state.blockTypes.contains index) :
    state.step sse.event value = .ok (state.takeDelta index kind delta) := by
  rw [StreamState.step, is.kind]
  show state.blockDelta value = _
  simp only [StreamState.blockDelta, index', except_ok_bind, held, Option.getD_some, requiredString, type,
    StreamState.impliedStart, known, if_true, nil_append]

/-- The deltas that need an open text block, an open thinking block, or a running tool. -/
structure Admits (opening : Opening) (index : Nat) (state : StreamState) (cycle : CycleState) : Prop where
  known : state.blockTypes.contains index
  text : opening.takes (.text "") = true → cycle.textOpen
  thinking : opening.takes (.thinking "") = true → cycle.thinkingOpen
  tool : opening.takes (.arguments "") = true → ∃ tool, cycle.tools[index]? = some tool ∧ tool.ended = false

/-- What some deltas bring to the state and to the model call. -/
structure Brings (index : Nat) (pieces : List Piece) (state : StreamState) (cycle : CycleState)
    (next : StreamState) (later : CycleState) : Prop where
  kept : next = { state with
    finalUsage := next.finalUsage
    thinkingText := next.thinkingText
    thinkingSignatures := next.thinkingSignatures }
  read : later = { cycle with
    text := cycle.text ++ joined Piece.text? pieces
    reasoning := cycle.reasoning ++ joined Piece.thinking? pieces
    tools := later.tools }
  thinking : next.thinkingText[index]?.getD "" =
    state.thinkingText[index]?.getD "" ++ joined Piece.thinking? pieces
  signature : next.thinkingSignatures[index]?.getD "" =
    state.thinkingSignatures[index]?.getD "" ++ joined Piece.signature? pieces
  tools : ∀ other : Nat, later.tools[other]? = if index = other then
    cycle.tools[index]?.map (·.extend (joined Piece.arguments? pieces)) else cycle.tools[other]?

theorem joined_nil (part : Piece → Option String) : joined part [] = "" := rfl

theorem joined_cons (part : Piece → Option String) (piece : Piece) (pieces : List Piece) :
    joined part (piece :: pieces) = (part piece).getD "" ++ joined part pieces := by
  rw [joined, filterMap_cons]
  cases part piece with
  | none => rw [Option.getD_none, String.empty_append, joined]
  | some text => rw [Option.getD_some, String.join_cons, joined]

theorem joined_one (part : Piece → Option String) (piece : Piece) :
    joined part [piece] = (part piece).getD "" := by
  rw [joined_cons, joined_nil, String.append_empty]

theorem extend_empty (tool : OpenTool) : tool.extend "" = tool := by
  rw [OpenTool.extend, String.append_empty]

theorem extend_append (tool : OpenTool) (first second : String) :
    (tool.extend first).extend second = tool.extend (first ++ second) := by
  simp only [OpenTool.extend, String.append_assoc]

theorem follows_piece {opening : Opening} {index : Nat} {piece : Piece} {sse : SseEvent}
    (sent : piece.Sent index sse) (takes : opening.takes piece = true)
    (admits : Admits opening index state cycle) :
    ∃ next later, Follows adapter parse state cycle [sse] next later ∧
      Brings index [piece] state cycle next later := by
  have same : ∀ other : Nat, cycle.tools[other]? = if index = other then
      cycle.tools[index]?.map (·.extend "") else cycle.tools[other]? := by
    intro other
    by_cases same : index = other
    · subst same
      rw [if_pos rfl]
      cases cycle.tools[index]? <;> simp [extend_empty]
    · rw [if_neg same]
  cases piece with
  | quiet =>
    obtain ⟨usage, follows⟩ := @follows_quiet parse state cycle sse sent
    refine ⟨_, cycle, follows, rfl, ?_, ?_, ?_, ?_⟩
    · simp [joined_one, Piece.text?, Piece.thinking?]
    · simp [joined_one, Piece.thinking?]
    · simp [joined_one, Piece.signature?]
    · simpa [joined_one, Piece.arguments?] using same
  | text said =>
    obtain ⟨value, delta, is, index', held, type, field⟩ := sent
    have running : cycle.textOpen := by
      cases opening <;> first | exact admits.text rfl | cases takes
    have stepped := stepped_delta is index' held type admits.known
    have reads : Reads parse cycle _ _ := reads_say said running
    refine ⟨state, _, follows_one is (stepped.trans ?_) reads, rfl, ?_, ?_, ?_, ?_⟩
    · rw [StreamState.takeDelta, field]
      rfl
    · simp [joined_one, Piece.text?, Piece.thinking?]
    · simp [joined_one, Piece.thinking?]
    · simp [joined_one, Piece.signature?]
    · simpa [joined_one, Piece.arguments?] using same
  | thinking thought =>
    obtain ⟨value, delta, is, index', held, type, field⟩ := sent
    have running : cycle.thinkingOpen := by
      cases opening <;> first | exact admits.thinking rfl | cases takes
    have stepped := stepped_delta is index' held type admits.known
    have taken : state.takeDelta index "thinking_delta" delta = ([.thinkingDelta thought], { state with
        thinkingText := state.thinkingText.insert index (state.thinkingText[index]?.getD "" ++ thought) }) := by
      rw [StreamState.takeDelta, field]
    have reads : Reads parse cycle _ _ := reads_think thought running
    refine ⟨_, _, follows_one is (stepped.trans (congrArg _ taken)) reads, rfl, ?_, ?_, ?_, ?_⟩
    · simp [joined_one, Piece.text?, Piece.thinking?]
    · simp [joined_one, Piece.thinking?]
    · simp [joined_one, Piece.signature?]
    · simpa [joined_one, Piece.arguments?] using same
  | signature signature =>
    obtain ⟨value, delta, is, index', held, type, field⟩ := sent
    have stepped := stepped_delta is index' held type admits.known
    have taken : state.takeDelta index "signature_delta" delta = ([], { state with
        thinkingSignatures := state.thinkingSignatures.insert index
          (state.thinkingSignatures[index]?.getD "" ++ signature) }) := by
      rw [StreamState.takeDelta, field]
    refine ⟨_, cycle, follows_one is (stepped.trans (congrArg _ taken)) .none, rfl, ?_, ?_, ?_, ?_⟩
    · simp [joined_one, Piece.text?, Piece.thinking?]
    · simp [joined_one, Piece.thinking?]
    · simp [joined_one, Piece.signature?]
    · simpa [joined_one, Piece.arguments?] using same
  | arguments text =>
    obtain ⟨value, delta, is, index', held, type, field⟩ := sent
    obtain ⟨tool, found, running⟩ : ∃ tool, cycle.tools[index]? = some tool ∧ tool.ended = false := by
      cases opening <;> first | exact admits.tool rfl | cases takes
    have stepped := stepped_delta is index' held type admits.known
    have reads : Reads parse cycle _ _ := reads_arguments text found running
    refine ⟨state, _, follows_one is (stepped.trans ?_) reads, rfl, ?_, ?_, ?_, fun other => ?_⟩
    · rw [StreamState.takeDelta, field]
      rfl
    · simp [joined_one, Piece.text?, Piece.thinking?]
    · simp [joined_one, Piece.thinking?]
    · simp [joined_one, Piece.signature?]
    · rw [found_insert, found]
      simp [joined_one, Piece.arguments?]

theorem Brings.admits {opening : Opening} {index : Nat} {pieces : List Piece} {next : StreamState}
    {later : CycleState} (brings : Brings index pieces state cycle next later)
    (admits : Admits opening index state cycle) : Admits opening index next later where
  known := by
    rw [brings.kept]
    exact admits.known
  text takes := by
    rw [brings.read]
    exact admits.text takes
  thinking takes := by
    rw [brings.read]
    exact admits.thinking takes
  tool takes := by
    obtain ⟨tool, found, running⟩ := admits.tool takes
    refine ⟨tool.extend (joined Piece.arguments? pieces), ?_, running⟩
    rw [brings.tools, if_pos rfl, found]
    rfl

theorem Brings.cons {index : Nat} {piece : Piece} {pieces : List Piece} {between next : StreamState}
    {middle later : CycleState} (first : Brings index [piece] state cycle between middle)
    (rest : Brings index pieces between middle next later) :
    Brings index (piece :: pieces) state cycle next later where
  kept := by
    rw [rest.kept, first.kept]
  read := by
    rw [rest.read, first.read]
    simp only [joined_one, joined_cons _ piece pieces, String.append_assoc]
  thinking := by rw [rest.thinking, first.thinking, joined_one, joined_cons, String.append_assoc]
  signature := by rw [rest.signature, first.signature, joined_one, joined_cons, String.append_assoc]
  tools other := by
    rw [rest.tools, first.tools, if_pos rfl, first.tools]
    by_cases same : index = other
    · rw [if_pos same, if_pos same, Option.map_map]
      congr 1
      funext tool
      rw [Function.comp_apply, extend_append, joined_one, joined_cons]
    · rw [if_neg same, if_neg same, if_neg same]

theorem follows_pieces {opening : Opening} {index : Nat} {pieces : List Piece} {sses : List SseEvent}
    (sent : List.Forall₂ (fun piece sse => piece.Sent index sse) pieces sses)
    (takes : ∀ piece ∈ pieces, opening.takes piece = true) (admits : Admits opening index state cycle) :
    ∃ next later, Follows adapter parse state cycle sses next later ∧
      Brings index pieces state cycle next later := by
  induction sent generalizing state cycle with
  | nil =>
    refine ⟨state, cycle, .none, rfl, ?_, ?_, ?_, fun other => ?_⟩
    · simp [joined_nil]
    · simp [joined_nil]
    · simp [joined_nil]
    · by_cases same : index = other
      · subst same
        rw [if_pos rfl]
        cases cycle.tools[index]? <;> simp [joined_nil, extend_empty]
      · rw [if_neg same]
  | cons first _ ih =>
    obtain ⟨between, middle, follows, brings⟩ := follows_piece first (takes _ mem_cons_self) admits
    obtain ⟨next, later, rest, more⟩ := ih (fun piece member => takes piece (mem_cons_of_mem _ member))
      (brings.admits admits)
    exact ⟨next, later, follows.append rest, brings.cons more⟩

/-! ### One block -/

namespace Block

variable (block : Block)

/-- What the deltas bring. -/
def said : String := joined Piece.text? block.pieces

def thought : String := joined Piece.thinking? block.pieces

def signed : String := joined Piece.signature? block.pieces

def argued : String := joined Piece.arguments? block.pieces

def isTool : Bool := block.opening.takes (.arguments "")

/-- The block that goes into the replay state, for a thinking and its signature. -/
def kept (thinking signature : String) : Option Value :=
  match block.opening with
  | .thinking _ _ => if signature = "" then none else some (StreamState.signedThinking thinking signature)
  | .redacted value => some value
  | .text _ | .toolUse _ _ _ _ => none

def callId? : Option String :=
  match block.opening with
  | .toolUse callId _ _ _ => some callId
  | .text _ | .thinking _ _ | .redacted _ => none

/-- The tool of a call that has ended. -/
def tool? (parse : String → Except String Value) (modelCallId : String) : Option OpenTool :=
  match block.opening with
  | .toolUse callId name _ _ => some ((holding modelCallId block.index callId name block.argued).close parse)
  | .text _ | .thinking _ _ | .redacted _ => none

end Block

/-- The tool of an index. -/
def toolAt (parse : String → Except String Value) (modelCallId : String) (blocks : List Block) (index : Nat) :
    Option OpenTool :=
  blocks.findSome? fun block => if block.index = index then block.tool? parse modelCallId else none

/-- Between two blocks. -/
structure Between (parse : String → Except String Value) (modelCallId : String) (blocks : List Block)
    (state : StreamState) (cycle : CycleState) : Prop where
  types : ∀ index : Nat, state.blockTypes[index]? = none
  kept : state.thinkingBlocks = blocks.filterMap fun block => block.kept block.thought block.signed
  finish : state.finish = none
  terminal : state.terminal = false
  sawTool : state.sawTool = blocks.any Block.isTool
  started : cycle.modelCallId = some modelCallId
  textOpen : cycle.textOpen = false
  thinkingOpen : cycle.thinkingOpen = false
  text : cycle.text = String.join (blocks.map Block.said)
  reasoning : cycle.reasoning = String.join (blocks.map Block.thought)
  tools : ∀ index : Nat, cycle.tools[index]? = toolAt parse modelCallId blocks index
  callIds : cycle.callIds = (blocks.filterMap Block.callId?).reverse
  replayState : cycle.replayState = none
  usage : cycle.usage = none

/-- What a block adds. -/
structure Adds (parse : String → Except String Value) (modelCallId : String) (block : Block)
    (state : StreamState) (cycle : CycleState) (next : StreamState) (later : CycleState) : Prop where
  types : ∀ index : Nat, next.blockTypes[index]? = none
  kept : next.thinkingBlocks = state.thinkingBlocks ++ (block.kept block.thought block.signed).toList
  finish : next.finish = state.finish
  terminal : next.terminal = state.terminal
  sawTool : next.sawTool = (state.sawTool || block.isTool)
  read : later = { cycle with
    text := cycle.text ++ block.said
    reasoning := cycle.reasoning ++ block.thought
    tools := later.tools
    callIds := block.callId?.toList ++ cycle.callIds }
  tools : ∀ index : Nat, later.tools[index]? = cycle.tools[index]?.or
    (if block.index = index then block.tool? parse modelCallId else none)

theorem filterMap_one {α β : Type} (f : α → Option β) (value : α) : [value].filterMap f = (f value).toList := by
  cases here : f value <;> simp [here]

theorem Between.next {blocks : List Block} {block : Block} {next : StreamState} {later : CycleState}
    (between : Between parse modelCallId blocks state cycle)
    (adds : Adds parse modelCallId block state cycle next later) :
    Between parse modelCallId (blocks ++ [block]) next later where
  types := adds.types
  kept := by
    rw [adds.kept, between.kept, filterMap_append, filterMap_one]
  finish := adds.finish.trans between.finish
  terminal := adds.terminal.trans between.terminal
  sawTool := by rw [adds.sawTool, between.sawTool, any_append, any_cons, any_nil, Bool.or_false]
  started := by
    rw [adds.read]
    exact between.started
  textOpen := by
    rw [adds.read]
    exact between.textOpen
  thinkingOpen := by
    rw [adds.read]
    exact between.thinkingOpen
  text := by
    rw [adds.read, map_append, String.join_append, ← between.text]
    simp
  reasoning := by
    rw [adds.read, map_append, String.join_append, ← between.reasoning]
    simp
  tools index := by
    rw [adds.tools, between.tools, toolAt, toolAt, findSome?_append]
    congr 1
    rw [findSome?_cons]
    cases (if block.index = index then block.tool? parse modelCallId else none) <;> rfl
  callIds := by
    rw [adds.read, filterMap_append, reverse_append, ← between.callIds, filterMap_one]
    cases block.callId? <;> rfl
  replayState := by
    rw [adds.read]
    exact between.replayState
  usage := by
    rw [adds.read]
    exact between.usage

theorem stepped_stop {sse : SseEvent} {value : Value} {index : Nat} {kind : String}
    (is : IsKind sse value "content_block_stop") (index' : requiredU64 value "index" = .ok index)
    (known : state.blockTypes[index]? = some kind) :
    state.step sse.event value =
      .ok ({ state with blockTypes := state.blockTypes.erase index }.closeBlock index kind) := by
  rw [StreamState.step, is.kind]
  show state.stopBlock value = _
  simp only [StreamState.stopBlock, index', except_ok_bind, known]

theorem stepped_start {sse : SseEvent} {value block : Value} {index : Nat} {kind : String}
    (is : IsKind sse value "content_block_start") (index' : requiredU64 value "index" = .ok index)
    (held : value.get "content_block" = some block) (type : block.textAt "type" = some kind) :
    state.step sse.event value = state.openBlock index block kind := by
  rw [StreamState.step, is.kind]
  show state.startBlock value = _
  simp only [StreamState.startBlock, index', except_ok_bind, held, Option.getD_some, requiredString, type]

theorem only_open {types : Std.TreeMap Nat String} {index : Nat} {kind : String}
    (none : ∀ index : Nat, types[index]? = .none) :
    (types.insert index kind)[index]? = some kind ∧
      ∀ other : Nat, ((types.insert index kind).erase index)[other]? = .none := by
  refine ⟨by simp, fun other => ?_⟩
  rw [Std.TreeMap.getElem?_erase, Std.TreeMap.getElem?_insert]
  by_cases same : compare index other = .eq
  · simp [same]
  · simp [same, none]

theorem adds_of_parts {block : Block} {start stop : SseEvent} {deltas : List SseEvent} {kind : String}
    {between : StreamState} {middle : CycleState} {value : Value}
    (first : Follows adapter parse state cycle [start] between middle)
    (types : between.blockTypes = state.blockTypes.insert block.index kind)
    (pieces : List.Forall₂ (fun piece sse => piece.Sent block.index sse) block.pieces deltas)
    (admits : Admits block.opening block.index between middle)
    (stops : IsKind stop value "content_block_stop" ∧ requiredU64 value "index" = .ok block.index)
    (closes : ∀ (next : StreamState) (later : CycleState),
      Brings block.index block.pieces between middle next later →
      ∃ ended, Reads parse later ({ next with
          blockTypes := next.blockTypes.erase block.index }.closeBlock block.index kind).1 ended ∧
        Adds parse modelCallId block state cycle ({ next with
          blockTypes := next.blockTypes.erase block.index }.closeBlock block.index kind).2 ended) :
    ∃ next later, Follows adapter parse state cycle (start :: (deltas ++ [stop])) next later ∧
      Adds parse modelCallId block state cycle next later := by
  obtain ⟨next, later, follows, brings⟩ := follows_pieces pieces block.fits admits
  obtain ⟨ended, reads, adds⟩ := closes next later brings
  have known : next.blockTypes[block.index]? = some kind := by
    rw [brings.kept]
    show between.blockTypes[block.index]? = _
    rw [types]
    simp
  exact ⟨_, ended, (first.append (follows.append (follows_one stops.1 (stepped_stop stops.1 stops.2 known) reads))),
    adds⟩

theorem tools_of_brings {block : Block} {next : StreamState} {later : CycleState}
    (brings : Brings block.index block.pieces state cycle next later) (plain : block.isTool = false)
    (other : Nat) : later.tools[other]? = cycle.tools[other]?.or
      (if block.index = other then block.tool? parse modelCallId else none) := by
  have none : block.tool? parse modelCallId = none := by
    cases here : block.opening <;> simp [Block.tool?, Block.isTool, here, Opening.takes] at plain ⊢
  have nothing : joined Piece.arguments? block.pieces = "" := by
    have absent : block.pieces.filterMap Piece.arguments? = [] := by
      refine filterMap_eq_nil_iff.mpr fun piece member => ?_
      cases piece with
      | arguments text =>
        have takes : block.isTool = true := by
          have takes := block.fits _ member
          cases here : block.opening <;> simp [Block.isTool, here, Opening.takes] at takes ⊢
        rw [plain] at takes
        cases takes
      | _ => rfl
    rw [joined, absent]
    rfl
  rw [brings.tools, none, nothing, ite_self, Option.or_none]
  by_cases same : block.index = other
  · subst same
    rw [if_pos rfl]
    cases cycle.tools[block.index]? <;> simp [extend_empty]
  · rw [if_neg same]

section Blocks

variable {blocks : List Block} {block : Block} {start stop : SseEvent} {deltas : List SseEvent}
  (between : Between parse modelCallId blocks state cycle) (starts : block.opening.Sent block.index start)
  (pieces : List.Forall₂ (fun piece sse => piece.Sent block.index sse) block.pieces deltas)
  (stops : Stops block.index stop)

include between starts pieces stops

theorem adds_text {said : String} (opening : block.opening = .text said) :
    ∃ next later, Follows adapter parse state cycle (start :: (deltas ++ [stop])) next later ∧
      Adds parse modelCallId block state cycle next later := by
  obtain ⟨value, content, is, index', held, reads⟩ := starts
  obtain ⟨final, stops⟩ := stops
  rw [opening] at reads
  obtain ⟨kept, gone⟩ := @only_open state.blockTypes block.index "text" between.types
  have opens : Reads parse cycle [.textStart] { cycle with textOpen := true } := by
    have opens := @reads_openText parse cycle (by rw [between.started]; rfl)
    rwa [between.textOpen] at opens
  have first : Follows adapter parse state cycle [start] _ _ :=
    follows_one is (stepped_start is index' held reads.1) opens
  refine adds_of_parts first rfl pieces ⟨by simp, fun _ => rfl, ?_, ?_⟩ stops fun next later brings => ?_
  · rw [opening]
    nofun
  · rw [opening]
    nofun
  · have closed : Reads parse later [.textEnd] { later with textOpen := false } := by
      have closed := @reads_closeText parse later
      rwa [show later.textOpen = true by rw [brings.read]] at closed
    have plain : block.isTool = false := by rw [Block.isTool, opening]; rfl
    have tools := @tools_of_brings parse modelCallId _ _ block next later brings plain
    have kept := brings.kept
    have read := brings.read
    refine ⟨_, closed, ?_, ?_, ?_, ?_, ?_, ?_, tools⟩
    · intro index
      show (next.blockTypes.erase block.index)[index]? = none
      rw [kept]
      exact gone index
    · show next.thinkingBlocks = _
      rw [kept, Block.kept, opening]
      exact (append_nil _).symm
    · show next.finish = _
      rw [kept]
    · show next.terminal = _
      rw [kept]
    · show next.sawTool = _
      rw [kept, plain, Bool.or_false]
    · rw [read, Block.callId?, opening, between.textOpen]
      rfl

theorem adds_thinking {thinking signature : String} (opening : block.opening = .thinking thinking signature) :
    ∃ next later, Follows adapter parse state cycle (start :: (deltas ++ [stop])) next later ∧
      Adds parse modelCallId block state cycle next later := by
  obtain ⟨value, content, is, index', held, reads⟩ := starts
  obtain ⟨final, stops⟩ := stops
  rw [opening] at reads
  obtain ⟨kept, gone⟩ := @only_open state.blockTypes block.index "thinking" between.types
  have opens : Reads parse cycle [.thinkingStart] { cycle with thinkingOpen := true } := by
    have opens := @reads_openThinking parse cycle (by rw [between.started]; rfl)
    rwa [between.thinkingOpen] at opens
  have first : Follows adapter parse state cycle [start] _ _ :=
    follows_one is (stepped_start is index' held reads.1) opens
  refine adds_of_parts first rfl pieces ⟨by simp [StreamState.openThinking], ?_, fun _ => rfl, ?_⟩ stops
    fun next later brings => ?_
  · rw [opening]
    nofun
  · rw [opening]
    nofun
  · have closed : Reads parse later [.thinkingEnd] { later with thinkingOpen := false } := by
      have closed := @reads_closeThinking parse later
      rwa [show later.thinkingOpen = true by rw [brings.read]] at closed
    have plain : block.isTool = false := by rw [Block.isTool, opening]; rfl
    have tools := @tools_of_brings parse modelCallId _ _ block next later brings plain
    have kept := brings.kept
    have read := brings.read
    have thought : next.thinkingText[block.index]?.getD "" = block.thought := by
      rw [brings.thinking, StreamState.openThinking]
      simp [Block.thought]
    have signed : next.thinkingSignatures[block.index]?.getD "" = block.signed := by
      rw [brings.signature, StreamState.openThinking]
      simp [Block.signed]
    have types : ∀ index : Nat, (next.blockTypes.erase block.index)[index]? = none := by
      rw [kept]
      exact gone
    have ends : { later with thinkingOpen := false } = { cycle with
        text := cycle.text ++ block.said
        reasoning := cycle.reasoning ++ block.thought
        tools := later.tools
        callIds := block.callId?.toList ++ cycle.callIds } := by
      rw [read, Block.callId?, opening, between.thinkingOpen]
      rfl
    simp only [StreamState.closeBlock, thought, signed]
    by_cases unsigned : block.signed = ""
    · rw [if_pos unsigned]
      refine ⟨_, closed, types, ?_, ?_, ?_, ?_, ends, tools⟩
      · show next.thinkingBlocks = _
        rw [kept, Block.kept, opening]
        simp [unsigned, StreamState.openThinking]
      · show next.finish = _
        rw [kept]
        rfl
      · show next.terminal = _
        rw [kept]
        rfl
      · show next.sawTool = _
        rw [kept, plain, Bool.or_false]
        rfl
    · rw [if_neg unsigned]
      refine ⟨_, (reads_signature block.signed).append closed, types, ?_, ?_, ?_, ?_, ends, tools⟩
      · show next.thinkingBlocks ++ _ = _
        rw [kept, Block.kept, opening]
        simp [unsigned, StreamState.openThinking]
      · show next.finish = _
        rw [kept]
        rfl
      · show next.terminal = _
        rw [kept]
        rfl
      · show next.sawTool = _
        rw [kept, plain, Bool.or_false]
        rfl

theorem adds_redacted {redacted : Value} (opening : block.opening = .redacted redacted) :
    ∃ next later, Follows adapter parse state cycle (start :: (deltas ++ [stop])) next later ∧
      Adds parse modelCallId block state cycle next later := by
  obtain ⟨value, content, is, index', held, reads⟩ := starts
  obtain ⟨final, stops⟩ := stops
  rw [opening] at reads
  obtain ⟨kept, gone⟩ := @only_open state.blockTypes block.index "redacted_thinking" between.types
  have first : Follows adapter parse state cycle [start] _ cycle :=
    follows_one is (stepped_start is index' held reads.1) .none
  refine adds_of_parts first rfl pieces ⟨by simp, ?_, ?_, ?_⟩ stops fun next later brings => ?_
  · rw [opening]
    nofun
  · rw [opening]
    nofun
  · rw [opening]
    nofun
  · have plain : block.isTool = false := by rw [Block.isTool, opening]; rfl
    have tools := @tools_of_brings parse modelCallId _ _ block next later brings plain
    have kept := brings.kept
    have read := brings.read
    refine ⟨later, .none, ?_, ?_, ?_, ?_, ?_, ?_, tools⟩
    · intro index
      show (next.blockTypes.erase block.index)[index]? = none
      rw [kept]
      exact gone index
    · show next.thinkingBlocks = _
      rw [kept, Block.kept, opening, ← reads.2]
      rfl
    · show next.finish = _
      rw [kept]
    · show next.terminal = _
      rw [kept]
    · show next.sawTool = _
      rw [kept, plain, Bool.or_false]
    · rw [Block.callId?, opening]
      exact read

theorem adds_toolUse {callId name : String} {input initial : List (String × Value)}
    (opening : block.opening = .toolUse callId name input initial)
    (unused : toolAt parse modelCallId blocks block.index = none)
    (fresh : callId ∉ blocks.filterMap Block.callId?) :
    ∃ next later, Follows adapter parse state cycle (start :: (deltas ++ [stop])) next later ∧
      Adds parse modelCallId block state cycle next later := by
  obtain ⟨value, content, is, index', held, reads⟩ := starts
  obtain ⟨final, stops⟩ := stops
  rw [opening] at reads
  obtain ⟨type, id, named, -⟩ := reads
  obtain ⟨kept, gone⟩ := @only_open state.blockTypes block.index "tool_use" between.types
  have free : cycle.tools[block.index]? = none := (between.tools block.index).trans unused
  have starts : Reads parse cycle _ _ := reads_startTool block.index callId name between.started free
    (by rw [between.callIds, mem_reverse]; exact fresh)
  have opens : state.openBlock block.index content "tool_use" =
      .ok ([.toolCallStart block.index callId name],
        { state with blockTypes := state.blockTypes.insert block.index "tool_use", sawTool := true }) := by
    simp only [StreamState.openBlock, requiredString, id, named, except_ok_bind]
  have first : Follows adapter parse state cycle [start] _ _ :=
    follows_one is ((stepped_start is index' held type).trans opens) starts
  refine adds_of_parts first rfl pieces ⟨by simp, ?_, ?_, fun _ => ?_⟩ stops fun next later brings => ?_
  · rw [opening]
    nofun
  · rw [opening]
    nofun
  · exact ⟨_, by rw [found_insert, if_pos rfl], rfl⟩
  · have kept := brings.kept
    have read := brings.read
    have found : later.tools[block.index]? = some (holding modelCallId block.index callId name block.argued) := by
      rw [brings.tools, if_pos rfl, found_insert, if_pos rfl]
      simp [OpenTool.extend, holding, OpenTool.start, Block.argued]
    have ended := @reads_endTool parse later block.index _ found rfl
    refine ⟨_, ended, ?_, ?_, ?_, ?_, ?_, ?_, ?_⟩
    · intro index
      show (next.blockTypes.erase block.index)[index]? = none
      rw [kept]
      exact gone index
    · show next.thinkingBlocks = _
      rw [kept, Block.kept, opening]
      exact (append_nil _).symm
    · show next.finish = _
      rw [kept]
    · show next.terminal = _
      rw [kept]
    · show next.sawTool = _
      rw [kept, Block.isTool, opening]
      simp [Opening.takes]
    · rw [read, Block.callId?, opening]
      rfl
    · intro index
      rw [found_insert, Block.tool?, opening]
      by_cases same : block.index = index
      · subst same
        rw [if_pos rfl, if_pos rfl, free]
        rfl
      · rw [if_neg same, if_neg same, brings.tools, if_neg same, found_insert, if_neg same, Option.or_none]

end Blocks

/-! ### A message -/

namespace Opening

/-- What a start already brings. -/
def said : Opening → String
  | .text part => part
  | .thinking _ _ | .redacted _ | .toolUse _ _ _ _ => ""

def thought : Opening → String
  | .thinking part _ => part
  | .text _ | .redacted _ | .toolUse _ _ _ _ => ""

def signed : Opening → String
  | .thinking _ part => part
  | .text _ | .redacted _ | .toolUse _ _ _ _ => ""

/-- It brings nothing but the kind, and what names a call. -/
def Bare : Opening → Prop
  | .text part => part = ""
  | .thinking part signature => part = "" ∧ signature = ""
  | .redacted _ => True
  | .toolUse _ _ _ initial => initial = []

end Opening

/-- The call of a block. -/
def Block.call? (block : Block) : Option SentCall :=
  match block.opening with
  | .toolUse callId name input _ => some ⟨block.index, callId, name, none, input⟩
  | .text _ | .thinking _ _ | .redacted _ => none

/-- The input of a call comes with the start, or in the deltas. -/
def Block.Carries (parse : String → Except String Value) (block : Block) : Prop :=
  match block.opening with
  | .toolUse _ _ input initial => block.argued = "" ∧ initial = input ∨
      initial = [] ∧ trim block.argued ≠ "" ∧ parse block.argued = .ok (.object input)
  | .text _ | .thinking _ _ | .redacted _ => True

structure Message where
  blocks : List Block
  stopReason : String

namespace Message

variable (message : Message)

def sent : SentAnswer where
  text := String.join (message.blocks.map fun block => block.opening.said ++ block.said)
  reasoning := String.join (message.blocks.map fun block => block.opening.thought ++ block.thought)
  calls := message.blocks.filterMap Block.call?

/-- The signed and the redacted thinking. -/
def kept : List Value :=
  message.blocks.filterMap fun block =>
    block.kept (block.opening.thought ++ block.thought) (block.opening.signed ++ block.signed)

def replay : Option ProviderReplayState := StreamState.replayOf message.kept

end Message

/-- Some events, a `message_delta` and a `message_stop` send a message. -/
structure Sends (parse : String → Except String Value) (message : Message) (front : List SseEvent)
    (delta stop : SseEvent) : Prop where
  blocks : Blocks message.blocks front
  delta : ∃ value, IsKind delta value "message_delta" ∧
    (value.pointer ["delta", "stop_reason"]).bind Value.asStr = some message.stopReason
  stop : ∃ value, IsKind stop value "message_stop"
  indexes : ((message.blocks.filter Block.isTool).map Block.index).Nodup
  callIds : (message.blocks.filterMap Block.callId?).Nodup
  inputs : ∀ block ∈ message.blocks, block.Carries parse
  complete : message.stopReason ≠ "max_tokens"
  calls : message.stopReason = "tool_use" → message.blocks.any Block.isTool

theorem tool?_isSome (block : Block) : (block.tool? parse modelCallId).isSome = block.isTool := by
  cases here : block.opening <;> simp [Block.tool?, Block.isTool, here, Opening.takes]

theorem toolAt_none {blocks : List Block} {index : Nat}
    (other : ∀ block ∈ blocks, block.isTool = true → block.index ≠ index) :
    toolAt parse modelCallId blocks index = none := by
  refine findSome?_eq_none_iff.mpr fun block member => ?_
  by_cases same : block.index = index
  · rw [if_pos same, ← Option.not_isSome_iff_eq_none, tool?_isSome]
    exact fun tool => other block member tool same
  · rw [if_neg same]

theorem between_block {before after : List Block}
    (indexes : (((before ++ block :: after).filter Block.isTool).map Block.index).Nodup)
    (callIds : ((before ++ block :: after).filterMap Block.callId?).Nodup)
    (between : Between parse modelCallId before state cycle) (starts : block.opening.Sent block.index start)
    (pieces : List.Forall₂ (fun piece sse => piece.Sent block.index sse) block.pieces deltas)
    (stops : Stops block.index stop) :
    ∃ next later, Follows adapter parse state cycle (start :: (deltas ++ [stop])) next later ∧
      Between parse modelCallId (before ++ [block]) next later := by
  have added : ∃ next later, Follows adapter parse state cycle (start :: (deltas ++ [stop])) next later ∧
      Adds parse modelCallId block state cycle next later := by
    cases opening : block.opening with
    | text => exact adds_text between starts pieces stops opening
    | thinking => exact adds_thinking between starts pieces stops opening
    | redacted => exact adds_redacted between starts pieces stops opening
    | toolUse callId name input initial =>
      refine adds_toolUse between starts pieces stops opening (toolAt_none fun other member tool same => ?_) fun used => ?_
      · have isTool : block.isTool = true := by rw [Block.isTool, opening]; rfl
        rw [filter_append, filter_cons_of_pos isTool, map_append, map_cons] at indexes
        refine (disjoint_of_nodup_append indexes) (a := block.index) ?_ mem_cons_self
        exact mem_map.mpr ⟨other, mem_filter.mpr ⟨member, tool⟩, same⟩
      · have here : block.callId? = some callId := by rw [Block.callId?, opening]
        rw [filterMap_append, filterMap_cons_some here] at callIds
        exact disjoint_of_nodup_append callIds used mem_cons_self
  obtain ⟨next, later, follows, adds⟩ := added
  exact ⟨next, later, follows, between.next adds⟩

theorem between_blocks {before after : List Block} {sses : List SseEvent} (sent : Blocks after sses)
    (indexes : (((before ++ after).filter Block.isTool).map Block.index).Nodup)
    (callIds : ((before ++ after).filterMap Block.callId?).Nodup)
    (between : Between parse modelCallId before state cycle) :
    ∃ next later, Follows adapter parse state cycle sses next later ∧
      Between parse modelCallId (before ++ after) next later := by
  induction sent generalizing before state cycle with
  | none =>
    rw [append_nil]
    exact ⟨state, cycle, .none, between⟩
  | quiet quiet _ ih =>
    obtain ⟨usage, first⟩ := @follows_quiet parse state cycle _ quiet
    obtain ⟨next, later, rest, last⟩ := @ih { state with finalUsage := usage } cycle before indexes callIds
      ⟨between.types, between.kept, between.finish, between.terminal, between.sawTool, between.started,
        between.textOpen, between.thinkingOpen, between.text, between.reasoning, between.tools,
        between.callIds, between.replayState, between.usage⟩
    exact ⟨next, later, first.append rest, last⟩
  | @block blocks sses deltas start stop block starts pieces stops _ ih =>
    obtain ⟨middle, mid, first, here⟩ := between_block indexes callIds between starts pieces stops
    have split : before ++ block :: blocks = before ++ [block] ++ blocks := by simp
    rw [split] at indexes callIds ⊢
    obtain ⟨next, later, rest, last⟩ := ih indexes callIds here
    refine ⟨next, later, ?_, last⟩
    have whole := first.append rest
    simpa using whole

/-- The thinking blocks that the adapter keeps. -/
def keptBlocks (blocks : List Block) : List Value :=
  blocks.filterMap fun block => block.kept block.thought block.signed

/-- The reason of the answer. -/
def closingReason (blocks : List Block) (stopReason : String) : FinishReason :=
  if stopReason = "max_tokens" ∨ stopReason = "model_context_window_exceeded" then .length
  else if stopReason = "tool_use" ∨ blocks.any Block.isTool then .toolUse
  else .stop

theorem closing_eq {blocks : List Block} (between : Between parse modelCallId blocks state cycle)
    (stopReason : String) :
    { state with finish := state.stopReason (some stopReason) }.closing = closingReason blocks stopReason := by
  unfold StreamState.closing closingReason
  simp only [between.sawTool]
  unfold StreamState.stopReason
  rw [between.sawTool]
  split
  case h_1 label =>
    obtain rfl := Option.some.inj label
    cases blocks.any Block.isTool <;> rfl
  case h_2 label =>
    obtain rfl := Option.some.inj label
    rfl
  case h_3 label =>
    obtain rfl := Option.some.inj label
    rfl
  case h_8 none => cases none
  case h_9 plain cut full _ _ _ _ label =>
    obtain rfl := Option.some.inj label
    rw [if_neg (not_or.mpr ⟨cut, full⟩)]
    simp only [or_iff_right plain]
    cases blocks.any Block.isTool <;> rfl
  all_goals
    next label =>
    obtain rfl := Option.some.inj label
    cases blocks.any Block.isTool <;> rfl

theorem message_ends {blocks : List Block} {stopReason : String} {delta stop : SseEvent}
    (between : Between parse modelCallId blocks state cycle)
    (delta' : ∃ value, IsKind delta value "message_delta" ∧
      (value.pointer ["delta", "stop_reason"]).bind Value.asStr = some stopReason)
    (stop' : ∃ value, IsKind stop value "message_stop") :
    ∃ last usage body, Follows adapter parse state cycle [delta] last cycle ∧
      adapter.read last [.event stop] = (body ++ [.done (closingReason blocks stopReason)]).map .event ∧
      Reads parse cycle body { cycle with
        replayState := StreamState.replayOf (keptBlocks blocks), usage := usage } := by
  obtain ⟨value, is, reason⟩ := delta'
  obtain ⟨value', is'⟩ := stop'
  have noted : ∃ usage, state.noteUsage (value.get "usage") = { state with finalUsage := usage } := by
    unfold StreamState.noteUsage
    cases value.get "usage" with
    | none => exact ⟨state.finalUsage, rfl⟩
    | some used => exact ⟨_, rfl⟩
  obtain ⟨usage, noted⟩ := noted
  have stepped : state.step delta.event value = .ok
      ((((value.pointer ["delta", "stop_sequence"]).bind Value.asStr).filter (· ≠ "")).toList.map .stopSequence,
        { state with finalUsage := usage, finish := state.stopReason (some stopReason) }) := by
    rw [StreamState.step, is.kind]
    show Except.ok (state.messageDelta value) = _
    rw [StreamState.messageDelta, noted, reason]
    rfl
  have sequence : Reads parse cycle
      ((((value.pointer ["delta", "stop_sequence"]).bind Value.asStr).filter (· ≠ "")).toList.map .stopSequence)
      cycle := by
    cases ((value.pointer ["delta", "stop_sequence"]).bind Value.asStr).filter (· ≠ "") with
    | none => exact .none
    | some sequence => exact reads_stopSequence sequence
  have none : state.blockTypes.toList = [] := by
    refine eq_nil_iff_forall_not_mem.mpr fun entry member => ?_
    have found := Std.TreeMap.mem_toList_iff_getElem?_eq_some.mp member
    rw [between.types] at found
    cases found
  let last : StreamState := { state with finalUsage := usage, finish := state.stopReason (some stopReason) }
  have ended : last.endMessage =
      ((StreamState.replayOf (keptBlocks blocks)).toList.map .providerReplayState ++ usage.toList.map .usage ++
        [.done (closingReason blocks stopReason)],
      { last with blockTypes := ∅, thinkingBlocks := [], terminal := true }) := by
    have closing := closing_eq between stopReason
    have kept : last.thinkingBlocks = keptBlocks blocks := between.kept
    simp only [StreamState.endMessage, last, none, StreamState.closeBlocks, nil_append]
    rw [← closing, ← kept]
    rfl
  have runs : adapter.Runs last [stop] _ _ := .one is'.carries (by
    show written (last.step stop.event value') = _
    rw [StreamState.step, is'.kind]
    show written (.ok last.endMessage) = _
    rw [ended]
    rfl)
  have replayed : Reads parse cycle _ _ :=
    reads_replays (StreamState.replayOf (keptBlocks blocks)) between.replayState
  have used : Reads parse { cycle with replayState := StreamState.replayOf (keptBlocks blocks) } _ _ :=
    reads_usages usage between.usage
  refine ⟨last, usage, _, follows_one is stepped sequence, ?_, replayed.append used⟩
  have read := Adapter.read_of_runs runs []
  rw [append_nil] at read
  exact read.trans (append_nil _)

/-! ### What is decoded -/

theorem replayOf_injective {blocks others : List Value}
    (same : StreamState.replayOf blocks = StreamState.replayOf others) : blocks = others := by
  unfold StreamState.replayOf at same
  by_cases none : blocks = []
  · by_cases none' : others = []
    · rw [none, none']
    · rw [if_pos none, if_neg none'] at same
      cases same
  · by_cases none' : others = []
    · rw [if_neg none, if_pos none'] at same
      cases same
    · rw [if_neg none, if_neg none'] at same
      cases same
      rfl

theorem length_join_append {α : Type} (front back : α → String) (list : List α) :
    (String.join (list.map fun value => front value ++ back value)).length =
      (list.map fun value => (front value).length).sum + (String.join (list.map back)).length := by
  induction list with
  | nil => rfl
  | cons value list ih =>
    simp only [map_cons, String.join_cons, String.length_append, sum_cons, ih]
    omega

theorem empty_of_join {α : Type} {front back : α → String} {list : List α}
    (same : String.join (list.map fun value => front value ++ back value) = String.join (list.map back)) :
    ∀ value ∈ list, front value = "" := by
  have lengths := congrArg String.length same
  rw [length_join_append] at lengths
  have none : (list.map fun value => (front value).length).sum = 0 := by omega
  intro value member
  have zero := List.sum_eq_zero_iff_forall_eq_nat.mp none _ (List.mem_map_of_mem member)
  exact String.toList_eq_nil_iff.mp (List.length_eq_zero_iff.mp (by rw [String.length_toList]; exact zero))

/-- How much is signed with a block. -/
def signatureLength (value : Value) : Nat := ((value.textAt "signature").getD "").length

def signatureLengths (values : List Value) : Nat := (values.map signatureLength).sum

theorem signatureLengths_filterMap (kept : Block → Option Value) (blocks : List Block) :
    signatureLengths (blocks.filterMap kept) =
      (blocks.map fun block => signatureLengths (kept block).toList).sum := by
  induction blocks with
  | nil => rfl
  | cons block blocks ih =>
    rw [map_cons, sum_cons, ← ih, filterMap_cons]
    cases kept block with
    | none => simp [signatureLengths]
    | some value => simp [signatureLengths]

theorem signatureLengths_thinking {block : Block} {part first : String}
    (opening : block.opening = .thinking part first) (thinking signature : String) :
    signatureLengths (block.kept thinking signature).toList = signature.length := by
  rw [Block.kept, opening]
  by_cases unsigned : signature = ""
  · rw [if_pos unsigned, unsigned]
    rfl
  · rw [if_neg unsigned]
    rfl

theorem signatureLengths_kept (block : Block) (thinking thinking' signature : String) :
    signatureLengths (block.kept thinking (block.opening.signed ++ signature)).toList =
      block.opening.signed.length + signatureLengths (block.kept thinking' signature).toList := by
  cases opening : block.opening with
  | thinking part first =>
    rw [signatureLengths_thinking opening, signatureLengths_thinking opening, String.length_append]
  | _ => simp [Block.kept, opening, Opening.signed]

theorem unsigned_of_kept {message : Message} (same : keptBlocks message.blocks = message.kept) :
    ∀ block ∈ message.blocks, block.opening.signed = "" := by
  have lengths := congrArg signatureLengths same
  rw [keptBlocks, Message.kept, signatureLengths_filterMap, signatureLengths_filterMap] at lengths
  have split : (message.blocks.map fun block => signatureLengths (block.kept
      (block.opening.thought ++ block.thought) (block.opening.signed ++ block.signed)).toList).sum =
      (message.blocks.map fun block => block.opening.signed.length).sum +
        (message.blocks.map fun block => signatureLengths (block.kept block.thought block.signed).toList).sum := by
    rw [← sum_map_add]
    congr 1
    exact map_congr_left fun block _ => signatureLengths_kept block _ _ _
  have none : (message.blocks.map fun block => block.opening.signed.length).sum = 0 := by omega
  intro block member
  have zero := List.sum_eq_zero_iff_forall_eq_nat.mp none _ (List.mem_map_of_mem member)
  exact String.toList_eq_nil_iff.mp (List.length_eq_zero_iff.mp (by rw [String.length_toList]; exact zero))

theorem toolAt_block {blocks : List Block} (indexes : ((blocks.filter Block.isTool).map Block.index).Nodup)
    {block : Block} (member : block ∈ blocks) (isTool : block.isTool = true) :
    toolAt parse modelCallId blocks block.index = block.tool? parse modelCallId := by
  obtain ⟨before, after, rfl⟩ := append_of_mem member
  rw [filter_append, filter_cons_of_pos isTool, map_append, map_cons] at indexes
  have none : toolAt parse modelCallId before block.index = none := by
    refine toolAt_none fun other held tool same => ?_
    refine (disjoint_of_nodup_append indexes) (a := block.index) ?_ mem_cons_self
    exact mem_map.mpr ⟨other, mem_filter.mpr ⟨held, tool⟩, same⟩
  obtain ⟨tool, some⟩ := Option.isSome_iff_exists.mp ((tool?_isSome block).trans isTool)
  rw [toolAt, findSome?_append, ← toolAt, none, Option.none_or, findSome?_cons, if_pos rfl, some]

theorem toolAt_some {blocks : List Block} {index : Nat} {tool : OpenTool}
    (found : toolAt parse modelCallId blocks index = some tool) :
    ∃ block ∈ blocks, block.index = index ∧ block.tool? parse modelCallId = some tool := by
  obtain ⟨block, member, known⟩ := exists_of_findSome?_eq_some found
  by_cases same : block.index = index
  · rw [if_pos same] at known
    exact ⟨block, member, same, known⟩
  · rw [if_neg same] at known
    cases known

/-- What the model call has made of a message whose last event is a `Done`. -/
structure Holds (parse : String → Except String Value) (id : String) (message : Message)
    (result : CompletedCycle) : Prop where
  modelCallId : result.modelCallId = id
  text : result.text = String.join (message.blocks.map Block.said)
  reasoning : result.reasoning = String.join (message.blocks.map Block.thought)
  replay : result.replayState = StreamState.replayOf (keptBlocks message.blocks)
  calls : ∃ tools : Std.TreeMap Nat OpenTool, result.calls = tools.toList.map (fun entry => entry.2.call) ∧
    ∀ index : Nat, tools[index]? = toolAt parse id message.blocks index

theorem bare_of_answers {message : Message} {front : List SseEvent} {delta stop : SseEvent}
    {result : CompletedCycle} (sends : Sends parse message front delta stop)
    (holds : Holds parse modelCallId message result) (answers : Answers message.sent modelCallId result)
    (replay : result.replayState = message.replay) : ∀ block ∈ message.blocks, block.opening.Bare := by
  have said := empty_of_join (answers.text.symm.trans holds.text)
  have thought := empty_of_join (answers.reasoning.symm.trans holds.reasoning)
  have signed := unsigned_of_kept (replayOf_injective (holds.replay.symm.trans replay))
  intro block member
  cases opening : block.opening with
  | text part =>
    have empty := said block member
    rw [opening] at empty
    exact empty
  | thinking part signature =>
    have empty := thought block member
    have unsigned := signed block member
    rw [opening] at empty unsigned
    exact ⟨empty, unsigned⟩
  | redacted value => trivial
  | toolUse callId name input initial =>
    have carries := sends.inputs block member
    rw [Block.Carries, opening] at carries
    rcases carries with ⟨empty, whole⟩ | ⟨bare, -⟩
    · obtain ⟨tools, calls, known⟩ := holds.calls
      have isTool : block.isTool = true := by rw [Block.isTool, opening]; rfl
      have found := known block.index
      rw [toolAt_block sends.indexes member isTool, Block.tool?, opening, empty] at found
      have keyed : ∀ (index : Nat) (tool : OpenTool), tools[index]? = some tool → tool.call.index = index := by
        intro index tool here
        obtain ⟨other, -, rfl, some⟩ := toolAt_some ((known index).symm.trans here)
        cases kind : other.opening <;> rw [Block.tool?, kind] at some <;> cases some
        rfl
      have sent : (⟨block.index, callId, name, none, input⟩ : SentCall) ∈ message.sent.calls :=
        mem_filterMap.mpr ⟨block, member, by rw [Block.call?, opening]⟩
      have arrives := arrives_of_answers answers calls keyed sent found
      have nothing : Value.object [] = .object input := arrives.arguments
      cases nothing
      exact whole
    · exact bare

theorem answers_of_bare {message : Message} {front : List SseEvent} {delta stop : SseEvent}
    {result : CompletedCycle} (sends : Sends parse message front delta stop)
    (holds : Holds parse modelCallId message result) (bare : ∀ block ∈ message.blocks, block.opening.Bare) :
    Answers message.sent modelCallId result ∧ result.replayState = message.replay := by
  have empty : ∀ block ∈ message.blocks, block.opening.said = "" ∧ block.opening.thought = "" ∧
      block.opening.signed = "" := by
    intro block member
    have bare := bare block member
    cases opening : block.opening with
    | text part =>
      rw [opening] at bare
      exact ⟨bare, rfl, rfl⟩
    | thinking part signature =>
      rw [opening] at bare
      exact ⟨rfl, bare.1, bare.2⟩
    | _ => exact ⟨rfl, rfl, rfl⟩
  have text : message.sent.text = result.text := by
    rw [holds.text]
    refine congrArg String.join (map_congr_left fun block member => ?_)
    rw [(empty block member).1, String.empty_append]
  have reasoning : message.sent.reasoning = result.reasoning := by
    rw [holds.reasoning]
    refine congrArg String.join (map_congr_left fun block member => ?_)
    rw [(empty block member).2.1, String.empty_append]
  have kept : message.kept = keptBlocks message.blocks := by
    refine filterMap_congr fun block member => ?_
    rw [(empty block member).2.1, (empty block member).2.2, String.empty_append, String.empty_append]
  obtain ⟨tools, calls, known⟩ := holds.calls
  refine ⟨?_, by rw [holds.replay, Message.replay, kept]⟩
  have same : result = ⟨⟨modelCallId, message.sent.text, message.sent.reasoning, result.replayState,
      tools.toList.map fun entry => entry.2.call⟩, result.usage, result.finishReason⟩ := by
    rw [text, reasoning, ← holds.modelCallId, ← calls]
  rw [same]
  refine answers_of_tools (fun index tool found => ?_) fun origin member => ?_
  · obtain ⟨block, member, here, some⟩ := toolAt_some ((known index).symm.trans found)
    cases opening : block.opening with
    | toolUse callId name input initial =>
      refine ⟨⟨block.index, callId, name, none, input⟩, ?_, here⟩
      exact mem_filterMap.mpr ⟨block, member, by rw [Block.call?, opening]⟩
    | _ =>
      rw [Block.tool?, opening] at some
      cases some
  · obtain ⟨block, held, call⟩ := mem_filterMap.mp member
    cases opening : block.opening with
    | toolUse callId name input initial =>
      rw [Block.call?, opening] at call
      obtain rfl := Option.some.inj call
      have isTool : block.isTool = true := by rw [Block.isTool, opening]; rfl
      have found := (known block.index).trans (toolAt_block sends.indexes held isTool)
      rw [Block.tool?, opening] at found
      have carries := sends.inputs block held
      have bare := bare block held
      rw [Block.Carries, opening] at carries
      rw [opening] at bare
      refine ⟨_, found, arrives_of_close ?_ nofun⟩
      rcases carries with ⟨none, whole⟩ | ⟨-, some, object⟩
      · rw [none, ← whole, show initial = [] from bare]
        rfl
      · exact closed_object _ some object
    | _ =>
      rw [Block.call?, opening] at call
      cases call

/-- **The messages that the adapter decodes.** `consume_model_cycle` accepts the events of the adapter and gives
the texts, the calls and the replay state that were sent, exactly when no start brings a part of them; and it
never accepts a message that was cut by the size of the context window. -/
theorem anthropic_decodes_iff (parse : String → Except String Value) (client : ClientChannel)
    (stays : client.closes = false) (modelCallId : String) (message : Message) (front : List SseEvent)
    (delta stop : SseEvent) (sends : Sends parse message front delta stop) :
    (∃ result, (consumeModelCycle parse client
        (adapter.stream .initial modelCallId ((front ++ [delta, stop]).map .event))).2 = .ok result ∧
      Answers message.sent modelCallId result ∧ result.replayState = message.replay) ↔
    message.stopReason ≠ "model_context_window_exceeded" ∧ ∀ block ∈ message.blocks, block.opening.Bare := by
  have start : Between parse modelCallId [] .initial (begun modelCallId) :=
    ⟨fun _ => Std.TreeMap.getElem?_emptyc, rfl, rfl, rfl, rfl, rfl, rfl, rfl, rfl, rfl,
      fun _ => Std.TreeMap.getElem?_emptyc, rfl, rfl, rfl⟩
  obtain ⟨state, cycle, follows, between⟩ : ∃ state cycle,
      Follows adapter parse .initial (begun modelCallId) front state cycle ∧
      Between parse modelCallId ([] ++ message.blocks) state cycle :=
    between_blocks sends.blocks sends.indexes sends.callIds start
  rw [nil_append] at between
  obtain ⟨last, usage, body, ends, read, reads⟩ := message_ends between sends.delta sends.stop
  have split : ((front ++ [delta, stop]).map SseItem.event) = (front ++ [delta]).map .event ++ [.event stop] := by
    simp
  rw [split]
  have closed : ({ cycle with
      replayState := StreamState.replayOf (keptBlocks message.blocks), usage := usage } : CycleState).hasOpenBlock =
        false := by
    refine hasOpenBlock_eq_false.mpr ⟨between.textOpen, between.thinkingOpen, fun index running => ?_⟩
    obtain ⟨tool, found, open'⟩ := toolPhase_running.mp running
    obtain ⟨block, -, -, some⟩ := toolAt_some ((between.tools index).symm.trans found)
    cases kind : block.opening <;> rw [Block.tool?, kind] at some <;> cases some
    cases open'
  have consumed := fun result => consume_stream result stays (follows.append ends) read reads between.started
    closed
  have tools : cycle.tools.toList ≠ [] ↔ message.blocks.any Block.isTool = true := by
    rw [any_eq_true]
    constructor
    · intro held
      obtain ⟨entry, member⟩ := exists_mem_of_ne_nil _ held
      have found := Std.TreeMap.mem_toList_iff_getElem?_eq_some.mp member
      obtain ⟨block, inside, -, some⟩ := toolAt_some ((between.tools entry.1).symm.trans found)
      exact ⟨block, inside, by rw [← tool?_isSome, some]; rfl⟩
    · rintro ⟨block, member, isTool⟩
      have found := (between.tools block.index).trans (toolAt_block sends.indexes member isTool)
      obtain ⟨tool, some⟩ := Option.isSome_iff_exists.mp ((tool?_isSome block).trans isTool)
      exact ne_nil_of_mem (Std.TreeMap.mem_toList_iff_getElem?_eq_some.mpr (found.trans some))
  have holds : Holds parse modelCallId message ⟨⟨modelCallId, cycle.text, cycle.reasoning,
      StreamState.replayOf (keptBlocks message.blocks), cycle.tools.toList.map fun entry => entry.2.call⟩, usage,
      closingReason message.blocks message.stopReason⟩ :=
    ⟨rfl, between.text, between.reasoning, rfl, cycle.tools, rfl, between.tools⟩
  constructor
  · rintro ⟨result, ok, answers, replay⟩
    obtain ⟨complete, -, rfl⟩ := (consumed result).mp ok
    refine ⟨fun full => complete ?_, bare_of_answers sends holds answers replay⟩
    rw [closingReason, if_pos (.inr full)]
  · rintro ⟨full, bare⟩
    have whole : ¬ (message.stopReason = "max_tokens" ∨ message.stopReason = "model_context_window_exceeded") :=
      not_or.mpr ⟨sends.complete, full⟩
    refine ⟨_, (consumed _).mpr ⟨?_, ?_, rfl⟩, answers_of_bare sends holds bare⟩
    · rw [closingReason, if_neg whole]
      split_ifs <;> decide
    · refine Iff.trans ?_ tools.symm
      rw [closingReason, if_neg whole]
      by_cases called : message.blocks.any Block.isTool = true
      · simp [called]
      · have plain : message.stopReason ≠ "tool_use" := fun label => called (sends.calls label)
        simp [called, plain]

/-! ### Two answers -/

/-- An event of a block. -/
def blockEvent (index : Nat) (kind : String) (fields : List (String × Value)) : SseEvent :=
  ⟨kind, false, .ok (.object ([("type", .string kind), ("index", .number (.int index))] ++ fields))⟩

def blockStart (index : Nat) (fields : List (String × Value)) : SseEvent :=
  blockEvent index "content_block_start" [("content_block", .object fields)]

def blockDelta (index : Nat) (kind field text : String) : SseEvent :=
  blockEvent index "content_block_delta" [("delta", .object [("type", .string kind), (field, .string text)])]

def blockStop (index : Nat) : SseEvent := blockEvent index "content_block_stop" []

def messageDelta (stopReason : String) : SseEvent :=
  ⟨"message_delta", false, .ok (.object [("type", .string "message_delta"),
    ("delta", .object [("stop_reason", .string stopReason)])])⟩

def messageStop : SseEvent := ⟨"message_stop", false, .ok (.object [("type", .string "message_stop")])⟩

/-- `serde_json::from_str` on the arguments of the call of `sampleMessage`. -/
def sampleParse (text : String) : Except String Value :=
  if text = "\x7b\"path\":\"a\"\x7d" then .ok (.object [("path", .string "a")]) else .error ""

/-- Signed thinking, a text and a call, all of it in deltas. -/
def sampleMessage : Message where
  blocks := [⟨0, .thinking "" "", [.thinking "Look ", .thinking "at it.", .signature "signed"], by decide⟩,
    ⟨1, .text "", [.text "I lo", .text "ok."], by decide⟩,
    ⟨2, .toolUse "call" "Read" [("path", .string "a")] [],
      [.arguments "\x7b\"path\"", .arguments ":\"a\"\x7d"], by decide⟩]
  stopReason := "tool_use"

def sampleEvents : List SseEvent :=
  blockStart 0 [("type", .string "thinking"), ("thinking", .string ""), ("signature", .string "")] ::
    ([blockDelta 0 "thinking_delta" "thinking" "Look ", blockDelta 0 "thinking_delta" "thinking" "at it.",
      blockDelta 0 "signature_delta" "signature" "signed"] ++ blockStop 0 ::
  blockStart 1 [("type", .string "text"), ("text", .string "")] ::
    ([blockDelta 1 "text_delta" "text" "I lo", blockDelta 1 "text_delta" "text" "ok."] ++ blockStop 1 ::
  blockStart 2 [("type", .string "tool_use"), ("id", .string "call"), ("name", .string "Read"),
      ("input", .object [])] ::
    ([blockDelta 2 "input_json_delta" "partial_json" "\x7b\"path\"",
      blockDelta 2 "input_json_delta" "partial_json" ":\"a\"\x7d"] ++ blockStop 2 :: [])))

theorem sends_sample : Sends sampleParse sampleMessage sampleEvents (messageDelta "tool_use") messageStop where
  blocks := by
    refine .block _ ⟨_, _, ⟨⟨rfl, rfl, rfl⟩, rfl⟩, rfl, rfl, rfl, rfl, rfl⟩
      (.cons ⟨_, _, ⟨⟨rfl, rfl, rfl⟩, rfl⟩, rfl, rfl, rfl, rfl⟩
        (.cons ⟨_, _, ⟨⟨rfl, rfl, rfl⟩, rfl⟩, rfl, rfl, rfl, rfl⟩
          (.cons ⟨_, _, ⟨⟨rfl, rfl, rfl⟩, rfl⟩, rfl, rfl, rfl, rfl⟩ .nil))) ⟨_, ⟨⟨rfl, rfl, rfl⟩, rfl⟩, rfl⟩ ?_
    refine .block _ ⟨_, _, ⟨⟨rfl, rfl, rfl⟩, rfl⟩, rfl, rfl, rfl, rfl⟩
      (.cons ⟨_, _, ⟨⟨rfl, rfl, rfl⟩, rfl⟩, rfl, rfl, rfl, rfl⟩
        (.cons ⟨_, _, ⟨⟨rfl, rfl, rfl⟩, rfl⟩, rfl, rfl, rfl, rfl⟩ .nil)) ⟨_, ⟨⟨rfl, rfl, rfl⟩, rfl⟩, rfl⟩ ?_
    exact .block _ ⟨_, _, ⟨⟨rfl, rfl, rfl⟩, rfl⟩, rfl, rfl, rfl, rfl, rfl, rfl⟩
      (.cons ⟨_, _, ⟨⟨rfl, rfl, rfl⟩, rfl⟩, rfl, rfl, rfl, rfl⟩
        (.cons ⟨_, _, ⟨⟨rfl, rfl, rfl⟩, rfl⟩, rfl, rfl, rfl, rfl⟩ .nil)) ⟨_, ⟨⟨rfl, rfl, rfl⟩, rfl⟩, rfl⟩ .none
  delta := ⟨_, ⟨⟨rfl, rfl, rfl⟩, rfl⟩, rfl⟩
  stop := ⟨_, ⟨⟨rfl, rfl, rfl⟩, rfl⟩⟩
  indexes := by decide
  callIds := by decide
  inputs block member := by
    simp only [sampleMessage, mem_cons, not_mem_nil, or_false] at member
    rcases member with rfl | rfl | rfl
    · trivial
    · trivial
    · exact .inr ⟨rfl, by decide, by decide⟩
  complete := show "tool_use" ≠ "max_tokens" by decide
  calls _ := by decide

theorem anthropic_decodes_iff_sample :
    ∃ result, (consumeModelCycle sampleParse .live (adapter.stream .initial "model-call"
        ((sampleEvents ++ [messageDelta "tool_use", messageStop]).map .event))).2 = .ok result ∧
      Answers sampleMessage.sent "model-call" result ∧ result.replayState = sampleMessage.replay :=
  (anthropic_decodes_iff sampleParse .live rfl "model-call" _ _ _ _ sends_sample).mpr
    ⟨by decide, by
      intro block member
      simp only [sampleMessage, mem_cons, not_mem_nil, or_false] at member
      rcases member with rfl | rfl | rfl
      · exact ⟨rfl, rfl⟩
      · rfl
      · rfl⟩

/-- One block of text, of which `start` comes with its start. -/
def greetingEvents (start : String) (rest : List String) : List SseEvent :=
  blockStart 0 [("type", .string "text"), ("text", .string start)] ::
    (rest.map (blockDelta 0 "text_delta" "text") ++ [blockStop 0])

def greeting (start : String) (rest : List String) : Message where
  blocks := [⟨0, .text start, rest.map .text, fun piece member => by
    obtain ⟨text, -, rfl⟩ := mem_map.mp member
    rfl⟩]
  stopReason := "end_turn"

theorem sends_greeting (parse : String → Except String Value) (start : String) (rest : List String) :
    Sends parse (greeting start rest) (greetingEvents start rest) (messageDelta "end_turn") messageStop where
  blocks := by
    refine .block _ ⟨_, _, ⟨⟨rfl, rfl, rfl⟩, rfl⟩, rfl, rfl, rfl, rfl⟩ ?_ ⟨_, ⟨⟨rfl, rfl, rfl⟩, rfl⟩, rfl⟩ .none
    refine List.forall₂_map_left_iff.mpr (List.forall₂_map_right_iff.mpr ?_)
    exact List.forall₂_same.mpr fun text _ => ⟨_, _, ⟨⟨rfl, rfl, rfl⟩, rfl⟩, rfl, rfl, rfl, rfl⟩
  delta := ⟨_, ⟨⟨rfl, rfl, rfl⟩, rfl⟩, rfl⟩
  stop := ⟨_, ⟨⟨rfl, rfl, rfl⟩, rfl⟩⟩
  indexes := nodup_nil
  callIds := nodup_nil
  inputs block member := by
    rw [mem_singleton.mp member]
    trivial
  complete := show "end_turn" ≠ "max_tokens" by decide
  calls label := absurd label (show "end_turn" ≠ "tool_use" by decide)

/-- What comes with the start is lost. -/
theorem start_text_lost :
    ¬ ∀ (message : Message) (front : List SseEvent) (delta stop : SseEvent),
      Sends (fun _ => .error "") message front delta stop →
      ∃ result, (consumeModelCycle (fun _ => .error "") .live (adapter.stream .initial "model-call"
          ((front ++ [delta, stop]).map .event))).2 = .ok result ∧
        Answers message.sent "model-call" result ∧ result.replayState = message.replay := by
  intro always
  obtain ⟨result, consumed, answers, -⟩ := always _ _ _ _ (sends_greeting _ "Hel" ["lo"])
  have lost : (consumeModelCycle (fun _ => .error "") .live (adapter.stream .initial "model-call"
      ((greetingEvents "Hel" ["lo"] ++ [messageDelta "end_turn", messageStop]).map .event))).2 =
      .ok ⟨⟨"model-call", "lo", "", none, []⟩, none, .stop⟩ := by
    decide +kernel
  rw [lost] at consumed
  obtain rfl := Except.ok.inj consumed
  exact absurd answers.text (by decide)

end Byok.Provider.AnthropicStream
