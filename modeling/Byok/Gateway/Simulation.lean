/-
**The translator sends blocks.** Each of its methods is a run of the frames of an answer.

* `Frames` — the translator and the blocks that it has sent.
* `Moves` — a method is a run, and delivers some calls.
* `pushEvent_moves` — the push of an event.
-/

import Byok.Gateway.Framing

namespace Byok.Gateway

open Library ResponseTranslator List

variable {strict : Bool} {translator : ResponseTranslator} {frame : Frame} {waiting : List Nat}

/-! ### The translator and its blocks -/

/-- The open block is the last one. -/
inductive Last : Option OpenBlock → Option SentBlock → Prop
  | none : Last none none
  | some {index : Nat} {kind : BlockKind} {deltas : List Delta} :
      Last (some ⟨index, kind, 0⟩) (some ⟨index, kind.block, deltas⟩)

/-- The translator has sent these blocks, but for the indexes that wait. -/
structure Frames (translator : ResponseTranslator) (waiting : List Nat) (frame : Frame) : Prop where
  last : Last translator.opened frame.last
  waiting : frame.waiting = waiting
  next : frame.next = translator.nextIndex

/-- What a method sends is a run, and these are the calls that it delivers. -/
def Moves (strict : Bool) (frame : Frame) (sent : Sent) (waiting : List Nat)
    (called : List (String × String × String)) : Prop :=
  ∃ labels after, (frames strict).Run frame labels after ∧ labels.filterMap id = sent.2 ∧
    Frames sent.1 waiting after ∧ after.called = frame.called ++ called

theorem Moves.quiet (shown : Frames translator waiting frame) : Moves strict frame (translator, []) waiting [] :=
  ⟨[], frame, .nil, rfl, shown, (append_nil _).symm⟩

theorem Moves.andThen {first : Sent} {next : ResponseTranslator → Sent} {between : List Nat}
    {called more : List (String × String × String)} (moves : Moves strict frame first between called)
    (then' : ∀ after, Frames first.1 between after → Moves strict after (next first.1) waiting more) :
    Moves strict frame (first.andThen next) waiting (called ++ more) := by
  obtain ⟨labels, middle, run, out, shown, calls⟩ := moves
  obtain ⟨rest, after, run', out', shown', calls'⟩ := then' middle shown
  refine ⟨labels ++ rest, after, run.append run', ?_, shown', ?_⟩
  · rw [filterMap_append, out, out']
    rfl
  · rw [calls', calls, append_assoc]

theorem Moves.quietly {first : Sent} {next : ResponseTranslator → Sent} {between : List Nat}
    {more : List (String × String × String)} (moves : Moves strict frame first between [])
    (then' : ∀ after, Frames first.1 between after → Moves strict after (next first.1) waiting more) :
    Moves strict frame (first.andThen next) waiting more := moves.andThen then'

theorem Moves.step {label : Option StreamEvent} {after : Frame} {translator : ResponseTranslator}
    (step : (frames strict).step frame label after) (shown : Frames translator waiting after)
    (calls : after.called = frame.called) : Moves strict frame (translator, label.toList) waiting [] := by
  refine ⟨[label], after, .single step, ?_, shown, by rw [calls, append_nil]⟩
  cases label <;> rfl

/-! ### Text and thinking -/

theorem kind_call (kind : BlockKind) (index : Nat) (deltas : List Delta) :
    (⟨index, kind.block, deltas⟩ : SentBlock).call? = none := by
  cases kind <;> rfl

theorem last_cases (shown : Frames translator waiting frame) :
    (translator.opened = none ∧ frame = ⟨frame.blocks, none, waiting, translator.nextIndex⟩) ∨
      ∃ index kind deltas, translator.opened = some ⟨index, kind, 0⟩ ∧
        frame = ⟨frame.blocks, some ⟨index, kind.block, deltas⟩, waiting, translator.nextIndex⟩ := by
  obtain ⟨blocks, last, waits, next⟩ := frame
  obtain ⟨last', same, index⟩ := shown
  obtain rfl : waits = waiting := same
  obtain rfl : next = translator.nextIndex := index
  cases opened : translator.opened with
  | none =>
    rw [opened] at last'
    cases last'
    exact .inl ⟨rfl, rfl⟩
  | some block =>
    rw [opened] at last'
    cases last'
    exact .inr ⟨_, _, _, rfl, rfl⟩

theorem delta_moves {kind : BlockKind} {delta : Delta} (shown : Frames translator waiting frame)
    (type : (kind.block.get "type").bind Value.asStr = some delta.blockType) :
    Moves strict frame (translator.delta kind 0 delta) waiting [] := by
  rcases last_cases shown with ⟨opened, -⟩ | ⟨index, other, deltas, opened, equal⟩
  · rw [ResponseTranslator.delta, opened]
    exact .quiet shown
  · rw [ResponseTranslator.delta, opened]
    by_cases same : other = kind
    · subst same
      rw [equal]
      dsimp only
      rw [if_neg (by simp)]
      refine .step (.adds type) ⟨?_, rfl, rfl⟩ ?_
      · rw [opened]
        exact .some
      · simp only [Frame.called, Frame.sent, Option.toList_some, filterMap_append,
          filterMap_cons_none (kind_call other index _), filterMap_nil]
    · dsimp only
      rw [if_pos (.inl same)]
      exact .quiet shown

theorem stop_moves {block : OpenBlock} {closed : ResponseTranslator} (shown : Frames translator waiting frame)
    (opened : translator.opened = some block) (none : closed.opened = none)
    (same : closed.nextIndex = translator.nextIndex) :
    Moves strict frame (closed, [.contentBlockStop block.index]) waiting [] := by
  rcases last_cases shown with ⟨nothing, -⟩ | ⟨index, kind, deltas, known, equal⟩
  · rw [opened] at nothing
    cases nothing
  · rw [opened] at known
    obtain rfl := Option.some.inj known
    rw [equal]
    refine .step .stops ⟨?_, rfl, same.symm⟩ ?_
    · rw [none]
      exact .none
    · simp [Frame.called, Frame.sent]

theorem close_moves (shown : Frames translator waiting frame) :
    Moves strict frame translator.close waiting [] := by
  rw [close]
  cases opened : translator.opened with
  | none => exact .quiet shown
  | some block =>
    obtain ⟨index, kind, providerIndex⟩ := block
    cases kind with
    | thinking => exact stop_moves shown opened rfl rfl
    | text =>
      dsimp only
      rw [heldBack]
      split
      · exact stop_moves shown opened rfl rfl
      · have held := @delta_moves strict translator frame waiting .text (.text translator.text.flush.2) shown rfl
        rcases last_cases shown with ⟨none, -⟩ | ⟨index', kind', deltas, known, -⟩
        · rw [opened] at none
          cases none
        · rw [opened] at known
          obtain ⟨rfl, rfl, rfl⟩ := OpenBlock.mk.inj (Option.some.inj known)
          rw [ResponseTranslator.delta, opened] at held
          dsimp only at held
          rw [if_neg (by simp)] at held
          let closed : ResponseTranslator := { translator with opened := none, text := translator.text.flush.1 }
          show Moves strict frame (Sent.andThen (translator, [.contentBlockDelta index (.text translator.text.flush.2)])
            fun _ => (closed, [.contentBlockStop index])) waiting []
          exact held.quietly fun after shown => stop_moves shown opened rfl rfl

theorem close_state (translator : ResponseTranslator) :
    ∃ buffer, translator.close.1 = { translator with opened := none, text := { translator.text with buffer } } := by
  obtain ⟨_, _, _, opened, _, _, _, _, _, text, _⟩ := translator
  cases opened with
  | none => exact ⟨text.buffer, rfl⟩
  | some block =>
    obtain ⟨index, kind, providerIndex⟩ := block
    cases kind
    · exact ⟨"", rfl⟩
    · exact ⟨text.buffer, rfl⟩

theorem close_closes (translator : ResponseTranslator) : translator.close.1.opened = none := by
  obtain ⟨buffer, equal⟩ := close_state translator
  rw [equal]

theorem close_next (translator : ResponseTranslator) : translator.close.1.nextIndex = translator.nextIndex := by
  obtain ⟨buffer, equal⟩ := close_state translator
  rw [equal]

/-- The tools, and whether the answer goes on and its text does, are as they were. -/
structure Same (before after : ResponseTranslator) : Prop where
  tools : after.tools = before.tools
  finished : after.finished = before.finished
  stoppedBy : after.stoppedBy = before.stoppedBy
  sequences : after.text.sequences = before.text.sequences
  stopped : after.text.stopped = before.text.stopped

theorem Same.refl (translator : ResponseTranslator) : Same translator translator := ⟨rfl, rfl, rfl, rfl, rfl⟩

theorem Same.trans {first second third : ResponseTranslator} (same : Same first second) (more : Same second third) :
    Same first third :=
  ⟨more.tools.trans same.tools, more.finished.trans same.finished, more.stoppedBy.trans same.stoppedBy,
    more.sequences.trans same.sequences, more.stopped.trans same.stopped⟩

theorem close_same (translator : ResponseTranslator) : Same translator translator.close.1 := by
  obtain ⟨buffer, equal⟩ := close_state translator
  rw [equal]
  exact ⟨rfl, rfl, rfl, rfl, rfl⟩

theorem close_nextIndex (translator : ResponseTranslator) (next : Nat) :
    ({ translator with nextIndex := next } : ResponseTranslator).close =
      ({ translator.close.1 with nextIndex := next }, translator.close.2) := by
  obtain ⟨_, _, _, opened, _, _, _, _, _, _, _⟩ := translator
  cases opened with
  | none => rfl
  | some block =>
    obtain ⟨index, kind, providerIndex⟩ := block
    cases kind <;> rfl

theorem closed_last (shown : Frames translator waiting frame) (closed : translator.opened = none) :
    frame = ⟨frame.blocks, none, waiting, translator.nextIndex⟩ := by
  rcases last_cases shown with ⟨-, equal⟩ | ⟨index, kind, deltas, opened, -⟩
  · exact equal
  · rw [closed] at opened
    cases opened

theorem openBlock_moves (kind : BlockKind) (shown : Frames translator waiting frame)
    (ready : strict = true → waiting = []) :
    Moves strict frame (translator.openBlock kind 0) waiting [] := by
  refine (close_moves shown).quietly fun after shown => ?_
  rw [closed_last shown (close_closes translator)]
  refine .step (.starts kind.block ready) ⟨.some, rfl, rfl⟩ ?_
  simp only [Frame.called, Frame.sent, Option.toList_some, Option.toList_none, append_nil,
    filterMap_append, filterMap_cons_none (kind_call kind _ _), filterMap_nil]

theorem ensureOpen_moves (kind : BlockKind) (shown : Frames translator waiting frame)
    (ready : strict = true → translator.opened.any (·.kind = kind) = false → waiting = []) :
    Moves strict frame (translator.ensureOpen kind 0) waiting [] := by
  rw [ensureOpen]
  by_cases open' : translator.opened.any (·.kind = kind) = true
  · rw [if_pos open']
    exact .quiet shown
  · rw [if_neg open']
    exact openBlock_moves kind shown fun here => ready here (Bool.not_eq_true _ ▸ open')

theorem closeKind_moves (kind : BlockKind) (shown : Frames translator waiting frame) :
    Moves strict frame (translator.closeKind kind) waiting [] := by
  rw [closeKind]
  split
  · exact close_moves shown
  · exact .quiet shown

/-! ### Tools and replayed blocks -/

/-- The call of a tool that waits. -/
def PendingTool.call (tool : PendingTool) : String × String × String := (tool.callId, tool.name, tool.arguments)

theorem tool_call (index : Nat) (tool : PendingTool) {deltas : List Delta}
    (text : (⟨index, PendingTool.block tool, deltas⟩ : SentBlock).argumentsText = tool.arguments) :
    (⟨index, PendingTool.block tool, deltas⟩ : SentBlock).call? = some (PendingTool.call tool) := by
  rw [PendingTool.call, ← text]
  rfl

/-- **A tool's block, with its whole argument text.** -/
theorem flushTool_moves {index : Nat} (tool : PendingTool) (shown : Frames translator (index :: waiting) frame) :
    Moves strict frame (translator.flushTool index tool) waiting [PendingTool.call tool] := by
  refine Moves.quietly (close_moves shown) fun after shown => ?_
  rw [closed_last shown (close_closes translator)]
  have deliver := @Frame.Step.delivers strict after.blocks index waiting translator.close.1.nextIndex
    (PendingTool.block tool)
  have add := @Frame.Step.adds strict after.blocks ⟨index, PendingTool.block tool, []⟩ waiting
    translator.close.1.nextIndex (.inputJson tool.arguments) rfl
  have last : ∀ deltas : List Delta, (⟨index, PendingTool.block tool, deltas⟩ : SentBlock).argumentsText = tool.arguments →
      (⟨after.blocks ++ [⟨index, PendingTool.block tool, deltas⟩], none, waiting, translator.close.1.nextIndex⟩ : Frame).called =
        (⟨after.blocks, none, index :: waiting, translator.close.1.nextIndex⟩ : Frame).called ++ [PendingTool.call tool] := by
    intro deltas text
    have known := tool_call index tool text
    simp [Frame.called, Frame.sent, known]
  rw [argumentsDelta]
  split
  · rename_i empty
    refine ⟨_, _, (System.Run.single deliver).snoc .stops, rfl, ⟨?_, rfl, rfl⟩, last [] empty.symm⟩
    rw [close_closes]
    exact .none
  · refine ⟨_, _, ((System.Run.single deliver).snoc add).snoc .stops, rfl, ⟨?_, rfl, rfl⟩,
      last [.inputJson tool.arguments] (by simp [SentBlock.argumentsText, String.join])⟩
    rw [close_closes]
    exact .none

theorem flushWhile_moves (ready : PendingTool → Bool) {tools : List (Nat × PendingTool)}
    (shown : Frames translator (tools.map Prod.fst) frame) :
    Moves strict frame (translator.flushWhile ready tools) ((tools.dropWhile fun entry => ready entry.2).map Prod.fst)
      ((tools.takeWhile fun entry => ready entry.2).map fun entry => PendingTool.call entry.2) := by
  induction tools generalizing translator frame with
  | nil => exact .quiet ⟨shown.last, shown.waiting, shown.next⟩
  | cons entry tools ih =>
    obtain ⟨index, tool⟩ := entry
    rw [flushWhile]
    cases isReady : ready tool with
    | true =>
      rw [dropWhile_cons_of_pos (by exact isReady), takeWhile_cons_of_pos (by exact isReady), if_pos rfl]
      exact (flushTool_moves tool shown).andThen fun after shown => ih shown
    | false =>
      rw [dropWhile_cons_of_neg (by simp [isReady]), takeWhile_cons_of_neg (by simp [isReady]),
        if_neg Bool.false_ne_true]
      exact .quiet ⟨shown.last, shown.waiting, shown.next⟩

theorem flushWhile_tools (ready : PendingTool → Bool) (translator : ResponseTranslator)
    (tools : List (Nat × PendingTool)) :
    (translator.flushWhile ready tools).1.tools = tools.dropWhile (fun entry => ready entry.2) ∧
      (translator.flushWhile ready tools).1.finished = translator.finished := by
  induction tools generalizing translator with
  | nil => exact ⟨rfl, rfl⟩
  | cons entry tools ih =>
    obtain ⟨index, tool⟩ := entry
    rw [flushWhile]
    cases isReady : ready tool with
    | true =>
      rw [dropWhile_cons_of_pos (by exact isReady), if_pos rfl]
      obtain ⟨rest, finished⟩ := ih (translator.flushTool index tool).1
      exact ⟨rest, finished.trans (close_same translator).finished⟩
    | false =>
      rw [dropWhile_cons_of_neg (by simp [isReady]), if_neg Bool.false_ne_true]
      exact ⟨rfl, rfl⟩

theorem redactedBlock_moves (block : Value) (shown : Frames translator waiting frame)
    (ready : strict = true → (block.get "type").bind Value.asStr = some "redacted_thinking" → waiting = []) :
    Moves strict frame (translator.redactedBlock block) waiting [] := by
  rw [redactedBlock]
  split
  · exact .quiet shown
  · rename_i redacted
    have redacted : (block.get "type").bind Value.asStr = some "redacted_thinking" := not_not.mp redacted
    have plain : ∀ index, (⟨index, block, []⟩ : SentBlock).call? = none := fun index => by
      rw [SentBlock.call?, redacted, if_neg (by decide)]
    have opened := close_closes translator
    dsimp only
    rw [close_nextIndex]
    show Moves strict frame (translator.close.andThen fun closed =>
      ({ closed with nextIndex := translator.nextIndex + 1 },
        [.contentBlockStart translator.nextIndex block, .contentBlockStop translator.nextIndex])) waiting []
    refine (close_moves shown).quietly fun after shown => ?_
    have here := closed_last shown opened
    rw [here, ← close_next translator]
    have starts := @Frame.Step.starts strict after.blocks waiting translator.close.1.nextIndex block
      fun strict => ready strict redacted
    refine ⟨_, _, (System.Run.single starts).snoc .stops, rfl, ⟨?_, rfl, rfl⟩, ?_⟩
    · show Last translator.close.1.opened none
      rw [opened]
      exact .none
    · simp [Frame.called, Frame.sent, plain]

theorem redactedLoop_moves {blocks : List Value} (shown : Frames translator waiting frame)
    (ready : strict = true → ∀ block ∈ blocks, (block.get "type").bind Value.asStr = some "redacted_thinking" → waiting = []) :
    Moves strict frame (translator.redactedLoop blocks) waiting [] := by
  induction blocks generalizing translator frame with
  | nil => exact .quiet shown
  | cons block blocks ih =>
    refine (redactedBlock_moves block shown fun strict => ready strict block mem_cons_self).quietly
      fun after shown => ih shown fun strict other member => ready strict other (mem_cons_of_mem _ member)

/-! ### What the methods leave as it is -/

theorem openBlock_same (kind : BlockKind) (index : Nat) : Same translator (translator.openBlock kind index).1 :=
  (close_same translator).trans ⟨rfl, rfl, rfl, rfl, rfl⟩

theorem ensureOpen_same (kind : BlockKind) (index : Nat) : Same translator (translator.ensureOpen kind index).1 := by
  rw [ensureOpen]
  split
  · exact .refl translator
  · exact openBlock_same kind index

theorem closeKind_same (kind : BlockKind) : Same translator (translator.closeKind kind).1 := by
  rw [closeKind]
  split
  · exact close_same translator
  · exact .refl translator

theorem delta_same (kind : BlockKind) (index : Nat) (delta : Delta) :
    (translator.delta kind index delta).1 = translator := by
  rw [ResponseTranslator.delta]
  split
  · rfl
  · split <;> rfl

theorem redactedBlock_same (block : Value) : Same translator (translator.redactedBlock block).1 := by
  rw [redactedBlock]
  split
  · exact .refl translator
  · have next : Same translator { translator with nextIndex := translator.nextIndex + 1 } := ⟨rfl, rfl, rfl, rfl, rfl⟩
    exact next.trans (close_same _)

theorem redactedLoop_same (blocks : List Value) : Same translator (translator.redactedLoop blocks).1 := by
  induction blocks generalizing translator with
  | nil => exact .refl translator
  | cons block blocks ih => exact (redactedBlock_same block).trans ih

theorem sendText_same (text : String) : (translator.sendText text).1 = translator := by
  rw [sendText]
  split
  · rfl
  · exact delta_same _ _ _

theorem pushText_tools (delta : String) :
    (translator.pushText delta).1.tools = translator.tools ∧
      (translator.pushText delta).1.finished = translator.finished := by
  rw [pushText]
  dsimp only [Sent.andThen]
  rw [sendText_same, stopText]
  split
  · have same := close_same
      ({ translator with text := (translator.text.push delta).1, stoppedBy := (translator.text.push delta).1.stopped })
    exact ⟨same.tools, same.finished⟩
  · exact ⟨rfl, rfl⟩

/-! ### A push -/

/-- The event opens a text, thinking or redacted block. -/
def Opens (translator : ResponseTranslator) (event : ModelEvent) : Prop :=
  match event with
  | .textStart | .thinkingStart => translator.stoppedBy = none
  | .textDelta _ => translator.stoppedBy = none ∧ translator.opened.any (·.kind = .text) = false
  | .thinkingDelta _ => translator.stoppedBy = none ∧ translator.opened.any (·.kind = .thinking) = false
  | .providerReplayState state =>
    ∃ block ∈ replayBlocks state, (block.get "type").bind Value.asStr = some "redacted_thinking"
  | _ => False

/-- A block overtakes a tool that waits. -/
def Overtakes (translator : ResponseTranslator) (event : ModelEvent) : Prop :=
  translator.tools ≠ [] ∧ Opens translator event

/-- The tools that an event makes ready. -/
def delivered (translator : ResponseTranslator) (event : ModelEvent) : List (Nat × PendingTool) :=
  match event with
  | .toolCallEnd index =>
    (translator.updateTool index fun tool => { tool with ended := true }).tools.takeWhile fun entry => entry.2.ended
  | _ => []

theorem updateFirst_indexes (providerIndex : Nat) (update : PendingTool → PendingTool) (tools : List (Nat × PendingTool)) :
    (updateTool.updateFirst providerIndex update tools).map Prod.fst = tools.map Prod.fst := by
  induction tools with
  | nil => rfl
  | cons entry tools ih =>
    obtain ⟨index, tool⟩ := entry
    rw [updateTool.updateFirst]
    split
    · rfl
    · rw [map_cons, ih, map_cons]

/-- Frames are those of the indexes of the tools. -/
abbrev Framed (translator : ResponseTranslator) (frame : Frame) : Prop :=
  Frames translator (translator.tools.map Prod.fst) frame

theorem pushText_moves (delta : String) (shown : Frames translator waiting frame) :
    Moves strict frame (translator.pushText delta) waiting [] := by
  have other : Frames { translator with text := (translator.text.push delta).1 } waiting frame :=
    ⟨shown.last, shown.waiting, shown.next⟩
  have first : Moves strict frame (({ translator with text := (translator.text.push delta).1 } :
      ResponseTranslator).sendText (translator.text.push delta).2) waiting [] := by
    rw [sendText]
    split
    · exact .quiet other
    · exact delta_moves other rfl
  rw [pushText]
  refine first.quietly fun after shown => ?_
  rw [stopText]
  split
  · exact close_moves ⟨shown.last, shown.waiting, shown.next⟩
  · exact .quiet shown

/-- **A push of an answer that goes on.** -/
theorem pushEvent_moves {event : ModelEvent} (shown : Framed translator frame) (live : translator.stoppedBy = none)
    (fair : strict = true → ¬ Overtakes translator event) :
    Moves strict frame (translator.pushEvent event) ((translator.pushEvent event).1.tools.map Prod.fst)
      ((delivered translator event).map fun entry => PendingTool.call entry.2) := by
  have ready : strict = true → Opens translator event → translator.tools.map Prod.fst = [] := by
    intro strict opens
    by_contra some
    exact fair strict ⟨fun none => some (by rw [none]; rfl), opens⟩
  cases event with
  | start id => exact .quiet shown
  | textStart =>
    rw [pushEvent, (openBlock_same .text 0).tools]
    exact openBlock_moves .text shown fun strict => ready strict live
  | textDelta delta =>
    have same := @ensureOpen_same translator .text 0
    have opened := @ensureOpen_moves strict translator frame _ .text shown fun strict closed => ready strict ⟨live, closed⟩
    have tools : (translator.pushEvent (.textDelta delta)).1.tools = translator.tools :=
      (pushText_tools delta).1.trans same.tools
    rw [tools, pushEvent]
    exact opened.quietly fun after shown => pushText_moves delta shown
  | textEnd =>
    rw [pushEvent, (closeKind_same .text).tools]
    exact closeKind_moves .text shown
  | thinkingStart =>
    rw [pushEvent, (openBlock_same .thinking 0).tools]
    exact openBlock_moves .thinking shown fun strict => ready strict live
  | thinkingDelta delta =>
    have same := @ensureOpen_same translator .thinking 0
    have opened := @ensureOpen_moves strict translator frame _ .thinking shown fun strict closed => ready strict ⟨live, closed⟩
    have tools : (translator.pushEvent (.thinkingDelta delta)).1.tools = translator.tools :=
      (congrArg ResponseTranslator.tools (delta_same _ _ _)).trans same.tools
    rw [tools, pushEvent]
    exact opened.quietly fun after shown => delta_moves shown rfl
  | thinkingSignature signature =>
    rw [pushEvent]
    split
    · rw [delta_same]
      exact delta_moves shown rfl
    · exact .quiet shown
  | thinkingEnd =>
    rw [pushEvent, (closeKind_same .thinking).tools]
    exact closeKind_moves .thinking shown
  | toolCallStart index callId name =>
    rw [pushEvent, reserveTool]
    split
    · exact .quiet shown
    · obtain ⟨last, waits, next⟩ := shown
      refine ⟨[none], _, .single (.reserves), rfl, ⟨last, ?_, ?_⟩, ?_⟩
      · rw [map_append, waits, next]
        rfl
      · exact congrArg (· + 1) next
      · exact (append_nil _).symm
  | toolCallArgumentsDelta index delta =>
    rw [pushEvent, updateTool, updateFirst_indexes]
    exact .quiet ⟨shown.last, shown.waiting, shown.next⟩
  | toolCallEnd index =>
    rw [pushEvent, flushFinishedTools, (flushWhile_tools _ _ _).1]
    refine flushWhile_moves PendingTool.ended ⟨shown.last, ?_, shown.next⟩
    rw [updateTool, updateFirst_indexes]
    exact shown.waiting
  | providerReplayState state =>
    rw [pushEvent, redactedBlocks, (redactedLoop_same _).tools]
    exact redactedLoop_moves shown fun strict block member redacted => ready strict ⟨block, member, redacted⟩
  | stopSequence sequence =>
    rw [pushEvent, (close_same _).tools]
    exact close_moves ⟨shown.last, shown.waiting, shown.next⟩
  | usage usage => exact .quiet ⟨shown.last, shown.waiting, shown.next⟩
  | done reason => exact .quiet ⟨shown.last, shown.waiting, shown.next⟩

end Byok.Gateway
