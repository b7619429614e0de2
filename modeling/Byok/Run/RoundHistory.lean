/-
**A tool round leaves a history that projects.**

Every checkpoint that the execution of a round and the appends around it put on the chain of the run
projects, wherever they stop; and when `execute` returns, the round is seen as one assistant message
with all its calls, their results in the order of their commits, and the messages that came in
meanwhile (`round_history`).

* `InRound` — what holds of a round at each place of `execute`, given the commands it has taken.
* `inRound_step` — one step of `execute` keeps it.
* `historySystem` — rounds and appends of one run, while others use its handle and the store.
-/

import Byok.Library.System
import Byok.Run.RoundProgress

set_option linter.unusedSectionVars false

namespace Byok

open Library Transaction Store List

variable {D : Type} [DecidableEq D] [ChainHash D]

/-- The run goes on from `frame` to `next`, and each new checkpoint on the way projects. -/
structure Frame.Projects (prepared : PreparedRun) (frame next : Frame D) : Prop where
  claimed : next.Claimed prepared
  extends' : Extends frame.store next.store
  path : ∀ row ∈ next.store.lineage next.checkpoint,
    row ∈ frame.store.lineage frame.checkpoint ∨
    ∃ out, projectMessages (next.store.loadCheckpointMessages row.checkpointId) = .ok out

namespace Frame.Projects

variable {prepared : PreparedRun} {frame next : Frame D}

theorem refl (claimed : frame.Claimed prepared) : frame.Projects prepared frame :=
  ⟨claimed, .refl _, fun _ listed => .inl listed⟩

theorem of_moves {additions : List CanonicalMessage} {steps : List (List CanonicalMessage)}
    (moves : frame.Moves prepared next additions steps)
    (projects : ∀ part ∈ steps, ∃ out, projectMessages (frame.chain ++ part) = .ok out) :
    frame.Projects prepared next := by
  refine ⟨moves.claimed, moves.extends', fun row listed => ?_⟩
  rcases moves.path row listed with old | ⟨part, step, load⟩
  · exact .inl old
  · exact .inr (load ▸ projects part step)

theorem port (projects : frame.Projects prepared next) (port : RunPort) :
    frame.Projects prepared { next with port } :=
  ⟨⟨projects.claimed.wellFormed, projects.claimed.run⟩, projects.extends', projects.path⟩

end Frame.Projects

/-- All messages of the batches are outside every round. -/
def LooseBatches (batches : List MessageBatch) : Prop :=
  ∀ batch ∈ batches, ∀ message ∈ batch.messages, message.Loose

/-! ### Where a round is -/

/-- What `execute` is called with. -/
structure RoundCall (base : List CanonicalMessage) (round : ToolRound)
    (insertions : List MessageBatch) : Prop where
  called : round.calls ≠ []
  indexes : (round.calls.map (·.index)).Nodup
  callIds : (round.calls.map (·.callId)).Nodup
  fresh : ∀ message ∈ base, toolRoundPart message ≠ some round.id
  loose : LooseBatches insertions
  projects : ∃ old, projectMessages base = .ok old

/-- The batches of `append_batches` that are not committed yet. -/
def AppendPc.uncommitted : AppendPc → List MessageBatch
  | next todo _ => todo
  | commit batch todo _ _ => batch :: todo
  | deliver _ todo _ _ => todo

/-- The locals of the loop of `execute` after some commands. -/
structure Receiving (round : ToolRound) (insertions : List MessageBatch) (commands : List RunCommand)
    (locals : RoundLocals) : Prop where
  completed : locals.completed = (reported commands).map (·.callId)
  remaining : locals.remaining + (reported commands).length = round.calls.length
  insertions : locals.insertions = insertions ++ commands.filterMap RunCommand.inserted?
  unbroken : commands.filterMap RunCommand.broke? = []

/-- The chain of a round whose results are all committed, with the messages of some batches. -/
structure Appending (base : List CanonicalMessage) (round : ToolRound) (results : List ToolResult)
    (taken : List MessageBatch) (chain : List CanonicalMessage) : Prop where
  answered : Answered round results
  complete : ∀ call ∈ round.calls, call.callId ∈ results.map (·.callId)
  chain : chain = base ++ round.parts 0 (round.answers results) ++
    (newMessages (base ++ round.parts 0 (round.answers results))
      (taken.flatMap (·.messages))).map (·.payload)

/-- What holds of a round after some commands, at each place of `execute`. -/
def InRound (prepared : PreparedRun) (base : List CanonicalMessage) (round : ToolRound)
    (insertions : List MessageBatch) (commands : List RunCommand) (frame : Frame D) : RoundPc → Prop
  | .create waiting => waiting = insertions ∧ commands = [] ∧ frame.chain = base
  | .announce waiting =>
    waiting = insertions ∧ commands = [] ∧ RoundProgress prepared base round [] frame
  | .receive locals =>
    Receiving round insertions commands locals ∧
      RoundProgress prepared base round (reported commands) frame
  | .reported locals _ =>
    Receiving round insertions commands locals ∧
      RoundProgress prepared base round (reported commands) frame
  | .interrupt todo reason batches =>
    batches = roundBatches insertions commands ∧
    ∃ done, round.results commands = done ++ todo.map (interruptedResult reason) ∧
      RoundProgress prepared base round done frame
  | .interrupted todo reason _ batches =>
    batches = roundBatches insertions commands ∧
    ∃ done, round.results commands = done ++ todo.map (interruptedResult reason) ∧
      RoundProgress prepared base round done frame
  | .append pc =>
    (∃ taken, roundBatches insertions commands = taken ++ pc.uncommitted ∧
      Appending base round (round.results commands) taken frame.chain) ∧
    ∀ batch todo inserted known, pc = .commit batch todo inserted known →
      known = frame.chain.map chainIdentity

/-- What holds when `execute` is back. -/
def RoundDone (base : List CanonicalMessage) (round : ToolRound) (insertions : List MessageBatch)
    (commands : List RunCommand) (frame : Frame D) : Prop :=
  Appending base round (round.results commands) (roundBatches insertions commands) frame.chain

/-- What holds of a round after a step. -/
def InProgress (prepared : PreparedRun) (base : List CanonicalMessage) (round : ToolRound)
    (insertions : List MessageBatch) (commands : List RunCommand) (frame : Frame D) :
    Progress RoundPc Unit → Prop
  | .onward pc => InRound prepared base round insertions commands frame pc
  | .returned () => RoundDone base round insertions commands frame
  | .stopped _ => True

/-! ### One step of `execute` -/

section Step

variable {prepared : PreparedRun} {base : List CanonicalMessage} {round : ToolRound}
  {insertions : List MessageBatch} {commands : List RunCommand} {frame next : Frame D}

theorem results_complete {call : ToolCall} (member : call ∈ round.calls) :
    call.callId ∈ (round.results commands).map (·.callId) := by
  by_cases inside : call.callId ∈ (reported commands).map (·.callId)
  · rw [ToolRound.results, map_append]
    exact mem_append_left _ inside
  · refine mem_map.mpr ⟨interruptedResult (interruptionReason commands) call, ?_, rfl⟩
    refine mem_append_right _ (mem_map_of_mem (mem_filter.mpr ⟨member, ?_⟩))
    simpa using inside

theorem projects_results {old : List ProjectedMessage} (projects : projectMessages base = .ok old)
    (fresh : ∀ message ∈ base, toolRoundPart message ≠ some round.id) {results : List ToolResult}
    (answered : Answered round results) {extra : List CanonicalMessage}
    (loose : ∀ message ∈ extra, message.Loose) :
    projectMessages (base ++ round.parts 0 (round.answers results) ++ extra) =
      .ok (old ++ round.projected (round.answers results) ++ extra.map projectMessage) := by
  refine ToolRound.projectMessages_history projects fresh ?_ loose
  rw [answers_callIds answered.known]
  exact answered.distinct

theorem inRound_commit (claimed : frame.Claimed prepared)
    (call : RoundCall base round insertions) {results : List ToolResult}
    (progress : RoundProgress prepared base round results frame) {result : ToolResult}
    {committed : ToolCommit} {store : Store D}
    (ran : Store.commitToolResult prepared.conversationId prepared.runId round.id result
      frame.store = .ok (committed, store)) (port : RunPort) (accounted : List String) :
    let next : Frame D := ⟨store, port, committed.checkpointId, accounted⟩
    frame.Projects prepared next ∧ RoundProgress prepared base round (results ++ [result]) next := by
  obtain ⟨further, part, moves⟩ := progress.commit claimed call.callIds ran
  obtain ⟨old, projects⟩ := call.projects
  have whole := projects_results projects call.fresh further.answered
    (fun message (member : message ∈ []) => by cases member)
  rw [append_nil, ← further.chain] at whole
  refine ⟨?_, ⟨further.answered, further.chain, further.row⟩⟩
  have projected : frame.Projects prepared
      { frame with store, checkpoint := committed.checkpointId } := by
    refine .of_moves moves fun added member => ?_
    rw [mem_singleton.mp member, ← moves.chain]
    exact ⟨_, whole⟩
  exact ⟨⟨projected.claimed.wellFormed, projected.claimed.run⟩, projected.extends', projected.path⟩

theorem inRound_leave {more : List RunCommand} {batches : List MessageBatch} {reason : String}
    {locals : RoundLocals} (receiving : Receiving round insertions commands locals)
    (progress : RoundProgress prepared base round (reported commands) frame)
    (same : reported (commands ++ more) = reported commands)
    (all : roundBatches insertions (commands ++ more) = locals.insertions ++ batches)
    (why : locals.remaining = 0 ∨ reason = interruptionReason (commands ++ more)) :
    InRound prepared base round insertions (commands ++ more) frame
      (RoundPc.leave round locals reason batches) := by
  refine ⟨all.symm, reported commands, ?_, progress⟩
  rw [ToolRound.results, same, RoundLocals.outstanding, receiving.completed]
  congr 1
  rcases why with none | rfl
  · have full : round.calls.length ≤ (reported commands).length := by
      have count := receiving.remaining
      omega
    rw [progress.answered.outstanding full]
    rfl
  · rfl

theorem appending_step (claimed : frame.Claimed prepared) (call : RoundCall base round insertions)
    {taken : List MessageBatch} {pc : AppendPc} {event : Event} {progress : Progress AppendPc Bool}
    (loose : LooseBatches (roundBatches insertions commands))
    (all : roundBatches insertions commands = taken ++ pc.uncommitted)
    (appending : Appending base round (round.results commands) taken frame.chain)
    (known : ∀ batch todo inserted known, pc = .commit batch todo inserted known →
      known = frame.chain.map chainIdentity)
    (steps : pc.Steps prepared frame event next progress) :
    frame.Projects prepared next ∧ InProgress prepared base round insertions commands next
      (RoundPc.ofAppend progress) := by
  cases steps with
  | back inserted =>
    refine ⟨.refl claimed, ?_⟩
    show Appending _ _ _ _ _
    rwa [all, AppendPc.uncommitted, append_nil]
  | look first todo inserted =>
    refine ⟨.refl claimed, ⟨taken, all, appending⟩, fun batch todo inserted known equal => ?_⟩
    cases equal
    exact claimed.identities
  | deliver first todo inserted batchInserted =>
    exact ⟨(Frame.Projects.refl claimed).port _, ⟨taken, all, appending⟩,
      fun batch todo inserted known equal => by cases equal⟩
  | stop pc event outcome => exact ⟨.refl claimed, trivial⟩
  | commit first todo inserted ran =>
    obtain rfl := known first todo inserted _ rfl
    have moves := appendMessagesOnce_moves claimed ran
    have looseTaken : ∀ message ∈ taken.flatMap (·.messages), message.Loose := by
      intro message member
      obtain ⟨batch, inside, listed⟩ := mem_flatMap.mp member
      exact loose batch (all ▸ mem_append_left _ inside) message listed
    have looseFirst : ∀ message ∈ first.messages, message.Loose :=
      loose first (all ▸ mem_append_right _ mem_cons_self)
    set chain := base ++ round.parts 0 (round.answers (round.results commands)) with parts
    have extended : frame.chain =
        chain ++ (newMessages chain (taken.flatMap (·.messages))).map (·.payload) := appending.chain
    have same : newMessages frame.chain first.messages =
        newMessages (chain ++ newMessages chain (taken.flatMap (·.messages))) first.messages := by
      refine newMessages_congr ?_ _
      simp only [extended, map_append, chainIdentity_payload]
    constructor
    · refine .of_moves moves fun part step => ?_
      obtain ⟨prefixed, inits, rfl⟩ := mem_map.mp step
      obtain ⟨old, projects⟩ := call.projects
      have loosePart : ∀ message ∈ (newMessages chain (taken.flatMap (·.messages)) ++ prefixed).map
          (·.payload), message.Loose := by
        intro message member
        obtain ⟨original, inside, rfl⟩ := mem_map.mp member
        refine CanonicalMessage.Loose.payload ?_
        rcases mem_append.mp inside with old | new
        · exact looseTaken original (newMessages_subset _ _ old)
        · exact looseFirst original
            (newMessages_subset _ _ (((mem_inits _ _).mp inits).subset new))
      have whole := projects_results projects call.fresh appending.answered loosePart
      rw [map_append, ← append_assoc, ← parts, ← extended] at whole
      exact ⟨_, whole⟩
    · refine ⟨⟨taken ++ [first], ?_, appending.answered, appending.complete, ?_⟩,
        fun batch todo inserted known equal => by cases equal⟩
      · rw [all]
        simp [AppendPc.uncommitted]
      · rw [moves.chain, same, flatMap_append, newMessages_append, map_append,
          ← append_assoc, ← parts, ← extended]
        simp

/-- **One step of `execute`.** -/
theorem inRound_step (claimed : frame.Claimed prepared) (call : RoundCall base round insertions)
    {pc : RoundPc} {event : Event} {progress : Progress RoundPc Unit}
    (loose : LooseBatches (roundBatches insertions commands))
    (inside : InRound prepared base round insertions commands frame pc)
    (steps : pc.Steps prepared round frame event next progress) :
    frame.Projects prepared next ∧
      InProgress prepared base round insertions (commands ++ event.command?.toList) next progress := by
  cases steps with
  | create waiting ran =>
    obtain ⟨rfl, rfl, chain⟩ := inside
    have moves := createToolRound_moves claimed ran
    exact ⟨.of_moves moves fun part step => (not_mem_nil step).elim, rfl, rfl,
      .create chain ran⟩
  | announce waiting =>
    obtain ⟨rfl, rfl, progress⟩ := inside
    exact ⟨.refl claimed, ⟨rfl, by simp, by simp, rfl⟩, progress⟩
  | elapse locals =>
    obtain ⟨receiving, progress⟩ := inside
    refine ⟨.refl claimed, inRound_leave receiving progress (by simp) ?_ (.inr ?_)⟩
    · simp [roundBatches, receiving.unbroken, receiving.insertions]
    · simp [interruptionReason, receiving.unbroken]
  | @ignore locals result rest queue known =>
    obtain ⟨receiving, progress⟩ := inside
    have same : reported (commands ++ [.toolResult result]) = reported commands := by
      rw [reported_result, if_pos (receiving.completed ▸ known)]
    refine ⟨(Frame.Projects.refl claimed).port _, ?_, ?_⟩
    · refine ⟨?_, ?_, ?_, ?_⟩ <;> simp only [Event.command?, Option.toList_some, same]
      · exact receiving.completed
      · exact receiving.remaining
      · simpa [filterMap_cons] using receiving.insertions
      · simpa using receiving.unbroken
    · simp only [Event.command?, Option.toList_some, same]
      exact ⟨progress.answered, progress.chain, progress.row⟩
  | @report locals result rest committed store queue fresh ran =>
    obtain ⟨receiving, progress⟩ := inside
    obtain ⟨projects, further⟩ := inRound_commit claimed call progress ran
      { frame.port with commands := rest } (result.callId :: frame.accounted)
    have grown : reported (commands ++ [.toolResult result]) = reported commands ++ [result] := by
      rw [reported_result, if_neg (receiving.completed ▸ fresh)]
    refine ⟨projects, ?_, ?_⟩
    · refine ⟨?_, ?_, ?_, ?_⟩ <;> simp only [Event.command?, Option.toList_some, grown]
      · simp [RoundLocals.complete, receiving.completed]
      · have count := receiving.remaining
        have room := further.answered.length_le
        simp only [length_append, length_singleton, RoundLocals.complete] at room ⊢
        omega
      · simpa [RoundLocals.complete, filterMap_cons] using receiving.insertions
      · simpa using receiving.unbroken
    · simp only [Event.command?, Option.toList_some, grown]
      exact further
  | refuse => exact ⟨(Frame.Projects.refl claimed).port _, trivial⟩
  | @broken locals batch rest queue =>
    obtain ⟨receiving, progress⟩ := inside
    refine ⟨(Frame.Projects.refl claimed).port _, ?_⟩
    refine inRound_leave receiving ⟨progress.answered, progress.chain, progress.row⟩ ?_ ?_ (.inr ?_)
    · exact reported_other commands fun result => by simp
    · simp [roundBatches, receiving.unbroken, receiving.insertions]
    · simp [interruptionReason]
  | @insert locals batch rest queue =>
    obtain ⟨receiving, progress⟩ := inside
    have same : reported (commands ++ [.insertMessages batch]) = reported commands :=
      reported_other commands fun result => by simp
    refine ⟨(Frame.Projects.refl claimed).port _, ?_, ?_⟩
    · refine ⟨?_, ?_, ?_, ?_⟩ <;> simp only [Event.command?, Option.toList_some, same]
      · exact receiving.completed
      · exact receiving.remaining
      · simp [RoundLocals.insert, receiving.insertions]
      · simpa using receiving.unbroken
    · simp only [Event.command?, Option.toList_some, same]
      exact ⟨progress.answered, progress.chain, progress.row⟩
  | cancel => exact ⟨(Frame.Projects.refl claimed).port _, trivial⟩
  | settle locals settled none =>
    obtain ⟨receiving, progress⟩ := inside
    refine ⟨.refl claimed, inRound_leave receiving progress (by simp) ?_ (.inl none)⟩
    simp [roundBatches, receiving.unbroken, receiving.insertions]
  | resume locals settled =>
    refine ⟨.refl claimed, ?_⟩
    rw [Event.command?, Option.toList_none, append_nil]
    exact inside
  | complete reason batches =>
    obtain ⟨rfl, done, equal, progress⟩ := inside
    rw [map_nil, append_nil] at equal
    refine ⟨.refl claimed, ⟨[], ?_, ?_⟩, fun batch todo inserted known equal => by cases equal⟩
    · simp [AppendPc.uncommitted]
    · simp only [Event.command?, Option.toList_none, append_nil, equal]
      refine ⟨progress.answered, fun call member => equal ▸ results_complete member, ?_⟩
      rw [progress.chain]
      simp [newMessages]
  | @interrupt unanswered todo reason batches committed store ran =>
    obtain ⟨rfl, done, equal, progress⟩ := inside
    obtain ⟨projects, further⟩ := inRound_commit claimed call progress ran frame.port
      (unanswered.callId :: frame.accounted)
    refine ⟨projects, by simp, _, ?_, further⟩
    simp [equal]
  | interrupted todo reason settled batches =>
    refine ⟨.refl claimed, ?_⟩
    rw [Event.command?, Option.toList_none, append_nil]
    exact inside
  | append steps =>
    obtain ⟨⟨taken, all, appending⟩, known⟩ := inside
    have done := appending_step claimed call loose all appending known steps
    rwa [steps.quiet, Option.toList_none, append_nil]
  | stop => exact ⟨.refl claimed, trivial⟩

end Step

/-! ### The system -/

/-- What the run is doing. -/
inductive Place where
  | idle
  | round (round : ToolRound) (pc : RoundPc)
  | stopped (outcome : RunOutcome)
deriving DecidableEq, Repr

/-- Where the run is after a step of `execute`. -/
def Place.after (round : ToolRound) : Progress RoundPc Unit → Place
  | .onward pc => .round round pc
  | .returned () => .idle
  | .stopped outcome => .stopped outcome

structure HistoryState (D : Type) where
  frame : Frame D
  place : Place

/-- What happens: the run starts a round, takes a step of it, or appends messages; or somebody uses
its handle, or the store. -/
inductive HistoryLabel where
  | execute (round : ToolRound) (insertions : List MessageBatch)
  | code (nowMs : Int) (event : Event)
  | append (additions : List CanonicalMessage)
  | appendOnce (messages : List CanonicalMessage)
  | submit (eventId : String) (messages : List CanonicalMessage) (shouldBreak : Bool)
  | toolResult (result : ToolResult)
  | cancel
  | store (operation : Operation)

namespace HistoryLabel

/-- The command that the run takes from its queue. -/
def command? : HistoryLabel → Option RunCommand
  | code _ event => event.command?
  | execute _ _ | append _ | appendOnce _ => none
  | submit _ _ _ | toolResult _ | cancel | store _ => none

/-- The label starts nothing: it is a step of the round, or somebody else's. -/
def inside : HistoryLabel → Bool
  | execute _ _ | append _ | appendOnce _ => false
  | _ => true

end HistoryLabel

/-- The steps. Messages that are appended or submitted are outside every round, and a round that is
started has calls with distinct ids and indexes and an id that no part on the chain has. -/
inductive HistoryStep (prepared : PreparedRun) :
    HistoryState D → HistoryLabel → HistoryState D → Prop
  | execute {frame : Frame D} {round : ToolRound} {insertions : List MessageBatch}
      (called : round.calls ≠ []) (indexes : (round.calls.map (·.index)).Nodup)
      (callIds : (round.calls.map (·.callId)).Nodup)
      (fresh : ∀ message ∈ frame.chain, toolRoundPart message ≠ some round.id)
      (loose : LooseBatches insertions) :
      HistoryStep prepared ⟨frame, .idle⟩ (.execute round insertions)
        ⟨frame, .round round (.create insertions)⟩
  | code {frame next : Frame D} {round : ToolRound} {pc : RoundPc} {nowMs : Int} {event : Event}
      {progress : Progress RoundPc Unit}
      (stepped : pc.step prepared nowMs round frame event = some (next, progress)) :
      HistoryStep prepared ⟨frame, .round round pc⟩ (.code nowMs event)
        ⟨next, .after round progress⟩
  | append {frame : Frame D} {additions : List CanonicalMessage} {store : Store D}
      {checkpoint : CheckpointId} (loose : ∀ message ∈ additions, message.Loose)
      (ran : appendCheckpoint prepared.conversationId prepared.runId frame.checkpoint additions
        frame.store = .ok (checkpoint, store)) :
      HistoryStep prepared ⟨frame, .idle⟩ (.append additions)
        ⟨{ frame with store, checkpoint }, .idle⟩
  | appendOnce {frame : Frame D} {messages : List CanonicalMessage} {store : Store D}
      {appended : List (CheckpointId × Bool)} (loose : ∀ message ∈ messages, message.Loose)
      (ran : appendMessagesOnce prepared.conversationId prepared.runId frame.checkpoint
        (frame.store.chainIdentities prepared.conversationId frame.checkpoint) messages frame.store =
          .ok (appended, store)) :
      HistoryStep prepared ⟨frame, .idle⟩ (.appendOnce messages)
        ⟨{ frame with
            store, checkpoint := (appended.getLast?.map (·.1)).getD frame.checkpoint }, .idle⟩
  | submit {frame : Frame D} {place : Place} {eventId : String} {messages : List CanonicalMessage}
      {shouldBreak : Bool} (loose : ∀ message ∈ messages, message.Loose) :
      HistoryStep prepared ⟨frame, place⟩ (.submit eventId messages shouldBreak)
        ⟨{ frame with port := (frame.port.submitMessages eventId messages shouldBreak).2 }, place⟩
  | toolResult {frame : Frame D} {place : Place} {result : ToolResult} :
      HistoryStep prepared ⟨frame, place⟩ (.toolResult result)
        ⟨{ frame with port := (frame.port.toolResult result).2 }, place⟩
  | cancel {frame : Frame D} {place : Place} :
      HistoryStep prepared ⟨frame, place⟩ .cancel
        ⟨{ frame with port := frame.port.cancel }, place⟩
  | store {frame : Frame D} {place : Place} {operation : Operation}
      (foreign : ¬ operation.CommitOf prepared.runId) :
      HistoryStep prepared ⟨frame, place⟩ (.store operation)
        ⟨{ frame with store := operation.apply frame.store }, place⟩

/-- A claimed run between two rounds, on a chain that projects. -/
structure HistoryStart (prepared : PreparedRun) (state : HistoryState D) : Prop where
  claimed : state.frame.Claimed prepared
  idle : state.place = .idle
  queue : LooseBatches state.frame.port.queued
  projects : ∃ out, projectMessages state.frame.chain = .ok out

/-- The tool rounds and the appends of a run. -/
def historySystem (D : Type) [DecidableEq D] [ChainHash D] (prepared : PreparedRun) :
    System (HistoryState D) HistoryLabel where
  initial := HistoryStart prepared
  step := HistoryStep prepared

/-! ### A round while others act -/

section Within

variable {prepared : PreparedRun} {base : List CanonicalMessage} {round : ToolRound}
  {insertions : List MessageBatch} {commands : List RunCommand}

theorem InRound.leaves {frame next : Frame D} {pc : RoundPc}
    (inside : InRound prepared base round insertions commands frame pc)
    (leaves : Leaves prepared.runId frame.store next.store) (chain : next.chain = frame.chain) :
    InRound prepared base round insertions commands next pc := by
  cases pc with
  | create => exact ⟨inside.1, inside.2.1, chain.trans inside.2.2⟩
  | announce => exact ⟨inside.1, inside.2.1, inside.2.2.leaves leaves chain⟩
  | receive => exact ⟨inside.1, inside.2.leaves leaves chain⟩
  | reported => exact ⟨inside.1, inside.2.leaves leaves chain⟩
  | interrupt =>
    obtain ⟨all, done, equal, progress⟩ := inside
    exact ⟨all, done, equal, progress.leaves leaves chain⟩
  | interrupted =>
    obtain ⟨all, done, equal, progress⟩ := inside
    exact ⟨all, done, equal, progress.leaves leaves chain⟩
  | append =>
    simp only [InRound, chain]
    exact inside

/-- Where the run is after it has started a round on `base` and taken some commands. -/
structure Within (prepared : PreparedRun) (base : List CanonicalMessage) (round : ToolRound)
    (insertions : List MessageBatch) (commands : List RunCommand) (state : HistoryState D) : Prop where
  claimed : state.frame.Claimed prepared
  queue : LooseBatches state.frame.port.queued
  loose : LooseBatches (roundBatches insertions commands)
  place : match state.place with
    | .idle => RoundDone base round insertions commands state.frame
    | .round other pc => other = round ∧
        InRound prepared base round insertions commands state.frame pc
    | .stopped _ => True

theorem Within.port {state : HistoryState D}
    (within : Within prepared base round insertions commands state) {port : RunPort}
    (queue : LooseBatches port.queued) :
    Within prepared base round insertions commands ⟨{ state.frame with port }, state.place⟩ := by
  refine ⟨⟨within.claimed.wellFormed, within.claimed.run⟩, queue, within.loose, ?_⟩
  rcases state with ⟨frame, place⟩
  have here := within.place
  cases place with
  | idle => exact here
  | stopped => exact here
  | round other pc => exact ⟨here.1, here.2.leaves (.frame rfl rfl) rfl⟩

theorem looseBatches_concat (loose : LooseBatches (roundBatches insertions commands))
    {command : RunCommand} (batch : LooseBatches command.batch?.toList) :
    LooseBatches (roundBatches insertions (commands ++ [command])) := by
  intro other member
  simp only [roundBatches, filterMap_append, mem_append] at member
  have old : other ∈ insertions ∨ other ∈ commands.filterMap RunCommand.inserted? ∨
      other ∈ commands.filterMap RunCommand.broke? → other ∈ roundBatches insertions commands := by
    simp only [roundBatches, mem_append]
    tauto
  have new : other ∈ [command].filterMap RunCommand.inserted? ∨
      other ∈ [command].filterMap RunCommand.broke? → other ∈ command.batch?.toList := by
    cases command <;> simp [filterMap_cons, RunCommand.batch?]
  rcases member with (member | member | member) | member | member
  · exact loose other (old (.inl member))
  · exact loose other (old (.inr (.inl member)))
  · exact batch other (new (.inl member))
  · exact loose other (old (.inr (.inr member)))
  · exact batch other (new (.inr member))

theorem looseBatches_submit {port : RunPort} (queue : LooseBatches port.queued) {eventId : String}
    {messages : List CanonicalMessage} {shouldBreak : Bool}
    (loose : ∀ message ∈ messages, message.Loose) :
    LooseBatches (port.submitMessages eventId messages shouldBreak).2.queued := by
  rcases port.submitMessages_cases eventId messages shouldBreak with
    ⟨result, -, equal⟩ | ⟨batch, command, rfl, found, -, equal⟩
  · rwa [equal]
  · rw [equal]
    intro other member
    have queued : other ∈ port.queued ++ command.batch?.toList :=
      port.queued_send command ▸ member
    rcases mem_append.mp queued with old | new
    · exact queue other old
    · rw [found] at new
      rwa [mem_singleton.mp new]

/-- **A step inside a round.** -/
theorem within_step {state after : HistoryState D} {label : HistoryLabel}
    (call : RoundCall base round insertions)
    (within : Within prepared base round insertions commands state)
    (step : HistoryStep prepared state label after) (inside : label.inside = true) :
    state.frame.Projects prepared after.frame ∧
      Within prepared base round insertions (commands ++ label.command?.toList) after := by
  cases step with
  | execute => cases inside
  | append => cases inside
  | appendOnce => cases inside
  | @code frame next other pc nowMs event progress stepped =>
    obtain ⟨rfl, here⟩ := within.place
    have steps := RoundPc.steps stepped
    obtain ⟨projects, later⟩ := inRound_step within.claimed call within.loose here steps
    obtain ⟨taken, left⟩ := steps.queue
    refine ⟨projects, projects.claimed, fun batch member => within.queue batch (left member), ?_, ?_⟩
    · show LooseBatches (roundBatches insertions (commands ++ event.command?.toList))
      cases command : event.command? with
      | none =>
        rw [Option.toList_none, append_nil]
        exact within.loose
      | some command' =>
        exact looseBatches_concat within.loose fun batch member =>
          within.queue batch (taken command' command member)
    · cases progress with
      | onward pc => exact ⟨rfl, later⟩
      | returned value => exact later
      | stopped outcome => trivial
  | submit loose =>
    refine ⟨(Frame.Projects.refl within.claimed).port _, ?_⟩
    rw [HistoryLabel.command?, Option.toList_none, append_nil]
    exact within.port (looseBatches_submit within.queue loose)
  | @toolResult frame place result =>
    refine ⟨(Frame.Projects.refl within.claimed).port _, ?_⟩
    rw [HistoryLabel.command?, Option.toList_none, append_nil]
    exact within.port (frame.port.queued_toolResult result ▸ within.queue)
  | @cancel frame place =>
    refine ⟨(Frame.Projects.refl within.claimed).port _, ?_⟩
    rw [HistoryLabel.command?, Option.toList_none, append_nil]
    exact within.port (frame.port.queued_cancel ▸ within.queue)
  | @store frame place operation foreign =>
    have moves := foreign_moves within.claimed foreign
    have leaves := foreign_apply within.claimed.wellFormed foreign
    have chain := moves.chain
    rw [append_nil] at chain
    refine ⟨.of_moves moves fun part step => (not_mem_nil step).elim, ?_⟩
    rw [HistoryLabel.command?, Option.toList_none, append_nil]
    refine ⟨moves.claimed, within.queue, within.loose, ?_⟩
    have here := within.place
    cases place with
    | idle =>
      show Appending _ _ _ _ _
      rw [chain]
      exact here
    | round other pc => exact ⟨here.1, here.2.leaves leaves chain⟩
    | stopped outcome => trivial

end Within

/-! ### Rounds and appends in any order -/

section History

variable {prepared : PreparedRun}

theorem Frame.Projects.trans {frame middle last : Frame D} (one : frame.Projects prepared middle)
    (two : middle.Projects prepared last) : frame.Projects prepared last := by
  refine ⟨two.claimed, one.extends'.trans two.extends', fun row listed => ?_⟩
  rcases two.path row listed with old | projects
  · rcases one.path row old with older | projects
    · exact .inl older
    · refine .inr ?_
      rwa [load_extends one.claimed.wellFormed two.claimed.wellFormed two.extends'
        (ancestry_subset old)]
  · exact .inr projects

/-- What holds of the run at any time. -/
structure Holds (prepared : PreparedRun) (state : HistoryState D) : Prop where
  claimed : state.frame.Claimed prepared
  queue : LooseBatches state.frame.port.queued
  place : match state.place with
    | .idle => ∃ out, projectMessages state.frame.chain = .ok out
    | .round round _ => ∃ base insertions commands, RoundCall base round insertions ∧
        Within prepared base round insertions commands state
    | .stopped _ => True

theorem RoundDone.projects {base : List CanonicalMessage} {round : ToolRound}
    {insertions : List MessageBatch} {commands : List RunCommand} {frame : Frame D}
    (done : RoundDone base round insertions commands frame) (call : RoundCall base round insertions)
    (loose : LooseBatches (roundBatches insertions commands)) {old : List ProjectedMessage}
    (projects : projectMessages base = .ok old) :
    projectMessages frame.chain = .ok (old ++
      round.projected (round.answers (round.results commands)) ++
      (newMessages (base ++ round.parts 0 (round.answers (round.results commands)))
        ((roundBatches insertions commands).flatMap (·.messages))).map projectMessage) := by
  have looseAll : ∀ message ∈ (roundBatches insertions commands).flatMap (·.messages),
      message.Loose := by
    intro message member
    obtain ⟨batch, inside, listed⟩ := mem_flatMap.mp member
    exact loose batch inside message listed
  have looseNew : ∀ message ∈ newMessages (base ++ round.parts 0 (round.answers
      (round.results commands))) ((roundBatches insertions commands).flatMap (·.messages)),
      message.Loose := fun message member => looseAll message (newMessages_subset _ _ member)
  rw [done.chain, projects_results projects call.fresh done.answered, map_map]
  · refine congrArg _ (congrArg _ (map_congr_left fun message member => ?_))
    exact projectMessage_payload (looseNew message member)
  · intro message member
    obtain ⟨original, inside, rfl⟩ := mem_map.mp member
    exact (looseNew original inside).payload

theorem holds_append {frame next : Frame D} {additions : List CanonicalMessage}
    {steps : List (List CanonicalMessage)} (holds : Holds prepared ⟨frame, .idle⟩)
    (moves : frame.Moves prepared next additions steps) (port : next.port = frame.port)
    (loose : ∀ message ∈ additions, message.Loose)
    (prefixes : ∀ part ∈ steps, part ⊆ additions) :
    frame.Projects prepared next ∧ Holds prepared ⟨next, .idle⟩ := by
  obtain ⟨out, projects⟩ := holds.place
  have extended : ∀ part, part ⊆ additions →
      ∃ out, projectMessages (frame.chain ++ part) = .ok out := by
    intro part sub
    have looseInside : ∀ message ∈ part, message.Loose := fun message member =>
      loose message (sub member)
    rw [projectMessages_append fun message head =>
      (looseInside message (mem_of_mem_head? head)).apart _, projects,
      projectMessages_loose looseInside]
    exact ⟨_, rfl⟩
  refine ⟨.of_moves moves fun part step => extended part (prefixes part step), moves.claimed,
    ?_, ?_⟩
  · show LooseBatches next.port.queued
    rw [port]
    exact holds.queue
  · show ∃ out, projectMessages next.chain = .ok out
    rw [moves.chain]
    exact extended additions (List.Subset.refl _)

/-- **One step.** -/
theorem holds_step {state after : HistoryState D} {label : HistoryLabel}
    (holds : Holds prepared state) (step : HistoryStep prepared state label after) :
    state.frame.Projects prepared after.frame ∧ Holds prepared after := by
  -- a step inside a round, and what others do
  have inside : label.inside = true → ∀ round pc, state.place = .round round pc →
      state.frame.Projects prepared after.frame ∧ Holds prepared after := by
    intro kind round pc here
    have place := holds.place
    rw [here] at place
    obtain ⟨base, insertions, commands, call, within⟩ := place
    obtain ⟨projects, later⟩ := within_step call within step kind
    refine ⟨projects, projects.claimed, later.queue, ?_⟩
    cases place : after.place with
    | idle =>
      obtain ⟨old, projects⟩ := call.projects
      have done := later.place
      rw [place] at done
      exact ⟨_, RoundDone.projects done call later.loose projects⟩
    | round other pc =>
      have same := later.place
      rw [place] at same
      obtain ⟨rfl, -⟩ := same
      exact ⟨base, insertions, _, call, later⟩
    | stopped outcome => trivial
  cases step with
  | execute called indexes callIds fresh loose =>
    refine ⟨.refl holds.claimed, holds.claimed, holds.queue, _, _, [],
      ⟨called, indexes, callIds, fresh, loose, holds.place⟩, holds.claimed, holds.queue, ?_,
      rfl, rfl, rfl, rfl⟩
    simpa [roundBatches] using loose
  | code stepped => exact inside rfl _ _ rfl
  | @append frame additions store checkpoint loose ran =>
    by_cases empty : additions = []
    · rw [appendCheckpoint, if_pos empty] at ran
      obtain ⟨rfl, rfl⟩ := pure_ok.mp ran
      exact ⟨.refl holds.claimed, holds⟩
    · refine holds_append holds (appendCheckpoint_moves holds.claimed empty ran) rfl ?_ ?_
      · intro message member
        obtain ⟨original, listed, rfl⟩ := mem_map.mp member
        exact (loose original listed).payload
      · intro part member
        rw [mem_singleton.mp member]
        exact List.Subset.refl _
  | @appendOnce frame messages store appended loose ran =>
    have identities : frame.store.chainIdentities prepared.conversationId frame.checkpoint =
        frame.chain.map chainIdentity := holds.claimed.identities
    rw [identities] at ran
    refine holds_append holds (appendMessagesOnce_moves holds.claimed ran) rfl ?_ ?_
    · intro message member
      obtain ⟨original, listed, rfl⟩ := mem_map.mp member
      exact (loose original (newMessages_subset _ _ listed)).payload
    · intro part member
      obtain ⟨prefixed, listed, rfl⟩ := mem_map.mp member
      exact map_subset _ ((mem_inits _ _).mp listed).subset
  | @submit frame place eventId messages shouldBreak loose =>
    cases place with
    | round round pc => exact inside rfl round pc rfl
    | _ => exact ⟨(Frame.Projects.refl holds.claimed).port _,
        ⟨holds.claimed.wellFormed, holds.claimed.run⟩, looseBatches_submit holds.queue loose,
        holds.place⟩
  | @toolResult frame place result =>
    cases place with
    | round round pc => exact inside rfl round pc rfl
    | _ => exact ⟨(Frame.Projects.refl holds.claimed).port _,
        ⟨holds.claimed.wellFormed, holds.claimed.run⟩,
        frame.port.queued_toolResult result ▸ holds.queue, holds.place⟩
  | @cancel frame place =>
    cases place with
    | round round pc => exact inside rfl round pc rfl
    | _ => exact ⟨(Frame.Projects.refl holds.claimed).port _,
        ⟨holds.claimed.wellFormed, holds.claimed.run⟩, frame.port.queued_cancel ▸ holds.queue,
        holds.place⟩
  | @store frame place operation foreign =>
    cases place with
    | round round pc => exact inside rfl round pc rfl
    | idle =>
      refine holds_append holds (foreign_moves holds.claimed foreign) rfl ?_ ?_
      · exact fun message member => (not_mem_nil member).elim
      · exact fun part member => (not_mem_nil member).elim
    | stopped outcome =>
      have moves := foreign_moves holds.claimed foreign
      exact ⟨.of_moves moves fun part step => (not_mem_nil step).elim, moves.claimed,
        holds.queue, trivial⟩

/-- What the provider sees of a whole round: one assistant message with all its calls by index, and
the results. -/
def ToolRound.view (round : ToolRound) (results : List ToolResult) : List ProjectedMessage :=
  roundMessages
    (round.id.value ++ ":" ++ (results.head?.map (·.callId)).getD "" ++ ":assistant")
    round.assistant.text round.assistant.thinking round.assistant.replayState
    (ToolRound.sorted (round.calls.map fun call => normalizedToolCall call.content))
    ((round.answers results).map round.projectedResult)

theorem projected_eq_view {round : ToolRound} {results : List ToolResult}
    (called : round.calls ≠ []) (indexes : (round.calls.map (·.index)).Nodup)
    (callIds : (round.calls.map (·.callId)).Nodup) (answered : Answered round results)
    (complete : ∀ call ∈ round.calls, call.callId ∈ results.map (·.callId)) :
    round.projected (round.answers results) = round.view results := by
  have perm := answered.perm callIds complete
  have sorted : ToolRound.sorted ((round.answers results).map ToolRound.projectedCall) =
      ToolRound.sorted (round.calls.map fun call => normalizedToolCall call.content) := by
    have mapped := perm.map fun call => normalizedToolCall call.content
    rw [map_map] at mapped
    refine ToolRound.sorted_perm mapped ?_
    rw [map_map]
    exact indexes
  have ids := answers_callIds answered.known
  rw [ToolRound.view, ← sorted]
  cases found : round.answers results with
  | nil =>
    rw [found] at perm
    exact absurd perm.symm.eq_nil called
  | cons first rest =>
    rw [found] at ids
    cases results with
    | nil => cases ids
    | cons result others =>
      have head : first.1.callId = result.callId := (List.cons.inj ids).1
      rw [ToolRound.projected, head]
      rfl

/-- The history that the rounds and appends of a run leave. -/
structure RoundHistory (prepared : PreparedRun) (start last : HistoryState D)
    (labels : List HistoryLabel) : Prop where
  /-- Every checkpoint that was put below the old head projects. -/
  everywhere : ∀ row ∈ last.frame.store.lineage last.frame.checkpoint,
    row ∈ start.frame.store.lineage start.frame.checkpoint ∨
    ∃ out, projectMessages (last.frame.store.loadCheckpointMessages row.checkpointId) = .ok out
  /-- A round that is back is seen as one assistant message, the results in the order of their
  commits, one for each call, and the messages that came in, in the order of their arrival. -/
  returned : ∀ round insertions inside old, labels = .execute round insertions :: inside →
    (∀ label ∈ inside, label.inside = true) → last.place = .idle →
    projectMessages start.frame.chain = .ok old →
    let commands := inside.filterMap HistoryLabel.command?
    let results := round.results commands
    (results.map (·.callId)).Perm (round.calls.map (·.callId)) ∧
    projectMessages last.frame.chain = .ok (old ++ round.view results ++
      (newMessages (start.frame.chain ++ round.parts 0 (round.answers results))
        ((roundBatches insertions commands).flatMap (·.messages))).map projectMessage)

/-- **Every checkpoint of the rounds and appends of a run projects, and a round that is back is seen
whole.** -/
theorem round_history {start last : HistoryState D} {labels : List HistoryLabel}
    (begun : HistoryStart prepared start)
    (run : (historySystem D prepared).Run start labels last) :
    RoundHistory prepared start last labels := by
  have holds : Holds prepared start := by
    refine ⟨begun.claimed, begun.queue, ?_⟩
    rw [begun.idle]
    exact begun.projects
  constructor
  case everywhere =>
    have projects : start.frame.Projects prepared last.frame ∧ Holds prepared last := by
      clear begun
      induction run with
      | nil => exact ⟨.refl holds.claimed, holds⟩
      | snoc run step ih =>
        obtain ⟨before, later⟩ := ih
        obtain ⟨projects, after⟩ := holds_step later step
        exact ⟨before.trans projects, after⟩
    exact projects.1.path
  case returned =>
    rintro round insertions inside old rfl steps idle projects
    obtain ⟨first, executed, inner⟩ := run.uncons
    have within : RoundCall start.frame.chain round insertions ∧
        Within prepared start.frame.chain round insertions [] first := by
      cases executed with
      | execute called indexes callIds fresh loose =>
        refine ⟨⟨called, indexes, callIds, fresh, loose, old, projects⟩, begun.claimed,
          begun.queue, ?_, rfl, rfl, rfl, rfl⟩
        simpa [roundBatches] using loose
    obtain ⟨call, within⟩ := within
    have whole : Within prepared start.frame.chain round insertions
        (inside.filterMap HistoryLabel.command?) last := by
      clear idle run
      induction inner with
      | nil => exact within
      | @snoc labels before after label _ step ih =>
        have here := ih fun other member => steps other (mem_append_left _ member)
        have next := (within_step call here step
          (steps label (mem_append_right _ (mem_singleton_self _)))).2
        rw [filterMap_append]
        cases found : label.command? with
        | none => simpa [found] using next
        | some command => simpa [found] using next
    have done := whole.place
    rw [idle] at done
    refine ⟨?_, ?_⟩
    · have perm := (done.answered.perm call.callIds done.complete).map fun call => call.callId
      have ids := answers_callIds done.answered.known
      rw [map_map] at perm
      exact ids ▸ perm
    · rw [done.projects call whole.loose projects, projected_eq_view call.called call.indexes
        call.callIds done.answered done.complete]

end History

/-- A round with two calls. -/
def sampleToolRound : ToolRound :=
  { id := ⟨"first:round:0"⟩
    assistant := ⟨"looking", "", "model-call", none⟩
    calls := [⟨0, "read", "model-call", "Read", "{}", .null, none⟩,
      ⟨1, "grep", "model-call", "Grep", "{}", .null, none⟩]
    recoveredStartedAtMs := none }

/-- A message that comes in while the round waits. -/
def sampleMeanwhile : MessageBatch :=
  ⟨"later", [{ sampleAsked "later" "Look here, too." with runtimeEventId := some "later" }], 0⟩

/-- The second call has its result first, then the message comes in, then the first call has its. -/
def sampleInside : List HistoryLabel :=
  [.code 0 .proceed, .code 0 .proceed, .toolResult ⟨"grep", "a match", false, none⟩,
    .submit "later" sampleMeanwhile.messages false, .toolResult ⟨"read", "text", false, none⟩,
    .code 0 (.receive (.toolResult ⟨"grep", "a match", false, none⟩)), .code 0 .proceed,
    .code 0 (.receive (.insertMessages sampleMeanwhile)),
    .code 0 (.receive (.toolResult ⟨"read", "text", false, none⟩))] ++
    replicate 6 (.code 0 .proceed)

/-- What `label` does inside the round. -/
def sampleAct (state : HistoryState HistoryDigest) :
    HistoryLabel → Option (HistoryState HistoryDigest)
  | .code nowMs event =>
    match state.place with
    | .round round pc =>
      (pc.step (samplePrepared "first") nowMs round state.frame event).map fun moved =>
        ⟨moved.1, .after round moved.2⟩
    | _ => none
  | .submit eventId messages shouldBreak =>
    if messages = sampleMeanwhile.messages then
      some { state with frame := { state.frame with
        port := (state.frame.port.submitMessages eventId messages shouldBreak).2 } }
    else none
  | .toolResult result =>
    some { state with frame := { state.frame with port := (state.frame.port.toolResult result).2 } }
  | _ => none

theorem sampleMeanwhile_loose : ∀ message ∈ sampleMeanwhile.messages, message.Loose := by
  intro message member
  obtain rfl := mem_singleton.mp member
  exact ⟨by decide, fun result => by simp [sampleAsked]⟩

theorem sampleAct_run {labels : List HistoryLabel} {start last : HistoryState HistoryDigest}
    (ran : labels.foldlM sampleAct start = some last) :
    (historySystem HistoryDigest (samplePrepared "first")).Run start labels last := by
  induction labels generalizing start with
  | nil =>
    obtain rfl := Option.some.inj ran
    exact .nil
  | cons label rest ih =>
    rw [foldlM_cons] at ran
    obtain ⟨next, acted, ran⟩ := Option.bind_eq_some_iff.mp ran
    refine .cons ?_ (ih ran)
    obtain ⟨frame, place⟩ := start
    cases label with
    | code nowMs event =>
      cases place with
      | round round pc =>
        obtain ⟨⟨next, progress⟩, stepped, rfl⟩ := Option.map_eq_some_iff.mp acted
        exact .code stepped
      | _ => cases acted
    | submit eventId messages shouldBreak =>
      rw [sampleAct, Option.ite_none_right_eq_some] at acted
      obtain ⟨rfl, acted⟩ := acted
      obtain rfl := Option.some.inj acted
      exact .submit sampleMeanwhile_loose
    | toolResult result =>
      obtain rfl := Option.some.inj acted
      exact .toolResult
    | _ => cases acted

def sampleExecuting : HistoryState HistoryDigest :=
  ⟨sampleFrame, .round sampleToolRound (.create [])⟩

/-- The results come in out of order, and a message between them. -/
theorem round_history_sample : ∃ last : HistoryState HistoryDigest, last.place = .idle ∧
    RoundHistory (samplePrepared "first") ⟨sampleFrame, .idle⟩ last
      (.execute sampleToolRound [] :: sampleInside) := by
  have empty : sampleFrame.chain = [] := rfl
  have begun : HistoryStart (samplePrepared "first") ⟨sampleFrame, .idle⟩ := by
    refine ⟨claimed_sample, rfl, fun batch member => (not_mem_nil member).elim, [], ?_⟩
    rw [empty, projectMessages_eq_transduce]
    rfl
  have returns : (sampleInside.foldlM sampleAct sampleExecuting).map HistoryState.place =
      some .idle := by decide +kernel
  obtain ⟨last, ran, idle⟩ := Option.map_eq_some_iff.mp returns
  exact ⟨last, idle, round_history begun (.cons (.execute (by simp [sampleToolRound])
    (by simp [sampleToolRound]) (by simp [sampleToolRound]) (by simp [empty])
    (fun batch member => (not_mem_nil member).elim)) (sampleAct_run ran))⟩

end Byok
