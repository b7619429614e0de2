/-
**What a step of the engine can do.**

Every step of `run_claimed` moves the run on along its chain, replaces its checkpoint, answers a batch,
changes the phase of the port, or ends the run (`EngineState.Effect`). Here are the effects of the
functions that the engine calls: `append_batches`, `execute`, `drain_accepted`.

* `EnginePc.held` — the batches that the run has in its hands at a place.
* `EnginePc.stage` — how far the run is with its closing.
-/

import Byok.Run.Commits
import Byok.Run.Engine
import Byok.Store.Storable

set_option linter.unusedSectionVars false

namespace Byok

open Library Transaction Store List

variable {D : Type} [DecidableEq D] [ChainHash D]

/-! ### Places -/

/-- Whether the run still takes messages, is taking those that are in its queue, has taken them all, or
has its outcome. -/
inductive Stage where
  | running
  | draining
  | drained
  | closed
deriving DecidableEq, Repr

/-- The event that ends a run that completes. -/
@[simp]
def Announcement.final : Announcement → Bool
  | messagesCommitted .finalTurn | messagesCommitted .compaction => true
  | messagesCommitted .initialMessages | cycleInterrupted | modelAttemptFailed => false
  | textDelta | usageSnapshot | autoCompactionStarted | autoCompactionCompleted => false

/-- The stage before an event is emitted. -/
@[simp]
def Stage.before (last : Bool) : Stage → Stage
  | closed => if last then drained else running
  | running => running
  | draining => draining
  | drained => drained

namespace EnginePc

/-- The batches that are not answered yet. -/
@[simp]
def held : EnginePc → List MessageBatch
  | round _ pc => pc.held
  | streaming pending | retrying pending | answering _ pending | manualReplacing pending => pending
  | truncated _ _ pending => pending
  | compacting job | summaryCalling job | summarising job | replacing job => job.pending
  | append pc _ => pc.held
  | draining _ accepted => accepted
  | announcing _ after => after.held
  | claiming | settings | collecting _ _ | reading _ _ | storing _ _ _ | cycle => []
  | calling | hydrating | background | listening | finalizing _ => []
  | ended _ _ | finished _ => []

/-- How far the run is with its closing. -/
@[simp]
def stage : EnginePc → Stage
  | draining _ _ => .draining
  | append _ (.closing _) => .drained
  | append _ .cycle | append _ .answer | append _ (.overflow _) | append _ .replaced => .running
  | announcing what after => after.stage.before (what.final && after = stop .completed)
  | ended _ _ | finished _ => .closed
  | claiming | settings | collecting _ _ | reading _ _ | storing _ _ _ | cycle => .running
  | calling | hydrating | truncated _ _ _ | background | listening | finalizing _ => .running
  | round _ _ | streaming _ | retrying _ | answering _ _ | manualReplacing _ => .running
  | compacting _ | summaryCalling _ | summarising _ | replacing _ => .running

end EnginePc

/-- The identities that were read for a batch. -/
@[simp]
def AppendPc.known? : AppendPc → Option (List ChainIdentity)
  | next _ _ => none
  | commit _ _ _ known => some known
  | deliver _ _ _ _ => none

/-- The batch that is committed and not answered yet. -/
@[simp]
def AppendPc.delivering? : AppendPc → Option MessageBatch
  | next _ _ => none
  | commit _ _ _ _ => none
  | deliver batch _ _ _ => some batch

@[simp]
def RoundPc.known? : RoundPc → Option (List ChainIdentity)
  | append pc => pc.known?
  | create _ | announce _ | receive _ | reported _ _ | interrupt _ _ _ | interrupted _ _ _ _ => none

@[simp]
def RoundPc.delivering? : RoundPc → Option MessageBatch
  | append pc => pc.delivering?
  | create _ | announce _ | receive _ | reported _ _ | interrupt _ _ _ | interrupted _ _ _ _ => none

namespace EnginePc

/-- The identities of the chain that were read for the commit at a place. -/
@[simp]
def known? : EnginePc → Option (List ChainIdentity)
  | storing _ known _ => some known
  | round _ pc => pc.known?
  | append pc _ => pc.known?
  | announcing _ after => after.known?
  | claiming | settings | collecting _ _ | reading _ _ | cycle | calling | hydrating => none
  | streaming _ | retrying _ | answering _ _ | truncated _ _ _ | background | listening => none
  | compacting _ | summaryCalling _ | summarising _ | replacing _ | manualReplacing _ => none
  | finalizing _ | draining _ _ | ended _ _ | finished _ => none

/-- The batch that is committed and not answered yet. -/
@[simp]
def delivering? : EnginePc → Option MessageBatch
  | round _ pc => pc.delivering?
  | append pc _ => pc.delivering?
  | announcing _ after => after.delivering?
  | claiming | settings | collecting _ _ | reading _ _ | storing _ _ _ | cycle | calling => none
  | hydrating | streaming _ | retrying _ | answering _ _ | truncated _ _ _ | background => none
  | compacting _ | summaryCalling _ | summarising _ | replacing _ | manualReplacing _ => none
  | listening | finalizing _ | draining _ _ | ended _ _ | finished _ => none

/-- The run has not claimed its conversation, or has let go of it. -/
@[simp]
def unclaimed : EnginePc → Bool
  | claiming | finished _ => true
  | settings | collecting _ _ | reading _ _ | storing _ _ _ | cycle | calling | hydrating => false
  | round _ _ | streaming _ | retrying _ | answering _ _ | truncated _ _ _ | background => false
  | compacting _ | summaryCalling _ | summarising _ | replacing _ | manualReplacing _ => false
  | listening | append _ _ | finalizing _ | draining _ _ | announcing _ _ | ended _ _ => false

/-- At `next` the run holds the batches, and is as far with its closing as `stage` says; or it is
over. -/
structure Keeps (stage : Stage) (batches : List MessageBatch) (next : EnginePc) : Prop where
  stage : next.stage = .closed ∨ (next.stage = stage ∧ batches ⊆ next.held)
  known : next.known? = none
  delivering : next.delivering? = none

theorem keeps_stop {stage : Stage} {batches : List MessageBatch} (outcome : RunOutcome) :
    Keeps stage batches (.stop outcome) := ⟨.inl rfl, rfl, rfl⟩

end EnginePc

/-- The port after one of its commands was taken, or none. -/
inductive RunPort.Gives (port : RunPort) : List MessageBatch → RunPort → Prop
  | rest : Gives port [] port
  | take {command : RunCommand} {rest : List RunCommand} (queue : port.commands = command :: rest) :
      Gives port command.batch?.toList { port with commands := rest }

/-- All messages of the batch are on the chain. -/
def Carries (chain : List CanonicalMessage) (batch : MessageBatch) : Prop :=
  ∀ message ∈ batch.messages, ∃ stored ∈ chain, stored.payload = message.payload

/-! ### Effects -/

/-- What a step of the engine can be. -/
inductive EngineState.Effect (prepared : PreparedRun) (state : EngineState D) : EngineState D → Prop
  | claim {nowMs : Int} {claimed : ClaimedRun} {store : Store D} (here : state.pc = .claiming)
      (ran : claimRun prepared nowMs state.frame.store = .ok (claimed, store)) :
      Effect prepared state (state.committed store claimed.headCheckpointId .settings)
  | advance {next : EngineState D} {additions : List CanonicalMessage}
      {steps : List (List CanonicalMessage)} {gained : List MessageBatch}
      (moves : state.frame.Moves prepared next.frame additions steps)
      (port : state.frame.port.Gives gained next.frame.port)
      (stage : next.pc.stage = .closed ∨
        (next.pc.stage = state.pc.stage ∧ state.pc.held ++ gained ⊆ next.pc.held))
      (known : ∀ known ∈ next.pc.known?, known = next.frame.chain.map chainIdentity)
      (delivering : ∀ batch ∈ next.pc.delivering?, Carries next.frame.chain batch) :
      Effect prepared state next
  | replace {next : EngineState D} (claimed : next.frame.Claimed prepared)
      (grown : Extends state.frame.store next.frame.store)
      (port : next.frame.port = state.frame.port)
      (keeps : next.pc.Keeps state.pc.stage state.pc.held) : Effect prepared state next
  | deliver {next : EngineState D} {batch : MessageBatch} {result : CommandResult}
      (here : state.pc.delivering? = some batch)
      (answer : result = .applied ∨ result = .duplicate)
      (frame : next.frame =
        { state.frame with port := state.frame.port.deliver batch result state.frame.checkpoint })
      (stage : next.pc.stage = state.pc.stage) (held : state.pc.held ⊆ batch :: next.pc.held)
      (known : next.pc.known? = none) (delivering : next.pc.delivering? = none) :
      Effect prepared state next
  | finalize {closing : Closing} (here : state.pc = .finalizing closing) :
      Effect prepared state { state with
        frame := { state.frame with port := state.frame.port.beginFinalizing }
        pc := .draining closing [] }
  | drained {closing : Closing} {accepted : List MessageBatch} {pc : EnginePc}
      (here : state.pc = .draining closing accepted) (empty : state.frame.port.commands = [])
      (keeps : pc.Keeps .drained accepted) : Effect prepared state (state.goto pc)
  | resume (stage : state.pc.stage = .drained) (held : state.pc.held = []) :
      Effect prepared state { state with
        frame := { state.frame with port := state.frame.port.resumeRunning }
        pc := .cycle }
  | finish {store : Store D} {outcome : RunOutcome}
      (ended : store = state.frame.store ∨ ∃ status failure,
        store = (Operation.finishRun prepared.runId status failure).apply state.frame.store) :
      Effect prepared state (state.finish store outcome)

section Effects

variable {prepared : PreparedRun} {state next : EngineState D}

theorem forall_of_none {α : Type} {found : Option α} (none : found = none) {holds : α → Prop} :
    ∀ value ∈ found, holds value := by
  rw [none]
  exact fun value member => nomatch member

theorem Frame.Claimed.still {frame : Frame D} (claimed : frame.Claimed prepared) (port : RunPort)
    (accounted : List String) : frame.Moves prepared { frame with port, accounted } [] [] := by
  have rests : frame.Moves prepared frame [] [] :=
    claimed.rests claimed.wellFormed (.refl _) (.frame rfl rfl) rfl
  exact ⟨⟨rests.claimed.wellFormed, rests.claimed.run⟩, rests.extends', rests.chain, rests.path⟩

theorem EngineState.Effect.jump (claimed : state.frame.Claimed prepared) {locals : EngineLocals}
    {pc : EnginePc} (keeps : pc.Keeps state.pc.stage state.pc.held) :
    Effect prepared state { state with locals, pc } := by
  refine .advance (claimed.still _ _) .rest ?_ (forall_of_none keeps.known)
    (forall_of_none keeps.delivering)
  rw [append_nil]
  exact keeps.stage

theorem EngineState.Effect.take (claimed : state.frame.Claimed prepared) {command : RunCommand}
    {pc : EnginePc} (received : state.received command pc = some next)
    (keeps : pc.Keeps state.pc.stage (state.pc.held ++ command.batch?.toList)) :
    Effect prepared state next := by
  obtain ⟨frame, took, rfl⟩ := Option.map_eq_some_iff.mp received
  obtain ⟨rest, queue, rfl⟩ := Frame.receive_eq_some.mp took
  exact .advance (claimed.still _ _) (.take queue) keeps.stage (forall_of_none keeps.known)
    (forall_of_none keeps.delivering)

theorem EngineState.Effect.commit {store : Store D} {checkpoint : CheckpointId}
    {additions : List CanonicalMessage} {steps : List (List CanonicalMessage)} {pc : EnginePc}
    (moves : state.frame.Moves prepared { state.frame with store, checkpoint } additions steps)
    (keeps : pc.Keeps state.pc.stage state.pc.held) :
    Effect prepared state (state.committed store checkpoint pc) := by
  refine .advance moves .rest ?_ (forall_of_none keeps.known) (forall_of_none keeps.delivering)
  rw [append_nil]
  exact keeps.stage

/-! ### A committed batch -/

theorem matches_iff {known : ChainIdentity} {message : CanonicalMessage} :
    known.matches message = true ↔ known.messageId = message.messageId ∨
      message.runtimeEventId.isSome = true ∧ known.runtimeEventId = message.runtimeEventId := by
  simp [ChainIdentity.matches]

theorem matched_stored {store : Store D} (chained : store.Chained) {conversationId : ConversationId}
    {message known : CanonicalMessage} (matched : (chainIdentity known).matches message = true)
    (found : store.message? conversationId known.messageId = some known)
    (stored : store.message? conversationId message.messageId = some message) : known = message := by
  have row : ∀ {message : CanonicalMessage},
      store.message? conversationId message.messageId = some message →
      MessageRow.mk conversationId message ∈ store.messages := by
    intro message look
    obtain ⟨row, selected, rfl⟩ := Option.map_eq_some_iff.mp look
    have home := find?_some selected
    simp only [Bool.and_eq_true, decide_eq_true_eq] at home
    rw [← home.1]
    exact mem_of_find?_eq_some selected
  have collide : (MessageRow.mk conversationId known).blocks conversationId message = true := by
    have same : known.messageId = message.messageId ∨ message.runtimeEventId.isSome = true ∧
        known.runtimeEventId = message.runtimeEventId := matches_iff.mp matched
    simpa [MessageRow.blocks] using same
  exact congrArg MessageRow.message (chained.rows_eq (row found) (row stored) collide)

theorem appendMessagesOnce_carries {frame : Frame D} (claimed : frame.Claimed prepared)
    {batch : MessageBatch} {store : Store D} {appended : List (CheckpointId × Bool)}
    (ran : appendMessagesOnce prepared.conversationId prepared.runId frame.checkpoint
      (frame.chain.map chainIdentity) batch.messages frame.store = .ok (appended, store)) :
    Carries ({ frame with
      store, checkpoint := (appended.getLast?.map (·.1)).getD frame.checkpoint } : Frame D).chain
      batch := by
  intro message member
  have moves := appendMessagesOnce_moves claimed ran
  have some : batch.messages ≠ [] := ne_nil_of_mem member
  obtain ⟨between, state, rfl, loop, -⟩ :=
    (appendMessagesOnce_ok claimed.wellFormed some ran).between
  rw [moves.chain]
  rcases loop.delivered message member with new | ⟨identity, known, matched, stored⟩
  · rw [loop.fresh frame.chain rfl] at new
    exact ⟨message.payload, mem_append_right _ (mem_map_of_mem new),
      message.payload_payload⟩
  · obtain ⟨old, listed, rfl⟩ := mem_map.mp known
    simp only [storedUnder, chainIdentity, decide_eq_true_eq] at stored
    have wellFormed := wellFormed_writesMany claimed.wellFormed loop.writes
    have found := message?_extends (writesMany_extends loop.writes).messages (claimed.stored listed)
    obtain rfl := matched_stored wellFormed.chained matched found stored
    exact ⟨old, mem_append_left _ listed, rfl⟩

/-! ### Steps of the functions that the engine calls -/

section Within

variable {pc ρ : Type} (inside : pc → EnginePc) (back : EngineState D → ρ → EngineState D)
  (frame : Frame D)

@[simp] theorem within_onward (next : pc) : state.within inside back (frame, .onward next) =
    { state with frame, pc := inside next } := rfl

@[simp] theorem within_returned (value : ρ) : state.within inside back (frame, .returned value) =
    back { state with frame } value := rfl

@[simp] theorem within_stopped (outcome : RunOutcome) :
    state.within inside back (frame, .stopped outcome) =
      { state with frame, pc := .stop outcome } := rfl

end Within

theorem Frame.Moves.rebase {frame next : Frame D} {additions : List CanonicalMessage}
    {steps : List (List CanonicalMessage)} (moves : frame.Moves prepared next additions steps)
    (port : RunPort) (accounted : List String) :
    frame.Moves prepared { next with port, accounted } additions steps :=
  ⟨⟨moves.claimed.wellFormed, moves.claimed.run⟩, moves.extends', moves.chain, moves.path⟩

theorem effect_of_append (inside : AppendPc → EnginePc) (stage : Stage)
    (held : ∀ pc, (inside pc).held = pc.held) (staged : ∀ pc, (inside pc).stage = stage)
    (knows : ∀ pc, (inside pc).known? = pc.known?)
    (delivers : ∀ pc, (inside pc).delivering? = pc.delivering?) {pc : AppendPc}
    (here : state.pc = inside pc) (claimed : state.frame.Claimed prepared)
    (known : ∀ known ∈ pc.known?, known = state.frame.chain.map chainIdentity)
    {event : Event} {frame : Frame D} {progress : Progress AppendPc Bool}
    (back : EngineState D → Bool → EngineState D)
    (steps : pc.Steps prepared state.frame event frame progress)
    (onward : ∀ inserted, progress ≠ .returned inserted) :
    state.Effect prepared (state.within inside back (frame, progress)) := by
  cases steps with
  | back inserted => exact absurd rfl (onward inserted)
  | look first todo inserted =>
    refine .advance (claimed.still _ _) .rest (.inr ?_) ?_ ?_
    · refine ⟨(staged _).trans (here ▸ (staged _).symm), ?_⟩
      rw [append_nil, here]
      simp [held, AppendPc.held]
    · intro known member
      simp only [within_onward, knows, AppendPc.known?, Option.mem_def,
        Option.some.injEq] at member
      exact member ▸ claimed.identities
    · simp [delivers]
  | @commit first todo inserted known' appended store ran =>
    obtain rfl := known known' rfl
    refine .advance (appendMessagesOnce_moves claimed ran) .rest (.inr ?_) ?_ ?_
    · refine ⟨(staged _).trans (here ▸ (staged _).symm), ?_⟩
      rw [append_nil, here]
      simp [held, AppendPc.held]
    · simp [knows]
    · intro batch member
      simp only [within_onward, delivers, AppendPc.delivering?,
        Option.mem_def, Option.some.injEq] at member
      exact member ▸ appendMessagesOnce_carries claimed ran
  | deliver first todo inserted batchInserted =>
    have delivering : state.pc.delivering? = some first := by
      rw [here, delivers]
      rfl
    refine .deliver delivering ?_ rfl ?_ ?_ ?_ ?_
    · cases batchInserted
      · exact .inr rfl
      · exact .inl rfl
    · exact (staged _).trans (here ▸ (staged _).symm)
    · rw [here]
      simp [held, AppendPc.held]
    · simp [knows]
    · simp [delivers]
  | stop pc event outcome => exact .jump claimed (EnginePc.keeps_stop outcome)

theorem effect_of_round {round : ToolRound} {pc : RoundPc} (here : state.pc = .round round pc)
    (claimed : state.frame.Claimed prepared)
    (known : ∀ known ∈ pc.known?, known = state.frame.chain.map chainIdentity)
    {event : Event} {frame : Frame D} {progress : Progress RoundPc Unit}
    (steps : pc.Steps prepared round state.frame event frame progress) :
    state.Effect prepared
      (state.within (.round round) (fun state () => state.goto .cycle) (frame, progress)) := by
  -- a step that leaves everything as it is, at a place that holds the same batches
  have still : ∀ next : RoundPc, pc.held ⊆ next.held → next.known? = none →
      next.delivering? = none →
      state.Effect prepared { state with pc := .round round next } := by
    intro next held known delivering
    exact .jump claimed ⟨.inr ⟨by simp [here], by simpa [here] using held⟩, known, delivering⟩
  have taken : ∀ {command : RunCommand} {rest : List RunCommand} (next : RoundPc),
      state.frame.port.commands = command :: rest →
      pc.held ++ command.batch?.toList ⊆ next.held → next.known? = none →
      next.delivering? = none →
      state.Effect prepared { state with
        frame := { state.frame with port := { state.frame.port with commands := rest } }
        pc := .round round next } := by
    intro command rest next queue held known delivering
    refine .advance (claimed.still _ _) (.take queue) (.inr ⟨by simp [here], ?_⟩)
      (forall_of_none known) (forall_of_none delivering)
    simpa [here] using held
  cases steps with
  | @create waiting nowMs store ran =>
    refine .advance (createToolRound_moves claimed ran) .rest (.inr ⟨by simp [here], ?_⟩) (forall_of_none rfl)
      (forall_of_none rfl)
    simp [here, RoundPc.held]
  | announce waiting => exact still _ (List.Subset.refl _) rfl rfl
  | elapse locals => exact still _ (subset_append_left _ _) rfl rfl
  | ignore locals queue => exact taken _ queue (by simp [RunCommand.batch?]) rfl rfl
  | @report locals result rest commit store queue fresh ran =>
    obtain ⟨row, call, expected, committed⟩ := commitToolResult_ok claimed.wellFormed ran
    have moves := (commitToolResult_moves claimed committed).rebase
      { state.frame.port with commands := rest } (result.callId :: state.frame.accounted)
    refine .advance moves (.take queue) (.inr ⟨by simp [here], ?_⟩) (forall_of_none rfl) (forall_of_none rfl)
    simp [here, RoundPc.held, RoundLocals.complete, RunCommand.batch?]
  | refuse locals queue =>
    exact .advance (claimed.still _ _) (.take queue) (.inl rfl) (forall_of_none rfl)
      (forall_of_none rfl)
  | broken locals queue => exact taken _ queue (List.Subset.refl _) rfl rfl
  | insert locals queue => exact taken _ queue (List.Subset.refl _) rfl rfl
  | cancel locals queue =>
    exact .advance (claimed.still _ _) (.take queue) (.inl rfl) (forall_of_none rfl)
      (forall_of_none rfl)
  | settle locals settled => exact still _ (subset_append_left _ _) rfl rfl
  | resume locals settled => exact still _ (List.Subset.refl _) rfl rfl
  | complete reason batches => exact still _ (List.Subset.refl _) rfl rfl
  | @interrupt call todo reason batches commit store ran =>
    obtain ⟨row, stored, expected, committed⟩ := commitToolResult_ok claimed.wellFormed ran
    have moves := (commitToolResult_moves claimed committed).rebase state.frame.port
      (call.callId :: state.frame.accounted)
    refine .advance moves .rest (.inr ⟨by simp [here], ?_⟩) (forall_of_none rfl) (forall_of_none rfl)
    simp [here, RoundPc.held]
  | interrupted todo reason settled batches => exact still _ (List.Subset.refl _) rfl rfl
  | @append pc event frame progress inner =>
    cases progress with
    | returned inserted =>
      cases inner
      exact .jump claimed ⟨.inr ⟨by simp [here], by simp [here, RoundPc.held, AppendPc.held]⟩, rfl, rfl⟩
    | onward next =>
      exact effect_of_append (fun pc => .round round (.append pc)) .running
        (fun _ => rfl) (fun _ => rfl) (fun _ => rfl) (fun _ => rfl) here claimed known
        (fun state _ => state) inner (by simp)
    | stopped outcome =>
      exact effect_of_append (fun pc => .round round (.append pc)) .running
        (fun _ => rfl) (fun _ => rfl) (fun _ => rfl) (fun _ => rfl) here claimed known
        (fun state _ => state) inner (by simp)
  | stop pc event outcome => exact .jump claimed (EnginePc.keeps_stop outcome)

theorem effect_of_appended {after : AfterAppend} {inserted : Bool}
    (here : state.pc = .append (.next [] inserted) after) (claimed : state.frame.Claimed prepared) :
    state.Effect prepared (onAppended state after inserted) := by
  have jump : ∀ pc : EnginePc, state.pc.stage = .running → pc.stage = .running → pc.known? = none →
      pc.delivering? = none → state.Effect prepared (state.goto pc) := by
    intro pc running stage known delivering
    exact .jump claimed ⟨.inr ⟨stage.trans running.symm, by simp [here, AppendPc.held]⟩, known,
      delivering⟩
  cases after with
  | cycle => exact jump _ (by rw [here]; rfl) rfl rfl rfl
  | answer => cases inserted <;> exact jump _ (by rw [here]; rfl) rfl rfl rfl
  | overflow retention => exact jump _ (by rw [here]; rfl) rfl rfl rfl
  | replaced => exact jump _ (by rw [here]; rfl) rfl rfl rfl
  | closing closing =>
    cases closing with
    | finalTurn => exact .resume (by rw [here]; rfl) (by simp [here, AppendPc.held])
    | compaction =>
      refine .jump claimed ⟨.inr ⟨?_, by simp [here, AppendPc.held]⟩, rfl, rfl⟩
      rw [here]
      rfl

theorem effect_of_drain {closing : Closing} {accepted : List MessageBatch}
    (here : state.pc = .draining closing accepted) (claimed : state.frame.Claimed prepared)
    {event : Event} {result : Frame D × Progress (List MessageBatch) (List MessageBatch)}
    (drained : drainAccepted state.frame accepted event = some result) :
    state.Effect prepared (state.within (.draining closing) (fun state batches => state.goto <|
      if batches = [] then .announcing (.messagesCommitted closing.cause) (.stop .completed)
      else .append (.next batches false) (.closing closing)) result) := by
  cases event with
  | proceed =>
    simp only [drainAccepted, Option.ite_none_right_eq_some] at drained
    obtain ⟨empty, same⟩ := drained
    cases same
    refine .drained here empty ?_
    split
    · rename_i none
      exact ⟨.inr ⟨by cases closing <;> rfl, by simp [none]⟩, rfl, rfl⟩
    · exact ⟨.inr ⟨rfl, List.Subset.refl _⟩, rfl, rfl⟩
  | disconnected =>
    simp only [drainAccepted, Option.ite_none_right_eq_some] at drained
    cases drained.2
    exact .jump claimed (EnginePc.keeps_stop _)
  | receive command =>
    obtain ⟨frame, received, same⟩ := Option.bind_eq_some_iff.mp drained
    obtain ⟨rest, queue, rfl⟩ := Frame.receive_eq_some.mp received
    cases command <;> cases same
    · refine .advance (claimed.still _ _) (.take queue) (.inr ⟨by simp [here], ?_⟩)
        (forall_of_none rfl) (forall_of_none rfl)
      simp [here, RunCommand.batch?]
    · refine .advance (claimed.still _ _) (.take queue) (.inr ⟨by simp [here], ?_⟩)
        (forall_of_none rfl) (forall_of_none rfl)
      simp [here, RunCommand.batch?]
    · refine .advance (claimed.still _ _) (.take queue) (.inr ⟨by simp [here], ?_⟩)
        (forall_of_none rfl) (forall_of_none rfl)
      simp [here, RunCommand.batch?]
    · exact .advance (claimed.still _ _) (.take queue) (.inl rfl) (forall_of_none rfl)
        (forall_of_none rfl)
  | _ => cases drained

theorem effect_of_announced {what : Announcement} {after : EnginePc}
    (here : state.pc = .announcing what after) (claimed : state.frame.Claimed prepared)
    (known : ∀ known ∈ state.pc.known?, known = state.frame.chain.map chainIdentity)
    (delivering : ∀ batch ∈ state.pc.delivering?, Carries state.frame.chain batch) {event : Event}
    {result : Frame D × Progress Empty Unit}
    (announced : state.frame.announced what.awaitsState (.returned ()) event = some result) :
    state.Effect prepared (state.within (fun pc : Empty => nomatch pc)
      (fun state () => state.goto after) result) := by
  rcases result with ⟨frame, progress⟩
  obtain ⟨rfl, ⟨-, rfl⟩ | ⟨outcome, -, rfl⟩⟩ := Frame.announced_cases announced
  · rw [here] at known delivering
    refine .advance (claimed.still _ _) .rest ?_ known delivering
    rw [append_nil, here]
    show after.stage = .closed ∨ _
    cases stage : after.stage with
    | closed => exact .inl rfl
    | running => exact .inr ⟨by simp [stage, EngineState.goto], List.Subset.refl _⟩
    | draining => exact .inr ⟨by simp [stage, EngineState.goto], List.Subset.refl _⟩
    | drained => exact .inr ⟨by simp [stage, EngineState.goto], List.Subset.refl _⟩
  · exact .jump claimed (EnginePc.keeps_stop outcome)

theorem effect_of_inside {nowMs : Int} {event : Event} (claimed : state.frame.Claimed prepared)
    (known : ∀ known ∈ state.pc.known?, known = state.frame.chain.map chainIdentity)
    (delivering : ∀ batch ∈ state.pc.delivering?, Carries state.frame.chain batch)
    (stepped : state.stepInside prepared nowMs state.pc event = some next) :
    state.Effect prepared next := by
  cases here : state.pc with
  | round round pc =>
    rw [here] at stepped known
    obtain ⟨⟨frame, progress⟩, inner, rfl⟩ := Option.map_eq_some_iff.mp stepped
    exact effect_of_round here claimed known (RoundPc.steps inner)
  | append pc after =>
    rw [here] at stepped known
    obtain ⟨⟨frame, progress⟩, inner, rfl⟩ := Option.map_eq_some_iff.mp stepped
    have steps := AppendPc.steps inner
    have onward : (∀ inserted, progress ≠ .returned inserted) → state.Effect prepared
        (state.within (EnginePc.append · after) (fun state inserted => onAppended state after inserted)
          (frame, progress)) := fun onward =>
      effect_of_append (EnginePc.append · after)
        (EnginePc.append (.next [] false) after).stage (fun _ => rfl)
        (fun _ => by cases after <;> rfl) (fun _ => rfl) (fun _ => rfl) here claimed known _ steps
        onward
    cases progress with
    | onward pc => exact onward fun _ equal => nomatch equal
    | stopped outcome => exact onward fun _ equal => nomatch equal
    | returned inserted =>
      cases steps
      exact effect_of_appended here claimed
  | draining closing accepted =>
    rw [here] at stepped
    obtain ⟨result, drained, rfl⟩ := Option.map_eq_some_iff.mp stepped
    exact effect_of_drain here claimed drained
  | announcing what after =>
    rw [here] at stepped
    obtain ⟨result, announced, rfl⟩ := Option.map_eq_some_iff.mp stepped
    exact effect_of_announced here claimed known delivering announced
  | truncated message failure pending =>
    rw [here] at stepped
    cases message with
    | some message => cases stepped
    | none =>
      obtain ⟨⟨frame, progress⟩, announced, rfl⟩ := Option.map_eq_some_iff.mp stepped
      obtain ⟨rfl, ⟨-, rfl⟩ | ⟨outcome, -, rfl⟩⟩ := Frame.announced_cases announced
      · exact .jump claimed (EnginePc.keeps_stop _)
      · exact .jump claimed (EnginePc.keeps_stop _)
  | _ =>
    rw [here] at stepped
    cases stepped

/-! ### Where the engine goes on -/

namespace EnginePc

theorem keeps_running {batches : List MessageBatch} {next : EnginePc} (stage : next.stage = .running)
    (held : batches ⊆ next.held) (known : next.known? = none) (delivering : next.delivering? = none) :
    next.Keeps .running batches := ⟨.inr ⟨stage, held⟩, known, delivering⟩

theorem keeps_modelCommand {refusal : String} {again broken : List MessageBatch → EnginePc}
    (stays : ∀ pending, (again pending).Keeps .running pending)
    (leaves : ∀ pending, (broken pending).Keeps .running pending) (pending : List MessageBatch)
    (accounted : List String) (command : RunCommand) :
    (onModelCommand refusal again broken pending accounted command).Keeps .running
      (pending ++ command.batch?.toList) := by
  cases command with
  | toolResult result =>
    simp only [onModelCommand, RunCommand.batch?, Option.toList_none, append_nil]
    split
    · exact stays pending
    · exact keeps_stop _
  | insertMessages batch => exact stays _
  | breakMessages batch => exact leaves _
  | cancel => exact keeps_stop _

theorem keeps_interrupted (batches : List MessageBatch) :
    (interrupted batches).Keeps .running batches :=
  keeps_running rfl (List.Subset.refl _) rfl rfl

theorem keeps_listeningCommand (command : RunCommand) :
    (onListeningCommand command).Keeps .running command.batch?.toList := by
  cases command with
  | toolResult result => exact keeps_running rfl (nil_subset _) rfl rfl
  | insertMessages batch => exact keeps_running rfl (List.Subset.refl _) rfl rfl
  | breakMessages batch => exact keeps_running rfl (List.Subset.refl _) rfl rfl
  | cancel => exact keeps_stop _

theorem keeps_afterInitialMessages (prepared : PreparedRun) :
    (afterInitialMessages prepared).Keeps .running [] := by
  unfold afterInitialMessages
  split <;> exact keeps_running rfl (nil_subset _) rfl rfl

theorem keeps_delivered : delivered.Keeps .running [] :=
  keeps_running rfl (nil_subset _) rfl rfl

theorem keeps_collect (store : Store D) (pending todo : List CanonicalMessage) :
    (collect prepared store pending todo).Keeps .running [] := by
  cases todo with
  | nil =>
    simp only [collect]
    split
    · exact keeps_afterInitialMessages prepared
    · exact keeps_running rfl (nil_subset _) rfl rfl
  | cons message todo =>
    simp only [collect]
    split
    · split
      · exact keeps_delivered
      · exact keeps_running rfl (nil_subset _) rfl rfl
    · exact keeps_running rfl (nil_subset _) rfl rfl

theorem keeps_announcing {what : Announcement} {after : EnginePc} {batches : List MessageBatch}
    (keeps : after.Keeps .running batches) (going : after.stage ≠ .closed) :
    (announcing what after).Keeps .running batches := by
  obtain ⟨closed | ⟨stage, held⟩, known, delivering⟩ := keeps
  · exact absurd closed going
  · exact keeps_running (by simp [stage]) held known delivering

theorem keeps_afterStoring (waited inserted : Bool) :
    (afterStoring prepared waited inserted).Keeps .running [] := by
  unfold afterStoring
  split
  · exact keeps_delivered
  · split
    · have keeps := keeps_afterInitialMessages prepared
      refine keeps_announcing keeps ?_
      unfold afterInitialMessages
      split <;> simp
    · exact keeps_afterInitialMessages prepared

theorem keeps_afterAttempt (locals : EngineLocals) (cycle : ModelCycleResult)
    (pending : List MessageBatch) :
    (afterAttempt prepared locals cycle pending).Keeps .running pending := by
  unfold afterAttempt
  split
  · split
    · exact keeps_stop _
    · split
      · exact keeps_stop _
      · exact keeps_running rfl (List.Subset.refl _) rfl rfl
  · split
    · exact keeps_running rfl (List.Subset.refl _) rfl rfl
    · exact keeps_running rfl (List.Subset.refl _) rfl rfl

theorem keeps_startCompaction (frame : Frame D) (job : CompactionJob) (refusal : Option String) :
    (startCompaction prepared frame job refusal).Keeps .running job.pending := by
  unfold startCompaction
  split
  · exact keeps_stop _
  · split
    · exact keeps_stop _
    · split <;> exact keeps_running rfl (List.Subset.refl _) rfl rfl

theorem keeps_summaryFallback {locals : EngineLocals} {pending : List MessageBatch} {pc : EnginePc}
    (found : summaryFallback prepared locals pending = some pc) : pc.Keeps .running pending := by
  unfold summaryFallback at found
  split at found
  · split at found
    · cases found
      exact keeps_afterAttempt _ _ _
    · cases found
  · cases found

theorem keeps_finalFailure (locals : EngineLocals) (pending : List MessageBatch)
    (failure : ModelCycleFailure) :
    (onFinalFailure prepared locals pending failure).Keeps .running pending := by
  unfold onFinalFailure
  cases failure.failure with
  | provider text =>
    cases found : summaryFallback prepared locals pending with
    | none => exact keeps_stop _
    | some pc => exact keeps_summaryFallback found
  | truncated text =>
    cases found : summaryFallback prepared locals pending with
    | none =>
      simp only [Option.getD_none]
      split
      · exact keeps_stop _
      · exact keeps_running rfl (List.Subset.refl _) rfl rfl
    | some pc => exact keeps_summaryFallback found
  | protocol text => exact keeps_stop _
  | store text => exact keeps_stop _
  | client text => exact keeps_stop _

end EnginePc

end Effects

end Byok
