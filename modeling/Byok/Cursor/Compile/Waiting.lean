/-
**Messages that wait for a run.**

A run is prepared on a history: that of the base of its turn, and the messages of the turn. Where messages wait for
it, it is started on the current checkpoint of the conversation instead.

* `GoesOn` — the history of the run is the one that it was prepared on, with the messages that waited, and the message
  of the user is in it once.
* `goesOn_iff` — it is, exactly where the current checkpoint has the history that the run was prepared behind and the
  message of the user is new.
* `waiting_newer` — a turn that is sent again goes on behind its own answer.
-/

import Byok.Cursor.Compile.Turns

set_option linter.unusedSectionVars false

namespace Byok.Cursor.Compile

open Library Transaction Store List

variable {D : Type} [DecidableEq D] [ChainHash D]

/-- The message of the user, which is the last of the turn; a turn that only compacts has none. -/
def Turn.own (turn : Turn) : Option CanonicalMessage := turn.messages.getLast?

/-- The history of a run, for the messages that waited: they are in one place of the history that its turn was
prepared on, the run goes on from a part of that history, and the message of the user is in it once. -/
structure GoesOn (store : Store D) (turn : Turn) (pending : List (List CanonicalMessage)) (begun : PreparedRun) : Prop where
  inserted : ∃ before behind, store.loadCheckpointMessages turn.base ++ turn.messages = before ++ behind ∧
    store.loadCheckpointMessages begun.baseCheckpointId ++ begun.initialMessages = before ++ pending.flatten ++ behind
  branch : store.loadCheckpointMessages begun.baseCheckpointId <+:
    store.loadCheckpointMessages turn.base ++ turn.messages
  once : ∀ own ∈ turn.own,
    (store.loadCheckpointMessages begun.baseCheckpointId ++ begun.initialMessages).count own = 1

/-- The message of the user is new: neither the base of the turn has it, nor does it wait. -/
def OwnIsNew (store : Store D) (turn : Turn) (pending : List (List CanonicalMessage)) : Prop :=
  ∀ own ∈ turn.own, own ∉ store.loadCheckpointMessages turn.base ∧ own ∉ pending.flatten

theorem once_iff_ownIsNew {store : Store D} {turn : Turn} {pending : List (List CanonicalMessage)}
    {whole before behind : List CanonicalMessage}
    (prepared : store.loadCheckpointMessages turn.base ++ turn.messages = before ++ behind)
    (inserted : whole = before ++ pending.flatten ++ behind)
    (single : ∀ own ∈ turn.own, turn.messages.count own = 1) :
    (∀ own ∈ turn.own, whole.count own = 1) ↔ OwnIsNew store turn pending := by
  refine forall_congr' fun own => forall_congr' fun listed => ?_
  have counts := congrArg (List.count own) prepared
  rw [count_append, count_append, single own listed] at counts
  rw [inserted, count_append, count_append, ← count_eq_zero, ← count_eq_zero]
  omega

/-- The current checkpoint of a conversation has a history. -/
def CurrentHistory (store : Store D) (conversationId : ConversationId) (history : List CanonicalMessage) : Prop :=
  ∃ current, (store.conversations conversationId).bind (·.currentCheckpointId) = some current ∧
    store.loadCheckpointMessages current = history

section Current

variable {store : Store D} {conversationId : ConversationId}

theorem ensureConversation_known {current : CheckpointId}
    (known : (store.conversations conversationId).bind (·.currentCheckpointId) = some current) :
    ensureConversation conversationId store = .ok (current, store) := by
  obtain ⟨row, found, named⟩ := Option.bind_eq_some_iff.mp known
  have same : insertOrIgnoreConversation conversationId store = store := by simp only [insertOrIgnoreConversation, found]
  rw [ensureConversation, bind_eq rfl, same, bind_eq rfl]
  simp only [known]
  rfl

theorem current_of_member (wellFormed : store.WellFormed) {row : CheckpointRow D} (member : row ∈ store.checkpoints)
    (home : row.conversationId = conversationId) :
    ∃ current ∈ store.checkpoints,
      (store.conversations conversationId).bind (·.currentCheckpointId) = some current.checkpointId := by
  obtain ⟨conversation, found⟩ := Option.isSome_iff_exists.mp (home ▸ wellFormed.chained.home row member)
  obtain ⟨_, named, current, listed, rfl, -⟩ := wellFormed.owned.current conversationId conversation found
  exact ⟨current, listed, by rw [found]; exact named⟩

theorem proposedBase_home {request : RunRequest} {database after : Database D} (wellFormed : database.store.WellFormed)
    {proposed : CheckpointId} (ran : proposedBase request database = .ok (proposed, after)) :
    ∃ row ∈ after.store.checkpoints, row.conversationId = request.conversationId := by
  unfold proposedBase at ran
  split at ran
  case isTrue =>
    obtain ⟨ensured, -⟩ := onStore_ok.mp ran
    obtain ⟨row, member, -, home⟩ := ensureConversation_current wellFormed ensured
    exact ⟨row, member, home⟩
  case isFalse =>
    obtain ⟨_, _, valid, ran⟩ := bind_ok.mp ran
    obtain ⟨-, rfl⟩ := ofResult_ok.mp valid
    obtain ⟨imported, -⟩ := onStore_ok.mp ran
    obtain ⟨current, between, above, additions, ensured, imports⟩ := importCheckpoint_ok wellFormed imported
    refine ⟨above, ?_, imports.home⟩
    rcases imports.outcome with ⟨-, -, -, same⟩ | ⟨-, -, same⟩ | ⟨-, inserted⟩
    · exact same ▸ imports.member
    · exact same ▸ imports.member
    · exact (writesMany_extends inserted.writes).checkpoints.subset imports.member

end Current

section Started

variable [LawfulChainHash D] {compiler : Compiler} {now : Option String → Time} {request : RunRequest}
  {database between later : Database D} {runId : RunId} {turn : Turn} {prepared : PreparedRun}

theorem prepareTurn_own (sound : Sound database)
    (turned : prepareTurn compiler now request database = .ok (turn, between)) :
    ∀ own ∈ turn.own, turn.messages.count own = 1 := by
  obtain ⟨_, _, _, _, prepares⟩ := prepareTurn_ok.mp turned
  obtain ⟨one, two⟩ := prepares.grows sound
  exact fun _ => turnMessages_own (two.sound (one.sound sound)).serialised prepares.compiled

/-- **A run that messages wait for goes on with the history that it was prepared on, exactly where** the current
checkpoint has the history of the base of the turn and the messages of the turn that are stored behind it, and the
message of the user is new. -/
theorem goesOn_iff (reachable : (databaseSystem D).Reachable database)
    (turned : prepareTurn compiler now request database = .ok (turn, between))
    (ran : prepare compiler now runId request database = .ok (prepared, between)) {calls : List Call}
    (run : (databaseSystem D).Run between calls later) (pending : List (List CanonicalMessage)) :
    GoesOn (startWith pending prepared later.store).2 turn pending (startWith pending prepared later.store).1 ↔
      OwnIsNew between.store turn pending ∧
        (pending = [] ∨ ∃ stored head,
          between.store.StoredBehind request.conversationId turn.base turn.messages stored head ∧
          CurrentHistory later.store request.conversationId
            (between.store.loadCheckpointMessages turn.base ++ stored)) := by
  have sound := sound_of_reachable reachable
  obtain ⟨other, stored, turned', behind, messages, home, base⟩ := prepare_behind sound ran
  obtain ⟨rfl, -⟩ := Prod.mk.inj (Except.ok.inj (turned.symm.trans turned'))
  obtain ⟨grown, sent⟩ := prepareTurn_grows sound turned
  have sound' := grown.sound sound
  have grows := run_grows sound' run
  have later' := grows.sound sound'
  -- the checkpoint that the run was prepared behind
  have matched := behind.follows.extends sound'.wellFormed.chained grows.extends
  have history := matched.load later'.wellFormed
  have single := prepareTurn_own sound turned
  have known := grows.load sound' base
  have isNew : OwnIsNew between.store turn pending ↔ OwnIsNew later.store turn pending := by
    rw [OwnIsNew, OwnIsNew, known]
  rw [isNew, ← known]
  by_cases none : pending = []
  · have started : startWith pending prepared later.store = (prepared, later.store) := if_pos none
    have whole : later.store.loadCheckpointMessages prepared.baseCheckpointId ++ prepared.initialMessages =
        later.store.loadCheckpointMessages turn.base ++ turn.messages := by
      rw [history, messages, append_assoc]
    have inserted : later.store.loadCheckpointMessages turn.base ++ turn.messages =
        later.store.loadCheckpointMessages turn.base ++ turn.messages ++ pending.flatten ++ [] := by
      rw [none, flatten_nil, append_nil, append_nil]
    have once := once_iff_ownIsNew (append_nil _).symm inserted single
    rw [started]
    constructor
    · intro goesOn
      have ownOnce := goesOn.once
      rw [whole] at ownOnce
      exact ⟨once.mp ownOnce, .inl none⟩
    · rintro ⟨ownIsNew, -⟩
      refine ⟨⟨_, [], (append_nil _).symm, whole.trans inserted⟩, ?_, ?_⟩
      · rw [← whole]
        exact prefix_append _ _
      · rw [whole]
        exact once.mpr ownIsNew
  -- the run is started on the current checkpoint
  obtain ⟨_, _, _, mid, prepares⟩ := prepareTurn_ok.mp turned
  obtain ⟨row, member, own⟩ := proposedBase_home sound.wellFormed prepares.proposing
  obtain ⟨current, -, found⟩ := current_of_member later'.wellFormed
    (grows.extends.checkpoints.subset ((prepares.grows sound).2.extends.checkpoints.subset member)) own
  have started : startWith pending prepared later.store =
      ({ prepared with
          initialMessages := pending.flatten ++ prepared.initialMessages
          baseCheckpointId := current.checkpointId }, later.store) := by
    rw [startWith, if_neg none, home, execute_ok (ensureConversation_known found)]
  rw [started]
  constructor
  · intro goesOn
    obtain ⟨before, after, split, whole⟩ := goesOn.inserted
    refine ⟨(once_iff_ownIsNew split whole single).mp goesOn.once,
      .inr ⟨stored, prepared.baseCheckpointId, behind, current.checkpointId, found, ?_⟩⟩
    have branch := goesOn.branch
    dsimp only at split whole branch
    rw [messages, ← append_assoc, ← history] at split branch
    have lengths := congrArg List.length split
    have lengths' := congrArg List.length whole
    simp only [length_append] at lengths lengths'
    rw [← history]
    refine (prefix_of_prefix_length_le branch (prefix_append _ _) ?_).eq_of_length ?_
    · omega
    · omega
  · rintro ⟨ownIsNew, empty | ⟨stored', head, behind', current', named, same⟩⟩
    · exact absurd empty none
    obtain ⟨rfl, -⟩ := behind.unique sound'.wellFormed sound'.serialised base sent behind'
    obtain rfl : current.checkpointId = current' := Option.some.inj (found.symm.trans named)
    have split : later.store.loadCheckpointMessages turn.base ++ turn.messages =
        later.store.loadCheckpointMessages turn.base ++ stored ++ prepared.initialMessages := by
      rw [messages, append_assoc]
    have whole : later.store.loadCheckpointMessages current.checkpointId ++
        (pending.flatten ++ prepared.initialMessages) =
        later.store.loadCheckpointMessages turn.base ++ stored ++ pending.flatten ++ prepared.initialMessages := by
      rw [same, ← append_assoc]
    refine ⟨⟨_, _, split, whole⟩, ?_, (once_iff_ownIsNew split whole single).mpr ownIsNew⟩
    rw [same, split]
    exact prefix_append _ _

end Started

/-! ### A turn that is sent again -/

/-- The request of a conversation's first turn. -/
def sampleRequest : RunRequest where
  conversationId := ⟨"conversation"⟩
  baseMessages := none
  conversationMode := none
  subagent := false
  requestContext := ⟨none, none, fun _ => ""⟩
  action := .userMessageAction
    { userMessage := some
        { messageId := "turn"
          text := "Count the files."
          mode := 1
          subagentSystemReminder := none
          openFiles := ""
          selectedContext := none
          images := .ok [] }
      prependUserMessages := [] }

/-- The time of a preparation. -/
def sampleNow (timestamp : String) : Option String → Time := fun _ => ⟨timestamp, "Monday"⟩

/-- The first preparation of the turn. -/
def asked : PreparedRun × Database HistoryDigest :=
  landed (prepare sampleCompiler (sampleNow "9:00") ⟨"first"⟩ sampleRequest ⟨Store.empty, fun _ _ => none⟩)
    (by decide +kernel)

theorem asked_eq : prepare sampleCompiler (sampleNow "9:00") ⟨"first"⟩ sampleRequest ⟨Store.empty, fun _ _ => none⟩ =
    .ok (asked.1, asked.2) := landed_eq _

/-- An answer. -/
def sampleAnswer : CanonicalMessage :=
  ⟨"answer", .assistant, .assistant, .assistant "There are three." "" none none [], none⟩

/-- A message that waits. -/
def sampleWaiting : CanonicalMessage := ⟨"waiting", .user, .runtime, .parts [.text "A task is done."], none⟩

/-- The calls of the first run: its turn is committed, and answered. -/
def sampleCalls : List Call :=
  [.operation (.claimRun asked.1 0),
    .operation (.appendMessagesOnce ⟨"conversation"⟩ ⟨"first"⟩ ⟨1⟩ [] asked.1.initialMessages),
    .operation (.appendCheckpoint ⟨"conversation"⟩ ⟨"first"⟩ ⟨2⟩ [sampleAnswer]),
    .operation (.finishRun ⟨"first"⟩ .completed none)]

/-- The database behind the first run. -/
def answered : Database HistoryDigest := sampleCalls.foldl (fun database call => call.apply database) asked.2

theorem run_foldl (calls : List Call) (database : Database D) :
    (databaseSystem D).Run database calls (calls.foldl (fun database call => call.apply database) database) := by
  induction calls generalizing database with
  | nil => exact .nil
  | cons call calls ih => exact .cons rfl (ih _)

theorem empty_reachable : (databaseSystem D).Reachable ⟨Store.empty, fun _ _ => none⟩ := ⟨_, [], rfl, .nil⟩

theorem asked_reachable : (databaseSystem HistoryDigest).Reachable asked.2 := by
  obtain ⟨calls, run⟩ := prepare_run sound_empty asked_eq
  exact reachable_run empty_reachable run

theorem answered_reachable : (databaseSystem HistoryDigest).Reachable answered :=
  reachable_run asked_reachable (run_foldl sampleCalls asked.2)

/-- The turn when it is sent again. -/
def turnAgain : Turn × Database HistoryDigest :=
  landed (prepareTurn sampleCompiler (sampleNow "9:05") sampleRequest answered) (by decide +kernel)

/-- The run that is prepared for it. -/
def askedAgain : PreparedRun × Database HistoryDigest :=
  landed (prepare sampleCompiler (sampleNow "9:05") ⟨"second"⟩ sampleRequest answered) (by decide +kernel)

theorem askedAgain_eq : prepare sampleCompiler (sampleNow "9:05") ⟨"second"⟩ sampleRequest answered =
    .ok (askedAgain.1, askedAgain.2) := landed_eq _

theorem turnAgain_eq : prepareTurn sampleCompiler (sampleNow "9:05") sampleRequest answered =
    .ok (turnAgain.1, askedAgain.2) :=
  turned_of_landed (sound_of_reachable answered_reachable) askedAgain_eq (by decide +kernel)

theorem goesOn_iff_answered :
    GoesOn (startWith [[sampleWaiting]] askedAgain.1 askedAgain.2.store).2 turnAgain.1 [[sampleWaiting]]
        (startWith [[sampleWaiting]] askedAgain.1 askedAgain.2.store).1 ↔
      OwnIsNew askedAgain.2.store turnAgain.1 [[sampleWaiting]] ∧
        ([[sampleWaiting]] = [] ∨ ∃ stored head,
          askedAgain.2.store.StoredBehind ⟨"conversation"⟩ turnAgain.1.base turnAgain.1.messages stored head ∧
          CurrentHistory askedAgain.2.store ⟨"conversation"⟩
            (askedAgain.2.store.loadCheckpointMessages turnAgain.1.base ++ stored)) :=
  goesOn_iff answered_reachable turnAgain_eq askedAgain_eq .nil [[sampleWaiting]]

/-- Where a message waits, the turn that is sent again goes on behind its own answer. -/
theorem waiting_newer :
    (databaseSystem HistoryDigest).Reachable answered ∧
      prepareTurn sampleCompiler (sampleNow "9:05") sampleRequest answered = .ok (turnAgain.1, askedAgain.2) ∧
      prepare sampleCompiler (sampleNow "9:05") ⟨"second"⟩ sampleRequest answered = .ok (askedAgain.1, askedAgain.2) ∧
      ¬ GoesOn (startWith [[sampleWaiting]] askedAgain.1 askedAgain.2.store).2 turnAgain.1 [[sampleWaiting]]
        (startWith [[sampleWaiting]] askedAgain.1 askedAgain.2.store).1 := by
  refine ⟨answered_reachable, turnAgain_eq, askedAgain_eq, fun goesOn => ?_⟩
  exact absurd goesOn.branch (by decide +kernel)

end Byok.Cursor.Compile
