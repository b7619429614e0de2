/-
**The parts of the registry of conversations.**

* `Tidy`, `GoesOn` — the batches of a run that are not answered are distinct, and one that is answered or dropped does
  not come back.
* `appendOnce_spec` — what an append inserts, and that all of it is on the chain then.
* `queuePending_spec`, `takePending_spec` — what is queued and taken.
-/

import Byok.Cursor.Conversation.Registry

namespace Byok.Cursor.Conversation

open Library List

/-! ### The batches of a run -/

/-- The batches that a run has not answered: in its queue, and in the hands of its engine. -/
def ConversationRun.atHand (run : ConversationRun) : List MessageBatch := run.port.queued ++ run.held

/-- The batches at hand are distinct. -/
structure ConversationRun.Tidy (run : ConversationRun) : Prop where
  nodup : run.atHand.Nodup
  tickets : ∀ batch ∈ run.atHand, batch.ticket < run.port.enqueued.length

/-- How a run goes on: it stays tidy, keeps its conversation, and takes no batch again that it has answered or dropped. -/
structure ConversationRun.GoesOn (run after : ConversationRun) : Prop where
  tidy : run.Tidy → after.Tidy
  conversation : after.conversation = run.conversation
  enqueued : run.port.enqueued.length ≤ after.port.enqueued.length
  closed : ∀ batch : MessageBatch, batch.ticket < run.port.enqueued.length → batch ∉ run.atHand → batch ∉ after.atHand

theorem PortMove.frame {port after : RunPort} (moves : PortMove port after) :
    after.queued = port.queued ∧ after.enqueued = port.enqueued := by
  cases moves with
  | finalizes =>
    unfold RunPort.beginFinalizing
    split <;> exact ⟨rfl, rfl⟩
  | resumes =>
    unfold RunPort.resumeRunning
    split <;> exact ⟨rfl, rfl⟩
  | cancels =>
    refine ⟨RunPort.queued_cancel port, ?_⟩
    rw [RunPort.cancel_eq]
  | toolResult result =>
    refine ⟨RunPort.queued_toolResult port result, ?_⟩
    rcases port.toolResult_cases result with same | sent
    · rw [same]
    · rw [sent]
  | @receives command next received other =>
    obtain ⟨rest, queue, rfl⟩ := RunPort.receive_eq_some.mp received
    refine ⟨?_, rfl⟩
    rw [RunPort.queued_receive queue, other]
    rfl

theorem submitMessages_spec (port : RunPort) (eventId : String) (messages : List CanonicalMessage) (shouldBreak : Bool) :
    (∃ result, (result = .runClosing ∨ result = .runEnded) ∧
      port.submitMessages eventId messages shouldBreak = (result, port)) ∨
    ∃ command : RunCommand, command.batch? = some ⟨eventId, messages, port.enqueued.length⟩ ∧
      port.submitMessages eventId messages shouldBreak = (.applied, { port with
        commands := port.commands ++ [command]
        enqueued := port.enqueued ++ [⟨eventId, messages, port.enqueued.length⟩] }) := by
  unfold RunPort.submitMessages RunPort.send
  cases port.phase with
  | running =>
    by_cases dropped : port.dropped = true
    · exact .inl ⟨.runEnded, .inr rfl, by simp [dropped]⟩
    · refine .inr ⟨if shouldBreak then .breakMessages ⟨eventId, messages, port.enqueued.length⟩
        else .insertMessages ⟨eventId, messages, port.enqueued.length⟩, ?_, ?_⟩
      · split <;> rfl
      · simp [dropped]
  | finalizing => exact .inl ⟨.runClosing, .inl rfl, rfl⟩
  | ended => exact .inl ⟨.runEnded, .inr rfl, rfl⟩

namespace ConversationRun

variable {run : ConversationRun}

theorem GoesOn.shrinks {after : ConversationRun} (atHand : after.atHand.Sublist run.atHand)
    (enqueued : after.port.enqueued = run.port.enqueued) (conversation : after.conversation = run.conversation) :
    run.GoesOn after where
  tidy tidy := by
    refine ⟨tidy.nodup.sublist atHand, fun batch member => ?_⟩
    rw [enqueued]
    exact tidy.tickets batch (atHand.subset member)
  conversation := conversation
  enqueued := by rw [enqueued]
  closed _ _ gone there := gone (atHand.subset there)

theorem GoesOn.same {after : ConversationRun} (queued : after.port.queued = run.port.queued) (held : after.held = run.held)
    (enqueued : after.port.enqueued = run.port.enqueued) (conversation : after.conversation = run.conversation) :
    run.GoesOn after := by
  refine .shrinks ?_ enqueued conversation
  unfold atHand
  rw [queued, held]

theorem GoesOn.refl (run : ConversationRun) : run.GoesOn run := .same rfl rfl rfl rfl

theorem GoesOn.trans {middle after : ConversationRun} (one : run.GoesOn middle) (two : middle.GoesOn after) :
    run.GoesOn after where
  tidy tidy := two.tidy (one.tidy tidy)
  conversation := two.conversation.trans one.conversation
  enqueued := Nat.le_trans one.enqueued two.enqueued
  closed batch old gone := two.closed batch (Nat.lt_of_lt_of_le old one.enqueued) (one.closed batch old gone)

theorem GoesOn.moves {port : RunPort} (moves : PortMove run.port port) : run.GoesOn { run with port := port } :=
  .same moves.frame.1 rfl moves.frame.2 rfl

theorem GoesOn.finish (run : ConversationRun) : run.GoesOn run.finish := .shrinks (nil_sublist _) rfl rfl

theorem GoesOn.receives {command : RunCommand} {batch : MessageBatch} {port : RunPort}
    (received : run.port.receive command = some port) (is : command.batch? = some batch) :
    run.GoesOn { run with port := port, held := run.held ++ [batch] } := by
  obtain ⟨rest, queue, rfl⟩ := RunPort.receive_eq_some.mp received
  have moved : ({ run with port := { run.port with commands := rest }, held := run.held ++ [batch] } :
      ConversationRun).atHand.Perm run.atHand := by
    unfold atHand
    rw [RunPort.queued_receive queue, is]
    show (rest.filterMap RunCommand.batch? ++ (run.held ++ [batch])).Perm ([batch] ++ rest.filterMap RunCommand.batch? ++
      run.held)
    rw [← append_assoc, append_assoc [batch]]
    exact perm_append_comm
  refine ⟨fun tidy => ⟨moved.nodup_iff.mpr tidy.nodup, fun other member => ?_⟩, rfl, Nat.le_refl _, fun other _ gone there => ?_⟩
  · exact tidy.tickets other (moved.subset member)
  · exact gone (moved.subset there)

theorem GoesOn.answer (run : ConversationRun) (batch : MessageBatch) (result : Option CommandResult) :
    run.GoesOn (run.answer batch result) := by
  refine .shrinks ?_ ?_ rfl
  · have queued : (run.answer batch result).port.queued = run.port.queued := by cases result <;> rfl
    unfold atHand
    rw [queued]
    exact (erase_sublist).append_left _
  · cases result <;> rfl

theorem Tidy.answer (tidy : run.Tidy) {batch : MessageBatch} (held : batch ∈ run.held) (result : Option CommandResult) :
    batch ∉ (run.answer batch result).atHand := by
  obtain ⟨_, distinct, apart⟩ := nodup_append.mp tidy.nodup
  have queued : (run.answer batch result).port.queued = run.port.queued := by cases result <;> rfl
  unfold atHand
  rw [queued]
  intro there
  rcases mem_append.mp there with waits | again
  · exact apart batch waits batch held rfl
  · exact (List.Nodup.mem_erase_iff distinct).mp again |>.1 rfl

theorem GoesOn.enqueues {command : RunCommand} {batch : MessageBatch} (is : command.batch? = some batch)
    (ticket : batch.ticket = run.port.enqueued.length) :
    run.GoesOn { run with port := { run.port with
      commands := run.port.commands ++ [command]
      enqueued := run.port.enqueued ++ [batch] } } := by
  have grown : ({ run with port := { run.port with
      commands := run.port.commands ++ [command]
      enqueued := run.port.enqueued ++ [batch] } } : ConversationRun).atHand.Perm (batch :: run.atHand) := by
    have queued := RunPort.queued_send run.port command
    rw [is] at queued
    show (RunPort.queued { run.port with commands := run.port.commands ++ [command] } ++ run.held).Perm _
    rw [queued, Option.toList_some, atHand, append_assoc, singleton_append]
    exact perm_middle
  refine ⟨fun tidy => ⟨grown.nodup_iff.mpr (nodup_cons.mpr ⟨fun member => ?_, tidy.nodup⟩), fun other member => ?_⟩,
    rfl, ?_, fun other old gone there => ?_⟩
  · exact absurd (tidy.tickets batch member) (by omega)
  · show other.ticket < (run.port.enqueued ++ [batch]).length
    rw [length_append, length_singleton]
    rcases mem_cons.mp (grown.subset member) with rfl | before
    · omega
    · exact Nat.lt_succ_of_lt (tidy.tickets other before)
  · show run.port.enqueued.length ≤ (run.port.enqueued ++ [batch]).length
    rw [length_append]
    omega
  · rcases mem_cons.mp (grown.subset there) with rfl | before
    · omega
    · exact gone before

theorem tidy_begins (conversation : ConversationId) (background : Bool) : (begins conversation background).Tidy :=
  ⟨nodup_nil, nofun⟩

end ConversationRun

/-! ### Appends -/

/-- An append inserts some of its messages, all of them are on the chain then, and none that it inserts was on it. -/
theorem appendOnce_spec {chain : List CanonicalMessage} {entries inserted : List (Nat × CanonicalMessage)}
    (ran : appendOnce chain entries = some inserted) :
    inserted.Sublist entries ∧ (∀ entry ∈ entries, entry.2 ∈ chain ++ inserted.map Prod.snd) ∧
      (∀ entry ∈ inserted, ∀ known ∈ chain, (Store.chainIdentity known).matches entry.2 = false) ∧
      (inserted.map Prod.snd).Nodup := by
  induction entries generalizing chain inserted with
  | nil =>
    obtain rfl := Option.some.inj ran
    exact ⟨.slnil, forall_mem_nil _, forall_mem_nil _, nodup_nil⟩
  | cons entry rest ih =>
    obtain ⟨call, message⟩ := entry
    unfold appendOnce at ran
    split at ran
    case h_1 stored found =>
      split at ran
      case isTrue same =>
        obtain ⟨sublist, there, fresh, nodup⟩ := ih ran
        refine ⟨sublist.cons _, fun entry member => ?_, fresh, nodup⟩
        rcases mem_cons.mp member with rfl | later
        · exact mem_append_left _ (same ▸ mem_of_find?_eq_some found)
        · exact there entry later
      case isFalse => cases ran
    case h_2 missing =>
      obtain ⟨later, ran_later, rfl⟩ := Option.map_eq_some_iff.mp ran
      obtain ⟨sublist, there, fresh, nodup⟩ := ih ran_later
      refine ⟨sublist.cons_cons _, fun entry member => ?_, fun entry member known listed => ?_, ?_⟩
      · rw [map_cons, append_cons]
        rcases mem_cons.mp member with rfl | later
        · exact mem_append_left _ (mem_append_right _ mem_cons_self)
        · exact there entry later
      · rcases mem_cons.mp member with rfl | later
        · simpa using find?_eq_none.mp missing known listed
        · exact fresh entry later known (mem_append_left _ listed)
      · refine nodup_cons.mpr ⟨fun again => ?_, nodup⟩
        obtain ⟨entry, member, is⟩ := mem_map.mp again
        have apart := fresh entry member message (mem_append_right _ mem_cons_self)
        rw [is] at apart
        simp [Store.chainIdentity, ChainIdentity.matches] at apart

/-! ### The pending lists -/

namespace ConversationRegistry

variable {registry : ConversationRegistry} {conversation : ConversationId}

/-- The messages in the pending lists, with their conversations. -/
def waiting (registry : ConversationRegistry) : List (ConversationId × Waiting) :=
  gather (fun conversation entry => entry.2.queued.map fun waiting => (conversation, waiting)) registry.pending

/-- The event ids that a list remembers are those of its messages. -/
def EventIds (registry : ConversationRegistry) : Prop :=
  ∀ conversation entry, registry.pending.lookup conversation = some entry →
    entry.2.eventIds = entry.2.queued.map fun waiting => waiting.compiled.eventId

/-- Another message for a conversation fits in: at most 64 conversations and 256 messages wait. -/
def HasRoom (registry : ConversationRegistry) (conversation : ConversationId) : Prop :=
  match registry.pending.lookup conversation with
  | some (_, messages) => messages.queued.length < maxPendingMessages
  | none => registry.pending.entries.length < maxPendingConversations

theorem dropOldest_of_le {queued : List Waiting} {eventIds : List String} (le : queued.length ≤ maxPendingMessages) :
    PendingMessages.dropOldest queued eventIds = ⟨queued, eventIds⟩ := by
  cases queued with
  | nil => rfl
  | cons first rest => exact if_neg (Nat.not_lt.mpr le)

theorem push_spec {pending : PendingMessages} {messages : Waiting} (room : pending.queued.length < maxPendingMessages) :
    (messages.compiled.eventId ∈ pending.eventIds ∧ pending.push messages = (false, pending)) ∨
      messages.compiled.eventId ∉ pending.eventIds ∧ pending.push messages = (true,
        ⟨pending.queued ++ [messages], pending.eventIds ++ [messages.compiled.eventId]⟩) := by
  unfold PendingMessages.push
  by_cases known : messages.compiled.eventId ∈ pending.eventIds
  · exact .inl ⟨known, if_pos known⟩
  · refine .inr ⟨known, ?_⟩
    rw [if_neg known, dropOldest_of_le]
    rw [length_append, length_singleton]
    exact room

theorem roomFor_eq (room : registry.HasRoom conversation) : registry.roomFor conversation = registry.pending := by
  unfold HasRoom at room
  unfold roomFor
  cases found : registry.pending.lookup conversation with
  | some entry => exact if_neg (fun full => absurd full.1 nofun)
  | none =>
    rw [found] at room
    exact if_neg fun full => absurd room (Nat.not_lt.mpr full.2)

theorem queuePending_eq (room : registry.HasRoom conversation) (now : Nat) (messages : Waiting) :
    ∃ queuedAt pending, pending.queued.length < maxPendingMessages ∧
      (registry.pending.lookup conversation = some (queuedAt, pending) ∨
        registry.pending.lookup conversation = none ∧ pending = .new) ∧
      registry.queuePending conversation now messages = { registry with
        pending := registry.pending.insert conversation (queuedAt, (pending.push messages).2) } := by
  unfold queuePending
  rw [roomFor_eq room]
  dsimp only
  unfold HasRoom at room
  cases found : registry.pending.lookup conversation with
  | some entry =>
    obtain ⟨queuedAt, pending⟩ := entry
    rw [found] at room
    exact ⟨queuedAt, pending, room, .inl rfl, rfl⟩
  | none => exact ⟨now, .new, by decide, .inr ⟨rfl, rfl⟩, rfl⟩

theorem queuePending_spec (room : registry.HasRoom conversation) (eventIds : registry.EventIds) (now : Nat)
    (messages : Waiting) :
    (registry.queuePending conversation now messages).EventIds ∧
      ∃ entry : Waiting, entry.compiled.eventId = messages.compiled.eventId ∧
        (registry.queuePending conversation now messages).entryFor conversation messages.compiled.eventId =
          some entry.call ∧
        ((conversation, entry) ∈ registry.waiting ∧
            (registry.queuePending conversation now messages).waiting.Perm registry.waiting ∨
          entry = messages ∧ (registry.queuePending conversation now messages).waiting.Perm
            ((conversation, messages) :: registry.waiting)) := by
  obtain ⟨queuedAt, pending, few, was, is⟩ := queuePending_eq room now messages
  have known_ids : pending.eventIds = pending.queued.map fun waiting => waiting.compiled.eventId := by
    rcases was with found | ⟨_, rfl⟩
    · exact eventIds conversation _ found
    · rfl
  have before : registry.waiting.Perm ((pending.queued.map fun waiting => (conversation, waiting)) ++
      gather (fun conversation (entry : Nat × PendingMessages) =>
        entry.2.queued.map fun waiting => (conversation, waiting)) (registry.pending.erase conversation)) := by
    rcases was with found | ⟨missing, rfl⟩
    · exact gather_of_lookup _ found
    · rw [erase_of_lookup_none missing]
      exact List.Perm.refl _
  have after_waiting (new : PendingMessages) :
      ({ registry with pending := registry.pending.insert conversation (queuedAt, new) } : ConversationRegistry).waiting =
        (new.queued.map fun waiting => (conversation, waiting)) ++
          gather (fun conversation (entry : Nat × PendingMessages) =>
            entry.2.queued.map fun waiting => (conversation, waiting)) (registry.pending.erase conversation) :=
    gather_insert _
  have after_ids (new : PendingMessages) (ids : new.eventIds = new.queued.map fun waiting => waiting.compiled.eventId) :
      ({ registry with pending := registry.pending.insert conversation (queuedAt, new) } : ConversationRegistry).EventIds := by
    intro other entry found
    by_cases same : other = conversation
    · subst same
      rw [AList.lookup_insert] at found
      rw [← Option.some.inj found]
      exact ids
    · rw [AList.lookup_insert_ne same] at found
      exact eventIds other entry found
  have after_entry (new : PendingMessages) (eventId : String) :
      ({ registry with pending := registry.pending.insert conversation (queuedAt, new) } : ConversationRegistry).entryFor
        conversation eventId =
          (new.queued.find? fun waiting => waiting.compiled.eventId = eventId).map Waiting.call := by
    unfold entryFor
    rw [AList.lookup_insert]
    rfl
  rw [is]
  rcases push_spec few with ⟨known, pushed⟩ | ⟨fresh, pushed⟩
  · rw [pushed]
    refine ⟨after_ids pending known_ids, ?_⟩
    rw [known_ids] at known
    obtain ⟨waiting, member, same⟩ := mem_map.mp known
    obtain ⟨entry, found⟩ := Option.isSome_iff_exists.mp (find?_isSome (p := fun waiting : Waiting =>
      decide (waiting.compiled.eventId = messages.compiled.eventId)) |>.mpr ⟨waiting, member, by simpa using same⟩)
    have there := mem_of_find?_eq_some found
    refine ⟨entry, by simpa using find?_some found, by rw [after_entry, found]; rfl, .inl ⟨?_, ?_⟩⟩
    · exact before.mem_iff.mpr (mem_append_left _ (mem_map.mpr ⟨entry, there, rfl⟩))
    · rw [after_waiting]
      exact before.symm
  · rw [pushed]
    refine ⟨after_ids _ (by rw [known_ids, map_append]; rfl), messages, rfl, ?_, .inr ⟨rfl, ?_⟩⟩
    · rw [after_entry, find?_append]
      have none_before : (pending.queued.find? fun waiting => waiting.compiled.eventId = messages.compiled.eventId) = none := by
        refine find?_eq_none.mpr fun waiting member same => fresh ?_
        rw [known_ids]
        exact mem_map.mpr ⟨waiting, member, by simpa using same⟩
      rw [none_before]
      simp
    · rw [after_waiting, map_append, append_assoc]
      exact perm_middle.trans (before.symm.cons _)

theorem takePending_spec (registry : ConversationRegistry) (conversation : ConversationId) :
    registry.waiting.Perm (((registry.takePending conversation).1.map fun waiting => (conversation, waiting)) ++
      (registry.takePending conversation).2.waiting) ∧
      (registry.EventIds → (registry.takePending conversation).2.EventIds) := by
  unfold takePending
  cases found : registry.pending.lookup conversation with
  | none => exact ⟨List.Perm.refl _, id⟩
  | some entry =>
    refine ⟨gather_of_lookup _ found, fun eventIds other entry there => ?_⟩
    by_cases same : other = conversation
    · subst same
      rw [AList.lookup_erase] at there
      cases there
    · rw [AList.lookup_erase_ne same] at there
      exact eventIds other entry there

end ConversationRegistry

end Byok.Cursor.Conversation
