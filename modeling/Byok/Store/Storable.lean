/-
**Which messages can be stored.**

`insert_checkpoint_tx` succeeds exactly on messages that do not collide with each other and collide
with nothing stored but themselves (`Storable`, `storable_of_inserted`, `insertCheckpoint_succeeds`).
-/

import Byok.Store.Operations
import Mathlib.Data.List.Pairwise

set_option linter.unusedSectionVars false

namespace Byok

open Library Transaction List

variable {D : Type} [DecidableEq D] [ChainHash D]

namespace Store

/-- No message has the id or the event id of an earlier one, and what is stored under an id or an
event id of theirs is the message itself. -/
structure Storable (store : Store D) (conversationId : ConversationId)
    (messages : List CanonicalMessage) : Prop where
  apart : messages.Pairwise fun earlier later =>
    (MessageRow.mk conversationId earlier.payload).blocks conversationId later = false
  same : ∀ message ∈ messages, ∀ row,
    store.messages.find? (·.blocks conversationId message) = some row →
      row.message = message.payload

section Rows

variable {store after : Store D} {conversationId : ConversationId}

theorem Chained.rows_eq (chained : store.Chained) {first second : MessageRow}
    (member : first ∈ store.messages) (other : second ∈ store.messages)
    (collide : first.blocks second.conversationId second.message = true) : first = second := by
  have symmetric : Std.Symm fun first second : MessageRow =>
      first.blocks second.conversationId second.message = false := by
    refine ⟨fun first second apart => ?_⟩
    simp only [MessageRow.blocks, Bool.and_eq_false_iff, Bool.or_eq_false_iff,
      decide_eq_false_iff_not] at apart ⊢
    rcases apart with home | ⟨messageId, event⟩
    · exact .inl fun same => home same.symm
    · refine .inr ⟨fun same => messageId same.symm, ?_⟩
      by_cases same : second.message.runtimeEventId = first.message.runtimeEventId
      · left
        simpa [same] using event
      · exact .inr same
  by_contra different
  have apart := chained.messages.forall member other different
  rw [collide] at apart
  cases apart

theorem Storable.tail {message : CanonicalMessage} {rest : List CanonicalMessage}
    (storable : Storable store conversationId (message :: rest)) :
    Storable store conversationId rest :=
  ⟨(pairwise_cons.mp storable.apart).2,
    fun other member => storable.same other (mem_cons_of_mem _ member)⟩

theorem Storable.put {message : CanonicalMessage} {rest : List CanonicalMessage}
    (storable : Storable store conversationId (message :: rest)) :
    ∃ after, putMessage conversationId message store = .ok ((), after) ∧
      after = { store with messages := after.messages } ∧ Storable after conversationId rest := by
  have known := storable.same message mem_cons_self
  have apart := pairwise_cons.mp storable.apart
  cases found : store.messages.find? (·.blocks conversationId message) with
  | some row =>
    have blocked : store.messages.any (·.blocks conversationId message) = true :=
      any_eq_true.mpr ⟨row, mem_of_find?_eq_some found, by simpa using find?_some found⟩
    refine ⟨store, ?_, rfl, storable.tail⟩
    rw [putMessage, bind_eq rfl]
    simp only [blocked, Bool.not_true, Bool.false_eq_true, if_false]
    rw [bind_eq rfl]
    simp only [found, known row found, if_true]
    rfl
  | none =>
    have free : store.messages.any (·.blocks conversationId message) = false := by
      simpa using found
    refine ⟨insertMessage conversationId message store, ?_, rfl, apart.2, ?_⟩
    · rw [putMessage, bind_eq rfl]
      simp only [free, Bool.not_false, if_true]
      rfl
    · intro later member row foundLater
      rw [insertMessage_messages, find?_append] at foundLater
      cases old : store.messages.find? (·.blocks conversationId later) with
      | some stored =>
        rw [old, Option.some_or] at foundLater
        obtain rfl := Option.some.inj foundLater
        exact storable.same later (mem_cons_of_mem _ member) stored old
      | none =>
        -- the row just written does not collide with a later message
        rw [old, Option.none_or, find?_singleton, if_neg (by simp [apart.1 later member])]
          at foundLater
        cases foundLater

theorem Storable.putMessages {messages : List CanonicalMessage}
    (storable : Storable store conversationId messages) :
    ∃ after, putMessages conversationId messages store = .ok ((), after) ∧
      after = { store with messages := after.messages } := by
  induction messages generalizing store with
  | nil => exact ⟨store, rfl, rfl⟩
  | cons message rest ih =>
    obtain ⟨between, put, frame, later⟩ := storable.put
    obtain ⟨after, puts, frame'⟩ := ih later
    refine ⟨after, ?_, by rw [frame', frame]⟩
    rw [Store.putMessages, bind_eq put]
    exact puts

theorem Storable.nodup {messages : List CanonicalMessage}
    (storable : Storable store conversationId messages) : (messages.map (·.messageId)).Nodup := by
  refine pairwise_map.mpr (storable.apart.imp fun {earlier later} apart same => ?_)
  simp [MessageRow.blocks, same] at apart

theorem insertCheckpoint_succeeds {messages : List CanonicalMessage} {above : CheckpointRow D}
    (member : above ∈ store.checkpoints)
    (storable : Storable store above.conversationId messages)
    (unused : store.checkpointByDigest above.conversationId
      (chainedDigest above.stateDigest messages) = none) :
    ∃ checkpointId after, insertCheckpoint above.conversationId above.checkpointId messages
      (chainedDigest above.stateDigest messages) store = .ok (checkpointId, after) ∧
      InsertedBelow store after above messages checkpointId := by
  obtain ⟨between, put, frame⟩ := storable.putMessages
  have unused' : between.checkpointByDigest above.conversationId
      (chainedDigest above.stateDigest messages) = none := by
    rw [frame]
    exact unused
  have ran : insertCheckpoint above.conversationId above.checkpointId messages
      (chainedDigest above.stateDigest messages) store =
        .ok (⟨between.nextCheckpointId⟩, insertCheckpointRow above.conversationId
          (some above.checkpointId) (chainedDigest above.stateDigest messages)
          (messages.map (·.messageId)) between) := by
    rw [insertCheckpoint, bind_eq put, insertCheckpointStatement, bind_eq rfl,
      bind_eq (require_holds unused'), bind_eq (require_holds storable.nodup), bind_eq rfl,
      bind_eq rfl]
    rfl
  exact ⟨_, _, ran, insertCheckpoint_ok member ran⟩

theorem storable_of_inserted (wellFormed : store.WellFormed) {above : CheckpointRow D}
    {messages : List CanonicalMessage} {checkpointId : CheckpointId}
    (inserted : InsertedBelow store after above messages checkpointId) :
    Storable store above.conversationId messages := by
  have chained := (wellFormed_writesMany wellFormed inserted.writes).chained
  have grown := writesMany_extends inserted.writes
  have distinct : (messages.map (·.messageId)).Nodup := chained.distinct _ inserted.member
  constructor
  · refine List.Pairwise.imp_of_mem ?_ (pairwise_map.mp distinct)
    intro earlier later member other different
    by_contra collide
    refine different ?_
    have one := chained.rows_eq (inserted.stored earlier member) (inserted.stored later other)
      (by rwa [Bool.not_eq_false] at collide)
    simpa using congrArg (fun row => row.message.messageId) one
  · intro message member row found
    have blocked : row.blocks above.conversationId message = true := by
      simpa using find?_some found
    have one := chained.rows_eq (grown.messages.subset (mem_of_find?_eq_some found))
      (inserted.stored message member) blocked
    rw [one]

end Rows

end Store

end Byok
