/-
**Appending messages that are stored.**

Messages that the table holds as they are can be appended to any chain of their conversation, as far as their
contents go (`append_not_reused`).
-/

import Byok.Store.Prefix
import Byok.Store.Storable

set_option linter.unusedSectionVars false

namespace Byok

open Library Transaction List

variable {D : Type} [DecidableEq D] [ChainHash D]

namespace Store

/-- The error of a message whose id is there with another content. -/
def Reused (error : Error) : Prop :=
  ∃ messageId, error = .store ("message id or runtime event reused with different content: " ++ messageId)

theorem not_reused {text : String} (other : text.toList.head? ≠ some 'm') : ¬ Reused (.store text) := by
  rintro ⟨messageId, equal⟩
  refine other ?_
  rw [Error.store.inj equal, String.toList_append]
  rfl

theorem not_reused_database : ¬ Reused .database := by
  rintro ⟨messageId, equal⟩
  cases equal

section Stored

variable {store after : Store D} {conversationId : ConversationId} {runId : RunId} {expected : CheckpointId}

theorem mem_of_message? {messageId : String} {message : CanonicalMessage}
    (found : store.message? conversationId messageId = some message) : ⟨conversationId, message⟩ ∈ store.messages := by
  obtain ⟨row, selected, rfl⟩ := Option.map_eq_some_iff.mp found
  have named := find?_some selected
  simp only [Bool.and_eq_true, decide_eq_true_eq] at named
  rw [← named.1]
  exact mem_of_find?_eq_some selected

theorem putMessage_stored (chained : store.Chained) {message : CanonicalMessage}
    (member : ⟨conversationId, message⟩ ∈ store.messages) (sent : message.payload = message) :
    putMessage conversationId message store = .ok ((), store) := by
  have itself : (MessageRow.mk conversationId message).blocks conversationId message = true := by simp [MessageRow.blocks]
  have storable : Storable store conversationId [message] := by
    refine ⟨pairwise_singleton _ _, fun other listed row found => ?_⟩
    obtain rfl := mem_singleton.mp listed
    have blocked : row.blocks conversationId other = true := by simpa using find?_some found
    rw [chained.rows_eq (mem_of_find?_eq_some found) member blocked, sent]
  cases found : store.messages.find? (·.blocks conversationId message) with
  | none =>
    have free := find?_eq_none.mp found _ member
    exact absurd itself free
  | some row =>
    have known := storable.same message (mem_singleton_self _) row found
    have blocked : store.messages.any (·.blocks conversationId message) = true :=
      any_eq_true.mpr ⟨row, mem_of_find?_eq_some found, by simpa using find?_some found⟩
    rw [putMessage, bind_eq rfl]
    simp only [blocked, Bool.not_true, Bool.false_eq_true, if_false]
    rw [bind_eq rfl]
    simp only [found, known, if_true]
    rfl

theorem appendMessageOnce_not_reused (chained : store.Chained) {state : AppendState D} {message : CanonicalMessage}
    {error : Error} (member : ⟨conversationId, message⟩ ∈ store.messages) (sent : message.payload = message)
    (bodies : ∀ identity ∈ state.known, ∀ body ∈ identity.body, ⟨conversationId, body⟩ ∈ store.messages ∧
      identity.messageId = body.messageId ∧ identity.runtimeEventId = body.runtimeEventId)
    (failed : appendMessageOnce conversationId state message store = .error error) : ¬ Reused error := by
  unfold appendMessageOnce appendMessageWith at failed
  cases found : state.known.find? (·.matches message) with
  | some identity =>
    rw [found] at failed
    have listed := mem_of_find?_eq_some found
    have matched := find?_some found
    have stored : storedUnder conversationId message identity store = true := by
      unfold storedUnder
      cases held : identity.body with
      | none => simpa using message?_of_mem conversationId message chained.messages member
      | some body =>
        obtain ⟨bodyMember, sameId, sameEvent⟩ := bodies identity listed body held
        have blocked : (MessageRow.mk conversationId body).blocks conversationId message = true := by
          rw [ChainIdentity.matches, sameId, sameEvent] at matched
          simpa [MessageRow.blocks] using matched
        have same := chained.rows_eq bodyMember member blocked
        simpa using congrArg MessageRow.message same
    rcases bind_failed failed with first | ⟨seen, between, look, failed⟩
    · cases first
    · obtain ⟨rfl, rfl⟩ := read_ok.mp look
      rcases bind_failed failed with refused | ⟨_, _, -, failed⟩
      · exact absurd stored (require_failed refused).1
      · cases failed
  | none =>
    rw [found] at failed
    rcases bind_failed failed with first | ⟨existing, between, look, failed⟩
    · cases first
    obtain ⟨rfl, rfl⟩ := read_ok.mp look
    rcases bind_failed failed with refused | ⟨_, between, checked, failed⟩
    · obtain ⟨-, rfl⟩ := require_failed refused
      exact not_reused (by decide)
    obtain ⟨-, rfl⟩ := require_ok.mp checked
    rcases bind_failed failed with refused | ⟨_, _, -, failed⟩
    · have put : putMessages conversationId [message] store = .ok ((), store) := by
        rw [putMessages, bind_eq (putMessage_stored chained member sent)]
        rfl
      rw [insertCheckpoint, bind_eq put, insertCheckpointStatement, bind_eq rfl] at refused
      rcases bind_failed refused with refused | ⟨_, _, checked, refused⟩
      · obtain ⟨-, rfl⟩ := require_failed refused
        exact not_reused_database
      obtain ⟨-, rfl⟩ := require_ok.mp checked
      rcases bind_failed refused with refused | ⟨_, _, checked, refused⟩
      · obtain ⟨-, rfl⟩ := require_failed refused
        exact not_reused_database
      · obtain ⟨-, rfl⟩ := require_ok.mp checked
        cases refused
    · cases failed

/-- **Messages that are in the table are never refused for their contents.** -/
theorem append_not_reused (wellFormed : store.WellFormed) {messages : List CanonicalMessage} {error : Error}
    (stored : ∀ message ∈ messages, ⟨conversationId, message⟩ ∈ store.messages)
    (sent : ∀ message ∈ messages, message.payload = message)
    (failed : appendMessagesOnce conversationId runId expected (store.chainIdentities conversationId expected) messages
      store = .error error) : ¬ Reused error := by
  unfold appendMessagesOnce appendMessagesWith at failed
  split at failed
  · cases failed
  rcases bind_failed failed with refused | ⟨_, _, checked, failed⟩
  · rcases bind_failed refused with look | ⟨row, _, look, refused⟩
    · cases look
    · obtain ⟨rfl, rfl⟩ := read_ok.mp look
      obtain ⟨-, rfl⟩ := require_failed refused
      refine not_reused ?_
      simp [String.toList_append]
  obtain ⟨owner, rfl⟩ := requireActiveHead_ok checked
  rcases bind_failed failed with refused | ⟨digest, _, read, failed⟩
  · rcases bind_failed refused with look | ⟨row, _, look, refused⟩
    · cases look
    · obtain rfl := orFail_failed refused
      refine not_reused ?_
      simp [String.toList_append]
  obtain ⟨⟨above, member, named, rfl⟩, rfl⟩ := checkpointDigest_ok read
  rcases bind_failed failed with refused | ⟨state, between, looped, failed⟩
  · have start := AppendLoop.start wellFormed (store.chainIdentities conversationId expected) owner member named
    obtain ⟨done, message, acc, between, part, loop, failed⟩ :=
      foldlM_failed (motive := fun done state between => AppendLoop store between conversationId expected
        (store.chainIdentities conversationId expected) done state) refused start
        fun done item acc between next later _ loop ran => appendMessageOnce_loop wellFormed loop ran
    have grown := writesMany_extends loop.writes
    have listed : ∀ other ∈ done ++ [message], other ∈ messages := fun other here => part.subset here
    refine appendMessageOnce_not_reused (wellFormed_writesMany wellFormed loop.writes).chained
      (grown.messages.subset (stored message (listed message (by simp)))) (sent message (listed message (by simp)))
      (fun identity known body held => ?_) failed
    rw [loop.identities] at known
    rcases mem_append.mp known with old | new
    · unfold chainIdentities at old
      split at old
      · cases old
      · split at old
        · obtain ⟨_, -, rfl⟩ := mem_map.mp old
          cases held
        · cases old
    · obtain ⟨inserted, insertedListed, rfl⟩ := mem_map.mp new
      obtain rfl := Option.some.inj held
      refine ⟨grown.messages.subset (stored inserted (listed inserted (mem_append_left _ ?_))), rfl, rfl⟩
      obtain ⟨⟨own, place, flag⟩, zipped, kept⟩ := mem_filterMap.mp insertedListed
      cases flag with
      | false => cases kept
      | true =>
        obtain rfl := Option.some.inj kept
        exact (of_mem_zip zipped).1
  · split at failed
    · cases failed
    · rcases bind_failed failed with refused | ⟨_, _, -, failed⟩
      · rcases bind_failed refused with look | ⟨row, _, look, refused⟩
        · cases look
        · obtain ⟨rfl, rfl⟩ := read_ok.mp look
          rcases bind_failed refused with refused | ⟨_, _, -, refused⟩
          · obtain ⟨-, rfl⟩ := require_failed refused
            refine not_reused ?_
            simp [String.toList_append]
          · cases refused
      · cases failed

end Stored

end Store

end Byok
