/-
**Writing a message.** `server/src/store/messages.rs`: a message is written once, and a second write
under the same id or runtime event id must carry the same content.
-/

import Byok.Store.Schema

namespace Byok

open Library Transaction

variable {D : Type}

/-- The row keeps `message` out of the table: it has the message id, or the runtime event id. -/
def MessageRow.blocks (row : MessageRow) (conversationId : ConversationId)
    (message : CanonicalMessage) : Bool :=
  row.conversationId = conversationId &&
    (row.message.messageId = message.messageId ||
      message.runtimeEventId.isSome && row.message.runtimeEventId = message.runtimeEventId)

namespace Store

/-- `put_message_tx`. -/
def putMessage (conversationId : ConversationId) (message : CanonicalMessage) :
    StoreTransaction D Unit := do
  let inserted ← read fun store => !store.messages.any (·.blocks conversationId message)
  if inserted then
    write (insertMessage conversationId message)
  else
    let existing ← read fun store => store.messages.find? (·.blocks conversationId message)
    match existing with
    | some existing =>
        if existing.message = message.payload then pure ()
        else fail (.store ("message id or runtime event reused with different content: " ++
          message.messageId))
    | none => fail (.store ("message insert was ignored without an existing object: " ++
        message.messageId))

theorem putMessage_ok {conversationId : ConversationId} {message : CanonicalMessage}
    {store after : Store D} {done : Unit}
    (put : putMessage conversationId message store = .ok (done, after)) :
    ((∀ row ∈ store.messages, row.blocks conversationId message = false) ∧
      after = insertMessage conversationId message store) ∨
    (⟨conversationId, message.payload⟩ ∈ store.messages ∧ after = store) := by
  replace put := read_bind_ok.mp put
  split at put
  · rename_i free
    have unblocked : ∀ row ∈ store.messages, row.blocks conversationId message = false := by
      simpa using free
    exact .inl ⟨unblocked, write_ok.mp put⟩
  · obtain ⟨existing, _, look, put⟩ := bind_ok.mp put
    obtain ⟨found, rfl⟩ := read_ok.mp look
    cases existing with
    | none => exact absurd put (by simp)
    | some existing =>
      have blocked := List.find?_some found.symm
      simp only [MessageRow.blocks, Bool.and_eq_true, decide_eq_true_eq] at blocked
      by_cases same : existing.message = message.payload
      · simp only [same, if_true, pure_ok] at put
        obtain ⟨-, rfl⟩ := put
        refine .inr ⟨?_, rfl⟩
        rw [← blocked.1, ← same]
        exact List.mem_of_find?_eq_some found.symm
      · simp only [same, if_false, fail_ok] at put

end Store

end Byok
