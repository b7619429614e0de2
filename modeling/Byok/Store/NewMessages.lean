/-
**Which messages of a batch are new.**

`append_messages_once` inserts a message unless the chain, or an earlier message of the batch, has its
id or its runtime event id. `newMessages` says what that leaves of a batch; it does not matter how a
list is cut into batches (`newMessages_append`).
-/

import Byok.Store.Checkpoints

namespace Byok

open List

namespace Store

/-- The identity of a message on the chain, as `chain_identities` reads it. -/
def chainIdentity (message : CanonicalMessage) : ChainIdentity :=
  ⟨message.messageId, message.runtimeEventId, none⟩

theorem chainIdentity_payload (messages : List CanonicalMessage) :
    (messages.map (·.payload)).map chainIdentity = messages.map chainIdentity := by
  rw [map_map]
  rfl

/-- The messages that `append_messages_once` inserts below `chain`: those whose identity neither the
chain nor an earlier one of them has. -/
def newMessages (chain messages : List CanonicalMessage) : List CanonicalMessage :=
  messages.foldl (fun seen message =>
    if (chain ++ seen).any fun known => (chainIdentity known).matches message then seen
    else seen ++ [message]) []

theorem newMessages_concat (chain messages : List CanonicalMessage) (message : CanonicalMessage) :
    newMessages chain (messages ++ [message]) =
      if (chain ++ newMessages chain messages).any fun known => (chainIdentity known).matches message
      then newMessages chain messages else newMessages chain messages ++ [message] := by
  rw [newMessages, foldl_append]
  rfl

theorem newMessages_foldl (chain seen messages : List CanonicalMessage) :
    messages.foldl (fun seen message =>
      if (chain ++ seen).any fun known => (chainIdentity known).matches message then seen
      else seen ++ [message]) seen = seen ++ newMessages (chain ++ seen) messages := by
  induction messages using List.reverseRecOn with
  | nil => simp [newMessages]
  | append_singleton messages message ih =>
    rw [foldl_append, foldl_cons, foldl_nil, ih, newMessages_concat,
      ← append_assoc]
    split <;> simp

theorem newMessages_append (chain first second : List CanonicalMessage) :
    newMessages chain (first ++ second) =
      newMessages chain first ++ newMessages (chain ++ newMessages chain first) second := by
  rw [newMessages, foldl_append]
  exact newMessages_foldl chain (newMessages chain first) second

theorem newMessages_congr {chain other : List CanonicalMessage}
    (same : chain.map chainIdentity = other.map chainIdentity) (messages : List CanonicalMessage) :
    newMessages chain messages = newMessages other messages := by
  induction messages using List.reverseRecOn with
  | nil => rfl
  | append_singleton messages message ih =>
    have known : ∀ seen : List CanonicalMessage,
        ((chain ++ seen).any fun known => (chainIdentity known).matches message) =
          (other ++ seen).any fun known => (chainIdentity known).matches message := by
      intro seen
      have any : ∀ list : List CanonicalMessage,
          (list.any fun known => (chainIdentity known).matches message) =
            (list.map chainIdentity).any (·.matches message) := fun list => by rw [any_map]; rfl
      rw [any_append, any_append, any chain, any other, same]
    rw [newMessages_concat, newMessages_concat, ih, known]

theorem newMessages_subset (chain messages : List CanonicalMessage) :
    newMessages chain messages ⊆ messages := by
  induction messages using List.reverseRecOn with
  | nil => exact List.Subset.refl _
  | append_singleton messages message ih =>
    rw [newMessages_concat]
    split
    · exact List.Subset.trans ih (subset_append_left _ _)
    · exact append_subset.mpr
        ⟨List.Subset.trans ih (subset_append_left _ _), subset_append_right _ _⟩

end Store

end Byok
