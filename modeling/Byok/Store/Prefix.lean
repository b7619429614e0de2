/-
**Messages that are stored behind a checkpoint.** `match_checkpoint_prefix` of
`server/src/store/checkpoints.rs`.

* `matchCheckpointPrefix` — the walk along children of one message, by their digests.
* `Follows` — messages stored one by one behind a checkpoint; `StoredBehind`, as many as there are.
* `matchCheckpointPrefix_ok` — the walk ends behind as many as there are.
-/

import Byok.Store.Chain

set_option linter.unusedSectionVars false

namespace Byok

open Library Transaction List

/-- A hash under which the digest of a parent and a digest below it determine what was added. -/
class LawfulChainHash (D : Type) [ChainHash D] : Prop where
  chain_injective : ∀ {parent : D} {first second : List CanonicalMessage},
    ChainHash.chain parent first = ChainHash.chain parent second → first = second

instance : LawfulChainHash HistoryDigest where
  chain_injective equal := by
    simpa [ChainHash.chain] using equal

variable {D : Type} [DecidableEq D] [ChainHash D]

namespace Store

/-- The child of a checkpoint that has a digest. -/
def childByDigest (store : Store D) (conversationId : ConversationId) (parent : CheckpointId) (digest : D) :
    Option CheckpointId :=
  (store.checkpoints.find? fun row =>
    row.conversationId = conversationId && row.parentCheckpointId = some parent && row.stateDigest = digest).map
    (·.checkpointId)

/-- The loop of `match_checkpoint_prefix`. -/
def matchFrom (store : Store D) (conversationId : ConversationId) :
    CheckpointId → D → List CanonicalMessage → CheckpointId × Nat
  | checkpoint, _, [] => (checkpoint, 0)
  | checkpoint, parentDigest, addition :: additions =>
    let digest := chainedDigest parentDigest [addition]
    match store.childByDigest conversationId checkpoint digest with
    | none => (checkpoint, 0)
    | some child =>
      let matched := matchFrom store conversationId child digest additions
      (matched.1, matched.2 + 1)

def matchCheckpointPrefix (conversationId : ConversationId) (baseCheckpointId : CheckpointId)
    (additions : List CanonicalMessage) : StoreTransaction D (CheckpointId × Nat) := do
  let parentDigest ← checkpointDigest baseCheckpointId
  read fun store => store.matchFrom conversationId baseCheckpointId parentDigest additions

/-! ### Messages one by one -/

/-- A row below a checkpoint that adds one message. -/
structure Adds (store : Store D) (conversationId : ConversationId) (above : CheckpointId)
    (message : CanonicalMessage) (row : CheckpointRow D) : Prop where
  member : row ∈ store.checkpoints
  home : row.conversationId = conversationId
  below : row.parentCheckpointId = some above
  added : store.additions row = [message]

/-- The messages are stored one by one behind a checkpoint, the last of them at the second one. -/
inductive Follows (store : Store D) (conversationId : ConversationId) :
    CheckpointId → List CanonicalMessage → CheckpointId → Prop
  | nil (checkpointId : CheckpointId) : Follows store conversationId checkpointId [] checkpointId
  | cons {above head : CheckpointId} {message : CanonicalMessage} {rest : List CanonicalMessage} {row : CheckpointRow D}
      (adds : store.Adds conversationId above message row)
      (more : Follows store conversationId row.checkpointId rest head) :
      Follows store conversationId above (message :: rest) head

/-- Of the messages, the first ones are stored behind the checkpoint, and the next one is not. -/
structure StoredBehind (store : Store D) (conversationId : ConversationId) (base : CheckpointId)
    (messages stored : List CanonicalMessage) (head : CheckpointId) : Prop where
  follows : store.Follows conversationId base stored head
  ends : messages = stored ∨ ∃ message rest, messages = stored ++ message :: rest ∧
    ∀ row, ¬ store.Adds conversationId head message row

section Laws

variable {store after : Store D} {conversationId : ConversationId} {base head : CheckpointId}
  {messages stored : List CanonicalMessage}

theorem StoredBehind.part (behind : store.StoredBehind conversationId base messages stored head) :
    stored <+: messages := by
  rcases behind.ends with rfl | ⟨message, rest, rfl, -⟩
  · exact prefix_rfl
  · exact prefix_append _ _

theorem StoredBehind.cons {above : CheckpointId} {message : CanonicalMessage} {row : CheckpointRow D}
    (adds : store.Adds conversationId above message row)
    (behind : store.StoredBehind conversationId row.checkpointId messages stored head) :
    store.StoredBehind conversationId above (message :: messages) (message :: stored) head := by
  refine ⟨.cons adds behind.follows, behind.ends.imp (fun equal => by rw [equal]) ?_⟩
  rintro ⟨next, rest, rfl, unstored⟩
  exact ⟨next, rest, rfl, unstored⟩

theorem exists_storedBehind (store : Store D) (conversationId : ConversationId) (base : CheckpointId)
    (messages : List CanonicalMessage) : ∃ stored head, store.StoredBehind conversationId base messages stored head := by
  induction messages generalizing base with
  | nil => exact ⟨[], base, .nil base, .inl rfl⟩
  | cons message rest ih =>
    by_cases child : ∃ row, store.Adds conversationId base message row
    · obtain ⟨row, adds⟩ := child
      obtain ⟨stored, head, behind⟩ := ih row.checkpointId
      exact ⟨message :: stored, head, behind.cons adds⟩
    · exact ⟨[], base, .nil base, .inr ⟨message, rest, rfl, fun row adds => child ⟨row, adds⟩⟩⟩

theorem Adds.extends (chained : store.Chained) (grown : Extends store after) {above : CheckpointId}
    {message : CanonicalMessage} {row : CheckpointRow D} (adds : store.Adds conversationId above message row) :
    after.Adds conversationId above message row :=
  ⟨grown.checkpoints.subset adds.member, adds.home, adds.below,
    (chained.additions_eq grown.messages adds.member).trans adds.added⟩

theorem Follows.extends (chained : store.Chained) (grown : Extends store after)
    (follows : store.Follows conversationId base stored head) : after.Follows conversationId base stored head := by
  induction follows with
  | nil checkpointId => exact .nil checkpointId
  | cons adds more ih => exact .cons (adds.extends chained grown) ih

theorem Follows.load (wellFormed : store.WellFormed) (follows : store.Follows conversationId base stored head) :
    store.loadCheckpointMessages head = store.loadCheckpointMessages base ++ stored := by
  induction follows with
  | nil checkpointId => rw [append_nil]
  | cons adds more ih => rw [ih, load_child wellFormed adds.member _ adds.below, adds.added, append_assoc]; rfl

end Laws

/-! ### What is stored was serialised -/

/-- Every message in the table is as it was read back. -/
def Serialised (store : Store D) : Prop := ∀ row ∈ store.messages, row.message.payload = row.message

section Serialised

variable {store after : Store D}

theorem serialised_writes (serialised : store.Serialised) (wrote : Writes store after) : after.Serialised := by
  intro row member
  cases wrote with
  | insertMessage conversationId message free =>
    rcases mem_append.mp member with old | new
    · exact serialised row old
    · obtain rfl := mem_singleton.mp new
      exact message.payload_payload
  | createConversation conversationId absent unused => exact serialised row member
  | insertCheckpoint above additions _ stored distinct unused => exact serialised row member
  | advance checkpoint runId expected owner _ => exact serialised row member
  | claim prepared nowMs base _ named belongs fresh => exact serialised row (claim_messages prepared nowMs store ▸ member)
  | finish runId run status failure found terminal => exact serialised row member
  | reconcile processStartedAtMs => exact serialised row member
  | toolRounds rounds => exact serialised row member

theorem serialised_writesMany (serialised : store.Serialised) (wrote : WritesMany store after) : after.Serialised := by
  induction wrote with
  | refl => exact serialised
  | tail _ last ih => exact serialised_writes ih last

theorem Serialised.message? (serialised : store.Serialised) {conversationId : ConversationId} {messageId : String}
    {message : CanonicalMessage} (found : store.message? conversationId messageId = some message) :
    message.payload = message ∧ message.messageId = messageId := by
  obtain ⟨row, selected, rfl⟩ := Option.map_eq_some_iff.mp found
  have named := find?_some selected
  simp only [Bool.and_eq_true, decide_eq_true_eq] at named
  exact ⟨serialised row (mem_of_find?_eq_some selected), named.2⟩

theorem Serialised.additions (serialised : store.Serialised) (row : CheckpointRow D) :
    (store.additions row).map (·.payload) = store.additions row := by
  refine (map_congr_left fun message listed => ?_).trans (map_id _)
  obtain ⟨messageId, -, found⟩ := mem_filterMap.mp listed
  exact (serialised.message? found).1

end Serialised

/-! ### The walk -/

section Walk

variable [LawfulChainHash D] {store after : Store D} {conversationId : ConversationId} {head : CheckpointId}
  {messages stored : List CanonicalMessage}

theorem childByDigest_eq (wellFormed : store.WellFormed) (serialised : store.Serialised) {above : CheckpointRow D}
    (member : above ∈ store.checkpoints) {message : CanonicalMessage} (sent : message.payload = message)
    {child : CheckpointId} :
    store.childByDigest conversationId above.checkpointId (chainedDigest above.stateDigest [message]) = some child ↔
      ∃ row, store.Adds conversationId above.checkpointId message row ∧ row.checkpointId = child ∧
        row.stateDigest = chainedDigest above.stateDigest [message] := by
  constructor
  · intro found
    obtain ⟨row, selected, rfl⟩ := Option.map_eq_some_iff.mp found
    have fits := find?_some selected
    simp only [Bool.and_eq_true, decide_eq_true_eq] at fits
    obtain ⟨⟨home, below⟩, digest⟩ := fits
    have listed := mem_of_find?_eq_some selected
    obtain ⟨other, otherMember, named, -, -, chained⟩ := wellFormed.chained.linked row listed _ below
    obtain rfl := wellFormed.chained.grown.key_injective otherMember member named
    have added := LawfulChainHash.chain_injective (digest.symm.trans chained)
    rw [serialised.additions, map_cons, map_nil, sent] at added
    exact ⟨row, ⟨listed, home, below, added.symm⟩, rfl, digest⟩
  · rintro ⟨row, adds, rfl, digest⟩
    rw [childByDigest, Option.map_eq_some_iff]
    cases found : store.checkpoints.find? fun row => row.conversationId = conversationId &&
        row.parentCheckpointId = some above.checkpointId &&
        row.stateDigest = chainedDigest above.stateDigest [message] with
    | none =>
      have lost := find?_eq_none.mp found row adds.member
      simp [adds.home, adds.below, digest] at lost
    | some other =>
      have fits := find?_some found
      simp only [Bool.and_eq_true, decide_eq_true_eq] at fits
      have same := digest_injective wellFormed.chained (mem_of_find?_eq_some found) adds.member
        (fits.1.1.trans adds.home.symm) (fits.2.trans digest.symm)
      exact ⟨other, rfl, by rw [same]⟩

theorem Adds.digest (wellFormed : store.WellFormed) {above row : CheckpointRow D} (member : above ∈ store.checkpoints)
    {message : CanonicalMessage} (adds : store.Adds conversationId above.checkpointId message row) :
    row.stateDigest = chainedDigest above.stateDigest [message] := by
  obtain ⟨other, otherMember, named, -, -, chained⟩ :=
    wellFormed.chained.linked row adds.member _ adds.below
  obtain rfl := wellFormed.chained.grown.key_injective otherMember member named
  rw [chained, adds.added]

theorem matchFrom_eq (wellFormed : store.WellFormed) (serialised : store.Serialised) {base : CheckpointRow D}
    (member : base ∈ store.checkpoints) (sent : ∀ message ∈ messages, message.payload = message)
    (behind : store.StoredBehind conversationId base.checkpointId messages stored head) :
    store.matchFrom conversationId base.checkpointId base.stateDigest messages = (head, stored.length) := by
  induction messages generalizing base stored with
  | nil =>
    obtain ⟨follows, ends⟩ := behind
    obtain rfl : stored = [] := by
      rcases ends with equal | ⟨_, _, equal, -⟩
      · exact equal.symm
      · simp at equal
    cases follows
    rfl
  | cons message rest ih =>
    have own := sent message mem_cons_self
    have others : ∀ other ∈ rest, other.payload = other := fun other listed => sent other (mem_cons_of_mem _ listed)
    rw [matchFrom]
    cases found : store.childByDigest conversationId base.checkpointId (chainedDigest base.stateDigest [message]) with
    | none =>
      have unstored : ∀ row, ¬ store.Adds conversationId base.checkpointId message row := by
        intro row adds
        have there := (childByDigest_eq wellFormed serialised member own).mpr ⟨row, adds, rfl, adds.digest wellFormed member⟩
        rw [found] at there
        cases there
      cases behind.follows with
      | nil => rfl
      | cons adds more =>
        obtain ⟨_, equal⟩ := behind.part
        obtain ⟨rfl, -⟩ := List.cons.inj equal
        exact absurd adds (unstored _)
    | some child =>
      obtain ⟨row, adds, rfl, digest⟩ := (childByDigest_eq wellFormed serialised member own).mp found
      cases behind.follows with
      | nil =>
        rcases behind.ends with equal | ⟨next, _, equal, unstored⟩
        · cases equal
        · obtain ⟨rfl, -⟩ := List.cons.inj equal
          exact absurd adds (unstored row)
      | @cons _ _ first stored other otherAdds more =>
        obtain ⟨_, equal⟩ := behind.part
        obtain ⟨rfl, -⟩ := List.cons.inj equal
        obtain rfl : other = row := digest_injective wellFormed.chained otherAdds.member adds.member
          (otherAdds.home.trans adds.home.symm) ((otherAdds.digest wellFormed member).trans digest.symm)
        have rest_behind : store.StoredBehind conversationId other.checkpointId rest stored head := by
          refine ⟨more, behind.ends.imp (fun equal => (List.cons.inj equal).2) ?_⟩
          rintro ⟨next, last, equal, unstored⟩
          exact ⟨next, last, (List.cons.inj equal).2, unstored⟩
        simp only [← digest, ih adds.member others rest_behind, length_cons]

/-- **The messages found are those that are stored behind the base.** -/
theorem matchCheckpointPrefix_ok (wellFormed : store.WellFormed) (serialised : store.Serialised) {base : CheckpointId}
    (sent : ∀ message ∈ messages, message.payload = message) {reused : Nat}
    (ran : matchCheckpointPrefix conversationId base messages store = .ok ((head, reused), after)) :
    store = after ∧ ∃ stored, store.StoredBehind conversationId base messages stored head ∧
      reused = stored.length := by
  obtain ⟨digest, _, found, ran⟩ := bind_ok.mp ran
  obtain ⟨⟨row, member, rfl, rfl⟩, rfl⟩ := checkpointDigest_ok found
  obtain ⟨matched, rfl⟩ := read_ok.mp ran
  obtain ⟨stored, last, behind⟩ := exists_storedBehind store conversationId row.checkpointId messages
  rw [matchFrom_eq wellFormed serialised member sent behind] at matched
  obtain ⟨rfl, rfl⟩ := Prod.mk.inj matched
  exact ⟨rfl, stored, behind, rfl⟩

theorem matchCheckpointPrefix_succeeds (wellFormed : store.WellFormed) (serialised : store.Serialised)
    {base : CheckpointId} (known : ∃ row ∈ store.checkpoints, row.checkpointId = base)
    (sent : ∀ message ∈ messages, message.payload = message)
    (behind : store.StoredBehind conversationId base messages stored head) :
    matchCheckpointPrefix conversationId base messages store = .ok ((head, stored.length), store) := by
  obtain ⟨row, member, rfl⟩ := known
  have digest : checkpointDigest row.checkpointId store = .ok (row.stateDigest, store) := by
    rw [checkpointDigest, bind_eq rfl]
    simp only [checkpoint?_of_mem wellFormed member]
    rfl
  rw [matchCheckpointPrefix, bind_eq digest]
  show Except.ok (store.matchFrom conversationId row.checkpointId row.stateDigest messages, store) = _
  rw [matchFrom_eq wellFormed serialised member sent behind]

theorem StoredBehind.unique (wellFormed : store.WellFormed) (serialised : store.Serialised) {base : CheckpointId}
    (known : ∃ row ∈ store.checkpoints, row.checkpointId = base) (sent : ∀ message ∈ messages, message.payload = message)
    {stored' : List CanonicalMessage} {head' : CheckpointId}
    (behind : store.StoredBehind conversationId base messages stored head)
    (other : store.StoredBehind conversationId base messages stored' head') : stored = stored' ∧ head = head' := by
  obtain ⟨row, member, rfl⟩ := known
  have same := (matchFrom_eq wellFormed serialised member sent behind).symm.trans
    (matchFrom_eq wellFormed serialised member sent other)
  obtain ⟨rfl, lengths⟩ := Prod.mk.inj same
  refine ⟨?_, rfl⟩
  rw [prefix_iff_eq_take.mp behind.part, lengths, ← prefix_iff_eq_take.mp other.part]

end Walk

end Store

end Byok
