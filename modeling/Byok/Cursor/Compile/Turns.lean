/-
**What a preparation leaves.**

* `Sound`, `Grows` — what holds of every reachable database, and how it grows (`run_grows`).
* `prepare_run` — a preparation is a run of calls.
* `prepare_behind` — a run is prepared behind as many messages of its turn as are stored behind the base.
-/

import Byok.Cursor.Compile.Prepare
import Byok.Store.Isolation

set_option linter.unusedSectionVars false

namespace Byok.Cursor.Compile

open Library Transaction Store

variable {D : Type} [DecidableEq D] [ChainHash D]

/-! ### Databases that grow -/

/-- What holds of every reachable database. -/
structure Sound (database : Database D) : Prop where
  wellFormed : database.store.WellFormed
  serialised : database.store.Serialised

/-- The database after others have used it. -/
structure Grows (database after : Database D) : Prop where
  writes : WritesMany database.store after.store
  anchors : ∀ conversationId inputId base, database.inputAnchors conversationId inputId = some base →
    after.inputAnchors conversationId inputId = some base

section Growth

variable {database between after : Database D}

theorem Grows.refl (database : Database D) : Grows database database := ⟨.refl, fun _ _ _ => id⟩

theorem Grows.trans (one : Grows database between) (two : Grows between after) : Grows database after :=
  ⟨one.writes.trans two.writes, fun _ _ _ found => two.anchors _ _ _ (one.anchors _ _ _ found)⟩

theorem Grows.sound (grows : Grows database after) (sound : Sound database) : Sound after :=
  ⟨wellFormed_writesMany sound.wellFormed grows.writes, serialised_writesMany sound.serialised grows.writes⟩

theorem Grows.extends (grows : Grows database after) : Extends database.store after.store :=
  writesMany_extends grows.writes

theorem sound_empty : Sound (⟨Store.empty, fun _ _ => none⟩ : Database D) :=
  ⟨wellFormed_empty, fun _ member => nomatch member⟩

theorem call_grows (sound : Sound database) {call : Call} (step : (databaseSystem D).step database call after) :
    Grows database after := by
  obtain rfl := step
  cases call with
  | operation operation => exact ⟨operation.apply_writes sound.wellFormed, fun _ _ _ => id⟩
  | anchorInput conversationId inputId base =>
    refine ⟨?_, fun _ _ _ => insertAnchor_kept⟩
    show WritesMany database.store (insertAnchor conversationId inputId base database).store
    rw [insertAnchor_store]

/-- **A run only lets the database grow.** -/
theorem run_grows (sound : Sound database) {calls : List Call} (run : (databaseSystem D).Run database calls after) :
    Grows database after := by
  refine (System.run_relates Sound Grows.refl (fun _ _ _ => Grows.trans) (fun state call next holds step => ?_)
    sound run).2
  have grows := call_grows holds step
  exact ⟨grows.sound holds, grows⟩

theorem sound_of_reachable (reachable : (databaseSystem D).Reachable database) : Sound database := by
  obtain ⟨_, calls, rfl, run⟩ := reachable
  exact (run_grows sound_empty run).sound sound_empty

theorem Grows.load (sound : Sound database) (grows : Grows database after) {checkpointId : CheckpointId}
    (known : ∃ row ∈ database.store.checkpoints, row.checkpointId = checkpointId) :
    after.store.loadCheckpointMessages checkpointId = database.store.loadCheckpointMessages checkpointId := by
  obtain ⟨row, member, rfl⟩ := known
  exact load_extends sound.wellFormed (grows.sound sound).wellFormed grows.extends member

end Growth

/-! ### Messages that were appended -/

section Appended

variable {store after : Store D} {conversationId : ConversationId} {runId : RunId} {expected : CheckpointId}

theorem appended_stored (wellFormed : store.WellFormed) {messages : List CanonicalMessage}
    {appended : List (CheckpointId × Bool)}
    (ran : appendMessagesOnce conversationId runId expected (store.chainIdentities conversationId expected) messages store =
      .ok (appended, after)) (sent : ∀ message ∈ messages, message.payload = message) :
    ∀ message ∈ messages, after.message? conversationId message.messageId = some message := by
  intro message listed
  have done := appendMessagesOnce_ok wellFormed (List.ne_nil_of_mem listed) ran
  obtain ⟨between, state, -, loop, rfl⟩ := done.between
  have wellFormed' := wellFormed_writesMany wellFormed loop.writes
  have there : between.message? conversationId message.messageId = some message := by
    rcases loop.delivered message listed with inserted | ⟨identity, known, -, stored⟩
    · obtain ⟨row, member, named, home, -⟩ := loop.top
      have own : message ∈ between.loadCheckpointMessages row.checkpointId := by
        rw [named, loop.chain]
        exact List.mem_append_right _ (List.mem_map.mpr ⟨message, inserted, sent message listed⟩)
      rw [← home]
      exact load_stored wellFormed' member own
    · have unread : identity.body = none := by
        unfold chainIdentities at known
        split at known
        · cases known
        · split at known
          · obtain ⟨_, -, rfl⟩ := List.mem_map.mp known
            rfl
          · cases known
      simpa only [storedUnder, unread, decide_eq_true_eq] using stored
  by_cases unmoved : state.head = expected
  · rw [if_pos unmoved]
    exact there
  · rw [if_neg unmoved]
    exact there

end Appended

/-! ### What is prepared -/

section Prepared

variable {compiler : Compiler} {now : Option String → Time} {request : RunRequest} {database after : Database D}

theorem baseOf_grows {projection : ActionProjection} {proposed base : CheckpointId}
    (ran : baseOf request projection proposed database = .ok (base, after)) : Grows database after := by
  unfold baseOf at ran
  cases input : projection.inputId with
  | some inputId =>
    rw [input] at ran
    obtain ⟨store, -, -, same⟩ := anchorInput_ok ran
    refine ⟨store ▸ .refl, fun _ _ _ found => ?_⟩
    rw [same]
    exact insertAnchor_kept found
  | none =>
    rw [input] at ran
    obtain ⟨-, rfl⟩ := pure_ok.mp ran
    exact .refl _

theorem Prepares.grows (sound : Sound database) {turn : Turn} {projection : ActionProjection} {mode : Mode}
    {proposed : CheckpointId} {between : Database D}
    (prepares : Prepares compiler now request database turn after projection mode proposed between) :
    Grows database between ∧ Grows between after := by
  obtain ⟨writes, anchors⟩ := proposedBase_writes sound.wellFormed prepares.proposing
  exact ⟨⟨writes, fun _ _ _ found => anchors ▸ found⟩, baseOf_grows prepares.based⟩

theorem requestContextMessage_id {store : Store D} (serialised : store.Serialised) {projection : ActionProjection}
    {eventId : String} {context : CanonicalMessage}
    (shown : requestContextMessage now store request projection eventId = some context) :
    context.messageId = "request-context:" ++ eventId := by
  unfold requestContextMessage at shown
  cases known : store.message? request.conversationId ("request-context:" ++ eventId) with
  | some stored =>
    rw [known] at shown
    obtain rfl := Option.some.inj shown
    exact (serialised.message? known).2
  | none =>
    rw [known] at shown
    dsimp only at shown
    split at shown
    · obtain ⟨projected, -, rfl⟩ := Option.map_eq_some_iff.mp shown
      rfl
    · rw [compileRequestContext_some shown]

theorem turnMessages_sent {store : Store D} (serialised : store.Serialised) {projection : ActionProjection} {mode : Mode}
    {eventId : Option String} {messages : List CanonicalMessage}
    (compiled : turnMessages compiler now store request projection mode eventId = .ok messages) :
    ∀ message ∈ messages, message.payload = message := by
  unfold turnMessages at compiled
  split at compiled
  case isTrue =>
    obtain rfl := Except.ok.inj compiled
    exact fun _ listed => nomatch listed
  case isFalse =>
    cases eventId with
    | none => cases compiled
    | some eventId =>
      dsimp only at compiled
      cases runs : runtimeMessage compiler now store request projection mode eventId with
      | error error => rw [runs] at compiled; cases compiled
      | ok runtime =>
        rw [runs] at compiled
        obtain rfl := Except.ok.inj compiled
        intro message listed
        rcases List.mem_append.mp listed with context | own
        · have shown := Option.mem_toList.mp context
          unfold requestContextMessage at shown
          cases known : store.message? request.conversationId ("request-context:" ++ eventId) with
          | some stored =>
            rw [known] at shown
            obtain rfl := Option.some.inj shown
            exact (serialised.message? known).1
          | none =>
            rw [known] at shown
            dsimp only at shown
            split at shown
            · obtain ⟨projected, made, rfl⟩ := Option.map_eq_some_iff.mp shown
              unfold projectedUserContext at made
              split at made
              · rw [compileRequestContext_some made]
                rfl
              · cases made
            · rw [compileRequestContext_some shown]
              rfl
        · obtain rfl := List.mem_singleton.mp own
          unfold runtimeMessage at runs
          cases known : store.message? request.conversationId ("runtime:" ++ eventId) with
          | some stored =>
            rw [known] at runs
            obtain rfl := Except.ok.inj runs
            exact (serialised.message? known).1
          | none =>
            rw [known] at runs
            obtain ⟨_, _, -, -, rfl⟩ := compileWithTimestamp_ok runs
            rfl

theorem turnMessages_own {store : Store D} (serialised : store.Serialised) {projection : ActionProjection} {mode : Mode}
    {eventId : Option String} {messages : List CanonicalMessage}
    (compiled : turnMessages compiler now store request projection mode eventId = .ok messages) {own : CanonicalMessage}
    (last : messages.getLast? = some own) : messages.count own = 1 := by
  unfold turnMessages at compiled
  split at compiled
  case isTrue =>
    obtain rfl := Except.ok.inj compiled
    cases last
  case isFalse =>
    cases eventId with
    | none => cases compiled
    | some eventId =>
      dsimp only at compiled
      cases runs : runtimeMessage compiler now store request projection mode eventId with
      | error error => rw [runs] at compiled; cases compiled
      | ok runtime =>
        rw [runs] at compiled
        obtain rfl := Except.ok.inj compiled
        obtain rfl : runtime = own := by simpa using last
        have named : runtime.messageId = "runtime:" ++ eventId := by
          unfold runtimeMessage at runs
          cases known : store.message? request.conversationId ("runtime:" ++ eventId) with
          | some stored =>
            rw [known] at runs
            exact Except.ok.inj runs ▸ (serialised.message? known).2
          | none =>
            rw [known] at runs
            obtain ⟨_, _, -, -, rfl⟩ := compileWithTimestamp_ok runs
            rfl
        have apart : runtime ∉ (requestContextMessage now store request projection eventId).toList := by
          intro listed
          have context := requestContextMessage_id serialised (Option.mem_toList.mp listed)
          rw [named] at context
          exact absurd (congrArg String.toList context) (by simp)
        rw [List.count_append, List.count_eq_zero_of_not_mem apart, List.count_singleton_self]

theorem prepareTurn_grows (sound : Sound database) {turn : Turn}
    (turned : prepareTurn compiler now request database = .ok (turn, after)) :
    Grows database after ∧ ∀ message ∈ turn.messages, message.payload = message := by
  obtain ⟨projection, mode, proposed, between, prepares⟩ := prepareTurn_ok.mp turned
  obtain ⟨one, two⟩ := prepares.grows sound
  exact ⟨one.trans two, turnMessages_sent (two.sound (one.sound sound)).serialised prepares.compiled⟩

theorem onStore_run {transaction : StoreTransaction D CheckpointId} {checkpointId : CheckpointId} (operation : Operation)
    (calls : operation.transaction = (transaction.ignore : StoreTransaction D Unit))
    (ran : onStore transaction database = .ok (checkpointId, after)) :
    (databaseSystem D).Run database [.operation operation] after := by
  obtain ⟨done, anchors⟩ := onStore_ok.mp ran
  refine .single ?_
  show after = { database with store := operation.apply database.store }
  rw [Operation.apply_of_ok (calls ▸ ignore_ok.mpr ⟨checkpointId, done⟩), ← anchors]

/-- **A preparation of a turn is a run of calls.** -/
theorem prepareTurn_run {turn : Turn} (turned : prepareTurn compiler now request database = .ok (turn, after)) :
    ∃ calls, (databaseSystem D).Run database calls after := by
  obtain ⟨projection, mode, proposed, between, prepares⟩ := prepareTurn_ok.mp turned
  have first : ∃ calls, (databaseSystem D).Run database calls between := by
    have ran := prepares.proposing
    unfold proposedBase at ran
    split at ran
    case isTrue => exact ⟨_, onStore_run (.ensureConversation request.conversationId) rfl ran⟩
    case isFalse =>
      obtain ⟨_, _, valid, ran⟩ := bind_ok.mp ran
      obtain ⟨-, rfl⟩ := ofResult_ok.mp valid
      exact ⟨_, onStore_run (.importCheckpoint request.conversationId request.history) rfl ran⟩
  have second : ∃ calls, (databaseSystem D).Run between calls after := by
    have ran := prepares.based
    unfold baseOf at ran
    cases input : projection.inputId with
    | some inputId =>
      rw [input] at ran
      obtain ⟨-, -, -, same⟩ := anchorInput_ok ran
      exact ⟨[.anchorInput request.conversationId inputId proposed], .single same⟩
    | none =>
      rw [input] at ran
      obtain ⟨-, rfl⟩ := pure_ok.mp ran
      exact ⟨[], .nil⟩
  obtain ⟨calls, run⟩ := first
  obtain ⟨more, run'⟩ := second
  exact ⟨calls ++ more, run.append run'⟩

variable [LawfulChainHash D]

/-- **A run is prepared behind what is stored of its turn.** -/
theorem prepare_behind (sound : Sound database) {runId : RunId} {prepared : PreparedRun}
    (ran : prepare compiler now runId request database = .ok (prepared, after)) :
    ∃ turn stored, prepareTurn compiler now request database = .ok (turn, after) ∧
      after.store.StoredBehind request.conversationId turn.base turn.messages stored prepared.baseCheckpointId ∧
      turn.messages = stored ++ prepared.initialMessages ∧ prepared.conversationId = request.conversationId ∧
      ∃ row ∈ after.store.checkpoints, row.checkpointId = turn.base := by
  obtain ⟨turn, between, reused, turned, matched, anchors, initial, home⟩ := prepare_ok ran
  obtain ⟨grows, sent⟩ := prepareTurn_grows sound turned
  have sound' := grows.sound sound
  obtain ⟨same, stored, behind, rfl⟩ := matchCheckpointPrefix_ok sound'.wellFormed sound'.serialised sent matched
  obtain rfl : between = after := by
    obtain ⟨store, inputAnchors⟩ := between
    obtain ⟨store', inputAnchors'⟩ := after
    dsimp only at same anchors
    rw [same, anchors]
  obtain ⟨digest, _, found, -⟩ := bind_ok.mp matched
  obtain ⟨⟨row, member, named, -⟩, -⟩ := checkpointDigest_ok found
  refine ⟨turn, stored, turned, behind, ?_, home, row, member, named⟩
  obtain ⟨rest, equal⟩ := behind.part
  rw [initial, ← equal, List.drop_left]

theorem prepare_run (sound : Sound database) {runId : RunId} {prepared : PreparedRun}
    (ran : prepare compiler now runId request database = .ok (prepared, after)) :
    ∃ calls, (databaseSystem D).Run database calls after := by
  obtain ⟨_, _, turned, -⟩ := prepare_behind sound ran
  exact prepareTurn_run turned

theorem reachable_run (reachable : (databaseSystem D).Reachable database) {calls : List Call}
    (run : (databaseSystem D).Run database calls after) : (databaseSystem D).Reachable after := by
  obtain ⟨start, before, initial, run'⟩ := reachable
  exact ⟨start, before ++ calls, initial, run'.append run⟩

end Prepared

/-! ### Where a transaction ends -/

/-- The value and the state of a transaction that succeeds. -/
def landed {σ α : Type} (result : Except Error (α × σ)) (ok : result.isOk = true) : α × σ :=
  match result, ok with
  | .ok ended, _ => ended

theorem landed_eq {σ α : Type} {result : Except Error (α × σ)} (ok : result.isOk = true) :
    result = .ok ((landed result ok).1, (landed result ok).2) := by
  cases result with
  | error error => cases ok
  | ok ended => rfl

theorem turned_of_landed [LawfulChainHash D] {compiler : Compiler} {now : Option String → Time} {request : RunRequest}
    {database after : Database D} (sound : Sound database) {runId : RunId} {prepared : PreparedRun}
    (ran : prepare compiler now runId request database = .ok (prepared, after))
    (ok : (prepareTurn compiler now request database).isOk = true) :
    prepareTurn compiler now request database =
      .ok ((landed (prepareTurn compiler now request database) ok).1, after) := by
  obtain ⟨turn, _, turned, -⟩ := prepare_behind sound ran
  have same := (landed_eq ok).symm.trans turned
  obtain ⟨-, ended⟩ := Prod.mk.inj (Except.ok.inj same)
  rw [← ended]
  exact landed_eq ok

end Byok.Cursor.Compile
