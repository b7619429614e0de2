/-
**The archive of a compaction.**

A builder has two views of the roots that it had before: those of its base, which only a compaction
changes, and those of its frontier, to which every checkpoint of the run adds. The archive goes by the
base (`compacted_ok`), so it misses what the run has added since (`archive_accounts_iff`).
-/

import Byok.Cursor.Checkpoint.Roots
import Byok.Cursor.Checkpoint.RoundTrip
import Byok.Library.System

namespace Byok

open Library List

/-! ### Histories of a builder -/

/-- A builder and the checkpoint that it built last. -/
structure BuilderState where
  builder : CheckpointBuilder
  last : Option ConversationState
deriving DecidableEq

/-- The roots that the client has seen last: those of the checkpoint, or those that it sent. -/
def BuilderState.roots (state : BuilderState) : List (List UInt8) :=
  (state.last.getD state.builder.base).rootPromptMessages

inductive BuilderLabel where
  | configure
  | checkpoint
  | compaction
deriving DecidableEq, Repr

/-- What may be done with a builder. -/
inductive BuilderStep (codec : Codec) (sync : BlobSynchronizer) :
    BuilderState → BuilderLabel → BuilderState → Prop
  | configure {state : BuilderState} (model instructions : String) :
      BuilderStep codec sync state .configure
        { state with builder := { state.builder with model, instructions } }
  | checkpoint {state : BuilderState} {messages : List CanonicalMessage} {mode : Int}
      {pendingToolCalls readPaths : List String} {checkpoint : ConversationState}
      {builder : CheckpointBuilder}
      (ran : state.builder.buildState codec sync messages mode pendingToolCalls readPaths =
        .ok (checkpoint, builder)) :
      BuilderStep codec sync state .checkpoint ⟨builder, some checkpoint⟩
  | compaction {state : BuilderState} {messages : List CanonicalMessage} {mode : Int}
      {summary summaryMessageId : String} {readPaths : List String} {checkpoint : ConversationState}
      {archive : SummaryArchive} {builder : CheckpointBuilder}
      (ran : state.builder.compacted codec sync messages mode summary summaryMessageId readPaths =
        .ok (checkpoint, archive, builder)) :
      BuilderStep codec sync state .compaction ⟨builder, some checkpoint⟩

/-- The builder of one run. It starts from the state that the client sent. -/
def builderSystem (codec : Codec) (sync : BlobSynchronizer) : System BuilderState BuilderLabel where
  initial state := state.builder.roots = none ∧ state.last = none
  step := BuilderStep codec sync

/-! ### What the steps do to the roots -/

section Roots

variable {codec : Codec} {sync : BlobSynchronizer} {builder next : CheckpointBuilder}

theorem fromBytes_ok {bytes : List UInt8} {id : BlobId} (ran : BlobId.fromBytes bytes = .ok id) :
    id.bytes = bytes := by
  unfold BlobId.fromBytes at ran
  split at ran <;> cases ran
  rfl

theorem mapM_fromBytes {raw : List (List UInt8)} {ids : List BlobId}
    (ran : raw.mapM BlobId.fromBytes = .ok ids) : ids.map (·.bytes) = raw := by
  induction raw generalizing ids with
  | nil =>
    cases ran
    rfl
  | cons bytes raw ih =>
    rw [mapM_cons] at ran
    obtain ⟨id, first, ran⟩ := except_bind_eq_ok.mp ran
    obtain ⟨more, rest, ran⟩ := except_bind_eq_ok.mp ran
    cases ran
    rw [map_cons, fromBytes_ok first, ih rest]

theorem persist_ok {blob : Blob} {id : BlobId} (ran : sync.persist blob = .ok id) :
    id = sync.digest blob := by
  unfold BlobSynchronizer.persist at ran
  obtain ⟨_, -, ran⟩ := except_bind_eq_ok.mp ran
  cases ran
  rfl

theorem ensureRoots_ok {roots : RootFrontier} (ran : builder.ensureRoots = .ok roots) :
    builder.roots = some roots ∨
      builder.roots = none ∧ roots.ids.map (·.bytes) = builder.base.rootPromptMessages := by
  unfold CheckpointBuilder.ensureRoots at ran
  split at ran
  · rename_i here
    cases ran
    exact .inl here
  · rename_i here
    obtain ⟨ids, parsed, ran⟩ := except_bind_eq_ok.mp ran
    cases ran
    exact .inr ⟨here, mapM_fromBytes parsed⟩

theorem extendRoots_ok {roots after : RootFrontier} {messages : List Value}
    (ran : CheckpointBuilder.extendRoots sync roots messages = .ok after) :
    roots.ids <+: after.ids := by
  unfold CheckpointBuilder.extendRoots at ran
  induction messages generalizing roots with
  | nil =>
    cases ran
    exact prefix_refl _
  | cons message messages ih =>
    rw [foldlM_cons] at ran
    obtain ⟨middle, first, ran⟩ := except_bind_eq_ok.mp ran
    obtain ⟨id, -, first⟩ := except_bind_eq_ok.mp first
    cases first
    exact (prefix_append _ _).trans (ih ran)

theorem projectRoots_ok {messages : List CanonicalMessage} {ids : List BlobId}
    (ran : builder.projectRoots codec sync messages = .ok (ids, next)) :
    ∃ roots after, builder.ensureRoots = .ok roots ∧ after.ids = ids ∧
      next = { builder with roots := some after } ∧ roots.ids.drop 1 <+: ids.drop 1 := by
  unfold CheckpointBuilder.projectRoots at ran
  obtain ⟨wire, -, ran⟩ := except_bind_eq_ok.mp ran
  obtain ⟨roots, ensured, ran⟩ := except_bind_eq_ok.mp ran
  obtain ⟨replaced, replacing, ran⟩ := except_bind_eq_ok.mp ran
  have tail : replaced.ids.drop 1 = roots.ids.drop 1 := by
    unfold CheckpointBuilder.refreshSystemRoot at replacing
    split at replacing
    · obtain ⟨id, -, replacing⟩ := except_bind_eq_ok.mp replacing
      cases replacing
      cases roots.ids <;> rfl
    · cases replacing
      rfl
  split at ran
  · cases ran
  · split at ran
    · cases ran
    · obtain ⟨after, extended, ran⟩ := except_bind_eq_ok.mp ran
      cases ran
      refine ⟨roots, after, ensured, rfl, rfl, ?_⟩
      obtain ⟨more, equal⟩ := extendRoots_ok extended
      rw [← tail, ← equal, drop_append]
      exact prefix_append _ _

theorem replaceRoots_ok {messages : List CanonicalMessage} {ids : List BlobId}
    (ran : builder.replaceRoots codec sync messages = .ok (ids, next)) :
    ∃ wire, codec.stableMessages builder.instructions messages builder.model = .ok wire ∧
      ids = wire.map (fun message => sync.digest (.message message)) ∧
      next = { builder with roots := some ⟨ids, [], ids.length⟩ } := by
  unfold CheckpointBuilder.replaceRoots at ran
  obtain ⟨wire, encoded, ran⟩ := except_bind_eq_ok.mp ran
  obtain ⟨roots, -, ran⟩ := except_bind_eq_ok.mp ran
  obtain ⟨stored, persisted, ran⟩ := except_bind_eq_ok.mp ran
  cases ran
  refine ⟨wire, encoded, ?_, rfl⟩
  rw [mapM_eq_ok (fun entry => sync.digest (.message entry.1)) ?_ persisted]
  · show wire.zipIdx.map ((fun message => sync.digest (.message message)) ∘ Prod.fst) = _
    rw [← map_map, zipIdx_map_fst]
  · rintro ⟨message, index⟩ - id ran
    simp only at ran
    split at ran
    · cases ran
      rfl
    · exact persist_ok ran

theorem summaryRoot_ok {messages : List CanonicalMessage} {summaryMessageId : String}
    {rootIds : List BlobId} {root : BlobId}
    (ran : builder.summaryRoot codec sync messages summaryMessageId rootIds = .ok root) :
    ∃ message wire value, messages.find? (fun message => message.messageId = summaryMessageId) =
        some message ∧
      codec.stableMessages builder.instructions [message] builder.model = .ok wire ∧
      wire.getLast? = some value ∧ root = sync.digest (.message value) := by
  unfold CheckpointBuilder.summaryRoot at ran
  split at ran
  · cases ran
  · rename_i message found
    obtain ⟨wire, encoded, ran⟩ := except_bind_eq_ok.mp ran
    split at ran
    · cases ran
    · rename_i value last
      split at ran
      · cases ran
        exact ⟨message, wire, value, found, encoded, last, rfl⟩
      · cases ran

/-- The ids of the roots that a history has. -/
def newRoots (codec : Codec) (sync : BlobSynchronizer) (builder : CheckpointBuilder)
    (messages : List CanonicalMessage) : List (List UInt8) :=
  match codec.stableMessages builder.instructions messages builder.model with
  | .ok wire => wire.map fun message => (sync.digest (.message message)).bytes
  | .error _ => []

/-- The id that the summary has as a root. -/
def summaryId (codec : Codec) (sync : BlobSynchronizer) (builder : CheckpointBuilder)
    (messages : List CanonicalMessage) (summaryMessageId : String) : Option (List UInt8) := do
  let message ← messages.find? fun message => message.messageId = summaryMessageId
  (newRoots codec sync builder [message]).getLast?

/-- What a compaction returns. The archive goes by the roots of the base. -/
structure Compacted (codec : Codec) (sync : BlobSynchronizer) (builder next : CheckpointBuilder)
    (messages : List CanonicalMessage) (summaryMessageId : String) (checkpoint : ConversationState)
    (archive : SummaryArchive) : Prop where
  roots : checkpoint.rootPromptMessages = newRoots codec sync builder messages
  base : next.base = checkpoint
  frontier : ∃ roots, next.roots = some roots ∧
    roots.ids.map (·.bytes) = checkpoint.rootPromptMessages
  summary : summaryId codec sync builder messages summaryMessageId = some archive.summaryMessage
  summarized : archive.summarizedMessages = (builder.base.rootPromptMessages.drop 1).filter fun id =>
    id ∉ checkpoint.rootPromptMessages
  tail : archive.windowTail = min ((checkpoint.rootPromptMessages.drop 1).countP fun id =>
    id ≠ archive.summaryMessage ∧ id ∈ builder.base.rootPromptMessages) u32Max

theorem BlobId.bytes_injective : Function.Injective BlobId.bytes := by
  rintro ⟨first, _⟩ ⟨second, _⟩ same
  obtain rfl : first = second := same
  rfl

theorem mem_map_bytes {ids : List BlobId} {id : BlobId} : id.bytes ∈ ids.map (·.bytes) ↔ id ∈ ids :=
  mem_map_of_injective BlobId.bytes_injective

theorem retainedRoots_map (previous rootIds : List BlobId) (summary : BlobId) :
    CheckpointBuilder.retainedRoots previous rootIds summary =
      ((rootIds.map (·.bytes)).drop 1).countP fun id =>
        id ≠ summary.bytes ∧ id ∈ previous.map (·.bytes) := by
  unfold CheckpointBuilder.retainedRoots
  rw [← map_drop, countP_map]
  congr 1
  funext id
  simp only [Function.comp_apply, mem_map_bytes, ne_eq, BlobId.bytes_injective.eq_iff]

theorem map_summarizedRoots (previous rootIds : List BlobId) :
    (CheckpointBuilder.summarizedRoots previous rootIds).map (·.bytes) =
      ((previous.map (·.bytes)).drop 1).filter fun id => id ∉ rootIds.map (·.bytes) := by
  unfold CheckpointBuilder.summarizedRoots
  rw [← map_drop, filter_map]
  congr 2
  funext id
  simp only [Function.comp_apply, mem_map_bytes]

theorem compacted_ok {messages : List CanonicalMessage} {mode : Int}
    {summary summaryMessageId : String} {readPaths : List String} {checkpoint : ConversationState}
    {archive : SummaryArchive}
    (ran : builder.compacted codec sync messages mode summary summaryMessageId readPaths =
      .ok (checkpoint, archive, next)) :
    Compacted codec sync builder next messages summaryMessageId checkpoint archive := by
  unfold CheckpointBuilder.compacted at ran
  obtain ⟨previous, parsed, ran⟩ := except_bind_eq_ok.mp ran
  obtain ⟨⟨rootIds, between⟩, replaced, ran⟩ := except_bind_eq_ok.mp ran
  obtain ⟨summaryRoot, located, ran⟩ := except_bind_eq_ok.mp ran
  obtain ⟨summaryBlob, -, ran⟩ := except_bind_eq_ok.mp ran
  obtain ⟨archiveBlob, -, ran⟩ := except_bind_eq_ok.mp ran
  cases ran
  obtain ⟨wire, encoded, rfl, rfl⟩ := replaceRoots_ok replaced
  obtain ⟨message, single, value, found, one, last, rfl⟩ := summaryRoot_ok located
  have base := mapM_fromBytes parsed
  constructor
  case roots => simp [newRoots, encoded]
  case base => rfl
  case frontier => exact ⟨_, rfl, rfl⟩
  case summary =>
    have root : (newRoots codec sync builder [message]).getLast? =
        some (sync.digest (.message value)).bytes := by
      simp only [newRoots, one, getLast?_map, last]
      rfl
    simp only [summaryId, found]
    exact root
  case summarized =>
    rw [← base]
    exact map_summarizedRoots _ _
  case tail =>
    rw [← base]
    exact congrArg (min · u32Max) (retainedRoots_map _ _ _)

end Roots

/-! ### The two views of the roots -/

section Views

variable {codec : Codec} {sync : BlobSynchronizer} {state next : BuilderState}

/-- The roots of the base behind its system root. -/
def BuilderState.known (state : BuilderState) : List (List UInt8) :=
  state.builder.base.rootPromptMessages.drop 1

/-- The roots that the run has added to those of the base. -/
def BuilderState.added (state : BuilderState) : List (List UInt8) :=
  (state.roots.drop 1).drop state.known.length

/-- The frontier is what the client has seen last, and that begins with the roots of the base. -/
structure BuilderState.Consistent (state : BuilderState) : Prop where
  frontier : state.builder.roots = none ∧ state.last = none ∨
    ∃ frontier, state.builder.roots = some frontier ∧ frontier.ids.map (·.bytes) = state.roots
  grown : state.known <+: state.roots.drop 1

theorem consistent_checkpoint (consistent : state.Consistent) {messages : List CanonicalMessage}
    {mode : Int} {pendingToolCalls readPaths : List String} {checkpoint : ConversationState}
    {builder : CheckpointBuilder}
    (ran : state.builder.buildState codec sync messages mode pendingToolCalls readPaths =
      .ok (checkpoint, builder)) : BuilderState.Consistent ⟨builder, some checkpoint⟩ := by
  unfold CheckpointBuilder.buildState at ran
  obtain ⟨⟨ids, between⟩, projected, ran⟩ := except_bind_eq_ok.mp ran
  cases ran
  obtain ⟨roots, after, ensured, rfl, rfl, tail⟩ := projectRoots_ok projected
  have before : roots.ids.map (·.bytes) = state.roots := by
    rcases ensureRoots_ok ensured with found | ⟨none, base⟩
    · rcases consistent.frontier with ⟨none, -⟩ | ⟨frontier, same, seen⟩
      · rw [none] at found
        cases found
      · rw [found] at same
        cases same
        exact seen
    · rcases consistent.frontier with ⟨-, last⟩ | ⟨frontier, same, -⟩
      · rw [base, BuilderState.roots, last]
        rfl
      · rw [none] at same
        cases same
  refine ⟨.inr ⟨after, rfl, rfl⟩, consistent.grown.trans ?_⟩
  show state.roots.drop 1 <+: (after.ids.map (·.bytes)).drop 1
  rw [← before, ← map_drop, ← map_drop]
  exact tail.map _

theorem consistent_step {label : BuilderLabel} (consistent : state.Consistent)
    (step : BuilderStep codec sync state label next) : next.Consistent := by
  cases step with
  | configure model instructions =>
    -- the base is what it was, and so is the checkpoint
    have roots : BuilderState.roots
        { state with builder := { state.builder with model, instructions } } = state.roots := by
      unfold BuilderState.roots
      cases state.last <;> rfl
    constructor
    case frontier =>
      rw [roots]
      exact consistent.frontier
    case grown =>
      rw [roots]
      exact consistent.grown
  | checkpoint ran => exact consistent_checkpoint consistent ran
  | compaction ran =>
    have done := compacted_ok ran
    refine ⟨.inr done.frontier, ?_⟩
    unfold BuilderState.known BuilderState.roots
    rw [done.base]
    exact prefix_refl _

theorem consistent_of_reachable (reachable : (builderSystem codec sync).Reachable state) :
    state.Consistent := by
  refine System.reachable_invariant (fun state start => ?_) (fun _ _ _ consistent step => ?_) reachable
  · refine ⟨.inl start, ?_⟩
    unfold BuilderState.known BuilderState.roots
    rw [start.2]
    exact prefix_refl _
  · exact consistent_step consistent step

theorem roots_split (consistent : state.Consistent) :
    state.roots.drop 1 = state.known ++ state.added :=
  (prefix_iff_eq_append.mp consistent.grown).symm

end Views

/-! ### What the archive accounts for -/

/-- The archive accounts for every root that was there before. -/
structure Accounts (before : List (List UInt8)) (checkpoint : ConversationState)
    (archive : SummaryArchive) : Prop where
  summarized : archive.summarizedMessages = (before.drop 1).filter fun id =>
    id ∉ checkpoint.rootPromptMessages
  tail : archive.windowTail = (checkpoint.rootPromptMessages.drop 1).countP fun id =>
    id ≠ archive.summaryMessage ∧ id ∈ before.drop 1

/-- The new roots besides the first and the summary. -/
def keptRoots (codec : Codec) (sync : BlobSynchronizer) (builder : CheckpointBuilder)
    (messages : List CanonicalMessage) (summaryMessageId : String) : List (List UInt8) :=
  ((newRoots codec sync builder messages).drop 1).filter fun id =>
    summaryId codec sync builder messages summaryMessageId ≠ some id

/-- Nothing that the run has added is summarised away, and among the roots that are kept there are as
many that only the run has added as there are copies of the system root of the base. Where a history is
so long that `window_tail` is clamped, it has to be right by itself. -/
structure Accountable (codec : Codec) (sync : BlobSynchronizer) (state : BuilderState)
    (messages : List CanonicalMessage) (summaryMessageId : String) : Prop where
  archived : ∀ id ∈ state.added, id ∈ newRoots codec sync state.builder messages
  tail : let kept := keptRoots codec sync state.builder messages summaryMessageId
    let base := state.builder.base.rootPromptMessages
    if kept.countP (· ∈ base) ≤ u32Max then
      kept.countP (fun id => id ∈ state.added ∧ id ∉ state.known) =
        kept.countP fun id => id ∈ base ∧ id ∉ state.known
    else kept.countP (· ∈ state.roots.drop 1) = u32Max

section Accounts

variable {codec : Codec} {sync : BlobSynchronizer} {state : BuilderState}

theorem countP_or {α : Type} (list : List α) (first second : α → Prop) [DecidablePred first]
    [DecidablePred second] : list.countP (fun a => first a ∨ second a) =
      list.countP (fun a => first a) + list.countP fun a => second a ∧ ¬ first a := by
  induction list with
  | nil => rfl
  | cons a list ih =>
    simp only [countP_cons, ih]
    by_cases one : first a <;> by_cases two : second a <;> simp [one, two] <;> omega

theorem countP_kept {messages : List CanonicalMessage} {summaryMessageId : String}
    {summary : List UInt8}
    (named : summaryId codec sync state.builder messages summaryMessageId = some summary)
    (roots : List (List UInt8)) :
    ((newRoots codec sync state.builder messages).drop 1).countP
        (fun id => id ≠ summary ∧ id ∈ roots) =
      (keptRoots codec sync state.builder messages summaryMessageId).countP (· ∈ roots) := by
  unfold keptRoots
  rw [countP_filter, named]
  congr 1
  funext id
  by_cases same : id = summary
  · simp [same]
  · have other : summary ≠ id := fun equal => same equal.symm
    simp [same, other]

theorem min_countP_iff {kept base known added : List (List UInt8)} (within : known ⊆ base)
    (limit : Nat) : min (kept.countP (· ∈ base)) limit = kept.countP (· ∈ known ++ added) ↔
      if kept.countP (· ∈ base) ≤ limit then
        kept.countP (fun id => id ∈ added ∧ id ∉ known) =
          kept.countP fun id => id ∈ base ∧ id ∉ known
      else kept.countP (· ∈ known ++ added) = limit := by
  have ofBase : kept.countP (· ∈ base) =
      kept.countP (· ∈ known) + kept.countP fun id => id ∈ base ∧ id ∉ known := by
    rw [← countP_or]
    congr 1
    funext id
    by_cases here : id ∈ known
    · simp [here, within here]
    · simp [here]
  have ofRun : kept.countP (· ∈ known ++ added) =
      kept.countP (· ∈ known) + kept.countP fun id => id ∈ added ∧ id ∉ known := by
    rw [← countP_or]
    simp only [mem_append]
  split
  · rename_i small
    rw [Nat.min_eq_left small]
    omega
  · rename_i large
    rw [Nat.min_eq_right (by omega)]
    exact eq_comm

/-- **The archive accounts for all roots exactly when the run has added none that it would miss.** -/
theorem archive_accounts_iff (reachable : (builderSystem codec sync).Reachable state)
    {messages : List CanonicalMessage} {mode : Int} {summary summaryMessageId : String}
    {readPaths : List String} {checkpoint : ConversationState} {archive : SummaryArchive}
    {builder : CheckpointBuilder}
    (ran : state.builder.compacted codec sync messages mode summary summaryMessageId readPaths =
      .ok (checkpoint, archive, builder)) :
    Accounts state.roots checkpoint archive ↔
      Accountable codec sync state messages summaryMessageId := by
  have done := compacted_ok ran
  have split := roots_split (consistent_of_reachable reachable)
  have summarized : archive.summarizedMessages = (state.roots.drop 1).filter
      (fun id => id ∉ checkpoint.rootPromptMessages) ↔
      ∀ id ∈ state.added, id ∈ newRoots codec sync state.builder messages := by
    rw [done.summarized, done.roots, split, filter_append]
    show state.known.filter _ = _ ↔ _
    rw [self_eq_append_right, filter_eq_nil_iff]
    simp
  have within : state.known ⊆ state.builder.base.rootPromptMessages := drop_subset _ _
  have tail : archive.windowTail = (checkpoint.rootPromptMessages.drop 1).countP
      (fun id => id ≠ archive.summaryMessage ∧ id ∈ state.roots.drop 1) ↔
      let kept := keptRoots codec sync state.builder messages summaryMessageId
      let base := state.builder.base.rootPromptMessages
      if kept.countP (· ∈ base) ≤ u32Max then
        kept.countP (fun id => id ∈ state.added ∧ id ∉ state.known) =
          kept.countP fun id => id ∈ base ∧ id ∉ state.known
      else kept.countP (· ∈ state.roots.drop 1) = u32Max := by
    rw [done.tail, done.roots, countP_kept done.summary, countP_kept done.summary, split]
    exact min_countP_iff within u32Max
  constructor
  · rintro ⟨first, second⟩
    exact ⟨summarized.mp first, tail.mp second⟩
  · rintro ⟨first, second⟩
    exact ⟨summarized.mpr first, tail.mpr second⟩

end Accounts

/-! ### A reply that is summarised away and not archived -/

/-- The first turn of a conversation. -/
def sampleTurn : List CanonicalMessage :=
  [⟨"question", .user, .user, .parts [.text "why"], none⟩,
    ⟨"reply", .assistant, .assistant, .assistant "because" "" none none [], none⟩]

/-- What a compaction puts in its place. -/
def sampleReplacement : List CanonicalMessage :=
  [⟨"summary", .user, .runtime, .parts [.text "in short"], none⟩,
    ⟨"question", .user, .user, .parts [.text "why"], none⟩]

/-- The wire messages of a history, under a system prompt. -/
def sampleWire (messages : List CanonicalMessage) : Except Error (List Value) := do
  let projected ← projector.transduce none messages
  ((⟨"system", .system, .parts [.text "prompt"]⟩ : ProjectedMessage) :: projected).mapM
    fun message => sampleCodec.wireMessage message "model"

theorem sampleWire_stable (messages : List CanonicalMessage) :
    sampleCodec.stableMessages "prompt" messages "model" = sampleWire messages := by
  unfold Codec.stableMessages
  rw [projectMessages_eq_transduce]
  rfl

/-- A digest that keeps the wire messages of the sample apart. -/
def sampleSync : BlobSynchronizer where
  digest blob :=
    let known := ([sampleTurn, sampleReplacement].flatMap fun messages =>
      (sampleWire messages).toOption.getD []).map Blob.message
    ⟨List.replicate 32 (UInt8.ofNat (known.idxOf blob)), length_replicate⟩
  set _ := .ok ()

/-- A conversation that begins. -/
def sampleBuilder : BuilderState where
  builder := ⟨⟨[], [], none, [], [], none, none, [], 0⟩, "model", "prompt", none⟩
  last := none

/-- The ids of the system prompt (0), the question (1), the reply (2) and the summary (4). -/
def sampleId (number : UInt8) : List UInt8 := List.replicate 32 number

/-- The builder when the first turn is settled. -/
def sampleSettled : BuilderState where
  builder := { sampleBuilder.builder with
    roots := some ⟨[0, 1, 2].map fun number => ⟨sampleId number, length_replicate⟩,
      (sampleWire sampleTurn).toOption.getD [], 0⟩ }
  last := some { sampleBuilder.builder.base with
    rootPromptMessages := [sampleId 0, sampleId 1, sampleId 2]
    mode := some 0 }

theorem sampleSettled_step :
    BuilderStep sampleCodec sampleSync sampleBuilder .checkpoint sampleSettled := by
  have built : sampleBuilder.builder.buildState sampleCodec sampleSync sampleTurn 0 [] [] =
      .ok ({ sampleBuilder.builder.base with
        rootPromptMessages := [sampleId 0, sampleId 1, sampleId 2]
        mode := some 0 }, sampleSettled.builder) := by
    unfold CheckpointBuilder.buildState CheckpointBuilder.projectRoots
    rw [show sampleBuilder.builder.instructions = "prompt" from rfl,
      show sampleBuilder.builder.model = "model" from rfl, sampleWire_stable]
    rfl
  exact .checkpoint built

theorem sampleSettled_reachable : (builderSystem sampleCodec sampleSync).Reachable sampleSettled :=
  ⟨sampleBuilder, [.checkpoint], ⟨rfl, rfl⟩, .single sampleSettled_step⟩

/-- The archive of the sample: it knows nothing of the reply, nor that the question is kept. -/
def sampleArchive : SummaryArchive := ⟨[], "in short", 0, sampleId 4⟩

/-- The state of the sample after its compaction. -/
def sampleCompacted : ConversationState :=
  ⟨[sampleId 0, sampleId 4, sampleId 1], [], some 0, [], [], some (sampleId 6), some (sampleId 6),
    [sampleId 6], 1⟩

/-- The builder of the sample with its new roots. -/
def sampleReplaced : CheckpointBuilder :=
  { sampleSettled.builder with
    roots := some ⟨[0, 4, 1].map fun number => ⟨sampleId number, length_replicate⟩, [], 3⟩ }

theorem sampleCompacted_ran : sampleSettled.builder.compacted sampleCodec sampleSync
    sampleReplacement 0 "in short" "summary" [] =
      .ok (sampleCompacted, sampleArchive, { sampleReplaced with base := sampleCompacted }) := by
  have replaced : sampleSettled.builder.replaceRoots sampleCodec sampleSync sampleReplacement =
      .ok ([0, 4, 1].map fun number => ⟨sampleId number, length_replicate⟩, sampleReplaced) := by
    unfold CheckpointBuilder.replaceRoots
    rw [show sampleSettled.builder.instructions = "prompt" from rfl,
      show sampleSettled.builder.model = "model" from rfl, sampleWire_stable]
    rfl
  have located : sampleReplaced.summaryRoot sampleCodec sampleSync sampleReplacement "summary"
      ([0, 4, 1].map fun number => ⟨sampleId number, length_replicate⟩) =
      .ok ⟨sampleId 4, length_replicate⟩ := by
    unfold CheckpointBuilder.summaryRoot
    rw [show sampleReplaced.instructions = "prompt" from rfl,
      show sampleReplaced.model = "model" from rfl]
    simp only [sampleWire_stable]
    rfl
  unfold CheckpointBuilder.compacted
  rw [replaced]
  simp only [except_ok_bind]
  rw [located]
  rfl

/-- The reply of the run is neither archived nor kept, and the question that is kept is not counted. -/
theorem reply_not_archived :
    (builderSystem sampleCodec sampleSync).Reachable sampleSettled ∧
    (∃ builder, sampleSettled.builder.compacted sampleCodec sampleSync sampleReplacement 0 "in short"
      "summary" [] = .ok (sampleCompacted, sampleArchive, builder)) ∧
    sampleId 2 ∈ sampleSettled.roots.drop 1 ∧ sampleId 2 ∉ sampleCompacted.rootPromptMessages ∧
    sampleId 2 ∉ sampleArchive.summarizedMessages ∧
    ¬ Accounts sampleSettled.roots sampleCompacted sampleArchive := by
  refine ⟨sampleSettled_reachable, ⟨_, sampleCompacted_ran⟩, by decide, by decide, by decide, ?_⟩
  rintro ⟨summarized, -⟩
  revert summarized
  decide

theorem archive_accounts_iff_sample :
    Accounts sampleSettled.roots sampleCompacted sampleArchive ↔
      Accountable sampleCodec sampleSync sampleSettled sampleReplacement "summary" :=
  archive_accounts_iff sampleSettled_reachable sampleCompacted_ran

end Byok
