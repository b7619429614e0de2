/-
**Blobs over whole runs.**

Blobs are put and read, roots and images are registered, traces come and go, conversations are recycled, passes collect
and the details of traces are cleared, in any order.

* `blobs_sound_of_reachable` — blobs are named by their data, and nothing names a blob that is not there.
* `anchored_blobs_stay` — what the roots and images of a conversation lead to stays, with its data and its edges.
-/

import Byok.Library.System
import Byok.Store.BlobPasses

namespace Byok

open Library Transaction Reachable BlobTables List

/-! ### The system -/

/-- A transaction on the tables of blobs. -/
inductive BlobOperation where
  | putBlob (data : List UInt8) (edges : List (BlobId × String)) (createdAtMs lastUsedAtMs : Int)
  | touchBlob (blobId : BlobId) (nowMs beforeMs : Int)
  | retainConversationBlobs (conversation : ConversationId) (roots : List BlobId)
  | registerMessageImage (conversation : ConversationId) (image : String)
  | linkArtifact (requestId : String) (blobId : BlobId)
  | recycleConversations (expired : List ConversationId)
  | deleteArtifacts (requestIds : List String)
  | collectBlobs (order : List BlobId) (unrootedCutoff : Int)
  | clearTraceArtifacts (order : List TraceArtifactRow) (staged : List BlobId) (createdBeforeMs : Int)
deriving DecidableEq

namespace BlobOperation

def transaction (codec : BlobCodec) : BlobOperation → Transaction BlobTables Error Unit
  | putBlob data edges createdAtMs lastUsedAtMs => (BlobTables.putBlob codec data edges createdAtMs lastUsedAtMs).ignore
  | touchBlob blobId nowMs beforeMs => write (BlobTables.touchBlob blobId nowMs beforeMs)
  | retainConversationBlobs conversation roots => write (BlobTables.retainConversationBlobs conversation roots)
  | registerMessageImage conversation image => write (BlobTables.registerMessageImage conversation image)
  | linkArtifact requestId blobId => BlobTables.linkArtifact requestId blobId
  | recycleConversations expired => write (BlobTables.recycleConversations expired)
  | deleteArtifacts requestIds => write (BlobTables.deleteArtifacts requestIds)
  | collectBlobs order unrootedCutoff => fun tables => (tables.collectBlobs codec order unrootedCutoff).map ((), ·)
  | clearTraceArtifacts order staged createdBeforeMs =>
    write (BlobTables.clearTraceArtifacts order staged createdBeforeMs)

/-- The tables after an operation. One that fails is rolled back. -/
def apply (codec : BlobCodec) (operation : BlobOperation) (tables : BlobTables) : BlobTables :=
  ((operation.transaction codec).execute tables).2

end BlobOperation

/-- The tables without a row. -/
def BlobTables.empty : BlobTables := ⟨[], [], [], [], []⟩

/-- All who use the tables of blobs: transactions one after the other. -/
def blobSystem (codec : BlobCodec) : System BlobTables BlobOperation where
  initial tables := tables = BlobTables.empty
  step tables operation after := after = operation.apply codec tables

variable {codec : BlobCodec} {tables between after : BlobTables}

namespace BlobTables

/-! ### What an operation adds -/

/-- Every blob keeps its data, every edge stays, and what names blobs is the same. -/
structure Grows (tables after : BlobTables) : Prop where
  rows : ∀ row ∈ tables.blobs, ∃ later ∈ after.blobs, later.blobId = row.blobId ∧ later.data = row.data
  edges : tables.blobEdges ⊆ after.blobEdges
  others : after = { tables with blobs := after.blobs, blobEdges := after.blobEdges }

theorem Grows.refl (tables : BlobTables) : Grows tables tables :=
  ⟨fun row listed => ⟨row, listed, rfl, rfl⟩, List.Subset.refl _, rfl⟩

theorem Grows.trans (one : Grows tables between) (two : Grows between after) : Grows tables after := by
  refine ⟨fun row listed => ?_, List.Subset.trans one.edges two.edges, ?_⟩
  · obtain ⟨middle, listed, named, data⟩ := one.rows row listed
    obtain ⟨later, listed, named', data'⟩ := two.rows middle listed
    exact ⟨later, listed, named'.trans named, data'.trans data⟩
  · rw [two.others, one.others]

theorem Grows.rewrite {change : BlobRow → BlobRow}
    (same : ∀ row, (change row).blobId = row.blobId ∧ (change row).data = row.data) :
    Grows tables { tables with blobs := tables.blobs.map change } :=
  ⟨fun row listed => ⟨change row, mem_map_of_mem listed, same row⟩, List.Subset.refl _, rfl⟩

theorem Sound.rewrite (sound : tables.Sound codec) {change : BlobRow → BlobRow}
    (same : ∀ row, (change row).blobId = row.blobId ∧ (change row).data = row.data) :
    Sound codec { tables with blobs := tables.blobs.map change } := by
  have ids : BlobTables.ids { tables with blobs := tables.blobs.map change } = tables.ids := by
    simp only [BlobTables.ids, map_map]
    exact map_congr_left fun row _ => (same row).1
  constructor
  case named =>
    intro row listed
    obtain ⟨old, before, rfl⟩ := mem_map.mp listed
    rw [(same old).1, (same old).2, sound.named old before]
  case distinct => rw [ids]; exact sound.distinct
  case edges => rw [ids]; exact sound.edges
  case artifacts => rw [ids]; exact sound.artifacts

theorem touchBlob_same (blobId : BlobId) (nowMs beforeMs : Int) (row : BlobRow) :
    let touched := if row.blobId = blobId ∧ row.lastUsedAtMs < beforeMs - blobTouchWindowMs then
      { row with lastUsedAtMs := nowMs } else row
    touched.blobId = row.blobId ∧ touched.data = row.data := by
  dsimp only
  split <;> exact ⟨rfl, rfl⟩

theorem upsertBlob_grows (blobId : BlobId) (data : List UInt8) (createdAtMs lastUsedAtMs : Int) :
    Grows tables (tables.upsertBlob blobId data createdAtMs lastUsedAtMs) := by
  unfold upsertBlob
  split
  · refine .rewrite fun row => ?_
    split <;> exact ⟨rfl, rfl⟩
  · exact ⟨fun row listed => ⟨row, mem_append_left _ listed, rfl, rfl⟩, List.Subset.refl _, rfl⟩

theorem Sound.append (sound : tables.Sound codec) {row : BlobRow} (named : row.blobId = codec.sha256 row.data)
    (free : row.blobId ∉ tables.ids) : Sound codec { tables with blobs := tables.blobs ++ [row] } := by
  have ids : BlobTables.ids { tables with blobs := tables.blobs ++ [row] } = tables.ids ++ [row.blobId] := by
    simp only [BlobTables.ids, map_append, map_cons, map_nil]
  have more : tables.ids ⊆ tables.ids ++ [row.blobId] := subset_append_left _ _
  constructor
  case named =>
    intro other listed
    rcases mem_append.mp listed with old | new
    · exact sound.named other old
    · rw [mem_singleton.mp new]
      exact named
  case distinct =>
    rw [ids]
    exact nodup_append.mpr ⟨sound.distinct, nodup_singleton _, fun other old _ new same =>
      free (mem_singleton.mp new ▸ same ▸ old)⟩
  case edges =>
    rw [ids]
    exact fun edge listed => (sound.edges edge listed).imp (@more _) (@more _)
  case artifacts =>
    rw [ids]
    exact fun artifact listed => more (sound.artifacts artifact listed)

theorem Sound.upsertBlob (sound : tables.Sound codec) (data : List UInt8) (createdAtMs lastUsedAtMs : Int) :
    (tables.upsertBlob (codec.sha256 data) data createdAtMs lastUsedAtMs).Sound codec := by
  unfold BlobTables.upsertBlob
  split
  · refine sound.rewrite fun row => ?_
    split <;> exact ⟨rfl, rfl⟩
  · rename_i fresh
    refine sound.append rfl fun listed => fresh ?_
    obtain ⟨row, there, named⟩ := mem_map.mp listed
    exact any_eq_true.mpr ⟨row, there, decide_eq_true named⟩

theorem insertEdge_ok {edge : BlobEdgeRow} {done : Unit} (ran : insertEdge edge tables = .ok (done, after)) :
    (edge.parentBlobId ∈ tables.ids ∧ edge.childBlobId ∈ tables.ids) ∧ after = tables.addEdge edge := by
  replace ran := read_bind_ok.mp ran
  obtain ⟨both, ran⟩ := require_bind_ok.mp ran
  exact ⟨both, write_ok.mp ran⟩

theorem mem_addEdge_iff {edge other : BlobEdgeRow} :
    other ∈ (tables.addEdge edge).blobEdges ↔ other ∈ tables.blobEdges ∨ other = edge := by
  unfold addEdge
  split
  · rename_i known
    exact ⟨.inl, fun either => either.elim id (· ▸ known)⟩
  · simp

theorem addEdge_frame (edge : BlobEdgeRow) :
    tables.addEdge edge = { tables with blobEdges := (tables.addEdge edge).blobEdges } := by
  unfold addEdge
  split <;> rfl

theorem addEdge_grows (edge : BlobEdgeRow) : Grows tables (tables.addEdge edge) := by
  have frame : tables.addEdge edge = { tables with blobEdges := (tables.addEdge edge).blobEdges } := addEdge_frame edge
  refine ⟨fun row listed => ⟨row, ?_, rfl, rfl⟩, fun other listed => mem_addEdge_iff.mpr (.inl listed), ?_⟩
  · rw [frame]
    exact listed
  · rw [frame]

theorem Sound.addEdge (sound : tables.Sound codec) {edge : BlobEdgeRow}
    (ends : edge.parentBlobId ∈ tables.ids ∧ edge.childBlobId ∈ tables.ids) : (tables.addEdge edge).Sound codec := by
  have edges (other : BlobEdgeRow) (listed : other ∈ (tables.addEdge edge).blobEdges) :
      other.parentBlobId ∈ tables.ids ∧ other.childBlobId ∈ tables.ids :=
    (mem_addEdge_iff.mp listed).elim (sound.edges other) (· ▸ ends)
  rw [addEdge_frame edge]
  exact ⟨sound.named, sound.distinct, edges, sound.artifacts⟩

theorem insertEdges_ok {blobId : BlobId} {edges : List (BlobId × String)} {done : Unit}
    (ran : (edges.forM fun edge => insertEdge ⟨blobId, edge.1, edge.2⟩) tables = .ok (done, after)) :
    Grows tables after ∧ (tables.Sound codec → after.Sound codec) := by
  induction edges generalizing tables with
  | nil =>
    obtain ⟨-, rfl⟩ := pure_ok.mp ran
    exact ⟨.refl _, id⟩
  | cons edge edges ih =>
    rw [forM_eq_forM, forM_cons] at ran
    obtain ⟨_, middle, first, ran⟩ := bind_ok.mp ran
    obtain ⟨ends, rfl⟩ := insertEdge_ok first
    obtain ⟨grows, keeps⟩ := ih ran
    exact ⟨(addEdge_grows _).trans grows, fun sound => keeps (sound.addEdge ends)⟩

theorem putBlob_ok {data : List UInt8} {edges : List (BlobId × String)} {createdAtMs lastUsedAtMs : Int} {blobId : BlobId}
    (ran : putBlob codec data edges createdAtMs lastUsedAtMs tables = .ok (blobId, after)) :
    Grows tables after ∧ (tables.Sound codec → after.Sound codec) := by
  replace ran := write_bind_ok.mp ran
  obtain ⟨_, last, linked, ran⟩ := bind_ok.mp ran
  obtain ⟨-, rfl⟩ := pure_ok.mp ran
  obtain ⟨grows, keeps⟩ := insertEdges_ok linked
  exact ⟨(upsertBlob_grows _ _ _ _).trans grows, fun sound => keeps (sound.upsertBlob _ _ _)⟩

theorem linkArtifact_ok {requestId : String} {blobId : BlobId} {done : Unit}
    (ran : linkArtifact requestId blobId tables = .ok (done, after)) : blobId ∈ tables.ids ∧
      after = { tables with artifacts := tables.artifacts ++ [⟨requestId, tables.nextSeq requestId, blobId⟩] } := by
  replace ran := read_bind_ok.mp ran
  replace ran := read_bind_ok.mp ran
  obtain ⟨there, ran⟩ := require_bind_ok.mp ran
  exact ⟨there, write_ok.mp ran⟩

/-! ### What an operation takes -/

theorem mem_clearTraceArtifacts_iff {order : List TraceArtifactRow} {staged : List BlobId} {createdBeforeMs : Int}
    {row : BlobRow} :
    row ∈ (tables.clearTraceArtifacts order staged createdBeforeMs).blobs ↔ row ∈ tables.blobs ∧
      ¬ ((∃ artifact ∈ tables.clearedArtifacts order, artifact.blobId = row.blobId) ∧
        tables.clearable order staged createdBeforeMs row = true) := by
  simp only [clearTraceArtifacts, mem_filter, Bool.not_eq_true', ← Bool.not_eq_true, Bool.and_eq_true,
    any_eq_true, decide_eq_true_eq]

theorem not_clearable {order : List TraceArtifactRow} {staged : List BlobId} {createdBeforeMs : Int} {row : BlobRow}
    (named : (∃ artifact ∈ tables.leftArtifacts order, artifact.blobId = row.blobId) ∨
      (∃ root ∈ tables.conversationBlobRoots, root.2 = row.blobId) ∨
      (∃ edge ∈ tables.blobEdges, edge.parentBlobId = row.blobId ∨ edge.childBlobId = row.blobId) ∨
      row.blobId ∈ staged) : tables.clearable order staged createdBeforeMs row = false := by
  by_contra clear
  simp only [clearable, Bool.not_eq_false, Bool.and_eq_true, Bool.not_eq_true', any_eq_false, decide_eq_true_eq,
    Bool.or_eq_true, contains_eq_mem, decide_eq_false_iff_not] at clear
  obtain ⟨⟨⟨⟨-, artifacts⟩, roots⟩, edges⟩, images⟩ := clear
  rcases named with ⟨artifact, listed, same⟩ | ⟨root, listed, same⟩ | ⟨edge, listed, same⟩ | listed
  · exact artifacts artifact listed same
  · exact roots root listed same
  · exact edges edge listed same
  · exact images listed

theorem Sound.clearTraceArtifacts (sound : tables.Sound codec) (order : List TraceArtifactRow) (staged : List BlobId)
    (createdBeforeMs : Int) :
    (tables.clearTraceArtifacts order staged createdBeforeMs).Sound codec := by
  have stays {blobId : BlobId} (there : blobId ∈ tables.ids)
      (named : ∀ row : BlobRow, row.blobId = blobId → tables.clearable order staged createdBeforeMs row = false) :
      blobId ∈ (tables.clearTraceArtifacts order staged createdBeforeMs).ids := by
    obtain ⟨row, listed, rfl⟩ := mem_map.mp there
    refine mem_map_of_mem (mem_clearTraceArtifacts_iff.mpr ⟨listed, fun taken => ?_⟩)
    rw [named row rfl] at taken
    exact Bool.false_ne_true taken.2
  constructor
  case named => exact fun row listed => sound.named row (mem_clearTraceArtifacts_iff.mp listed).1
  case distinct => exact sound.distinct.sublist (filter_sublist.map _)
  case edges =>
    intro edge listed
    obtain ⟨parent, child⟩ := sound.edges edge listed
    exact ⟨stays parent fun row same => not_clearable (.inr (.inr (.inl ⟨edge, listed, .inl same.symm⟩))),
      stays child fun row same => not_clearable (.inr (.inr (.inl ⟨edge, listed, .inr same.symm⟩)))⟩
  case artifacts =>
    intro artifact listed
    exact stays (sound.artifacts artifact (mem_filter.mp listed).1) fun row same =>
      not_clearable (.inl ⟨artifact, listed, same.symm⟩)

theorem collectBlobs_ok {order : List BlobId} {unrootedCutoff : Int}
    (ran : tables.collectBlobs codec order unrootedCutoff = .ok after) :
    after = tables ∨ ∃ images, tables.imageBlobs codec = .ok images ∧
      after = tables.deleteBlobs (tables.expiredBlobs order unrootedCutoff images) := by
  unfold collectBlobs at ran
  split at ran
  · obtain ⟨images, decoded, swept⟩ := except_bind_eq_ok.mp ran
    exact .inr ⟨images, decoded, (Except.ok.inj swept).symm⟩
  · exact .inl (Except.ok.inj ran).symm

end BlobTables

/-! ### Sound tables -/

theorem BlobOperation.sound {operation : BlobOperation} {done : Unit} (sound : tables.Sound codec)
    (ran : operation.transaction codec tables = .ok (done, after)) : after.Sound codec := by
  cases operation with
  | putBlob =>
    obtain ⟨_, ran⟩ := ignore_ok.mp ran
    exact (putBlob_ok ran).2 sound
  | touchBlob blobId nowMs beforeMs =>
    obtain rfl := write_ok.mp ran
    exact sound.rewrite (touchBlob_same blobId nowMs beforeMs)
  | retainConversationBlobs =>
    obtain rfl := write_ok.mp ran
    exact ⟨sound.named, sound.distinct, sound.edges, sound.artifacts⟩
  | registerMessageImage =>
    obtain rfl := write_ok.mp ran
    unfold BlobTables.registerMessageImage
    split
    · exact sound
    · exact ⟨sound.named, sound.distinct, sound.edges, sound.artifacts⟩
  | linkArtifact =>
    obtain ⟨there, rfl⟩ := linkArtifact_ok ran
    refine ⟨sound.named, sound.distinct, sound.edges, fun artifact listed => ?_⟩
    rcases mem_append.mp listed with old | new
    · exact sound.artifacts artifact old
    · rw [mem_singleton.mp new]
      exact there
  | recycleConversations =>
    obtain rfl := write_ok.mp ran
    exact ⟨sound.named, sound.distinct, sound.edges, sound.artifacts⟩
  | deleteArtifacts =>
    obtain rfl := write_ok.mp ran
    exact ⟨sound.named, sound.distinct, sound.edges,
      fun artifact listed => sound.artifacts artifact (mem_filter.mp listed).1⟩
  | collectBlobs =>
    obtain ⟨_, collected, same⟩ := except_map_eq_ok ran
    obtain rfl := (Prod.mk.inj same).2
    rcases collectBlobs_ok collected with rfl | ⟨images, -, rfl⟩
    · exact sound
    · exact sound.sweep
  | clearTraceArtifacts order staged createdBeforeMs =>
    obtain rfl := write_ok.mp ran
    exact sound.clearTraceArtifacts order staged createdBeforeMs

theorem BlobOperation.apply_ok (codec : BlobCodec) (tables : BlobTables) (operation : BlobOperation) :
    operation.apply codec tables = tables ∨
      ∃ done, operation.transaction codec tables = .ok (done, operation.apply codec tables) := by
  unfold BlobOperation.apply
  rcases ran : operation.transaction codec tables with error | ⟨done, later⟩
  · exact .inl (congrArg Prod.snd (execute_error ran))
  · exact .inr ⟨done, by rw [execute_ok ran]⟩

theorem BlobOperation.sound_apply (operation : BlobOperation) (sound : tables.Sound codec) :
    (operation.apply codec tables).Sound codec := by
  rcases operation.apply_ok codec tables with unchanged | ⟨done, ran⟩
  · rw [unchanged]
    exact sound
  · exact operation.sound sound ran

/-- **Blobs are named by their data, and what edges and artifacts name is there**, however the operations follow one
another. -/
theorem blobs_sound_of_reachable {tables : BlobTables} (reachable : (blobSystem codec).Reachable tables) :
    tables.Sound codec :=
  System.reachable_invariant (fun _ start => start ▸ ⟨nofun, nodup_nil, nofun, nofun⟩)
    (fun _ operation _ sound step => step ▸ operation.sound_apply sound) reachable

/-! ### What a conversation keeps -/

section Anchored

variable {conversation : ConversationId}

/-- The roots of a conversation, and the images of its messages. -/
def BlobTables.anchors (codec : BlobCodec) (conversation : ConversationId) (tables : BlobTables) : List BlobId :=
  (tables.conversationBlobRoots.filter (·.1 = conversation)).map (·.2) ++
    (tables.messageImageBlobs.filter (·.1 = conversation)).filterMap fun image =>
      (BlobId.fromBase64 codec image.2).toOption

/-- A root of the conversation or an image of its messages leads to the blob. -/
def BlobTables.Anchored (codec : BlobCodec) (conversation : ConversationId) (tables : BlobTables) (blobId : BlobId) :
    Prop := Reaches tables.edges (tables.anchors codec conversation) blobId

/-- What the conversation leads to keeps its data and its edges. -/
structure BlobTables.Keeps (codec : BlobCodec) (conversation : ConversationId) (tables after : BlobTables) : Prop where
  anchors : tables.anchors codec conversation ⊆ after.anchors codec conversation
  rows : ∀ row ∈ tables.blobs, tables.Anchored codec conversation row.blobId →
    ∃ later ∈ after.blobs, later.blobId = row.blobId ∧ later.data = row.data
  edges : ∀ edge ∈ tables.blobEdges, tables.Anchored codec conversation edge.parentBlobId → edge ∈ after.blobEdges

namespace BlobTables

theorem mem_anchors_iff {blobId : BlobId} : blobId ∈ tables.anchors codec conversation ↔
    (conversation, blobId) ∈ tables.conversationBlobRoots ∨
      ∃ image, (conversation, image) ∈ tables.messageImageBlobs ∧ BlobId.fromBase64 codec image = .ok blobId := by
  simp only [anchors, mem_append, mem_map, mem_filter, mem_filterMap, decide_eq_true_eq,
    toOption_eq_some_iff]
  constructor
  · rintro (⟨⟨_, _⟩, ⟨listed, rfl⟩, rfl⟩ | ⟨⟨_, image⟩, ⟨listed, rfl⟩, decoded⟩)
    · exact .inl listed
    · exact .inr ⟨image, listed, decoded⟩
  · rintro (listed | ⟨image, listed, decoded⟩)
    · exact .inl ⟨(conversation, blobId), ⟨listed, rfl⟩, rfl⟩
    · exact .inr ⟨(conversation, image), ⟨listed, rfl⟩, decoded⟩

theorem Anchored.named {blobId : BlobId} (anchored : tables.Anchored codec conversation blobId) :
    blobId ∈ tables.anchors codec conversation ∨ ∃ edge ∈ tables.blobEdges, edge.childBlobId = blobId := by
  obtain ⟨root, listed, path⟩ := anchored
  rcases path.cases_tail with rfl | ⟨parent, -, leads⟩
  · exact .inl listed
  · obtain ⟨edge, there, same⟩ := mem_map.mp leads
    exact .inr ⟨edge, there, (Prod.mk.inj same).2⟩

theorem Anchored.pinned {images : List BlobId} {blobId : BlobId} (anchored : tables.Anchored codec conversation blobId)
    (decoded : tables.imageBlobs codec = .ok images) (unrootedCutoff : Int) :
    tables.Pinned unrootedCutoff images blobId := by
  refine anchored.mono (List.Subset.refl _) fun anchor listed => mem_retainedFrom_iff.mpr (.inr (.inr ?_))
  rcases mem_anchors_iff.mp listed with root | ⟨image, registered, known⟩
  · exact .inl ⟨_, root, rfl⟩
  · exact .inr (mem_of_mapM decoded registered known)

namespace Keeps

theorem refl (tables : BlobTables) : Keeps codec conversation tables tables :=
  ⟨List.Subset.refl _, fun row listed _ => ⟨row, listed, rfl, rfl⟩, fun _ listed _ => listed⟩

theorem anchored (keeps : Keeps codec conversation tables after) {blobId : BlobId}
    (before : tables.Anchored codec conversation blobId) : after.Anchored codec conversation blobId := by
  obtain ⟨root, listed, path⟩ := before
  refine ⟨root, keeps.anchors listed, ?_⟩
  induction path with
  | refl => exact .refl
  | @tail parent child path leads ih =>
    obtain ⟨edge, there, same⟩ := mem_map.mp leads
    obtain ⟨rfl, rfl⟩ := Prod.mk.inj same
    exact ih.tail (mem_map.mpr ⟨edge, keeps.edges edge there ⟨root, listed, path⟩, rfl⟩)

theorem trans (one : Keeps codec conversation tables between) (two : Keeps codec conversation between after) :
    Keeps codec conversation tables after := by
  refine ⟨List.Subset.trans one.anchors two.anchors, fun row listed anchored => ?_, fun edge listed anchored => ?_⟩
  · obtain ⟨middle, listed, named, data⟩ := one.rows row listed anchored
    obtain ⟨later, listed, named', data'⟩ := two.rows middle listed (named ▸ one.anchored anchored)
    exact ⟨later, listed, named'.trans named, data'.trans data⟩
  · exact two.edges edge (one.edges edge listed anchored) (one.anchored anchored)

theorem grows (grows : Grows tables after) : Keeps codec conversation tables after := by
  refine ⟨?_, fun row listed _ => grows.rows row listed, fun edge listed _ => grows.edges listed⟩
  rw [grows.others]
  exact List.Subset.refl _

theorem frame (blobs : after.blobs = tables.blobs) (edges : after.blobEdges = tables.blobEdges)
    (anchors : tables.anchors codec conversation ⊆ after.anchors codec conversation) :
    Keeps codec conversation tables after :=
  ⟨anchors, fun row listed _ => ⟨row, blobs ▸ listed, rfl, rfl⟩, fun _ listed _ => edges ▸ listed⟩

theorem clear {order : List TraceArtifactRow} {staged : List BlobId} (covered : ∀ image blobId,
    (conversation, image) ∈ tables.messageImageBlobs →
    BlobId.fromBase64 codec image = .ok blobId → blobId ∈ staged) (createdBeforeMs : Int) :
    Keeps codec conversation tables (tables.clearTraceArtifacts order staged createdBeforeMs) := by
  refine ⟨List.Subset.refl _, fun row listed anchored => ⟨row, ?_, rfl, rfl⟩, fun _ listed _ => listed⟩
  have stays : tables.clearable order staged createdBeforeMs row = false := by
    refine not_clearable (.inr ?_)
    rcases anchored.named with anchor | ⟨edge, there, same⟩
    · rcases mem_anchors_iff.mp anchor with root | ⟨image, registered, known⟩
      · exact .inl ⟨_, root, rfl⟩
      · exact .inr (.inr (covered image _ registered known))
    · exact .inr (.inl ⟨edge, there, .inr same⟩)
  refine mem_clearTraceArtifacts_iff.mpr ⟨listed, fun taken => ?_⟩
  rw [stays] at taken
  exact Bool.false_ne_true taken.2

theorem collect (sound : tables.Sound codec) {order : List BlobId} {unrootedCutoff : Int}
    (ran : tables.collectBlobs codec order unrootedCutoff = .ok after) : Keeps codec conversation tables after := by
  rcases collectBlobs_ok ran with rfl | ⟨images, decoded, rfl⟩
  · exact .refl _
  · have spared : Spared unrootedCutoff images tables (tables.deleteBlobs _) := @Spared.sweep _ _ order _ _ sound
    exact ⟨List.Subset.refl _,
      fun row listed anchored => ⟨row, spared.rows row listed (anchored.pinned decoded _), rfl, rfl⟩,
      fun edge listed anchored => spared.leads edge listed (anchored.pinned decoded _)⟩

end Keeps

end BlobTables

/-- The operation leaves the roots and images of the conversation: it does not replace them, and what it clears it
clears knowing all images. -/
def BlobOperation.Spares (codec : BlobCodec) (conversation : ConversationId) (tables : BlobTables) :
    BlobOperation → Prop
  | .retainConversationBlobs other _ => other ≠ conversation
  | .recycleConversations expired => conversation ∉ expired
  | .clearTraceArtifacts _ staged _ => ∀ image blobId, (conversation, image) ∈ tables.messageImageBlobs →
      BlobId.fromBase64 codec image = .ok blobId → blobId ∈ staged
  | _ => True

/-- The runs that leave the roots and images of a conversation. -/
def sparing (codec : BlobCodec) (conversation : ConversationId) : System BlobTables BlobOperation :=
  (blobSystem codec).confine fun before operation _ => operation.Spares codec conversation before

theorem BlobOperation.keeps {operation : BlobOperation} {done : Unit} (sound : tables.Sound codec)
    (spares : operation.Spares codec conversation tables) (ran : operation.transaction codec tables = .ok (done, after)) :
    Keeps codec conversation tables after := by
  cases operation with
  | putBlob =>
    obtain ⟨_, ran⟩ := ignore_ok.mp ran
    exact .grows (putBlob_ok ran).1
  | touchBlob blobId nowMs beforeMs =>
    obtain rfl := write_ok.mp ran
    exact .grows (.rewrite (touchBlob_same blobId nowMs beforeMs))
  | retainConversationBlobs other roots =>
    obtain rfl := write_ok.mp ran
    refine .frame rfl rfl fun anchor listed => mem_anchors_iff.mpr ((mem_anchors_iff.mp listed).imp_left fun root => ?_)
    exact mem_append_left _ (mem_filter.mpr ⟨root, decide_eq_true (Ne.symm spares)⟩)
  | registerMessageImage other image =>
    obtain rfl := write_ok.mp ran
    unfold BlobTables.registerMessageImage
    split
    · exact .refl _
    · refine .frame rfl rfl fun anchor listed => mem_anchors_iff.mpr ((mem_anchors_iff.mp listed).imp_right ?_)
      exact fun ⟨image, registered, known⟩ => ⟨image, mem_append_left _ registered, known⟩
  | linkArtifact =>
    obtain ⟨-, rfl⟩ := linkArtifact_ok ran
    exact .frame rfl rfl (List.Subset.refl _)
  | recycleConversations expired =>
    obtain rfl := write_ok.mp ran
    have stays : conversation ∉ expired := spares
    refine .frame rfl rfl fun anchor listed => mem_anchors_iff.mpr ((mem_anchors_iff.mp listed).imp ?_ ?_)
    · exact fun root => mem_filter.mpr ⟨root, decide_eq_true stays⟩
    · exact fun ⟨image, registered, known⟩ => ⟨image, mem_filter.mpr ⟨registered, decide_eq_true stays⟩, known⟩
  | deleteArtifacts =>
    obtain rfl := write_ok.mp ran
    exact .frame rfl rfl (List.Subset.refl _)
  | collectBlobs =>
    obtain ⟨_, collected, same⟩ := except_map_eq_ok ran
    obtain rfl := (Prod.mk.inj same).2
    exact .collect sound collected
  | clearTraceArtifacts order staged createdBeforeMs =>
    obtain rfl := write_ok.mp ran
    exact .clear spares createdBeforeMs

theorem BlobOperation.keeps_apply (operation : BlobOperation) (sound : tables.Sound codec)
    (spares : operation.Spares codec conversation tables) :
    Keeps codec conversation tables (operation.apply codec tables) := by
  rcases operation.apply_ok codec tables with unchanged | ⟨done, ran⟩
  · rw [unchanged]
    exact .refl _
  · exact operation.keeps sound spares ran

/-- **What the roots and images of a conversation lead to stays**, with its data and its edges, through every run that
does not replace or recycle them and clears only when it knows all images. -/
theorem anchored_blobs_stay {first last : BlobTables} {operations : List BlobOperation}
    (reachable : (blobSystem codec).Reachable first) (run : (sparing codec conversation).Run first operations last) :
    last.Sound codec ∧ Keeps codec conversation first last := by
  refine System.run_relates (·.Sound codec) Keeps.refl (fun _ _ _ => Keeps.trans) ?_ (blobs_sound_of_reachable reachable) run
  rintro state operation _ sound ⟨rfl, spares⟩
  exact ⟨operation.sound_apply sound, operation.keeps_apply sound spares⟩

end Anchored

/-- Two blobs are put, and a conversation names one of them. -/
def sampleRooted : BlobTables :=
  (BlobOperation.retainConversationBlobs ⟨"conversation"⟩ [abcDigest]).apply sampleBlobCodec
    ((BlobOperation.putBlob [97, 98, 99] [] 0 0).apply sampleBlobCodec
      ((BlobOperation.putBlob [] [] 0 0).apply sampleBlobCodec .empty))

theorem sampleRooted_collected : (BlobOperation.collectBlobs [] 7200000).apply sampleBlobCodec sampleRooted =
    sampleRooted.deleteBlobs [emptyDigest] := by
  have walks : sampleRooted.retainedBlobs 7200000 [] = [abcDigest] := by
    have walked_one : walked [] [abcDigest] [abcDigest] = [abcDigest] := by simp [walked, fresh]
    exact walked_one
  have expired : sampleRooted.expiredBlobs [] 7200000 [] = [emptyDigest] := by
    rw [expiredBlobs, looseBlobs, walks]
    rfl
  have collected : sampleRooted.collectBlobs sampleBlobCodec [] 7200000 =
      .ok (sampleRooted.deleteBlobs [emptyDigest]) := by
    have none : sampleRooted.imageBlobs sampleBlobCodec = .ok [] := rfl
    rw [collectBlobs_eq none, sweepBlobs_eq none, expired]
  have ran : (BlobOperation.collectBlobs [] 7200000).transaction sampleBlobCodec sampleRooted =
      .ok ((), sampleRooted.deleteBlobs [emptyDigest]) := congrArg (Except.map ((), ·)) collected
  rw [BlobOperation.apply, execute_ok ran]

/-- A pass collects the other. -/
theorem anchored_blobs_stay_sample :
    let last := (BlobOperation.collectBlobs [] 7200000).apply sampleBlobCodec sampleRooted
    (sampleRooted.ids = [emptyDigest, abcDigest] ∧ last.ids = [abcDigest]) ∧
    last.Sound sampleBlobCodec ∧ Keeps sampleBlobCodec ⟨"conversation"⟩ sampleRooted last := by
  intro last
  have step : (sparing sampleBlobCodec ⟨"conversation"⟩).step sampleRooted (.collectBlobs [] 7200000) last :=
    ⟨rfl, trivial⟩
  exact ⟨⟨rfl, (congrArg ids sampleRooted_collected).trans rfl⟩,
    anchored_blobs_stay ((System.Reachable.start rfl).run (.cons rfl (.cons rfl (.cons rfl .nil)))) (.single step)⟩

end Byok
