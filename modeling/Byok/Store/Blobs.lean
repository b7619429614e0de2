/-
**Blobs.**

`server/src/store/cas.rs`, what `storage.rs` and `cursor_traces.rs` do to blobs, and the part of `retention.rs` that
collects them. A blob is named by the digest of its data, and edges lead from it to the blobs that it names. A blob
stays while a root of a conversation, an artifact of a trace or an image of a message leads to it, or while it was used
within an hour. A pass takes at most 512 of the others, whichever the database finds first.
-/

import Byok.Cursor.Checkpoint.Roots
import Byok.Library.Limited
import Byok.Library.Reachable
import Byok.Library.Transaction

namespace Byok

open Library Transaction Reachable

/-! ### Names -/

/-- The hash of the names, and base64. -/
structure BlobCodec where
  sha256 : List UInt8 → BlobId
  encode : List UInt8 → String
  decode : String → Except String (List UInt8)

def BlobId.fromBase64 (codec : BlobCodec) (value : String) : Except Error BlobId :=
  match codec.decode value with
  | .error error => .error (.protocol ("invalid BlobID base64: " ++ error))
  | .ok decoded => BlobId.fromBytes decoded

def BlobId.toBase64 (codec : BlobCodec) (blobId : BlobId) : String := codec.encode blobId.bytes

/-! ### Tables -/

/-- A row of `blobs`. -/
structure BlobRow where
  blobId : BlobId
  data : List UInt8
  createdAtMs : Int
  lastUsedAtMs : Int
deriving DecidableEq

/-- A row of `blob_edges`. -/
structure BlobEdgeRow where
  parentBlobId : BlobId
  childBlobId : BlobId
  fieldName : String
deriving DecidableEq

/-- A row of `cursor_run_trace_artifacts`, as far as retention reads it. -/
structure TraceArtifactRow where
  requestId : String
  seq : Int
  blobId : BlobId
deriving DecidableEq

/-- The tables of blobs, and those that name blobs. -/
structure BlobTables where
  blobs : List BlobRow
  blobEdges : List BlobEdgeRow
  conversationBlobRoots : List (ConversationId × BlobId)
  artifacts : List TraceArtifactRow
  messageImageBlobs : List (ConversationId × String)
deriving DecidableEq

namespace BlobTables

/-- The row of a blob. -/
def blob? (tables : BlobTables) (blobId : BlobId) : Option BlobRow := tables.blobs.find? (·.blobId = blobId)

/-- The edges without the names of their fields. -/
def edges (tables : BlobTables) : List (BlobId × BlobId) :=
  tables.blobEdges.map fun edge => (edge.parentBlobId, edge.childBlobId)

/-! ### Writing and reading -/

/-- The row of `INSERT INTO blobs … ON CONFLICT(blob_id) DO UPDATE SET last_used_at_ms`. -/
def upsertBlob (blobId : BlobId) (data : List UInt8) (createdAtMs lastUsedAtMs : Int) (tables : BlobTables) :
    BlobTables :=
  if tables.blobs.any (·.blobId = blobId) then
    { tables with blobs := tables.blobs.map fun row => if row.blobId = blobId then { row with lastUsedAtMs } else row }
  else { tables with blobs := tables.blobs ++ [{ blobId, data, createdAtMs, lastUsedAtMs }] }

/-- The names of the blobs. -/
def ids (tables : BlobTables) : List BlobId := tables.blobs.map (·.blobId)

/-- The row of `INSERT OR IGNORE INTO blob_edges`. -/
def addEdge (edge : BlobEdgeRow) (tables : BlobTables) : BlobTables :=
  if edge ∈ tables.blobEdges then tables else { tables with blobEdges := tables.blobEdges ++ [edge] }

/-- An edge of a blob that is put. Both ends have to be there. -/
def insertEdge (edge : BlobEdgeRow) : Transaction BlobTables Error Unit := do
  let ids ← read ids
  require (edge.parentBlobId ∈ ids ∧ edge.childBlobId ∈ ids) .database
  write (addEdge edge)

/-- `put_blob`. An edge is given as the name of the child and of the field. -/
def putBlob (codec : BlobCodec) (data : List UInt8) (edges : List (BlobId × String)) (createdAtMs lastUsedAtMs : Int) :
    Transaction BlobTables Error BlobId := do
  let blobId := codec.sha256 data
  write (upsertBlob blobId data createdAtMs lastUsedAtMs)
  edges.forM fun edge => insertEdge ⟨blobId, edge.1, edge.2⟩
  pure blobId

def blobTouchWindowMs : Int := 60 * 60 * 1000

/-- `get_blob`: the data, and whether the row is to be touched. -/
def getBlob (blobId : BlobId) (nowMs : Int) (tables : BlobTables) : Option (List UInt8 × Bool) :=
  (tables.blob? blobId).map fun row => (row.data, decide (row.lastUsedAtMs < nowMs - blobTouchWindowMs))

def touchBlob (blobId : BlobId) (nowMs beforeMs : Int) (tables : BlobTables) : BlobTables :=
  { tables with
    blobs := tables.blobs.map fun row =>
      if row.blobId = blobId ∧ row.lastUsedAtMs < beforeMs - blobTouchWindowMs then { row with lastUsedAtMs := nowMs }
      else row }

def retainConversationBlobs (conversation : ConversationId) (roots : List BlobId) (tables : BlobTables) : BlobTables :=
  { tables with
    conversationBlobRoots := tables.conversationBlobRoots.filter (·.1 ≠ conversation) ++
      roots.dedup.map (conversation, ·) }

/-- `register_message_image_tx`. -/
def registerMessageImage (conversation : ConversationId) (image : String) (tables : BlobTables) : BlobTables :=
  if (conversation, image) ∈ tables.messageImageBlobs then tables
  else { tables with messageImageBlobs := tables.messageImageBlobs ++ [(conversation, image)] }

/-- `SELECT COALESCE(MAX(seq), -1) + 1 FROM cursor_run_trace_artifacts WHERE request_id = ?`. -/
def nextSeq (requestId : String) (tables : BlobTables) : Int :=
  ((tables.artifacts.filter (·.requestId = requestId)).map (·.seq)).foldl max (-1) + 1

/-- `link_cursor_trace_artifact_tx`. The blob has to be there. -/
def linkArtifact (requestId : String) (blobId : BlobId) : Transaction BlobTables Error Unit := do
  let seq ← read (nextSeq requestId)
  let ids ← read ids
  require (blobId ∈ ids) .database
  write fun tables => { tables with artifacts := tables.artifacts ++ [⟨requestId, seq, blobId⟩] }

/-- Conversations are recycled: their roots and the images of their messages go. -/
def recycleConversations (expired : List ConversationId) (tables : BlobTables) : BlobTables :=
  { tables with
    conversationBlobRoots := tables.conversationBlobRoots.filter (·.1 ∉ expired)
    messageImageBlobs := tables.messageImageBlobs.filter (·.1 ∉ expired) }

/-- The artifacts of traces that were received long ago are deleted. -/
def deleteArtifacts (requestIds : List String) (tables : BlobTables) : BlobTables :=
  { tables with artifacts := tables.artifacts.filter (·.requestId ∉ requestIds) }

/-! ### Clearing -/

def clearDetailsBatchRows : Nat := 4096

/-- The artifacts of a batch, where this is the order in which they are found. -/
def clearedArtifacts (order : List TraceArtifactRow) (tables : BlobTables) : List TraceArtifactRow :=
  limited order clearDetailsBatchRows tables.artifacts

/-- The artifacts that a batch leaves. -/
def leftArtifacts (order : List TraceArtifactRow) (tables : BlobTables) : List TraceArtifactRow :=
  tables.artifacts.filter (· ∉ tables.clearedArtifacts order)

/-- Whether a blob of a batch goes with it: it is old, and nothing names it any more. `staged` are the images that
`stage_clear_details` has read. -/
def clearable (order : List TraceArtifactRow) (staged : List BlobId) (createdBeforeMs : Int) (tables : BlobTables)
    (row : BlobRow) : Bool :=
  row.createdAtMs < createdBeforeMs &&
    !(tables.leftArtifacts order).any (·.blobId = row.blobId) &&
    !tables.conversationBlobRoots.any (·.2 = row.blobId) &&
    !tables.blobEdges.any (fun edge => edge.parentBlobId = row.blobId || edge.childBlobId = row.blobId) &&
    !staged.contains row.blobId

/-- A batch of `clear_trace_artifacts`. -/
def clearTraceArtifacts (order : List TraceArtifactRow) (staged : List BlobId) (createdBeforeMs : Int)
    (tables : BlobTables) : BlobTables :=
  { tables with
    artifacts := tables.leftArtifacts order
    blobs := tables.blobs.filter fun row =>
      !((tables.clearedArtifacts order).any (·.blobId = row.blobId) &&
        tables.clearable order staged createdBeforeMs row) }

/-! ### Collecting -/

def unrootedBlobMs : Int := 60 * 60 * 1000

def maxPrunedBlobsPerPass : Nat := 512

def hasExpiredBlobCandidates (unrootedCutoff : Int) (tables : BlobTables) : Bool :=
  tables.blobs.any fun row =>
    row.lastUsedAtMs < unrootedCutoff &&
      !tables.conversationBlobRoots.any (·.2 = row.blobId) && !tables.artifacts.any (·.blobId = row.blobId)

/-- The blobs that were used lately. -/
def recent (unrootedCutoff : Int) (tables : BlobTables) : List BlobId :=
  (tables.blobs.filter fun row => unrootedCutoff ≤ row.lastUsedAtMs).map (·.blobId)

/-- What a pass starts from: what was used lately, the artifacts of traces, the roots of conversations, and the
images of messages. -/
def retainedFrom (unrootedCutoff : Int) (images : List BlobId) (tables : BlobTables) : List BlobId :=
  tables.recent unrootedCutoff ++ tables.artifacts.map (·.blobId) ++ tables.conversationBlobRoots.map (·.2) ++ images

/-- The images of messages. -/
def imageBlobs (codec : BlobCodec) (tables : BlobTables) : Except Error (List BlobId) :=
  tables.messageImageBlobs.mapM fun image => BlobId.fromBase64 codec image.2

def retainedBlobs (unrootedCutoff : Int) (images : List BlobId) (tables : BlobTables) : List BlobId :=
  walked tables.edges (tables.retainedFrom unrootedCutoff images).dedup (tables.retainedFrom unrootedCutoff images).dedup

/-- The blobs that are not retained. -/
def unretained (retained : List BlobId) (tables : BlobTables) : List BlobId :=
  (tables.blobs.filter fun row => row.blobId ∉ retained).map (·.blobId)

/-- Blobs are deleted, with the edges from them and to them. -/
def deleteBlobs (expired : List BlobId) (tables : BlobTables) : BlobTables :=
  { tables with
    blobEdges := tables.blobEdges.filter fun edge => edge.parentBlobId ∉ expired && edge.childBlobId ∉ expired
    blobs := tables.blobs.filter fun row => row.blobId ∉ expired }

/-- The blobs that may be collected. -/
def looseBlobs (unrootedCutoff : Int) (images : List BlobId) (tables : BlobTables) : List BlobId :=
  tables.unretained (tables.retainedBlobs unrootedCutoff images)

/-- What a pass collects of them, where this is the order in which they are found. -/
def expiredBlobs (order : List BlobId) (unrootedCutoff : Int) (images : List BlobId) (tables : BlobTables) :
    List BlobId :=
  limited order maxPrunedBlobsPerPass (tables.looseBlobs unrootedCutoff images)

/-- The collection of a pass, whether or not there are candidates. -/
def sweepBlobs (codec : BlobCodec) (order : List BlobId) (unrootedCutoff : Int) (tables : BlobTables) :
    Except Error BlobTables := do
  let images ← tables.imageBlobs codec
  .ok (tables.deleteBlobs (tables.expiredBlobs order unrootedCutoff images))

/-- The collection of a pass of `prune_inactive_storage`. -/
def collectBlobs (codec : BlobCodec) (order : List BlobId) (unrootedCutoff : Int) (tables : BlobTables) :
    Except Error BlobTables :=
  if tables.hasExpiredBlobCandidates unrootedCutoff then tables.sweepBlobs codec order unrootedCutoff else .ok tables

end BlobTables

end Byok
