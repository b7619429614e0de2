/-
**The roots of a checkpoint.** `server/src/cursor/checkpoint/roots.rs`, `builder.rs`, `summary.rs`.

A checkpoint names its messages by the ids of their blobs, its roots. While a run goes on, the builder
appends to the roots of the state that the client sent (`projectRoots`); a compaction puts other roots
in their place and leaves an archive of what it summarised (`compacted`).

Turns, todos, plan and token counts of a state are not part of the model: they do not reach the roots.
-/

import Byok.Cursor.Checkpoint.Encode

namespace Byok

/-! ### Blobs -/

structure BlobId where
  bytes : List UInt8
  size : bytes.length = 32
deriving DecidableEq

def BlobId.fromBytes (bytes : List UInt8) : Except Error BlobId :=
  if size : bytes.length = 32 then .ok ⟨bytes, size⟩
  else .error (.protocol ("BlobID must be 32 bytes, got " ++ toString bytes.length))

/-- `ConversationSummaryArchive`. -/
structure SummaryArchive where
  summarizedMessages : List (List UInt8)
  summary : String
  windowTail : Nat
  summaryMessage : List UInt8
deriving DecidableEq

/-- What the builder stores as blobs. -/
inductive Blob where
  | message (value : Value)
  | summary (text : String)
  | archive (archive : SummaryArchive)
deriving DecidableEq

/-- `BlobSynchronizer`: the SHA-256 digest of a blob, and whether the store and the client take it. -/
structure BlobSynchronizer where
  digest : Blob → BlobId
  set : Blob → Except Error Unit

def BlobSynchronizer.persist (sync : BlobSynchronizer) (blob : Blob) : Except Error BlobId := do
  sync.set blob
  .ok (sync.digest blob)

/-! ### The builder -/

/-- `ConversationStateStructure`, as far as the roots and their compaction reach. -/
structure ConversationState where
  rootPromptMessages : List (List UInt8)
  pendingToolCalls : List String
  mode : Option Int
  readPaths : List String
  fileStates : List (String × List UInt8)
  summary : Option (List UInt8)
  summaryArchive : Option (List UInt8)
  summaryArchives : List (List UInt8)
  selfSummaryCount : Nat
deriving DecidableEq

structure RootFrontier where
  ids : List BlobId
  generated : List Value
  baseCount : Nat
deriving DecidableEq

structure CheckpointBuilder where
  base : ConversationState
  model : String
  instructions : String
  roots : Option RootFrontier
deriving DecidableEq

/-- `u32::MAX`. -/
def u32Max : Nat := 4294967295

namespace Codec

variable (codec : Codec)

def stableMessages (instructions : String) (messages : List CanonicalMessage) (model : String) :
    Except Error (List Value) := do
  let projected ← projectMessages messages
  let system : List ProjectedMessage :=
    if instructions = "" then [] else [⟨"system", .system, .parts [.text instructions]⟩]
  (system ++ projected).mapM fun message => codec.wireMessage message model

end Codec

namespace CheckpointBuilder

variable (codec : Codec) (sync : BlobSynchronizer)

def ensureRoots (builder : CheckpointBuilder) : Except Error RootFrontier :=
  match builder.roots with
  | some roots => .ok roots
  | none => do
    let ids ← builder.base.rootPromptMessages.mapM BlobId.fromBytes
    .ok ⟨ids, [], ids.length⟩

def changedSystemRoot (roots : RootFrontier) (messages : List Value) : Option Value :=
  match roots.ids, messages with
  | current :: _, message :: _ =>
    if current = sync.digest (.message message) then none else some message
  | [], _ | _ :: _, [] => none

/-- The system root, stored again when it has changed. -/
def refreshSystemRoot (roots : RootFrontier) (messages : List Value) : Except Error RootFrontier :=
  match changedSystemRoot sync roots messages with
  | some message => do
    let id ← sync.persist (.message message)
    .ok { roots with ids := roots.ids.set 0 id }
  | none => .ok roots

/-- The first root of the run that is not what it was. -/
def changedRoot (roots : RootFrontier) (messages : List Value) : Option Nat :=
  (List.range roots.generated.length).find? fun index =>
    messages[roots.baseCount + index]? ≠ roots.generated[index]?

/-- The loop that appends the roots that are new. -/
def extendRoots (roots : RootFrontier) (messages : List Value) : Except Error RootFrontier :=
  messages.foldlM (fun roots message => do
    let id ← sync.persist (.message message)
    .ok { roots with ids := roots.ids ++ [id], generated := roots.generated ++ [message] }) roots

def projectRoots (builder : CheckpointBuilder) (messages : List CanonicalMessage) :
    Except Error (List BlobId × CheckpointBuilder) := do
  let wire ← codec.stableMessages builder.instructions messages builder.model
  let roots ← builder.ensureRoots
  let roots ← refreshSystemRoot sync roots wire
  if wire.length < roots.ids.length then
    .error (.protocol ("Cursor stable history shrank from " ++ toString roots.ids.length ++ " to " ++
      toString wire.length ++ " roots"))
  else
    match changedRoot roots wire with
    | some index =>
      .error (.protocol ("Cursor stable root changed at index " ++
        toString (roots.baseCount + index)))
    | none => do
      let roots ← extendRoots sync roots (wire.drop roots.ids.length)
      .ok (roots.ids, { builder with roots := some roots })

/-- `build_state`, for every checkpoint but that of a compaction. -/
def buildState (builder : CheckpointBuilder) (messages : List CanonicalMessage) (mode : Int)
    (pendingToolCalls readPaths : List String) :
    Except Error (ConversationState × CheckpointBuilder) := do
  let (rootIds, builder) ← projectRoots codec sync builder messages
  let readPaths := readPaths.foldl (fun known path => if path ∈ known then known else known ++ [path])
    builder.base.readPaths
  let base := { builder.base with readPaths }
  .ok ({ base with
      rootPromptMessages := rootIds.map (·.bytes)
      pendingToolCalls
      mode := some mode }, { builder with base })

/-- `replace_roots`. A system root that is still the same is not stored again. -/
def replaceRoots (builder : CheckpointBuilder) (messages : List CanonicalMessage) :
    Except Error (List BlobId × CheckpointBuilder) := do
  let wire ← codec.stableMessages builder.instructions messages builder.model
  let roots ← builder.ensureRoots
  let ids ← wire.zipIdx.mapM fun (message, index) =>
    if index = 0 ∧ roots.ids.head? = some (sync.digest (.message message)) then
      .ok (sync.digest (.message message))
    else sync.persist (.message message)
  .ok (ids, { builder with roots := some ⟨ids, [], ids.length⟩ })

def summaryRoot (builder : CheckpointBuilder) (messages : List CanonicalMessage)
    (summaryMessageId : String) (rootIds : List BlobId) : Except Error BlobId :=
  match messages.find? fun message => message.messageId = summaryMessageId with
  | none => .error (.protocol
      ("compaction summary message is missing from the replacement: " ++ summaryMessageId))
  | some message => do
    let wire ← codec.stableMessages builder.instructions [message] builder.model
    match wire.getLast? with
    | none => .error (.protocol "compaction summary message encoded to nothing")
    | some value =>
      if sync.digest (.message value) ∈ rootIds then .ok (sync.digest (.message value))
      else .error (.protocol "compaction summary message is not a checkpoint root")

/-! ### File states -/

/-- `normalize_path`: `\` is `/`, and every leading `./` goes. -/
def normalizePath (path : String) : String :=
  String.ofList (go (((trim path).toList.map fun character =>
    if character = '\\' then '/' else character)))
where
  go : List Char → List Char
    | '.' :: '/' :: rest => go rest
    | characters => characters

/-- The tools that work on one file. -/
def fileTools : List String :=
  ["read", "readfile", "edit", "write", "strreplace", "patchedit", "patcheditlines", "patcheditspan",
    "editnotebook", "applypatch", "multiedit", "createfile"]

/-- The arguments that name the file. -/
def filePathKeys : List String :=
  ["path", "file_path", "target_file", "absolute_path", "filename", "file"]

def fileToolPath (name : String) (arguments : Value) : Option String :=
  let normalized := String.ofList ((name.toList.filter Char.isAlphanum).map Char.toLower)
  if normalized ∈ fileTools then
    filePathKeys.findSome? fun key =>
      ((arguments.get key).bind Value.asStr).filter (· ≠ "")
  else none

def retainedFilePaths (messages : List CanonicalMessage) : List String :=
  messages.flatMap fun message =>
    match message.content with
    | .assistant _ _ _ _ toolCalls => toolCalls.filterMap fun call =>
        (fileToolPath call.name call.arguments).map normalizePath
    | .parts _ | .toolResult _ => []

/-! ### Compaction -/

/-- How many of the new roots besides the first and the summary are `previous` roots. -/
def retainedRoots (previous rootIds : List BlobId) (summaryMessage : BlobId) : Nat :=
  (rootIds.drop 1).countP fun id => id ≠ summaryMessage ∧ id ∈ previous

/-- The `previous` roots besides the first that are no roots any more. -/
def summarizedRoots (previous rootIds : List BlobId) : List BlobId :=
  (previous.drop 1).filter fun id => id ∉ rootIds

/-- `compacted`. The archive is stored as a blob; here it is returned as well. -/
def compacted (builder : CheckpointBuilder) (messages : List CanonicalMessage) (mode : Int)
    (summary summaryMessageId : String) (readPaths : List String) :
    Except Error (ConversationState × SummaryArchive × CheckpointBuilder) := do
  let previous ← builder.base.rootPromptMessages.mapM BlobId.fromBytes
  let (rootIds, builder) ← replaceRoots codec sync builder messages
  let summaryMessage ← summaryRoot codec sync builder messages summaryMessageId rootIds
  let summaryId ← sync.persist (.summary summary)
  let archive : SummaryArchive :=
    { summarizedMessages := (summarizedRoots previous rootIds).map (·.bytes)
      summary
      windowTail := min (retainedRoots previous rootIds summaryMessage) u32Max
      summaryMessage := summaryMessage.bytes }
  let archiveId ← sync.persist (.archive archive)
  let retainedPaths := retainedFilePaths messages
  let readPaths := readPaths.foldl (fun known path => if path ∈ known then known else known ++ [path])
    builder.base.readPaths
  let base : ConversationState :=
    { rootPromptMessages := rootIds.map (·.bytes)
      pendingToolCalls := []
      mode := some mode
      readPaths
      fileStates := builder.base.fileStates.filter fun (path, _) =>
        normalizePath path ∈ retainedPaths
      summary := some summaryId.bytes
      summaryArchive := some archiveId.bytes
      summaryArchives := if archiveId.bytes ∈ builder.base.summaryArchives then
          builder.base.summaryArchives else builder.base.summaryArchives ++ [archiveId.bytes]
      selfSummaryCount := min (builder.base.selfSummaryCount + 1) u32Max }
  .ok (base, archive, { builder with base })

end CheckpointBuilder

end Byok
