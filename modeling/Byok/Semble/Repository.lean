/-
**Loading and refreshing an index.** `crates/semble-core/src/index/builder.rs`, `crates/semble-core/src/cache/`.

An index is looked for in memory, then in the runtime file, then in the snapshot file; else it is built, from the entries of
the snapshot for the files that have not changed and from the text of the others. What is on the disk is a snapshot and an
index under each path.

* `loadOrBuild` — `IndexRepository::load_or_build`, with a log of the sources it reads, the texts it embeds and the cache
  files it writes.
* `loadOrBuild_cases` — the four ways in which it succeeds.
* `refresh_noop_iff` — when a second call does nothing.
-/

import Byok.Semble.Discovery
import Byok.Semble.Loaded

namespace Byok.Semble

open Library List

/-! ### The parts -/

structure SembleConfig where
  cacheDir : String
  desiredChunkBytes : Nat
  maxFileBytes : Nat

/-- `Embedder`, with vectors of numbers of some type. -/
structure Embedder (V : Type) where
  id : String
  dimensions : Nat
  encode : List String → Except Error (List (List V))

/-- What the builder uses: its configuration and embedder, the hex digits of SHA-256, the parsers, the captures of a
definition's name in a chunk with the text behind each, the decoding of UTF-8, and the byte of a number. -/
structure Builder (V : Type) where
  config : SembleConfig
  embedder : Embedder V
  digest : String → String
  parse : String → String → Option Node
  captures : String → List (String × String)
  fromUtf8Lossy : List UInt8 → String
  quantize : V → Int

/-- The arguments of `load_or_build`. -/
structure Request where
  root : String
  identity : String
  content : List ContentType
deriving DecidableEq, Repr

/-- What a call finds: the entries of the walk, the content of the files, and whether cache files can be written. -/
structure Surroundings where
  walk : List (Except String WalkEntry)
  read : String → Except String (List UInt8)
  write : String → Except Error Unit

structure CacheLayout where
  snapshot : String
  runtime : String
deriving DecidableEq, Repr

/-- The names of the kinds, in the order of the kinds. -/
def ContentType.debug : ContentType → String
  | .code => "Code"
  | .docs => "Docs"
  | .config => "Config"

/-- `item as u8`. -/
def ContentType.discriminant : ContentType → Nat
  | .code => 0
  | .docs => 1
  | .config => 2

section Model

variable {V : Type} (builder : Builder V)

/-- `CacheLayout::new`. -/
def layoutOf (request : Request) : CacheLayout :=
  let content := request.content.mergeSort fun left right => left.discriminant ≤ right.discriminant
  let signature := builder.embedder.id ++ ":" ++ toString builder.config.desiredChunkBytes ++ ":" ++
    String.join (content.map fun item => item.debug ++ ",")
  let directory := builder.config.cacheDir ++ "/indexes/v" ++ toString indexFormatVersion ++ "/" ++
    builder.digest request.identity ++ "/" ++ builder.digest signature
  { snapshot := directory ++ "/index.bin", runtime := directory ++ "/runtime.bin" }

/-- `Arc<LoadedIndex>`: an index, and which allocation it is. -/
structure Shared where
  allocation : Nat
  value : LoadedIndex

structure CachedIndex where
  index : Shared
  checkedAt : Nat

/-- What is on the disk under each path, as far as it can be decoded. -/
structure Disk where
  snapshots : String → Option IndexSnapshot
  runtimes : String → Option LoadedIndex

/-- What a call does outside of memory. -/
inductive Effect where
  | readSource (path : String)
  | encode (texts : List String)
  | writeCache (path : String)
deriving DecidableEq, Repr

/-- An `IndexRepository` with its disk: the cache of at most ten indexes, the last used first, and the log. -/
structure State where
  loaded : List (String × CachedIndex)
  disk : Disk
  allocations : Nat
  log : List Effect

/-- The call has done something outside of memory. -/
def State.logged (state : State) (effects : List Effect) : State := { state with log := state.log ++ effects }

/-! ### The caches -/

/-- `LruCache::get_mut` of a key that is there. -/
def promote (key : String) (cached : CachedIndex) (loaded : List (String × CachedIndex)) : List (String × CachedIndex) :=
  (key, cached) :: loaded.filter fun entry => entry.1 ≠ key

/-- An entry of the cache has been used. -/
def State.promoted (state : State) (key : String) (cached : CachedIndex) : State :=
  { state with loaded := promote key cached state.loaded }

/-- `LruCache::put`. -/
def putLoaded (key : String) (cached : CachedIndex) (loaded : List (String × CachedIndex)) : List (String × CachedIndex) :=
  (promote key cached loaded).take 10

/-- The stamp under a path in the map of the stamps, where the last entry of a path counts. -/
def stampOf (stamps : List (String × FileStamp)) (path : String) : Option FileStamp := stamps.reverse.lookup path

/-- `unchanged_loaded`, and the same comparison with the files of a snapshot. -/
def unchangedFiles (files : List SourceFile) (stamps : List (String × FileStamp)) : Bool :=
  files.length = stamps.length && files.all fun file => stampOf stamps file.relativePath = some file.stamp

/-- The paths and stamps of loaded files. -/
def LoadedIndex.stamps (index : LoadedIndex) : List (String × FileStamp) :=
  index.metadata.files.map fun file => (file.path, file.stamp)

/-- The paths and stamps of the files of a snapshot. -/
def IndexSnapshot.stamps (snapshot : IndexSnapshot) : List (String × FileStamp) :=
  snapshot.files.map fun file => (file.path, file.stamp)

def checkedIfUnchanged (now : Nat) (key : String) (files : List SourceFile) (state : State) : Option Shared × State :=
  match state.loaded.lookup key with
  | none => (none, state)
  | some cached =>
    if unchangedFiles files cached.index.value.stamps then
      (some cached.index, state.promoted key { cached with checkedAt := now })
    else (none, state.promoted key cached)

/-- `store_loaded` of a new allocation, which is then returned. -/
def storeLoaded (now : Nat) (key : String) (value : LoadedIndex) (state : State) : Except Error Shared × State :=
  let index : Shared := { allocation := state.allocations, value }
  (.ok index, { state with loaded := putLoaded key { index, checkedAt := now } state.loaded
                           allocations := state.allocations + 1 })

/-- `load_runtime`, with its errors dropped. -/
def loadRuntime (disk : Disk) (path : String) : Option LoadedIndex :=
  (disk.runtimes path).filter fun runtime => runtime.validate.isOk

/-- `load_snapshot`, with its errors dropped. -/
def loadSnapshot (disk : Disk) (path : String) : Option IndexSnapshot :=
  (disk.snapshots path).filter fun snapshot => snapshot.validate.isOk

def saveRuntime (surroundings : Surroundings) (path : String) (runtime : LoadedIndex) (state : State) :
    Except Error Unit × State :=
  match runtime.validate with
  | .error error => (.error error, state)
  | .ok () =>
    match surroundings.write path with
    | .error error => (.error error, state.logged [.writeCache path])
    | .ok () =>
      let runtimes := Function.update state.disk.runtimes path (some runtime.stored)
      (.ok (), { state.logged [.writeCache path] with disk := { state.disk with runtimes } })

def saveSnapshot (surroundings : Surroundings) (path : String) (snapshot : IndexSnapshot) (state : State) :
    Except Error Unit × State :=
  match snapshot.validate with
  | .error error => (.error error, state)
  | .ok () =>
    match surroundings.write path with
    | .error error => (.error error, state.logged [.writeCache path])
    | .ok () =>
      let snapshots := Function.update state.disk.snapshots path (some snapshot.stored)
      (.ok (), { state.logged [.writeCache path] with disk := { state.disk with snapshots } })

/-- The runtime file of a request, when it is for the files as they are. -/
def currentRuntime (request : Request) (files : List SourceFile) (disk : Disk) : Option LoadedIndex :=
  (loadRuntime disk (layoutOf builder request).runtime).filter fun runtime =>
    runtime.metadata.sourceIdentity = request.identity && runtime.metadata.modelId = builder.embedder.id &&
      runtime.metadata.desiredChunkBytes = builder.config.desiredChunkBytes && runtime.metadata.content = request.content &&
      unchangedFiles files runtime.stamps

/-- `previous`: the snapshot file of a request. -/
def previousSnapshot (request : Request) (disk : Disk) : Option IndexSnapshot :=
  (loadSnapshot disk (layoutOf builder request).snapshot).filter fun snapshot =>
    snapshot.sourceIdentity = request.identity && snapshot.modelId = builder.embedder.id &&
      snapshot.desiredChunkBytes = builder.config.desiredChunkBytes && snapshot.content = request.content

/-- The snapshot file of a request, when `snapshot_is_current`. -/
def currentSnapshot (request : Request) (files : List SourceFile) (disk : Disk) : Option IndexSnapshot :=
  (previousSnapshot builder request disk).filter fun snapshot => unchangedFiles files snapshot.stamps

/-! ### Building -/

def extractDefinitions (chunks : List Chunk) : List IndexedDefinition :=
  chunks.zipIdx.flatMap fun entry =>
    (builder.captures entry.1.content).map fun captured =>
      let lines := ((splitInclusive captured.2.toList).take 12).map fun line => (trim (String.ofList line)).toList
      { symbol := captured.1
        chunk := entry.2
        implementation := lines.any fun line => '{' ∈ line || ['=', '>'].isSuffixOf line }

def lexicalDocument (content : String) : IndexedLexicalDocument :=
  let tokens := tokenize content
  { length := min tokens.length (2 ^ 32 - 1)
    terms := (tokens.dedup.map fun term => { term, frequency := tokens.count term }).mergeSort
      fun left right => (compare left.term right.term).isLE }

def quantizeVectors (vectors : List (List V)) : Except Error (List Int) :=
  if vectors.any fun vector => vector.length ≠ builder.embedder.dimensions then
    .error (.corruptIndex "embedder returned an invalid vector shape")
  else .ok (vectors.flatten.map builder.quantize)

/-- The chunks of a file, from its bytes: none of a binary or a blank one. -/
def sourceChunks (file : SourceFile) (bytes : List UInt8) : List Chunk :=
  if (bytes.take 8192).any (· = 0) then []
  else chunkSource builder.parse (builder.fromUtf8Lossy bytes) file.relativePath (detectLanguage file.absolutePath)
    builder.config.desiredChunkBytes

/-- The loop of `load_or_build` for a file that is not taken over: its entry, unless it has no chunks. -/
def indexFile (surroundings : Surroundings) (file : SourceFile) : Except Error (Option IndexedFile) × List Effect :=
  match surroundings.read file.absolutePath with
  | .error error => (.error (.io file.absolutePath error), [.readSource file.absolutePath])
  | .ok bytes =>
    let chunks := sourceChunks builder file bytes
    if chunks = [] then (.ok none, [.readSource file.absolutePath])
    else
      let texts := chunks.map Chunk.content
      let log := [.readSource file.absolutePath, .encode texts]
      match (builder.embedder.encode texts).bind (quantizeVectors builder) with
      | .error error => (.error error, log)
      | .ok vectors =>
        (.ok (some
          { path := file.relativePath
            stamp := file.stamp
            contentType := file.contentType
            definitions := extractDefinitions builder chunks
            lexicalDocuments := chunks.map fun chunk => lexicalDocument chunk.content
            chunks, vectors }), log)

/-- The entry that the map of the old files has under a path: the last one counts. -/
def oldFile (old : List IndexedFile) (path : String) : Option IndexedFile := old.reverse.find? fun file => file.path = path

/-- The loop of `load_or_build` for a file: an entry of the same stamp is taken over. -/
def entryOf (surroundings : Surroundings) (old : List IndexedFile) (file : SourceFile) :
    Except Error (Option IndexedFile) × List Effect :=
  match (oldFile old file.relativePath).filter fun cached => cached.stamp = file.stamp with
  | some cached => (.ok (some cached), [])
  | none => indexFile builder surroundings file

/-- The loop of `load_or_build` over the files. A path is removed from the old files when it is met. -/
def indexFiles (surroundings : Surroundings) (old : List IndexedFile) :
    List SourceFile → Except Error (List IndexedFile) × List Effect
  | [] => (.ok [], [])
  | file :: files =>
    match entryOf builder surroundings old file with
    | (.error error, log) => (.error error, log)
    | (.ok indexed, log) =>
      let rest := indexFiles surroundings (old.filter fun other => other.path ≠ file.relativePath) files
      (rest.1.map (indexed.toList ++ ·), log ++ rest.2)

/-- The snapshot of the files that have chunks. -/
def builtSnapshot (request : Request) (indexed : List IndexedFile) : IndexSnapshot where
  formatVersion := indexFormatVersion
  sourceIdentity := request.identity
  modelId := builder.embedder.id
  dimensions := builder.embedder.dimensions
  desiredChunkBytes := builder.config.desiredChunkBytes
  content := request.content
  files := indexed

/-- An index is made of a snapshot, written to the runtime file and kept. -/
def finishLoad (surroundings : Surroundings) (request : Request) (now : Nat) (snapshot : IndexSnapshot) (state : State) :
    Except Error Shared × State :=
  match LoadedIndex.fromSnapshot snapshot with
  | .error error => (.error error, state)
  | .ok loaded =>
    match saveRuntime surroundings (layoutOf builder request).runtime loaded state with
    | (.error error, state) => (.error error, state)
    | (.ok (), state) => storeLoaded now (layoutOf builder request).snapshot loaded state

/-- `old`: the entries of the snapshot file. -/
def oldFiles (request : Request) (disk : Disk) : List IndexedFile :=
  ((previousSnapshot builder request disk).map IndexSnapshot.files).getD []

/-- `IndexRepository::load_or_build`, from the lookup of the runtime file on. -/
def build (surroundings : Surroundings) (request : Request) (now : Nat) (files : List SourceFile) (state : State) :
    Except Error Shared × State :=
  match currentRuntime builder request files state.disk with
  | some runtime => storeLoaded now (layoutOf builder request).snapshot runtime state
  | none =>
    match currentSnapshot builder request files state.disk with
    | some snapshot => finishLoad builder surroundings request now snapshot state
    | none =>
      match indexFiles builder surroundings (oldFiles builder request state.disk) files with
      | (.error error, log) => (.error error, state.logged log)
      | (.ok indexed, log) =>
        if indexed = [] then (.error (.emptyIndex request.root), state.logged log)
        else
          match saveSnapshot surroundings (layoutOf builder request).snapshot (builtSnapshot builder request indexed)
              (state.logged log) with
          | (.error error, state) => (.error error, state)
          | (.ok (), state) => finishLoad builder surroundings request now (builtSnapshot builder request indexed) state

def loadOrBuild (surroundings : Surroundings) (request : Request) (now : Nat) (state : State) : Except Error Shared × State :=
  match discoverFiles surroundings.walk request.content builder.config.maxFileBytes with
  | .error error => (.error error, state)
  | .ok files =>
    if files = [] then (.error (.emptyIndex request.root), state)
    else
      let key := (layoutOf builder request).snapshot
      match checkedIfUnchanged now key files state with
      | (some index, state) => (.ok index, state)
      | (none, state) =>
        -- once more under the lock
        match checkedIfUnchanged now key files state with
        | (some index, state) => (.ok index, state)
        | (none, state) => build builder surroundings request now files state

/-! ### How a call ends -/

variable {builder} {surroundings : Surroundings} {request : Request} {now : Nat} {files : List SourceFile}
variable {state after : State} {index : Shared}

/-- The cache of the instance has an index for the files as they are. -/
def Hits (key : String) (files : List SourceFile) (state : State) : Prop :=
  ∃ cached, state.loaded.lookup key = some cached ∧ unchangedFiles files cached.index.value.stamps = true

/-- What stays as it is when no index is stored: the indexes in memory and the runtime files. -/
structure Quiet (state after : State) : Prop where
  allocations : after.allocations = state.allocations
  runtimes : after.disk.runtimes = state.disk.runtimes
  entries : ∀ entry ∈ after.loaded, ∃ old ∈ state.loaded, old.1 = entry.1 ∧ old.2.index = entry.2.index

theorem Quiet.refl (state : State) : Quiet state state := ⟨rfl, rfl, fun entry listed => ⟨entry, listed, rfl, rfl⟩⟩

theorem Quiet.trans {between : State} (first : Quiet state between) (second : Quiet between after) : Quiet state after where
  allocations := second.allocations.trans first.allocations
  runtimes := second.runtimes.trans first.runtimes
  entries := by
    intro entry listed
    obtain ⟨middle, there, same, index⟩ := second.entries entry listed
    obtain ⟨old, here, same', index'⟩ := first.entries middle there
    exact ⟨old, here, same'.trans same, index'.trans index⟩

theorem quiet_logged (effects : List Effect) : Quiet state (state.logged effects) :=
  ⟨rfl, rfl, fun entry listed => ⟨entry, listed, rfl, rfl⟩⟩

/-- An index that a call has stored under a key, of a new allocation. -/
structure Stored (key : String) (now : Nat) (value : LoadedIndex) (state after : State) (index : Shared) : Prop where
  shared : index = { allocation := state.allocations, value }
  allocations : after.allocations = state.allocations + 1
  found : after.loaded.lookup key = some { index, checkedAt := now }
  entries : ∀ entry ∈ after.loaded, entry = (key, { index, checkedAt := now }) ∨
    entry.1 ≠ key ∧ ∃ old ∈ state.loaded, old.1 = entry.1 ∧ old.2.index = entry.2.index

theorem Stored.behind {key : String} {value : LoadedIndex} {between : State} (quiet : Quiet state between)
    (stored : Stored key now value between after index) : Stored key now value state after index where
  shared := by rw [stored.shared, quiet.allocations]
  allocations := by rw [stored.allocations, quiet.allocations]
  found := stored.found
  entries := by
    intro entry listed
    refine (stored.entries entry listed).imp_right fun ⟨other, old, there, same, index⟩ => ⟨other, ?_⟩
    obtain ⟨older, here, same', index'⟩ := quiet.entries old there
    exact ⟨older, here, same'.trans same, index'.trans index⟩

theorem mem_promote {key : String} {cached : CachedIndex} {loaded : List (String × CachedIndex)}
    {entry : String × CachedIndex} (listed : entry ∈ promote key cached loaded) :
    entry = (key, cached) ∨ entry.1 ≠ key ∧ entry ∈ loaded := by
  rcases mem_cons.mp listed with rfl | listed
  · exact .inl rfl
  · obtain ⟨there, other⟩ := mem_filter.mp listed
    exact .inr ⟨of_decide_eq_true other, there⟩

theorem mem_of_lookup {key : String} {cached : CachedIndex} {loaded : List (String × CachedIndex)}
    (found : loaded.lookup key = some cached) : (key, cached) ∈ loaded := by
  obtain ⟨before, behind, rfl, -⟩ := lookup_eq_some_iff.mp found
  exact mem_append_right _ mem_cons_self

theorem quiet_promote {key : String} {cached old : CachedIndex} (found : state.loaded.lookup key = some old)
    (same : old.index = cached.index) : Quiet state (state.promoted key cached) where
  allocations := rfl
  runtimes := rfl
  entries := by
    intro entry listed
    rcases mem_promote listed with rfl | ⟨-, there⟩
    · exact ⟨_, mem_of_lookup found, rfl, same⟩
    · exact ⟨entry, there, rfl, rfl⟩

theorem storeLoaded_stored (now : Nat) (key : String) (value : LoadedIndex) (state : State) :
    ∃ index after, storeLoaded now key value state = (.ok index, after) ∧ Stored key now value state after index ∧
      after.disk = state.disk ∧ after.log = state.log := by
  refine ⟨_, _, rfl, ⟨rfl, rfl, ?_, ?_⟩, rfl, rfl⟩
  · show (putLoaded _ _ _).lookup key = _
    unfold putLoaded promote
    rw [take_succ_cons, lookup_cons_self]
  · intro entry listed
    rcases mem_promote (mem_of_mem_take listed) with rfl | ⟨other, there⟩
    · exact .inl rfl
    · exact .inr ⟨other, entry, there, rfl, rfl⟩

theorem checkedIfUnchanged_miss (now : Nat) {key : String} (miss : ¬ Hits key files state) :
    ∃ after, checkedIfUnchanged now key files state = (none, after) ∧ Quiet state after ∧ ¬ Hits key files after ∧
      after.disk = state.disk ∧ after.log = state.log := by
  unfold checkedIfUnchanged
  cases found : state.loaded.lookup key with
  | none => exact ⟨state, rfl, .refl _, miss, rfl, rfl⟩
  | some cached =>
    have changed : ¬ unchangedFiles files cached.index.value.stamps = true := fun same => miss ⟨cached, found, same⟩
    simp only [if_neg changed]
    refine ⟨_, rfl, quiet_promote found rfl, ?_, rfl, rfl⟩
    rintro ⟨other, there, same⟩
    unfold State.promoted promote at there
    rw [lookup_cons_self] at there
    cases there
    exact changed same

theorem checkedIfUnchanged_hit {key : String} {cached : CachedIndex} (found : state.loaded.lookup key = some cached)
    (same : unchangedFiles files cached.index.value.stamps = true) :
    checkedIfUnchanged now key files state =
      (some cached.index, state.promoted key { cached with checkedAt := now }) := by
  unfold checkedIfUnchanged
  rw [found]
  exact if_pos same

theorem saveRuntime_ok {path : String} {value : LoadedIndex}
    (ran : saveRuntime surroundings path value state = (.ok (), after)) :
    value.validate = .ok () ∧ after.disk.snapshots = state.disk.snapshots ∧
      after.disk.runtimes = Function.update state.disk.runtimes path (some value.stored) ∧
      after.allocations = state.allocations ∧ after.loaded = state.loaded := by
  unfold saveRuntime at ran
  split at ran
  · cases ran
  · rename_i valid
    split at ran
    · cases ran
    · cases ran
      exact ⟨valid, rfl, rfl, rfl, rfl⟩

theorem saveRuntime_error {path : String} {value : LoadedIndex} {error : Error}
    (ran : saveRuntime surroundings path value state = (.error error, after)) : Quiet state after := by
  unfold saveRuntime at ran
  split at ran
  · cases ran
    exact .refl _
  · split at ran
    · cases ran
      exact ⟨rfl, rfl, fun entry listed => ⟨entry, listed, rfl, rfl⟩⟩
    · cases ran

theorem saveSnapshot_quiet {path : String} {snapshot : IndexSnapshot} {result : Except Error Unit}
    (ran : saveSnapshot surroundings path snapshot state = (result, after)) : Quiet state after := by
  unfold saveSnapshot at ran
  split at ran
  · cases ran
    exact .refl _
  · split at ran <;> cases ran <;> exact ⟨rfl, rfl, fun entry listed => ⟨entry, listed, rfl, rfl⟩⟩

/-- The runtime file of a request, as it was written for an index with some stamps. -/
def Backs (builder : Builder V) (request : Request) (stamps : List (String × FileStamp)) (disk : Disk) : Prop :=
  ∃ runtime, loadRuntime disk (layoutOf builder request).runtime = some runtime ∧
    runtime.metadata.sourceIdentity = request.identity ∧ runtime.metadata.modelId = builder.embedder.id ∧
    runtime.metadata.desiredChunkBytes = builder.config.desiredChunkBytes ∧ runtime.metadata.content = request.content ∧
    runtime.stamps = stamps

theorem Backs.current {stamps : List (String × FileStamp)} (backs : Backs builder request stamps state.disk)
    (same : unchangedFiles files stamps = true) :
    ∃ runtime, currentRuntime builder request files state.disk = some runtime := by
  obtain ⟨runtime, loads, identity, model, bytes, content, rfl⟩ := backs
  refine ⟨runtime, Option.filter_eq_some_iff.mpr ⟨loads, ?_⟩⟩
  simp [identity, model, bytes, content, same]

theorem backs_of_current {runtime : LoadedIndex}
    (current : currentRuntime builder request files state.disk = some runtime) :
    Backs builder request runtime.stamps state.disk ∧ unchangedFiles files runtime.stamps = true := by
  obtain ⟨loads, checks⟩ := Option.filter_eq_some_iff.mp current
  simp only [Bool.and_eq_true, decide_eq_true_eq] at checks
  obtain ⟨⟨⟨⟨identity, model⟩, bytes⟩, content⟩, same⟩ := checks
  exact ⟨⟨runtime, loads, identity, model, bytes, content, rfl⟩, same⟩

/-- A snapshot of the request: what `previous` is checked for. -/
structure Matches (builder : Builder V) (request : Request) (snapshot : IndexSnapshot) : Prop where
  identity : snapshot.sourceIdentity = request.identity
  model : snapshot.modelId = builder.embedder.id
  bytes : snapshot.desiredChunkBytes = builder.config.desiredChunkBytes
  content : snapshot.content = request.content

theorem matches_of_previous {snapshot : IndexSnapshot} {disk : Disk}
    (previous : previousSnapshot builder request disk = some snapshot) : Matches builder request snapshot := by
  obtain ⟨-, checks⟩ := Option.filter_eq_some_iff.mp previous
  simp only [Bool.and_eq_true, decide_eq_true_eq] at checks
  obtain ⟨⟨⟨identity, model⟩, bytes⟩, content⟩ := checks
  exact ⟨identity, model, bytes, content⟩

theorem matches_built (indexed : List IndexedFile) : Matches builder request (builtSnapshot builder request indexed) :=
  ⟨rfl, rfl, rfl, rfl⟩

theorem stamps_fromSnapshot {snapshot : IndexSnapshot} {value : LoadedIndex}
    (loaded : LoadedIndex.fromSnapshot snapshot = .ok value) : value.stamps = snapshot.stamps := by
  unfold LoadedIndex.stamps IndexSnapshot.stamps
  rw [LoadedIndex.fromSnapshot_metadata loaded, map_map]
  rfl

theorem finishLoad_ok {snapshot : IndexSnapshot} (fits : Matches builder request snapshot)
    (ran : finishLoad builder surroundings request now snapshot state = (.ok index, after)) :
    ∃ value, Stored (layoutOf builder request).snapshot now value state after index ∧ value.stamps = snapshot.stamps ∧
      Backs builder request snapshot.stamps after.disk ∧
      ∀ path, path ≠ (layoutOf builder request).runtime → after.disk.runtimes path = state.disk.runtimes path := by
  unfold finishLoad at ran
  split at ran
  · cases ran
  · rename_i value loaded
    split at ran
    · cases ran
    · rename_i between saved
      obtain ⟨valid, snapshots, runtimes, allocations, same⟩ := saveRuntime_ok saved
      obtain ⟨index', after', stores, stored, disk, -⟩ :=
        storeLoaded_stored now (layoutOf builder request).snapshot value between
      cases stores.symm.trans ran
      have stamps := stamps_fromSnapshot loaded
      refine ⟨value, ⟨?_, ?_, stored.found, ?_⟩, stamps, ?_, fun path other => ?_⟩
      · rw [stored.shared, allocations]
      · rw [stored.allocations, allocations]
      · rw [← same]
        exact stored.entries
      · refine ⟨value.stored, ?_, ?_, ?_, ?_, ?_, stamps⟩
        · unfold loadRuntime
          rw [disk, runtimes, Function.update_self]
          simp [valid, Except.isOk, Except.toBool]
        all_goals rw [LoadedIndex.stored_metadata, LoadedIndex.fromSnapshot_metadata loaded]
        · exact fits.identity
        · exact fits.model
        · exact fits.bytes
        · exact fits.content
      · rw [disk, runtimes, Function.update_of_ne other]

theorem finishLoad_succeeds {snapshot : IndexSnapshot} {value : LoadedIndex}
    (loaded : LoadedIndex.fromSnapshot snapshot = .ok value) (valid : value.validate = .ok ())
    (written : surroundings.write (layoutOf builder request).runtime = .ok ()) :
    ∃ index after, finishLoad builder surroundings request now snapshot state = (.ok index, after) := by
  unfold finishLoad saveRuntime
  simp only [loaded, valid, written]
  exact ⟨_, _, rfl⟩

theorem finishLoad_error {snapshot : IndexSnapshot} {error : Error}
    (ran : finishLoad builder surroundings request now snapshot state = (.error error, after)) : Quiet state after := by
  unfold finishLoad at ran
  split at ran
  · cases ran
    exact .refl _
  · split at ran
    · rename_i saved
      cases ran
      exact saveRuntime_error saved
    · unfold storeLoaded at ran
      cases ran

/-- The files are those of a cache file on the disk. -/
def OnDisk (builder : Builder V) (request : Request) (files : List SourceFile) (disk : Disk) : Prop :=
  (currentRuntime builder request files disk).isSome ∨ (currentSnapshot builder request files disk).isSome

/-- How an index is stored that was not in memory: with its runtime file, and with the stamps of the files, unless it was
built. -/
structure Loads (builder : Builder V) (surroundings : Surroundings) (request : Request) (now : Nat) (files : List SourceFile)
    (state after : State) (index : Shared) (value : LoadedIndex) : Prop where
  stored : Stored (layoutOf builder request).snapshot now value state after index
  backs : Backs builder request value.stamps after.disk
  runtimes : ∀ path, path ≠ (layoutOf builder request).runtime → after.disk.runtimes path = state.disk.runtimes path
  stamps : OnDisk builder request files state.disk ∧ unchangedFiles files value.stamps = true ∨
    ¬ OnDisk builder request files state.disk ∧ ∃ indexed log,
      indexFiles builder surroundings (oldFiles builder request state.disk) files = (.ok indexed, log) ∧
      value.stamps = indexed.map fun file => (file.path, file.stamp)

theorem build_ok (ran : build builder surroundings request now files state = (.ok index, after)) :
    ∃ value, Loads builder surroundings request now files state after index value := by
  unfold build at ran
  split at ran
  · rename_i runtime current
    obtain ⟨index', after', stores, stored, disk, -⟩ :=
      storeLoaded_stored now (layoutOf builder request).snapshot runtime state
    cases stores.symm.trans ran
    obtain ⟨backs, same⟩ := backs_of_current current
    refine ⟨runtime, stored, by rwa [disk], fun path _ => by rw [disk], .inl ⟨.inl ?_, same⟩⟩
    rw [current]
    rfl
  · rename_i none
    split at ran
    · rename_i snapshot current
      obtain ⟨previous, same⟩ := Option.filter_eq_some_iff.mp current
      obtain ⟨value, stored, stamps, backs, runtimes⟩ := finishLoad_ok (matches_of_previous previous) ran
      refine ⟨value, stored, by rwa [stamps], runtimes, .inl ⟨.inr ?_, by rwa [stamps]⟩⟩
      rw [current]
      rfl
    · rename_i missing
      split at ran
      · cases ran
      · rename_i indexed log built
        split at ran
        · cases ran
        · split at ran
          · cases ran
          · rename_i between saved
            obtain ⟨value, stored, stamps, backs, runtimes⟩ := finishLoad_ok (matches_built indexed) ran
            have quiet := saveSnapshot_quiet saved
            refine ⟨value, stored.behind ((quiet_logged log).trans quiet), by rwa [stamps], fun path other => ?_, .inr ⟨?_, ?_⟩⟩
            · rw [runtimes path other, quiet.runtimes]
              rfl
            · rintro (here | here)
              · rw [none] at here
                cases here
              · rw [missing] at here
                cases here
            · exact ⟨indexed, log, built, stamps⟩

theorem build_error {error : Error} (ran : build builder surroundings request now files state = (.error error, after)) :
    Quiet state after := by
  unfold build at ran
  split at ran
  · unfold storeLoaded at ran
    cases ran
  · split at ran
    · exact finishLoad_error ran
    · split at ran
      · cases ran
        exact quiet_logged _
      · split at ran
        · cases ran
          exact quiet_logged _
        · split at ran
          · rename_i saved
            cases ran
            exact (quiet_logged _).trans (saveSnapshot_quiet saved)
          · rename_i saved
            exact ((quiet_logged _).trans (saveSnapshot_quiet saved)).trans (finishLoad_error ran)

theorem loadOrBuild_hit {cached : CachedIndex}
    (found : discoverFiles surroundings.walk request.content builder.config.maxFileBytes = .ok files) (some : files ≠ [])
    (there : state.loaded.lookup (layoutOf builder request).snapshot = .some cached)
    (same : unchangedFiles files cached.index.value.stamps = true) :
    loadOrBuild builder surroundings request now state =
      (.ok cached.index, state.promoted (layoutOf builder request).snapshot { cached with checkedAt := now }) := by
  unfold loadOrBuild
  rw [found]
  simp only [if_neg some]
  rw [checkedIfUnchanged_hit there same]

theorem loadOrBuild_miss (now : Nat)
    (found : discoverFiles surroundings.walk request.content builder.config.maxFileBytes = .ok files) (some : files ≠ [])
    (miss : ¬ Hits (layoutOf builder request).snapshot files state) :
    ∃ between, loadOrBuild builder surroundings request now state = build builder surroundings request now files between ∧
      Quiet state between ∧ between.disk = state.disk ∧ between.log = state.log := by
  obtain ⟨first, missed, quiet, miss', disk, log⟩ := checkedIfUnchanged_miss now miss
  obtain ⟨second, missed', quiet', -, disk', log'⟩ := checkedIfUnchanged_miss now miss'
  refine ⟨second, ?_, quiet.trans quiet', disk'.trans disk, log'.trans log⟩
  unfold loadOrBuild
  rw [found]
  simp only [if_neg some, missed, missed']

/-- **The ways in which a call succeeds**: with the index that is in memory, or with one that it stores. -/
theorem loadOrBuild_cases (ran : loadOrBuild builder surroundings request now state = (.ok index, after)) :
    ∃ files, discoverFiles surroundings.walk request.content builder.config.maxFileBytes = .ok files ∧ files ≠ [] ∧
      ((∃ cached, state.loaded.lookup (layoutOf builder request).snapshot = some cached ∧
          unchangedFiles files cached.index.value.stamps = true ∧ index = cached.index ∧
          after = state.promoted (layoutOf builder request).snapshot { cached with checkedAt := now }) ∨
        ¬ Hits (layoutOf builder request).snapshot files state ∧
          ∃ value, Loads builder surroundings request now files state after index value) := by
  cases found : discoverFiles surroundings.walk request.content builder.config.maxFileBytes with
  | error error =>
    unfold loadOrBuild at ran
    rw [found] at ran
    cases ran
  | ok files =>
    by_cases none : files = []
    · unfold loadOrBuild at ran
      rw [found] at ran
      simp only [if_pos none] at ran
      cases ran
    · refine ⟨files, rfl, none, ?_⟩
      by_cases hits : Hits (layoutOf builder request).snapshot files state
      · obtain ⟨cached, there, same⟩ := hits
        cases (loadOrBuild_hit found none there same).symm.trans ran
        exact .inl ⟨cached, there, same, rfl, rfl⟩
      · obtain ⟨between, built, quiet, disk, -⟩ := loadOrBuild_miss now found none hits
        obtain ⟨value, loads⟩ := build_ok (built.symm.trans ran)
        refine .inr ⟨hits, value, loads.stored.behind quiet, loads.backs, fun path other => ?_, ?_⟩
        · rw [loads.runtimes path other, disk]
        · rw [← disk]
          exact loads.stamps

theorem loadOrBuild_error {error : Error}
    (ran : loadOrBuild builder surroundings request now state = (.error error, after)) : Quiet state after := by
  cases found : discoverFiles surroundings.walk request.content builder.config.maxFileBytes with
  | error error =>
    unfold loadOrBuild at ran
    rw [found] at ran
    cases ran
    exact .refl _
  | ok files =>
    by_cases none : files = []
    · unfold loadOrBuild at ran
      rw [found] at ran
      simp only [if_pos none] at ran
      cases ran
      exact .refl _
    · by_cases hits : Hits (layoutOf builder request).snapshot files state
      · obtain ⟨cached, there, same⟩ := hits
        cases (loadOrBuild_hit found none there same).symm.trans ran
      · obtain ⟨between, built, quiet, -, -⟩ := loadOrBuild_miss now found none hits
        exact quiet.trans (build_error (built.symm.trans ran))

/-! ### What is left out -/

/-- Two files of one path have one stamp. -/
def OneStamp (files : List SourceFile) : Prop :=
  ∀ first ∈ files, ∀ second ∈ files, first.relativePath = second.relativePath → first.stamp = second.stamp

/-- The path and the stamp of a file. -/
def SourceFile.stamped (file : SourceFile) : String × FileStamp := (file.relativePath, file.stamp)

theorem unchangedFiles_perm {files other : List SourceFile} (perm : files.Perm other) (stamps : List (String × FileStamp)) :
    unchangedFiles files stamps = unchangedFiles other stamps := by
  unfold unchangedFiles
  rw [perm.length_eq, perm.all_eq]

theorem unchangedFiles_stamped (files : List SourceFile) :
    unchangedFiles files (files.map SourceFile.stamped) = true ↔ OneStamp files := by
  have found : ∀ path stamp, stampOf (files.map SourceFile.stamped) path = some stamp →
      ∃ file ∈ files, file.relativePath = path ∧ file.stamp = stamp := by
    intro path stamp found
    have listed : (path, stamp) ∈ (files.map SourceFile.stamped).reverse := by
      obtain ⟨before, behind, same, -⟩ := lookup_eq_some_iff.mp found
      rw [same]
      exact mem_append_right _ mem_cons_self
    obtain ⟨file, there, same⟩ := mem_map.mp (mem_reverse.mp listed)
    cases same
    exact ⟨file, there, rfl, rfl⟩
  unfold unchangedFiles
  rw [length_map, decide_eq_true rfl, Bool.true_and, all_eq_true]
  simp only [decide_eq_true_eq]
  constructor
  · intro all first here second there same
    have equal := (all first here).symm.trans (same ▸ all second there)
    exact Option.some.inj equal
  · intro one file here
    cases result : stampOf (files.map SourceFile.stamped) file.relativePath with
    | some stamp =>
      obtain ⟨other, there, same, rfl⟩ := found _ _ result
      rw [one other there file here same]
    | none =>
      have listed : file.stamped ∈ (files.map SourceFile.stamped).reverse :=
        mem_reverse.mpr (mem_map_of_mem here)
      have different := lookup_eq_none_iff.mp result _ listed
      simp [SourceFile.stamped] at different

/-- A file that is taken over from the old entries: the first of its path, with the stamp of the entry. -/
def TakenOver (old : List IndexedFile) (earlier : List SourceFile) (file : SourceFile) : Prop :=
  (∀ other ∈ earlier, other.relativePath ≠ file.relativePath) ∧
    ∃ cached, oldFile old file.relativePath = some cached ∧ cached.stamp = file.stamp

/-- A file without chunks: it is binary or blank. -/
def Chunkless (builder : Builder V) (surroundings : Surroundings) (file : SourceFile) : Prop :=
  ∃ bytes, surroundings.read file.absolutePath = .ok bytes ∧ sourceChunks builder file bytes = []

/-- A file that is neither taken over nor has chunks. -/
def Skips (builder : Builder V) (surroundings : Surroundings) (old : List IndexedFile) (files : List SourceFile) : Prop :=
  ∃ earlier file later, files = earlier ++ file :: later ∧ ¬ TakenOver old earlier file ∧ Chunkless builder surroundings file

section Building

variable {old : List IndexedFile} {file : SourceFile} {log : List Effect}

theorem oldFile_path {path : String} {cached : IndexedFile} (found : oldFile old path = some cached) :
    cached.path = path := by
  unfold oldFile at found
  simpa using find?_some found

theorem oldFile_removed (path other : String) :
    oldFile (old.filter fun entry => entry.path ≠ other) path = if path = other then none else oldFile old path := by
  unfold oldFile
  rw [← filter_reverse, find?_filter]
  by_cases same : path = other
  · rw [if_pos same, find?_eq_none]
    rintro entry - both
    simp only [decide_eq_true_eq] at both
    exact both.1 (both.2.trans same)
  · rw [if_neg same]
    congr 1
    funext entry
    by_cases here : entry.path = path
    · simp [here, same]
    · simp [here]

theorem takenOver_removed (first : SourceFile) (earlier : List SourceFile) :
    TakenOver (old.filter fun entry => entry.path ≠ first.relativePath) earlier file ↔ TakenOver old (first :: earlier) file := by
  unfold TakenOver
  rw [oldFile_removed, forall_mem_cons]
  by_cases same : file.relativePath = first.relativePath
  · rw [if_pos same]
    constructor
    · rintro ⟨-, _, none, -⟩
      cases none
    · rintro ⟨⟨other, -⟩, -⟩
      exact absurd same.symm other
  · rw [if_neg same, and_iff_right (Ne.symm same)]

/-- A file that is met: its entry has its path and stamp, and there is none when it is skipped. -/
theorem entryOf_ok {indexed : Option IndexedFile}
    (ran : entryOf builder surroundings old file = (.ok indexed, log)) :
    (∃ entry, indexed = some entry ∧ (entry.path, entry.stamp) = file.stamped ∧
      ¬ (¬ TakenOver old [] file ∧ Chunkless builder surroundings file)) ∨
    indexed = none ∧ ¬ TakenOver old [] file ∧ Chunkless builder surroundings file := by
  unfold entryOf at ran
  split at ran
  · rename_i cached taken
    obtain ⟨found, stamp⟩ := Option.filter_eq_some_iff.mp taken
    cases ran
    have stamp := of_decide_eq_true stamp
    refine .inl ⟨cached, rfl, ?_, fun skipped => skipped.1 ⟨fun _ none => (by cases none), cached, found, stamp⟩⟩
    rw [oldFile_path found, stamp]
    rfl
  · rename_i missing
    have fresh : ¬ TakenOver old [] file := by
      rintro ⟨-, cached, found, stamp⟩
      rw [found] at missing
      simp [Option.filter, stamp] at missing
    unfold indexFile at ran
    split at ran
    · cases ran
    · rename_i bytes read
      simp only at ran
      split at ran
      · rename_i none
        cases ran
        exact .inr ⟨rfl, fresh, bytes, read, none⟩
      · rename_i chunks
        split at ran
        · cases ran
        · cases ran
          refine .inl ⟨_, rfl, rfl, ?_⟩
          rintro ⟨-, bytes', read', none⟩
          cases read.symm.trans read'
          exact chunks none

theorem indexFiles_ok {indexed : List IndexedFile}
    (ran : indexFiles builder surroundings old files = (.ok indexed, log)) :
    indexed.length ≤ files.length ∧ (indexed.length = files.length ↔ ¬ Skips builder surroundings old files) ∧
      (indexed.length = files.length → indexed.map (fun entry => (entry.path, entry.stamp)) = files.map SourceFile.stamped) := by
  induction files generalizing old indexed log with
  | nil =>
    cases ran
    refine ⟨Nat.le_refl _, iff_of_true rfl ?_, fun _ => rfl⟩
    rintro ⟨earlier, file, later, split, -⟩
    cases earlier <;> cases split
  | cons file files ih =>
    unfold indexFiles at ran
    split at ran
    · cases ran
    · rename_i first effects met
      obtain ⟨result, logged⟩ := Prod.mk.inj ran
      obtain ⟨rest, more, rfl⟩ := except_map_eq_ok result
      obtain ⟨short, exact, stamps⟩ := ih (Prod.ext more rfl)
      have skips : Skips builder surroundings old (file :: files) ↔
          (¬ TakenOver old [] file ∧ Chunkless builder surroundings file) ∨
            Skips builder surroundings (old.filter fun other => other.path ≠ file.relativePath) files := by
        constructor
        · rintro ⟨earlier, other, later, split, fresh, none⟩
          cases earlier with
          | nil =>
            cases split
            exact .inl ⟨fresh, none⟩
          | cons _ earlier =>
            cases split
            exact .inr ⟨earlier, other, later, rfl, fun taken => fresh ((takenOver_removed file earlier).mp taken), none⟩
        · rintro (⟨fresh, none⟩ | ⟨earlier, other, later, rfl, fresh, none⟩)
          · exact ⟨[], file, files, rfl, fresh, none⟩
          · refine ⟨file :: earlier, other, later, rfl, fun taken => fresh ?_, none⟩
            exact (takenOver_removed file earlier).mpr taken
      rw [skips]
      rcases entryOf_ok met with ⟨entry, rfl, stamped, kept⟩ | ⟨rfl, skipped⟩
      · rw [or_iff_right kept, ← exact]
        show (entry :: rest).length ≤ _ ∧ ((entry :: rest).length = _ ↔ _) ∧ _
        rw [length_cons, length_cons]
        refine ⟨Nat.succ_le_succ short, Nat.succ_inj, fun same => ?_⟩
        show (entry.path, entry.stamp) :: rest.map _ = file.stamped :: files.map _
        rw [stamped, stamps (Nat.succ_inj.mp same)]
      · show rest.length ≤ _ ∧ (rest.length = _ ↔ _) ∧ _
        rw [length_cons]
        have less : rest.length ≠ files.length + 1 := by omega
        exact ⟨Nat.le_succ_of_le short, iff_of_false less fun none => none (.inl skipped), fun same => absurd same less⟩

theorem built_unchanged_iff {indexed : List IndexedFile}
    (ran : indexFiles builder surroundings old files = (.ok indexed, log)) :
    unchangedFiles files (indexed.map fun file => (file.path, file.stamp)) = true ↔
      ¬ Skips builder surroundings old files ∧ OneStamp files := by
  obtain ⟨-, exact, stamps⟩ := indexFiles_ok ran
  rw [← exact]
  constructor
  · intro same
    have long : indexed.length = files.length := by
      unfold unchangedFiles at same
      rw [Bool.and_eq_true, decide_eq_true_eq, length_map] at same
      exact same.1.symm
    rw [stamps long, unchangedFiles_stamped] at same
    exact ⟨long, same⟩
  · rintro ⟨long, one⟩
    rw [stamps long, unchangedFiles_stamped]
    exact one

end Building

/-! ### Runs -/

/-- A state that calls for some requests lead to, each with what it finds at its time, from an empty memory. -/
inductive Reached (builder : Builder V) (known : Request → Prop) : State → Prop
  | start (disk : Disk) : Reached builder known { loaded := [], disk, allocations := 0, log := [] }
  | call {state : State} {request : Request} (reached : Reached builder known state) (listed : known request)
      (surroundings : Surroundings) (now : Nat) :
      Reached builder known (loadOrBuild builder surroundings request now state).2

/-- Requests with one cache path are for one source and one content. -/
def Apart (builder : Builder V) (known : Request → Prop) : Prop :=
  ∀ first second, known first → known second →
    (layoutOf builder first).snapshot = (layoutOf builder second).snapshot →
      first.identity = second.identity ∧ first.content = second.content

/-- What holds of every state: the allocations in memory are old ones, and every index in memory has its runtime file. -/
structure Sound (builder : Builder V) (known : Request → Prop) (state : State) : Prop where
  allocated : ∀ entry ∈ state.loaded, entry.2.index.allocation < state.allocations
  backed : ∀ entry ∈ state.loaded, ∀ request, known request → (layoutOf builder request).snapshot = entry.1 →
    Backs builder request entry.2.index.value.stamps state.disk

variable {known : Request → Prop}

theorem runtime_apart {first second : Request} (same : (layoutOf builder first).runtime = (layoutOf builder second).runtime) :
    (layoutOf builder first).snapshot = (layoutOf builder second).snapshot := by
  unfold layoutOf at same ⊢
  simp only at same ⊢
  exact congrArg (· ++ "/index.bin") (String.append_left_inj _ |>.mp same)

theorem layoutOf_congr (builder : Builder V) {first second : Request} (identity : first.identity = second.identity)
    (content : first.content = second.content) : layoutOf builder first = layoutOf builder second := by
  unfold layoutOf
  rw [identity, content]

theorem Backs.frame {stamps : List (String × FileStamp)} {disk other : Disk} (backs : Backs builder request stamps disk)
    (same : other.runtimes (layoutOf builder request).runtime = disk.runtimes (layoutOf builder request).runtime) :
    Backs builder request stamps other := by
  obtain ⟨runtime, loads, rest⟩ := backs
  refine ⟨runtime, ?_, rest⟩
  unfold loadRuntime
  rwa [same]

theorem Sound.quiet (sound : Sound builder known state) (quiet : Quiet state after) : Sound builder known after where
  allocated := by
    intro entry listed
    obtain ⟨old, there, -, same⟩ := quiet.entries entry listed
    rw [← same, quiet.allocations]
    exact sound.allocated old there
  backed := by
    intro entry listed request member path
    obtain ⟨old, there, key, same⟩ := quiet.entries entry listed
    rw [← same]
    exact (sound.backed old there request member (path.trans key.symm)).frame (by rw [quiet.runtimes])

theorem Sound.loads {value : LoadedIndex} (apart : Apart builder known) (listed : known request)
    (sound : Sound builder known state) (loads : Loads builder surroundings request now files state after index value) :
    Sound builder known after where
  allocated := by
    intro entry member
    rw [loads.stored.allocations]
    rcases loads.stored.entries entry member with rfl | ⟨-, old, there, -, same⟩
    · rw [loads.stored.shared]
      exact Nat.lt_succ_self _
    · rw [← same]
      exact Nat.lt_succ_of_lt (sound.allocated old there)
  backed := by
    intro entry member other known path
    rcases loads.stored.entries entry member with rfl | ⟨different, old, there, key, same⟩
    · obtain ⟨identity, content⟩ := apart other request known listed path
      have layout := layoutOf_congr builder identity content
      obtain ⟨runtime, found, rest⟩ := loads.backs
      rw [loads.stored.shared]
      refine ⟨runtime, by rwa [layout], ?_⟩
      rwa [identity, content]
    · rw [← same]
      refine (sound.backed old there other known (path.trans key.symm)).frame (loads.runtimes _ fun equal => different ?_)
      rw [← path]
      exact runtime_apart equal

theorem Sound.call (apart : Apart builder known) (listed : known request) (sound : Sound builder known state) :
    Sound builder known (loadOrBuild builder surroundings request now state).2 := by
  cases ran : loadOrBuild builder surroundings request now state with
  | mk result after =>
    cases result with
    | error error => exact sound.quiet (loadOrBuild_error ran)
    | ok index =>
      obtain ⟨files, -, -, ⟨cached, found, -, rfl, rfl⟩ | ⟨-, value, loads⟩⟩ := loadOrBuild_cases ran
      · exact sound.quiet (quiet_promote found rfl)
      · exact sound.loads apart listed loads

theorem sound_of_reached (apart : Apart builder known) (reached : Reached builder known state) : Sound builder known state := by
  induction reached with
  | start disk => exact ⟨fun _ none => (by cases none), fun _ none => by cases none⟩
  | call _ listed surroundings now ih => exact ih.call apart listed

/-! ### A second call -/

/-- Nothing has changed: the walk may come in another order. -/
structure Same (first second : Surroundings) : Prop where
  walk : first.walk.Perm second.walk
  read : second.read = first.read
  write : second.write = first.write

/-- A new instance on the same disk. -/
def State.restarted (state : State) : State := { state with loaded := [], log := [] }

/-- Refreshing does nothing: a second call gives the same allocation and does nothing outside of memory, and a call after a
restart embeds nothing. -/
structure NoOp (builder : Builder V) (surroundings : Surroundings) (request : Request) (index : Shared) (after : State) :
    Prop where
  again : ∀ other, Same surroundings other → ∀ now, ∃ last,
    loadOrBuild builder other request now after = (.ok index, last) ∧ last.log = after.log
  restart : ∀ other, Same surroundings other → ∀ now texts,
    .encode texts ∉ (loadOrBuild builder other request now after.restarted).2.log

/-- What a call must find for a second one to do nothing: an index for the files as they are, in memory or on the disk, or no
file that it skips and one stamp for two files of one path. -/
def Settles (builder : Builder V) (surroundings : Surroundings) (request : Request) (state : State) : Prop :=
  ∀ files, discoverFiles surroundings.walk request.content builder.config.maxFileBytes = .ok files →
    Hits (layoutOf builder request).snapshot files state ∨ OnDisk builder request files state.disk ∨
      ¬ Skips builder surroundings (oldFiles builder request state.disk) files ∧ OneStamp files

/-- With an index in memory and its runtime file for the files as they are, refreshing does nothing. -/
theorem noOp_of_unchanged {cached : CachedIndex}
    (found : discoverFiles surroundings.walk request.content builder.config.maxFileBytes = .ok files) (some : files ≠ [])
    (there : after.loaded.lookup (layoutOf builder request).snapshot = .some cached)
    (backs : Backs builder request cached.index.value.stamps after.disk)
    (same : unchangedFiles files cached.index.value.stamps = true) :
    NoOp builder surroundings request cached.index after where
  again := by
    intro other equal now
    obtain ⟨files', found', perm⟩ := discoverFiles_perm equal.walk found
    have some' : files' ≠ [] := fun none => some (none ▸ perm).eq_nil
    rw [unchangedFiles_perm perm] at same
    exact ⟨_, loadOrBuild_hit found' some' there same, rfl⟩
  restart := by
    intro other equal now texts
    obtain ⟨files', found', perm⟩ := discoverFiles_perm equal.walk found
    have some' : files' ≠ [] := fun none => some (none ▸ perm).eq_nil
    rw [unchangedFiles_perm perm] at same
    have miss : ¬ Hits (layoutOf builder request).snapshot files' after.restarted := by
      rintro ⟨_, none, -⟩
      cases none
    obtain ⟨between, built, -, disk, log⟩ := loadOrBuild_miss now found' some' miss
    have backs' : Backs builder request cached.index.value.stamps between.disk := by
      rw [disk]
      exact backs
    obtain ⟨runtime, current⟩ := backs'.current same
    obtain ⟨index, last, stores, -, -, log'⟩ :=
      storeLoaded_stored now (layoutOf builder request).snapshot runtime between
    rw [built]
    unfold build
    simp only [current, stores, log', log]
    exact not_mem_nil

theorem noOp_iff_of_loads {value : LoadedIndex}
    (found : discoverFiles surroundings.walk request.content builder.config.maxFileBytes = .ok files) (some : files ≠ [])
    (loads : Loads builder surroundings request now files state after index value) :
    NoOp builder surroundings request index after ↔ unchangedFiles files value.stamps = true := by
  have shared := loads.stored.shared
  constructor
  · intro noOp
    obtain ⟨last, again, -⟩ := noOp.again surroundings ⟨.refl _, rfl, rfl⟩ now
    obtain ⟨files', found', -, ⟨cached, there, same, -, -⟩ | ⟨-, other, second⟩⟩ := loadOrBuild_cases again
    · cases found.symm.trans found'
      cases loads.stored.found.symm.trans there
      rwa [shared] at same
    · -- a stored index is a new allocation
      have new := congrArg Shared.allocation second.stored.shared
      rw [loads.stored.allocations, shared] at new
      exact absurd new (Nat.ne_of_lt (Nat.lt_succ_self _))
  · intro same
    refine noOp_of_unchanged found some loads.stored.found ?_ ?_
    · rw [shared]
      exact loads.backs
    · rwa [shared]

/-- **Refreshing an unchanged source does nothing** exactly when the call before it has found an index for the files as they
are, or has skipped no file. -/
theorem refresh_noop_iff (apart : Apart builder known) (reached : Reached builder known state) (listed : known request)
    (ran : loadOrBuild builder surroundings request now state = (.ok index, after)) :
    NoOp builder surroundings request index after ↔ Settles builder surroundings request state := by
  have sound := sound_of_reached apart reached
  obtain ⟨files, found, some, ⟨cached, there, same, rfl, rfl⟩ | ⟨miss, value, loads⟩⟩ := loadOrBuild_cases ran
  · refine iff_of_true ?_ fun files' found' => ?_
    · have backs := sound.backed _ (mem_of_lookup there) request listed rfl
      have promoted : (state.promoted (layoutOf builder request).snapshot { cached with checkedAt := now }).loaded.lookup
          (layoutOf builder request).snapshot = .some { cached with checkedAt := now } := lookup_cons_self ..
      have noOp := noOp_of_unchanged found some promoted backs same
      exact noOp
    · cases found.symm.trans found'
      exact .inl ⟨cached, there, same⟩
  · rw [noOp_iff_of_loads found some loads]
    rcases loads.stamps with ⟨disk, same⟩ | ⟨absent, indexed, log, built, stamps⟩
    · refine iff_of_true same fun files' found' => ?_
      cases found.symm.trans found'
      exact .inr (.inl disk)
    · rw [stamps, built_unchanged_iff built]
      constructor
      · intro all files' found'
        cases found.symm.trans found'
        exact .inr (.inr all)
      · intro settles
        exact ((settles files found).resolve_left miss).resolve_left absent

end Model

/-! ### A blank file -/

/-- A builder with an embedder of one dimension, for files without a parser and without definitions. -/
def sampleBuilder : Builder Int where
  config := { cacheDir := "/cache", desiredChunkBytes := 750, maxFileBytes := 1000000 }
  embedder := { id := "unit", dimensions := 1, encode := fun texts => .ok (texts.map fun _ => [1]) }
  digest := fun text =>
    if text = "/src" then "56c9e1c4b5360a5b089004396ed37fe3a20f7c4f5954072098039789ba3ab68a"
    else "e54aa3bc9473e94caecf45fc3f11cff571fcba23dfe8b601ce1a55b4e79fb717"
  parse := fun _ _ => none
  captures := fun _ => []
  fromUtf8Lossy := fun bytes => String.ofList (bytes.map fun byte => Char.ofNat byte.toNat)
  quantize := fun value => max (-1) (min 1 value) * 127

def sampleRequest : Request where
  root := "/src"
  identity := "/src"
  content := [.code]

/-- A file with a word. -/
def wordFile : SourceFile where
  absolutePath := "/src/a.sql"
  relativePath := "a.sql"
  stamp := { modifiedNs := 1, size := 4 }
  contentType := .code

/-- A file with an empty line. -/
def blankFile : SourceFile where
  absolutePath := "/src/b.sql"
  relativePath := "b.sql"
  stamp := { modifiedNs := 1, size := 1 }
  contentType := .code

/-- A directory with some of the two files. -/
def sampleSurroundings (files : List SourceFile) : Surroundings where
  walk := files.map fun file =>
    .ok { path := file.absolutePath, isFile := true, metadata := .ok file.stamp, belowRoot := some file.relativePath }
  read := fun path => .ok (if path = "/src/a.sql" then [111, 110, 101, 10] else [10])
  write := fun _ => .ok ()

/-- The state of a new instance, without cache files. -/
def freshState : State where
  loaded := []
  disk := { snapshots := fun _ => none, runtimes := fun _ => none }
  allocations := 0
  log := []

def wordEntry : IndexedFile where
  path := "a.sql"
  stamp := { modifiedNs := 1, size := 4 }
  contentType := .code
  chunks := [{ filePath := "a.sql", startLine := 1, endLine := 1, language := some "sql", content := "one\n" }]
  definitions := []
  lexicalDocuments := [{ length := 1, terms := [{ term := "one", frequency := 1 }] }]
  vectors := [127]

theorem discoverFiles_both : discoverFiles (sampleSurroundings [wordFile, blankFile]).walk [.code] 1000000 =
    .ok [wordFile, blankFile] := by
  have entries : (sampleSurroundings [wordFile, blankFile]).walk.mapM (received [.code] 1000000) =
      .ok [some wordFile, some blankFile] := by rfl
  unfold discoverFiles
  rw [entries]
  refine congrArg Except.ok (mergeSort_of_pairwise ?_)
  decide

theorem discoverFiles_word : discoverFiles (sampleSurroundings [wordFile]).walk [.code] 1000000 = .ok [wordFile] := by
  have entries : (sampleSurroundings [wordFile]).walk.mapM (received [.code] 1000000) = .ok [some wordFile] := by rfl
  unfold discoverFiles
  rw [entries]
  exact congrArg Except.ok (mergeSort_singleton _)

theorem sourceChunks_word : sourceChunks sampleBuilder wordFile [111, 110, 101, 10] = wordEntry.chunks := by
  decide +kernel

theorem sourceChunks_blank : sourceChunks sampleBuilder blankFile [10] = [] := by
  decide +kernel

theorem lexicalDocument_word : lexicalDocument "one\n" = { length := 1, terms := [{ term := "one", frequency := 1 }] } := by
  have tokens : tokenize "one\n" = ["one"] := by decide +kernel
  unfold lexicalDocument
  rw [tokens]
  simp

theorem entryOf_sample (files : List SourceFile) :
    entryOf sampleBuilder (sampleSurroundings files) [] wordFile =
      (.ok (some wordEntry), [.readSource "/src/a.sql", .encode ["one\n"]]) ∧
    entryOf sampleBuilder (sampleSurroundings files) [] blankFile = (.ok none, [.readSource "/src/b.sql"]) := by
  have read : (sampleSurroundings files).read wordFile.absolutePath = .ok [111, 110, 101, 10] := rfl
  have read' : (sampleSurroundings files).read blankFile.absolutePath = .ok [10] := rfl
  constructor
  · show indexFile sampleBuilder (sampleSurroundings files) wordFile = _
    unfold indexFile
    simp only [read, sourceChunks_word]
    show (Except.ok (some { wordEntry with lexicalDocuments := [lexicalDocument "one\n"] }), _) = _
    rw [lexicalDocument_word]
    rfl
  · show indexFile sampleBuilder (sampleSurroundings files) blankFile = _
    unfold indexFile
    simp only [read', sourceChunks_blank, if_pos]
    rfl

theorem indexFiles_both : indexFiles sampleBuilder (sampleSurroundings [wordFile, blankFile]) [] [wordFile, blankFile] =
    (.ok [wordEntry], [.readSource "/src/a.sql", .encode ["one\n"], .readSource "/src/b.sql"]) := by
  obtain ⟨word, blank⟩ := entryOf_sample [wordFile, blankFile]
  simp only [indexFiles, word, filter_nil, blank]
  rfl

theorem indexFiles_word : indexFiles sampleBuilder (sampleSurroundings [wordFile]) [] [wordFile] =
    (.ok [wordEntry], [.readSource "/src/a.sql", .encode ["one\n"]]) := by
  simp only [indexFiles, (entryOf_sample [wordFile]).1]
  rfl

/-- The index of the word. -/
def wordIndex : LoadedIndex where
  metadata :=
    { sourceIdentity := "/src", modelId := "unit", dimensions := 1, desiredChunkBytes := 750, content := [.code]
      files := [{ path := "a.sql", stamp := { modifiedNs := 1, size := 4 }, contentType := .code }] }
  chunks := wordEntry.chunks
  vectors := [127]
  lexical := { definitions := [], definitionsBySymbol := [] }
  bm25 := { documentLengths := [1], postings := [("one", [{ document := 0, frequency := 1 }])] }

theorem freshState_empty (files : List SourceFile) :
    currentRuntime sampleBuilder sampleRequest files freshState.disk = none ∧
      currentSnapshot sampleBuilder sampleRequest files freshState.disk = none ∧
      oldFiles sampleBuilder sampleRequest freshState.disk = [] :=
  ⟨rfl, rfl, rfl⟩

theorem loadOrBuild_sample {files : List SourceFile} {log : List Effect} (some : files ≠ [])
    (found : discoverFiles (sampleSurroundings files).walk [.code] 1000000 = .ok files)
    (indexed : indexFiles sampleBuilder (sampleSurroundings files) [] files = (.ok [wordEntry], log)) :
    ∃ index after, loadOrBuild sampleBuilder (sampleSurroundings files) sampleRequest 0 freshState = (.ok index, after) := by
  obtain ⟨runtime, snapshot, old⟩ := freshState_empty files
  have began : loadOrBuild sampleBuilder (sampleSurroundings files) sampleRequest 0 freshState =
      build sampleBuilder (sampleSurroundings files) sampleRequest 0 files freshState := by
    unfold loadOrBuild
    rw [show sampleRequest.content = [.code] from rfl, show sampleBuilder.config.maxFileBytes = 1000000 from rfl, found]
    simp only [if_neg some]
    rfl
  have valid : (builtSnapshot sampleBuilder sampleRequest [wordEntry]).validate = .ok () := by rfl
  rw [began]
  unfold build
  simp only [runtime, snapshot, old, indexed]
  have loaded : LoadedIndex.fromSnapshot (builtSnapshot sampleBuilder sampleRequest [wordEntry]) = .ok wordIndex := by
    unfold LoadedIndex.fromSnapshot
    simp only [valid]
    rfl
  have written : ∀ path, (sampleSurroundings files).write path = .ok () := fun _ => rfl
  unfold saveSnapshot
  simp only [valid, written]
  exact finishLoad_succeeds loaded (by rfl) (written _)

theorem refresh_rewrites : ∃ index after,
    loadOrBuild sampleBuilder (sampleSurroundings [wordFile, blankFile]) sampleRequest 0 freshState = (.ok index, after) ∧
      ¬ NoOp sampleBuilder (sampleSurroundings [wordFile, blankFile]) sampleRequest index after := by
  obtain ⟨index, after, ran⟩ := loadOrBuild_sample (cons_ne_nil _ _) discoverFiles_both indexFiles_both
  refine ⟨index, after, ran, ?_⟩
  obtain ⟨runtime, snapshot, old⟩ := freshState_empty [wordFile, blankFile]
  obtain ⟨files, found, some, hit | ⟨-, value, loads⟩⟩ := loadOrBuild_cases ran
  · obtain ⟨cached, there, same⟩ := hit
    have nothing : freshState.loaded.lookup (layoutOf sampleBuilder sampleRequest).snapshot = none := lookup_nil
    exact absurd (nothing.symm.trans there) (Option.some_ne_none _).symm
  · cases discoverFiles_both.symm.trans found
    rw [noOp_iff_of_loads found some loads]
    rcases loads.stamps with ⟨disk, -⟩ | ⟨-, indexed, log, built, stamps⟩
    · unfold OnDisk at disk
      rw [runtime, snapshot] at disk
      simp at disk
    · rw [stamps, built_unchanged_iff built, old]
      refine fun settled => settled.1 ⟨[wordFile], blankFile, [], rfl, ?_, [10], rfl, sourceChunks_blank⟩
      rintro ⟨-, _, none, -⟩
      cases none

theorem refresh_noop_sample : ∃ index after,
    loadOrBuild sampleBuilder (sampleSurroundings [wordFile]) sampleRequest 0 freshState = (.ok index, after) ∧
      NoOp sampleBuilder (sampleSurroundings [wordFile]) sampleRequest index after := by
  obtain ⟨index, after, ran⟩ := loadOrBuild_sample (cons_ne_nil _ _) discoverFiles_word indexFiles_word
  have apart : Apart sampleBuilder (· = sampleRequest) := by
    rintro _ _ rfl rfl -
    exact ⟨rfl, rfl⟩
  have reached : Reached sampleBuilder (· = sampleRequest) freshState := .start _
  refine ⟨index, after, ran, (refresh_noop_iff apart reached rfl ran).mpr fun files found => .inr (.inr ⟨?_, ?_⟩)⟩
  · cases discoverFiles_word.symm.trans found
    rintro ⟨earlier, file, later, split, -, bytes, read, none⟩
    cases earlier with
    | nil =>
      cases split
      cases read
      exact absurd (sourceChunks_word.symm.trans none) (cons_ne_nil _ _)
    | cons _ earlier =>
      obtain ⟨-, rest⟩ := List.cons.inj split
      cases earlier <;> cases rest
  · cases discoverFiles_word.symm.trans found
    intro first here second there _
    cases mem_singleton.mp here
    cases mem_singleton.mp there
    rfl

end Byok.Semble
