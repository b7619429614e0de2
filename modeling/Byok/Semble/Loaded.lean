/-
**An index in memory.** `crates/semble-core/src/index/snapshot.rs`, `crates/semble-core/src/index/bm25.rs`.

* `Bm25Index.fromFiles` — the postings of all documents.
* `LoadedIndex.fromSnapshot`, `LoadedIndex.validate` — the index that a snapshot gives.
* `stored` — what a cache file gives back of a value: everything but the text of the chunks.
-/

import Byok.Semble.Symbols

namespace Byok.Semble

structure Posting where
  document : Nat
  frequency : Nat
deriving DecidableEq, Repr

/-- `Bm25Index`, without the average length: a number that only its search reads. -/
structure Bm25Index where
  documentLengths : List Nat
  postings : List (String × List Posting)
deriving DecidableEq, Repr

namespace Bm25Index

/-- A document is put in. -/
def push (index : Bm25Index) (document : IndexedLexicalDocument) : Bm25Index where
  documentLengths := index.documentLengths ++ [document.length]
  postings := document.terms.foldl
    (fun postings term => pushEntry term.term { document := index.documentLengths.length, frequency := term.frequency } postings)
    index.postings

def fromFiles (files : List IndexedFile) : Bm25Index :=
  (files.flatMap IndexedFile.lexicalDocuments).foldl push { documentLengths := [], postings := [] }

def validate (index : Bm25Index) (chunks : Nat) : Bool :=
  index.documentLengths.length = chunks &&
    (index.postings.flatMap Prod.snd).all fun posting => posting.document < chunks && 0 < posting.frequency

end Bm25Index

structure LoadedFile where
  path : String
  stamp : FileStamp
  contentType : ContentType
deriving DecidableEq, Repr

/-- What the metadata keeps of a file. -/
def IndexedFile.loaded (file : IndexedFile) : LoadedFile where
  path := file.path
  stamp := file.stamp
  contentType := file.contentType

structure LoadedMetadata where
  sourceIdentity : String
  modelId : String
  dimensions : Nat
  desiredChunkBytes : Nat
  content : List ContentType
  files : List LoadedFile
deriving DecidableEq, Repr

structure LoadedIndex where
  metadata : LoadedMetadata
  chunks : List Chunk
  vectors : List Int
  lexical : SymbolIndex
  bm25 : Bm25Index
deriving DecidableEq, Repr

namespace LoadedIndex

def fromSnapshot (snapshot : IndexSnapshot) : Except Error LoadedIndex :=
  match snapshot.validate with
  | .error error => .error error
  | .ok () =>
    .ok
      { metadata :=
          { sourceIdentity := snapshot.sourceIdentity
            modelId := snapshot.modelId
            dimensions := snapshot.dimensions
            desiredChunkBytes := snapshot.desiredChunkBytes
            content := snapshot.content
            files := snapshot.files.map IndexedFile.loaded }
        chunks := chunksOf snapshot.files
        vectors := snapshot.files.flatMap IndexedFile.vectors
        lexical := .fromFiles snapshot.files
        bm25 := .fromFiles snapshot.files }

def validate (index : LoadedIndex) : Except Error Unit :=
  if index.metadata.dimensions = 0 || index.vectors.length ≠ index.chunks.length * index.metadata.dimensions ||
      !index.lexical.validate index.chunks.length || !index.bm25.validate index.chunks.length then
    .error (.corruptIndex "invalid runtime index")
  else .ok ()

end LoadedIndex

/-! ### Cache files -/

/-- The text of a chunk is not written. -/
def Chunk.stored (chunk : Chunk) : Chunk := { chunk with content := "" }

/-- What a cache file gives back of a snapshot. -/
def IndexSnapshot.stored (snapshot : IndexSnapshot) : IndexSnapshot :=
  { snapshot with files := snapshot.files.map fun file => { file with chunks := file.chunks.map Chunk.stored } }

/-- What a cache file gives back of an index. -/
def LoadedIndex.stored (index : LoadedIndex) : LoadedIndex := { index with chunks := index.chunks.map Chunk.stored }

@[simp] theorem LoadedIndex.stored_metadata (index : LoadedIndex) : index.stored.metadata = index.metadata := rfl

@[simp] theorem LoadedIndex.stored_validate (index : LoadedIndex) : index.stored.validate = index.validate := by
  unfold LoadedIndex.validate LoadedIndex.stored
  rw [List.length_map]

theorem LoadedIndex.fromSnapshot_metadata {snapshot : IndexSnapshot} {index : LoadedIndex}
    (loaded : LoadedIndex.fromSnapshot snapshot = .ok index) :
    index.metadata = { sourceIdentity := snapshot.sourceIdentity, modelId := snapshot.modelId
                       dimensions := snapshot.dimensions, desiredChunkBytes := snapshot.desiredChunkBytes
                       content := snapshot.content, files := snapshot.files.map IndexedFile.loaded } := by
  unfold LoadedIndex.fromSnapshot at loaded
  split at loaded
  · cases loaded
  · cases loaded
    rfl

end Byok.Semble
