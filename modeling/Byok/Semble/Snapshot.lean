/-
**The persisted index of a source.** `crates/semble-core/src/index/snapshot.rs`, `error.rs`, `config.rs`.

For every file with chunks the index has its stamp, its chunks with their vectors and lexical documents, and its definitions.

* `IndexedFile` — the entry of a file.
* `IndexSnapshot.validate` — what is asked of a snapshot before it is written and after it is read.
-/

import Byok.Semble.Chunk
import Mathlib.Data.String.Basic

namespace Byok.Semble

/-- `Error`, of the operations on indexes. -/
inductive Error where
  | unsafePath (path : String)
  | model (text : String)
  | emptyIndex (path : String)
  | invalidRequest (text : String)
  | corruptIndex (text : String)
  | io (path source : String)
  | serialization (text : String)
deriving DecidableEq, Repr

def indexFormatVersion : Nat := 7

inductive ContentType where
  | code
  | docs
  | config
deriving DecidableEq, Repr

structure FileStamp where
  modifiedNs : Nat
  size : Nat
deriving DecidableEq, Repr

structure IndexedDefinition where
  symbol : String
  chunk : Nat
  implementation : Bool
deriving DecidableEq, Repr

structure IndexedTermFrequency where
  term : String
  frequency : Nat
deriving DecidableEq, Repr

structure IndexedLexicalDocument where
  length : Nat
  terms : List IndexedTermFrequency
deriving DecidableEq, Repr

structure IndexedFile where
  path : String
  stamp : FileStamp
  contentType : ContentType
  chunks : List Chunk
  definitions : List IndexedDefinition
  lexicalDocuments : List IndexedLexicalDocument
  vectors : List Int
deriving DecidableEq, Repr

/-- The chunks of all files. -/
def chunksOf (files : List IndexedFile) : List Chunk := files.flatMap IndexedFile.chunks

structure IndexSnapshot where
  formatVersion : Nat
  sourceIdentity : String
  modelId : String
  dimensions : Nat
  desiredChunkBytes : Nat
  content : List ContentType
  files : List IndexedFile
deriving DecidableEq, Repr

/-- The loop of `IndexSnapshot::validate` over the terms of a document: their total frequency, when each of them is behind the
one before it and has a frequency. -/
def totalFrequency (previous : Option String) : List IndexedTermFrequency → Option Nat
  | [] => some 0
  | term :: terms =>
    if term.term = "" ∨ term.frequency = 0 ∨ (previous.any fun value => decide (term.term ≤ value)) = true then none
    else (totalFrequency (some term.term) terms).map (term.frequency + ·)

/-- The checks of `IndexSnapshot::validate` on a document. -/
def IndexedLexicalDocument.validate (path : String) (document : IndexedLexicalDocument) : Except Error Unit :=
  match totalFrequency none document.terms with
  | none => .error (.corruptIndex ("invalid lexical document in " ++ path))
  | some length =>
    if length ≠ document.length then .error (.corruptIndex ("lexical document length mismatch in " ++ path)) else .ok ()

/-- The checks of `IndexSnapshot::validate` on a file. -/
def IndexedFile.validate (dimensions : Nat) (file : IndexedFile) : Except Error Unit :=
  if file.definitions.any fun definition => file.chunks.length ≤ definition.chunk then
    .error (.corruptIndex ("definition chunk is out of bounds in " ++ file.path))
  else if file.vectors.length ≠ file.chunks.length * dimensions then
    .error (.corruptIndex ("chunk/vector count mismatch in " ++ file.path))
  else if file.lexicalDocuments.length ≠ file.chunks.length then
    .error (.corruptIndex ("chunk/lexical document count mismatch in " ++ file.path))
  else file.lexicalDocuments.forM (IndexedLexicalDocument.validate file.path)

def IndexSnapshot.validate (snapshot : IndexSnapshot) : Except Error Unit :=
  if snapshot.formatVersion ≠ indexFormatVersion then .error (.corruptIndex "format version mismatch")
  else snapshot.files.forM (IndexedFile.validate snapshot.dimensions)

end Byok.Semble
