/-
**Search by symbol.** `crates/semble-core/src/index/lexical.rs`.

The definitions of all files are put into one list, with the positions of every symbol. A query is answered with the chunks
that define its last part, or with those of the symbols that its words suggest, the best ones first.

* `tokenize`, `normalizeTerm` — the words of a text.
* `SymbolIndex.fromFiles` — the index, and `SymbolIndex.validate`.
* `SymbolIndex.exactSymbol`, `SymbolIndex.inferredSymbols` — the two searches.
* `symbol_search_iff` — they answer as they should exactly when no chunk takes a turn again in the order of their scores.
-/

import Byok.Semble.Snapshot
import Byok.Library.Turns
import Mathlib.Order.Defs.LinearOrder
import Mathlib.Data.String.Basic
import Mathlib.Data.List.Dedup
import Mathlib.Data.List.Nodup
import Mathlib.Data.List.ReduceOption
import Mathlib.Data.Prod.Lex
import Mathlib.Order.Compare
import Mathlib.Algebra.Order.Ring.Unbundled.Rat

set_option linter.unusedSectionVars false

namespace Byok.Semble

open Library List

/-! ### Words -/

/-- `str::to_ascii_lowercase`. -/
def asciiLower (text : String) : String := String.ofList (text.toList.map Char.toLower)

/-- `str::contains` of a text. -/
def containsText (text pattern : String) : Bool := text.toList.tails.any fun rest => pattern.toList.isPrefixOf rest

/-- The loop of `tokenize` over the characters; `word` is the identifier that is being read. -/
def identifiers (word : List Char) : List Char → List (List Char)
  | [] => if word = [] then [] else [word]
  | character :: rest =>
    if word = [] then
      if character.isAlpha || character = '_' then identifiers [character] rest else identifiers [] rest
    else if character.isAlphanum || character = '_' then identifiers (word ++ [character]) rest
    else word :: identifiers [] rest

/-- The loop of `split_identifier` without `_`: a part ends before a capital behind a small letter, and before the last of
several capitals when a small letter follows. -/
def splitCase (part : List Char) (previous : Char) : List Char → List (List Char)
  | [] => [part]
  | current :: rest =>
    if (previous.isLower && current.isUpper) ||
        (previous.isUpper && current.isUpper && rest.head?.any Char.isLower) then
      part :: splitCase [current] current rest
    else splitCase (part ++ [current]) current rest

def splitIdentifier (token : List Char) : List String :=
  let lower := token.map Char.toLower
  let parts :=
    if '_' ∈ token then (lower.splitOn '_').filter (· ≠ [])
    else
      match token with
      | [] => []
      | first :: rest => (splitCase [first] first rest).map fun part => part.map Char.toLower
  if 2 ≤ parts.length then String.ofList lower :: parts.map String.ofList else [String.ofList lower]

def tokenize (text : String) : List String := (identifiers [] text.toList).flatMap splitIdentifier

def normalizeTerm (term : String) : String :=
  let lower := asciiLower term
  if lower ∈ ["application", "applications"] then "app"
  else if lower ∈ ["listener", "listeners", "listening"] then "listen"
  else if lower ∈ ["rendered", "rendering"] then "render"
  else if lower ∈ ["hydrated", "hydrating"] then "hydrate"
  else if lower ∈ ["compiled", "compiling"] then "compile"
  else if lower ∈ ["parsed", "parsing"] then "parse"
  else if lower ∈ ["called", "calling"] then "call"
  else if lower ∈ ["cancelled", "cancelling", "cancellation"] then "cancel"
  else if lower ∈ ["dispatched", "dispatching"] then "dispatch"
  else if lower ∈ ["interrupted", "interrupting", "interruption"] then "interrupt"
  else if lower ∈ ["started", "starting"] then "start"
  else if 4 < Utf8.size lower.toList ∧ lower.toList.getLast? = some 's' then String.ofList lower.toList.dropLast
  else lower

def symbolParts (symbol : String) : List String :=
  let values := splitIdentifier symbol.toList
  (if 1 < values.length then values.tail else values).map normalizeTerm

def isActionSymbolPart (part : String) : Bool :=
  part ∈ ["build", "call", "cancel", "commit", "compile", "create", "define", "dispatch", "find", "handle", "hydrate",
    "interrupt", "listen", "load", "mount", "parse", "patch", "persist", "read", "reconcile", "record", "register", "render",
    "save", "schedule", "search", "send", "set", "start", "store", "update", "watch", "write"]

def isGenericSymbolPart (part : String) : Bool :=
  part ∈ ["all", "api", "base", "impl", "internal", "of", "on", "the", "to"]

/-! ### The index -/

structure Definition where
  symbol : String
  parts : List String
  chunk : Nat
  implementation : Bool
deriving DecidableEq, Repr

/-- `SymbolIndex`. The map is a list of its entries, in some order. -/
structure SymbolIndex where
  definitions : List Definition
  definitionsBySymbol : List (String × List Nat)
deriving DecidableEq, Repr

/-- `entry(key).or_default().push(value)`. -/
def pushEntry {β : Type} (key : String) (value : β) : List (String × List β) → List (String × List β)
  | [] => [(key, [value])]
  | (known, values) :: rest =>
    if known = key then (known, values ++ [value]) :: rest else (known, values) :: pushEntry key value rest

/-- The definition of a file whose chunks begin at an offset. -/
def IndexedDefinition.at (chunkOffset : Nat) (indexed : IndexedDefinition) : Definition where
  symbol := asciiLower indexed.symbol
  parts := symbolParts indexed.symbol
  chunk := chunkOffset + indexed.chunk
  implementation := indexed.implementation

namespace SymbolIndex

/-- A definition is put in. -/
def push (index : SymbolIndex) (definition : Definition) : SymbolIndex where
  definitions := index.definitions ++ [definition]
  definitionsBySymbol := pushEntry definition.symbol index.definitions.length index.definitionsBySymbol

/-- `SymbolIndex::from_files`, from an index and an offset on. -/
def addFiles (index : SymbolIndex) (chunkOffset : Nat) : List IndexedFile → SymbolIndex
  | [] => index
  | file :: files =>
    addFiles (file.definitions.foldl (fun index indexed => index.push (indexed.at chunkOffset)) index)
      (chunkOffset + file.chunks.length) files

def fromFiles (files : List IndexedFile) : SymbolIndex := addFiles ⟨[], []⟩ 0 files

/-- A position of a symbol in `validate`: it is in the list, of that symbol, and not seen before. -/
def visit (definitions : List Definition) (seen : List Bool) (entry : String × Nat) : Option (List Bool) :=
  match definitions[entry.2]? with
  | none => none
  | some definition =>
    if definition.symbol ≠ entry.1 ∨ seen.getD entry.2 false = true then none else some (seen.set entry.2 true)

def validate (index : SymbolIndex) (chunks : Nat) : Bool :=
  if index.definitions.any fun definition => chunks ≤ definition.chunk then false
  else
    let entries := index.definitionsBySymbol.flatMap fun entry => entry.2.map fun position => (entry.1, position)
    match entries.foldlM (visit index.definitions) (List.replicate index.definitions.length false) with
    | none => false
    | some seen => seen.all fun value => value

end SymbolIndex

/-! ### Scores

The scores are of some type with arithmetic and a total order. -/

section Scores

variable {S : Type} [LinearOrder S] [Add S] [Sub S] [Mul S] [Div S] [NatCast S] [OfScientific S]

def sourcePriority (path symbol : String) : S :=
  let normalized := asciiLower (String.ofList (path.toList.map fun character => if character = '\\' then '/' else character))
  let parts := (normalized.toList.splitOn '/').map String.ofList
  let score : S := 1.0
  let score := if containsText normalized "/src/" then score + 0.35 else score
  let score :=
    match parts.findIdx? (· = "packages") with
    | some packages => if (parts[packages + 1]?).any fun package => '-' ∉ package.toList then score + 1.0 else score
    | none => score
  -- `rsplit_once('.')` of the last part
  let file := (parts.getLast?.getD "").toList.reverse
  let stem := if '.' ∈ file then some ((file.dropWhile (· ≠ '.')).drop 1).reverse else none
  let score :=
    if stem.any fun stem => stem = symbol.toList || symbol.toList.isSuffixOf stem then score + 0.4 else score
  let score :=
    if (parts.any fun part => part ∈ ["test", "tests", "__tests__", "fixtures", "examples", "benchmarks"]) ||
        containsText normalized ".test." || containsText normalized ".spec." || containsText normalized "dts-test" then
      score * 0.08
    else score
  if parts.any fun part => part ∈ ["playground", "demo", "demos"] then score * 0.2 else score

/-- The path of a chunk that there is. -/
def pathAt (chunks : List Chunk) (chunk : Nat) : String := ((chunks[chunk]?).map Chunk.filePath).getD ""

/-- The first line of a chunk that there is. -/
def lineAt (chunks : List Chunk) (chunk : Nat) : Nat := ((chunks[chunk]?).map Chunk.startLine).getD 0

/-- The comparison in `rank_symbol`: the higher score, then the path, then the later line. -/
def ranksUpTo (chunks : List Chunk) (left right : Nat × S) : Bool :=
  (((compare right.2 left.2).then (compare (pathAt chunks left.1) (pathAt chunks right.1))).then
    (compare (lineAt chunks right.1) (lineAt chunks left.1))).isLE

/-- The comparison of results: the higher score, then the earlier chunk. -/
def resultUpTo (left right : Nat × S) : Bool := ((compare right.2 left.2).then (compare left.1 right.1)).isLE

/-- The comparison of suggested symbols: the higher score, then the name. -/
def suggestionUpTo (left right : String × S) : Bool := ((compare right.2 left.2).then (compare left.1 right.1)).isLE

/-- The score of a definition in `rank_symbol`. -/
def definitionScore (chunks : List Chunk) (symbol : String) (definition : Definition) : Option (Nat × S) :=
  (chunks[definition.chunk]?).map fun chunk =>
    (definition.chunk, (1.0 + if definition.implementation then 0.5 else 0.0) * sourcePriority chunk.filePath symbol)

namespace SymbolIndex

/-- `rank_symbol`. `none` where it would read behind the end of a list. -/
def rankSymbol (index : SymbolIndex) (symbol : String) (chunks : List Chunk) (limit : Nat) : Option (List (Nat × S)) := do
  let positions := (index.definitionsBySymbol.lookup symbol).getD []
  let output ← positions.mapM fun position => (index.definitions[position]?).bind (definitionScore chunks symbol)
  return (Turns.dedupByKey Prod.fst (output.mergeSort (ranksUpTo chunks))).take limit

/-- The last part of a path of symbols: what `exact_symbol` looks for. -/
def lastSegment (query : String) : String :=
  let parts := query.toList.splitOnP fun character => character ∈ [':', '.', '>']
  asciiLower (trim (((parts.reverse.find? (· ≠ [])).map String.ofList).getD query))

def exactSymbol (index : SymbolIndex) (query : String) (chunks : List Chunk) (limit : Nat) : Option (List (Nat × S)) :=
  index.rankSymbol (lastSegment query) chunks limit

end SymbolIndex

/-- The words of a query in `inferred_symbols`: `raw_terms` and `query_terms`. -/
structure QueryTerms where
  raw : List String
  normal : List String

/-- The words of a query. -/
def queryTerms (query : String) : QueryTerms :=
  let raw := tokenize query
  let normal := raw.map normalizeTerm
  { raw, normal := if "update" ∈ normal then "set" :: normal else normal }

/-- The score of a definition in `inferred_symbols`, unless the query does not suggest it. -/
def suggestion (terms : QueryTerms) (definition : Definition) : Option S :=
  let meaningful := definition.parts.filter fun part => !isGenericSymbolPart part
  let matched := (meaningful.filter fun part => decide (normalizeTerm part ∈ terms.normal)).length
  let exact := 1 < definition.parts.length && decide (definition.symbol ∈ terms.raw)
  let qualifies := exact || (meaningful.length = 1 && matched = 1) ||
    (2 ≤ meaningful.length && matched = meaningful.length) || (3 ≤ meaningful.length && 2 ≤ matched)
  if !qualifies then none
  else
    let coverage : S := (matched : S) / ((max meaningful.length 1 : Nat) : S)
    let unmatched : S := ((meaningful.length - matched : Nat) : S)
    let actionMatch := meaningful.any fun part =>
      decide (normalizeTerm part ∈ terms.normal) && isActionSymbolPart (normalizeTerm part)
    some ((if exact then 1.0 else 0.0) + coverage * 5.0 + (matched : S) * 2.0 - unmatched * 3.0 -
      (meaningful.length : S) * 0.1 + (if actionMatch then 2.0 else 0.0))

/-- `entry(symbol).and_modify(max).or_insert(score)`. -/
def insertMax (symbol : String) (score : S) : List (String × S) → List (String × S)
  | [] => [(symbol, score)]
  | (known, current) :: rest =>
    if known = symbol then (known, max current score) :: rest else (known, current) :: insertMax symbol score rest

/-- The symbols that a query suggests, with their scores. -/
def suggestedSymbols (terms : QueryTerms) (definitions : List Definition) : List (String × S) :=
  definitions.foldl (fun symbols definition =>
    match suggestion terms definition with
    | none => symbols
    | some score => insertMax definition.symbol score symbols) []

/-- The result for a chunk of a suggested symbol, unless its source has too little weight. -/
def inferredResult (terms : QueryTerms) (chunks : List Chunk) (symbol : String × S) (ranked : Nat × S) :
    Option (Option (Nat × S)) :=
  (chunks[ranked.1]?).map fun chunk =>
    let pathTerms := ((tokenize chunk.filePath).map normalizeTerm).dedup
    let pathMatches := (pathTerms.filter fun term => decide (term ∈ terms.normal)).length
    let sourceWeight : S := min (sourcePriority chunk.filePath symbol.1) 1.0
    if sourceWeight < 0.5 then none
    else some (ranked.1, (symbol.2 * 10.0 + (pathMatches : S) * 2.0) * sourceWeight + ranked.2)

namespace SymbolIndex

/-- The results of `inferred_symbols` before they are sorted. -/
def inferredResults (index : SymbolIndex) (query : String) (chunks : List Chunk) (limit : Nat) :
    Option (List (Nat × S)) := do
  let terms := queryTerms query
  let symbols := (suggestedSymbols terms index.definitions).mergeSort suggestionUpTo
  let results ← (symbols.take (min limit 6)).mapM fun symbol => do
    let ranked ← index.rankSymbol symbol.1 chunks 1
    ranked.mapM (inferredResult terms chunks symbol)
  return results.flatten.reduceOption

def inferredSymbols (index : SymbolIndex) (query : String) (chunks : List Chunk) (limit : Nat) :
    Option (List (Nat × S)) := do
  let output ← index.inferredResults query chunks limit
  return (Turns.dedupByKey Prod.fst (output.mergeSort resultUpTo)).take limit

end SymbolIndex

end Scores

/-! ### What the index holds -/

/-- The positions of the definitions of a symbol. -/
def positionsOf (definitions : List Definition) (symbol : String) : List Nat :=
  (definitions.zipIdx.filter fun entry => entry.1.symbol = symbol).map Prod.snd

section Positions

variable {definitions : List Definition} {symbol : String} {position : Nat}

theorem mem_positionsOf : position ∈ positionsOf definitions symbol ↔
    ∃ definition, definitions[position]? = some definition ∧ definition.symbol = symbol := by
  unfold positionsOf
  simp only [mem_map, mem_filter, mem_zipIdx_iff_getElem?, decide_eq_true_eq, Prod.exists,
    exists_eq_right]

theorem positionsOf_concat (definition : Definition) :
    positionsOf (definitions ++ [definition]) symbol =
      positionsOf definitions symbol ++ if definition.symbol = symbol then [definitions.length] else [] := by
  unfold positionsOf
  rw [zipIdx_append, filter_append, map_append, Nat.zero_add, zipIdx_singleton]
  congr 1
  by_cases same : definition.symbol = symbol
  · rw [if_pos same, filter_singleton, decide_eq_true same]
    rfl
  · rw [if_neg same, filter_singleton, decide_eq_false same]
    rfl

theorem nodup_positionsOf : (positionsOf definitions symbol).Nodup := by
  have sublist : (positionsOf definitions symbol).Sublist (definitions.zipIdx.map Prod.snd) := filter_sublist.map _
  refine sublist.nodup ?_
  rw [zipIdx_map_snd]
  exact nodup_range'

theorem filterMap_positionsOf {β : Type} (f : Definition → Option β) :
    (positionsOf definitions symbol).filterMap (fun position => (definitions[position]?).bind f) =
      (definitions.filter fun definition => definition.symbol = symbol).filterMap f := by
  have read : ∀ entry ∈ definitions.zipIdx.filter fun entry => entry.1.symbol = symbol,
      (definitions[entry.2]?).bind f = f entry.1 := by
    intro entry listed
    rw [mem_zipIdx_iff_getElem?.mp (mem_of_mem_filter listed)]
    rfl
  have names : definitions.filter (fun definition => definition.symbol = symbol) =
      (definitions.zipIdx.filter fun entry => entry.1.symbol = symbol).map Prod.fst := by
    conv_lhs => rw [← zipIdx_map_fst 0 definitions, filter_map]
    rfl
  unfold positionsOf
  rw [filterMap_map, names, filterMap_map]
  exact filterMap_congr read

end Positions

/-- The definitions of the files, with their chunks counted over all files. -/
def located (chunkOffset : Nat) : List IndexedFile → List Definition
  | [] => []
  | file :: files =>
    file.definitions.map (IndexedDefinition.at chunkOffset) ++ located (chunkOffset + file.chunks.length) files

/-- The definitions of every file point at its own chunks. -/
def OwnChunks (files : List IndexedFile) : Prop :=
  ∀ file ∈ files, ∀ definition ∈ file.definitions, definition.chunk < file.chunks.length

instance (files : List IndexedFile) : Decidable (OwnChunks files) :=
  inferInstanceAs (Decidable (∀ file ∈ files, ∀ definition ∈ file.definitions, definition.chunk < file.chunks.length))

theorem located_inside {files : List IndexedFile} (own : OwnChunks files) :
    ∀ (chunkOffset : Nat), ∀ definition ∈ located chunkOffset files,
      definition.chunk < chunkOffset + (chunksOf files).length := by
  induction files with
  | nil => exact fun _ _ none => by cases none
  | cons file files ih =>
    intro chunkOffset definition listed
    have total : (chunksOf (file :: files)).length = file.chunks.length + (chunksOf files).length := by
      unfold chunksOf
      rw [flatMap_cons, length_append]
    rcases mem_append.mp listed with here | later
    · obtain ⟨indexed, member, rfl⟩ := mem_map.mp here
      have inside := own file mem_cons_self indexed member
      show chunkOffset + indexed.chunk < _
      omega
    · have inside := ih (fun file listed => own file (mem_cons_of_mem _ listed)) _ definition later
      omega

namespace SymbolIndex

/-- What the map of an index holds: of every symbol once the positions of its definitions. -/
structure Indexed (index : SymbolIndex) : Prop where
  keys : (index.definitionsBySymbol.map Prod.fst).Nodup
  positions : ∀ entry ∈ index.definitionsBySymbol, entry.2 = positionsOf index.definitions entry.1
  every : ∀ definition ∈ index.definitions, definition.symbol ∈ index.definitionsBySymbol.map Prod.fst

section Push

variable {entries : List (String × List Nat)} {symbol : String} {position : Nat}

theorem keys_pushEntry : (pushEntry symbol position entries).map Prod.fst =
    if symbol ∈ entries.map Prod.fst then entries.map Prod.fst else entries.map Prod.fst ++ [symbol] := by
  induction entries with
  | nil => rfl
  | cons entry entries ih =>
    unfold pushEntry
    by_cases same : entry.1 = symbol
    · rw [if_pos same, if_pos (by rw [← same]; exact mem_map_of_mem mem_cons_self)]
      rfl
    · have listed : symbol ∈ (entry :: entries).map Prod.fst ↔ symbol ∈ entries.map Prod.fst := by
        rw [map_cons, mem_cons, or_iff_right (Ne.symm same)]
      rw [if_neg same, map_cons, ih]
      simp only [listed]
      split <;> rfl

theorem positions_pushEntry {definitions : List Definition} {definition : Definition}
    (keys : (entries.map Prod.fst).Nodup) (positions : ∀ entry ∈ entries, entry.2 = positionsOf definitions entry.1)
    (fresh : definition.symbol ∉ entries.map Prod.fst → positionsOf definitions definition.symbol = []) :
    ∀ entry ∈ pushEntry definition.symbol definitions.length entries,
      entry.2 = positionsOf (definitions ++ [definition]) entry.1 := by
  induction entries with
  | nil =>
    intro entry listed
    cases mem_singleton.mp listed
    show [definitions.length] = positionsOf (definitions ++ [definition]) definition.symbol
    rw [positionsOf_concat, fresh not_mem_nil, if_pos rfl]
    rfl
  | cons first entries ih =>
    have apart := nodup_cons.mp keys
    have here := positions first mem_cons_self
    have later : ∀ entry ∈ entries, entry.2 = positionsOf definitions entry.1 :=
      fun entry listed => positions entry (mem_cons_of_mem _ listed)
    intro entry listed
    unfold pushEntry at listed
    split at listed
    · rename_i same
      rcases mem_cons.mp listed with rfl | listed
      · show first.2 ++ [definitions.length] = positionsOf (definitions ++ [definition]) first.1
        rw [positionsOf_concat, if_pos same.symm, here]
      · have other : definition.symbol ≠ entry.1 := by
          intro equal
          refine apart.1 ?_
          rw [same, equal]
          exact mem_map_of_mem listed
        rw [positionsOf_concat, if_neg other, append_nil]
        exact later entry listed
    · rename_i other
      rcases mem_cons.mp listed with rfl | listed
      · show first.2 = positionsOf (definitions ++ [definition]) first.1
        rw [positionsOf_concat, if_neg (Ne.symm other), append_nil]
        exact here
      · refine ih apart.2 later (fun missing => fresh fun listed => ?_) entry listed
        rcases mem_cons.mp listed with same | listed
        · exact other same.symm
        · exact missing listed

end Push

section Index

variable {index : SymbolIndex}

theorem Indexed.push (indexed : index.Indexed) (definition : Definition) : (index.push definition).Indexed where
  keys := by
    show ((pushEntry _ _ _).map Prod.fst).Nodup
    rw [keys_pushEntry]
    split
    · exact indexed.keys
    · rename_i missing
      refine nodup_append.mpr ⟨indexed.keys, nodup_singleton _, ?_⟩
      rintro symbol listed _ alone rfl
      cases mem_singleton.mp alone
      exact missing listed
  positions := by
    refine positions_pushEntry indexed.keys indexed.positions fun missing => ?_
    refine eq_nil_iff_forall_not_mem.mpr fun position listed => missing ?_
    obtain ⟨other, found, same⟩ := mem_positionsOf.mp listed
    rw [← same]
    exact indexed.every other (mem_of_getElem? found)
  every := by
    intro other listed
    show other.symbol ∈ (pushEntry _ _ _).map Prod.fst
    rw [keys_pushEntry]
    rcases mem_append.mp listed with listed | listed
    · split
      · exact indexed.every other listed
      · exact mem_append_left _ (indexed.every other listed)
    · cases mem_singleton.mp listed
      split
      · rename_i there
        exact there
      · exact mem_append_right _ (mem_singleton_self _)

theorem Indexed.perm {entries : List (String × List Nat)} (indexed : index.Indexed)
    (perm : entries.Perm index.definitionsBySymbol) : Indexed ⟨index.definitions, entries⟩ where
  keys := (perm.map Prod.fst).nodup_iff.mpr indexed.keys
  positions := fun entry listed => indexed.positions entry (perm.mem_iff.mp listed)
  every := fun definition listed => (perm.map Prod.fst).mem_iff.mpr (indexed.every definition listed)

theorem Indexed.foldl (indexed : index.Indexed) (definitions : List IndexedDefinition) (chunkOffset : Nat) :
    let pushed := definitions.foldl (fun index indexed => index.push (indexed.at chunkOffset)) index
    pushed.Indexed ∧ pushed.definitions = index.definitions ++ definitions.map (IndexedDefinition.at chunkOffset) := by
  induction definitions generalizing index with
  | nil => exact ⟨indexed, (append_nil _).symm⟩
  | cons definition definitions ih =>
    obtain ⟨all, listed⟩ := ih (indexed.push (definition.at chunkOffset))
    refine ⟨all, listed.trans ?_⟩
    show (index.definitions ++ [definition.at chunkOffset]) ++ _ = _
    rw [append_assoc]
    rfl

theorem Indexed.addFiles (indexed : index.Indexed) (files : List IndexedFile) (chunkOffset : Nat) :
    (index.addFiles chunkOffset files).Indexed ∧
      (index.addFiles chunkOffset files).definitions = index.definitions ++ located chunkOffset files := by
  induction files generalizing index chunkOffset with
  | nil => exact ⟨indexed, (append_nil _).symm⟩
  | cons file files ih =>
    obtain ⟨pushed, listed⟩ := indexed.foldl file.definitions chunkOffset
    obtain ⟨all, rest⟩ := ih pushed (chunkOffset + file.chunks.length)
    refine ⟨all, rest.trans ?_⟩
    rw [listed, append_assoc]
    rfl

theorem indexed_fromFiles (files : List IndexedFile) : (fromFiles files).Indexed := by
  have empty : Indexed ⟨[], []⟩ := ⟨.nil, fun _ none => (by cases none), fun _ none => by cases none⟩
  exact (empty.addFiles files 0).1

theorem definitions_fromFiles (files : List IndexedFile) : (fromFiles files).definitions = located 0 files := by
  have empty : Indexed ⟨[], []⟩ := ⟨.nil, fun _ none => (by cases none), fun _ none => by cases none⟩
  exact (empty.addFiles files 0).2

theorem Indexed.lookup (indexed : index.Indexed) (symbol : String) :
    (index.definitionsBySymbol.lookup symbol).getD [] = positionsOf index.definitions symbol := by
  cases found : index.definitionsBySymbol.lookup symbol with
  | some positions =>
    obtain ⟨before, after, entries, -⟩ := lookup_eq_some_iff.mp found
    refine indexed.positions (symbol, positions) ?_
    rw [entries]
    exact mem_append_right _ mem_cons_self
  | none =>
    refine (eq_nil_iff_forall_not_mem.mpr fun position listed => ?_).symm
    obtain ⟨definition, there, rfl⟩ := mem_positionsOf.mp listed
    obtain ⟨entry, member, same⟩ := mem_map.mp (indexed.every definition (mem_of_getElem? there))
    have different := lookup_eq_none_iff.mp found entry member
    rw [same] at different
    simp at different

/-! ### Validation -/

theorem visit_run {definitions : List Definition} {pairs : List (String × Nat)} {seen : List Bool}
    (named : ∀ pair ∈ pairs, pair.2 ∈ positionsOf definitions pair.1) (apart : (pairs.map Prod.snd).Nodup)
    (whole : seen.length = definitions.length) (unseen : ∀ pair ∈ pairs, seen.getD pair.2 false = false) :
    ∃ after, pairs.foldlM (visit definitions) seen = some after ∧ after.length = definitions.length ∧
      ∀ position, after.getD position false = true ↔ seen.getD position false = true ∨ position ∈ pairs.map Prod.snd := by
  induction pairs generalizing seen with
  | nil => exact ⟨seen, rfl, whole, fun position => by simp⟩
  | cons pair pairs ih =>
    obtain ⟨definition, found, same⟩ := mem_positionsOf.mp (named pair mem_cons_self)
    have inside : pair.2 < seen.length := by
      rw [whole]
      exact (List.getElem?_eq_some_iff.mp found).1
    have visited : visit definitions seen pair = some (seen.set pair.2 true) := by
      unfold visit
      rw [found]
      have fresh := unseen pair List.mem_cons_self
      simp only [same, fresh, ne_eq, not_true_eq_false, Bool.false_eq_true, or_self, if_false]
    have marked : ∀ position, (seen.set pair.2 true).getD position false = true ↔
        seen.getD position false = true ∨ position = pair.2 := by
      intro position
      simp only [getD_eq_getElem?_getD, getElem?_set]
      by_cases here : pair.2 = position
      · rw [if_pos here, if_pos inside]
        exact iff_of_true rfl (.inr here.symm)
      · rw [if_neg here, or_iff_left (Ne.symm here)]
    have different := nodup_cons.mp apart
    have still : ∀ other ∈ pairs, (seen.set pair.2 true).getD other.2 false = false := by
      intro other listed
      rw [Bool.eq_false_iff, ne_eq, marked, not_or, unseen other (mem_cons_of_mem _ listed)]
      refine ⟨Bool.false_ne_true, fun equal => different.1 ?_⟩
      rw [← equal]
      exact mem_map_of_mem listed
    obtain ⟨after, ran, long, all⟩ := ih (fun other listed => named other (mem_cons_of_mem _ listed)) different.2
      ((length_set ..).trans whole) still
    refine ⟨after, ?_, long, fun position => ?_⟩
    · rw [foldlM_cons, visited]
      exact ran
    · rw [all, marked, map_cons, mem_cons, or_assoc]

theorem Indexed.validate (indexed : index.Indexed) {chunks : Nat}
    (inside : ∀ definition ∈ index.definitions, definition.chunk < chunks) : index.validate chunks = true := by
  have bounded : ¬ (index.definitions.any fun definition => chunks ≤ definition.chunk) = true := by
    simpa using inside
  let pairs := index.definitionsBySymbol.flatMap fun entry => entry.2.map fun position => (entry.1, position)
  have named : ∀ pair ∈ pairs, pair.2 ∈ positionsOf index.definitions pair.1 := by
    intro pair listed
    obtain ⟨entry, member, listed⟩ := mem_flatMap.mp listed
    obtain ⟨position, there, rfl⟩ := mem_map.mp listed
    rwa [indexed.positions entry member] at there
  have positions : pairs.map Prod.snd = index.definitionsBySymbol.flatMap Prod.snd := by
    rw [map_flatMap]
    refine flatMap_congr fun entry _ => ?_
    rw [map_map]
    exact map_id _
  have apart : (pairs.map Prod.snd).Nodup := by
    rw [positions, nodup_flatMap]
    refine ⟨fun entry member => ?_, ?_⟩
    · rw [indexed.positions entry member]
      exact nodup_positionsOf
    · refine (pairwise_map.mp indexed.keys).imp_of_mem fun {first second} here there different => ?_
      intro position left right
      rw [indexed.positions _ here] at left
      rw [indexed.positions _ there] at right
      obtain ⟨definition, found, same⟩ := mem_positionsOf.mp left
      obtain ⟨other, again, equal⟩ := mem_positionsOf.mp right
      cases found.symm.trans again
      exact different (same.symm.trans equal)
  have unseen : ∀ pair ∈ pairs, (List.replicate index.definitions.length false).getD pair.2 false = false := by
    intro pair _
    rw [getD_eq_getElem?_getD, getElem?_replicate]
    split <;> rfl
  obtain ⟨after, ran, long, all⟩ := visit_run named apart length_replicate unseen
  unfold SymbolIndex.validate
  rw [if_neg bounded]
  show (match pairs.foldlM (visit index.definitions) _ with | none => false | some seen => seen.all fun value => value) = true
  rw [ran]
  refine all_eq_true.mpr fun value listed => ?_
  obtain ⟨position, short, rfl⟩ := mem_iff_getElem.mp listed
  have short' : position < index.definitions.length := long ▸ short
  have entry := indexed.every _ (getElem_mem short')
  obtain ⟨entry, member, same⟩ := mem_map.mp entry
  have there : position ∈ pairs.map Prod.snd := by
    rw [positions]
    refine mem_flatMap.mpr ⟨entry, member, ?_⟩
    rw [indexed.positions entry member]
    exact mem_positionsOf.mpr ⟨_, getElem?_eq_getElem short', same.symm⟩
  have seen := (all position).mpr (.inr there)
  rwa [getD_eq_getElem?_getD, getElem?_eq_getElem short] at seen

end Index

end SymbolIndex

/-! ### What the searches answer -/

section Search

variable {S : Type} [LinearOrder S]

theorem then_isLE {α : Type} [LinearOrder α] (left right : α) (later : Ordering) :
    ((compare left right).then later).isLE = true ↔ left < right ∨ left = right ∧ later.isLE = true := by
  rcases lt_trichotomy left right with less | rfl | greater
  · rw [compare_lt_iff_lt.mpr less]
    simp [less]
  · rw [compare_eq_iff_eq.mpr rfl]
    simp
  · rw [compare_gt_iff_gt.mpr greater]
    simp [greater.not_gt, greater.ne']

/-- What a stable sort needs of a comparison, and that a result is not before one with a higher score. -/
structure Falling (upTo : Nat × S → Nat × S → Bool) : Prop where
  trans : ∀ first second third, upTo first second → upTo second third → upTo first third
  total : ∀ first second, upTo first second || upTo second first
  falls : ∀ first second, upTo first second → second.2 ≤ first.2

theorem falling_of_key {κ : Type} [LinearOrder κ] {upTo : Nat × S → Nat × S → Bool} (key : Nat × S → κ)
    (compares : ∀ first second, upTo first second = true ↔
      second.2 < first.2 ∨ second.2 = first.2 ∧ key first ≤ key second) : Falling upTo where
  trans := by
    intro first second third front back
    rcases (compares _ _).mp front with less | ⟨same, le⟩
    · rcases (compares _ _).mp back with below | ⟨equal, -⟩
      · exact (compares _ _).mpr (.inl (lt_trans below less))
      · exact (compares _ _).mpr (.inl (equal ▸ less))
    · rcases (compares _ _).mp back with below | ⟨equal, below⟩
      · exact (compares _ _).mpr (.inl (same ▸ below))
      · exact (compares _ _).mpr (.inr ⟨equal.trans same, le_trans le below⟩)
  total := by
    intro first second
    rw [Bool.or_eq_true, compares, compares]
    rcases lt_trichotomy first.2 second.2 with less | same | greater
    · exact .inr (.inl less)
    · rcases le_total (key first) (key second) with le | le
      · exact .inl (.inr ⟨same.symm, le⟩)
      · exact .inr (.inr ⟨same, le⟩)
    · exact .inl (.inl greater)
  falls := by
    intro first second front
    rcases (compares _ _).mp front with less | ⟨same, -⟩
    · exact le_of_lt less
    · exact le_of_eq same

theorem falling_ranksUpTo (chunks : List Chunk) : Falling (ranksUpTo (S := S) chunks) := by
  refine falling_of_key (fun result => toLex (pathAt chunks result.1, OrderDual.toDual (lineAt chunks result.1))) ?_
  intro first second
  unfold ranksUpTo
  rw [Ordering.then_assoc, then_isLE, then_isLE, Prod.Lex.le_iff, Ordering.isLE_iff_ne_gt, compare_gt_iff_gt, not_lt]
  rfl

theorem falling_resultUpTo : Falling (resultUpTo (S := S)) := by
  refine falling_of_key Prod.fst fun first second => ?_
  unfold resultUpTo
  rw [then_isLE, Ordering.isLE_iff_ne_gt, compare_gt_iff_gt, not_lt]

/-- The results of a search: chunks that there are, not more than the limit, the best ones first, and each of them once. -/
structure BestFirst (chunks : List Chunk) (limit : Nat) (results : List (Nat × S)) : Prop where
  inside : ∀ result ∈ results, result.1 < chunks.length
  short : results.length ≤ limit
  falling : results.Pairwise fun first second => second.2 ≤ first.2
  once : (results.map Prod.fst).Nodup

/-- In the order of a comparison, a chunk that takes a turn again does so behind the first turns: between two results of it
there is one of another chunk. -/
def OneTurn (upTo : Nat × S → Nat × S → Bool) (limit : Nat) (results : List (Nat × S)) : Prop :=
  ∀ result ∈ results.zipIdx, Turns.Returns (Prod.fst ∘ Prod.fst) (Turns.Ranks upTo) results.zipIdx result →
    limit ≤ Turns.turnsBefore (Prod.fst ∘ Prod.fst) (Turns.Ranks upTo) results.zipIdx result

theorem oneTurn_of_nodup {upTo : Nat × S → Nat × S → Bool} {results : List (Nat × S)} (once : (results.map Prod.fst).Nodup)
    (limit : Nat) : OneTurn upTo limit results := by
  rintro ⟨result, position⟩ listed ⟨-, ⟨earlier, before⟩, there, ranks, same⟩
  have first := mem_zipIdx_iff_getElem?.mp there
  have second := mem_zipIdx_iff_getElem?.mp listed
  have equal : before = position := by
    refine (getElem?_inj ?_ once).mp ?_
    · rw [List.length_map]
      exact (List.getElem?_eq_some_iff.mp first).1
    · rw [List.getElem?_map, List.getElem?_map, first, second]
      exact congrArg some same
  subst equal
  cases first.symm.trans second
  exact absurd (ranks.2 ranks.1) (Nat.lt_irrefl _)

variable {upTo : Nat × S → Nat × S → Bool} {chunks : List Chunk} {results : List (Nat × S)}

theorem bestFirst_iff (falling : Falling upTo) (inside : ∀ result ∈ results, result.1 < chunks.length) (limit : Nat) :
    BestFirst chunks limit ((Turns.dedupByKey Prod.fst (results.mergeSort upTo)).take limit) ↔
      OneTurn upTo limit results := by
  have turns : (((Turns.dedupByKey Prod.fst (results.mergeSort upTo)).map Prod.fst).take limit).Nodup ↔
      OneTurn upTo limit results := Turns.nodup_take_sort_iff falling.trans falling.total results limit
  have sublist : ((Turns.dedupByKey Prod.fst (results.mergeSort upTo)).take limit).Sublist (results.mergeSort upTo) :=
    (take_sublist _ _).trans (Turns.sublist_dedupByKey _)
  constructor
  · intro best
    refine turns.mp ?_
    rw [← map_take]
    exact best.once
  · intro once
    refine ⟨fun result listed => ?_, length_take_le _ _, ?_, ?_⟩
    · exact inside result (mem_mergeSort.mp (sublist.subset listed))
    · have sorted := pairwise_mergeSort falling.trans falling.total results
      exact (sorted.imp fun {first second} => falling.falls first second).sublist sublist
    · rw [map_take]
      exact turns.mpr once

theorem mem_of_short {limit : Nat}
    (short : ((Turns.dedupByKey Prod.fst (results.mergeSort upTo)).take limit).length < limit)
    {result : Nat × S} (listed : result ∈ results) :
    result.1 ∈ ((Turns.dedupByKey Prod.fst (results.mergeSort upTo)).take limit).map Prod.fst := by
  rw [length_take] at short
  rw [take_of_length_le (by omega), Turns.mem_dedupByKey]
  exact ⟨result, mem_mergeSort.mpr listed, rfl⟩

end Search

section Searches

variable {S : Type} [LinearOrder S] [Add S] [Sub S] [Mul S] [Div S] [NatCast S] [OfScientific S]

/-- The results for the definitions of a symbol. -/
def symbolResults (chunks : List Chunk) (definitions : List Definition) (symbol : String) : List (Nat × S) :=
  (definitions.filter fun definition => definition.symbol = symbol).filterMap (definitionScore chunks symbol)

/-- The results for the best definitions of the symbols that a query suggests. -/
def suggestedResults (files : List IndexedFile) (query : String) (limit : Nat) : List (Nat × S) :=
  let terms := queryTerms query
  let symbols : List (String × S) := (suggestedSymbols terms (located 0 files)).mergeSort suggestionUpTo
  (symbols.take (min limit 6)).filterMap fun symbol =>
    ((symbolResults (chunksOf files) (located 0 files) symbol.1).mergeSort (ranksUpTo (chunksOf files))).head?.bind
      fun ranked => (inferredResult terms (chunksOf files) symbol ranked).join

theorem mapM_of_isSome {α β : Type} {f : α → Option β} {list : List α}
    (gives : ∀ element ∈ list, ∃ value, f element = some value) : list.mapM f = some (list.filterMap f) := by
  induction list with
  | nil => rfl
  | cons element list ih =>
    obtain ⟨value, here⟩ := gives element mem_cons_self
    rw [mapM_cons, here, ih fun other listed => gives other (mem_cons_of_mem _ listed),
      filterMap_cons_some here]
    rfl

variable {files : List IndexedFile}

theorem OwnChunks.inside (own : OwnChunks files) :
    ∀ definition ∈ located 0 files, definition.chunk < (chunksOf files).length := by
  intro definition listed
  have inside := located_inside own 0 definition listed
  rwa [Nat.zero_add] at inside

theorem definitionScore_inside {chunks : List Chunk} {definition : Definition} (inside : definition.chunk < chunks.length)
    (symbol : String) : ∃ score : S, definitionScore chunks symbol definition = some (definition.chunk, score) := by
  unfold definitionScore
  rw [getElem?_eq_getElem inside]
  exact ⟨_, rfl⟩

theorem symbolResults_inside (own : OwnChunks files) (symbol : String) :
    ∀ result ∈ (symbolResults (chunksOf files) (located 0 files) symbol : List (Nat × S)),
      result.1 < (chunksOf files).length := by
  intro result listed
  obtain ⟨definition, member, scored⟩ := mem_filterMap.mp listed
  have inside := own.inside definition (mem_of_mem_filter member)
  obtain ⟨score, scores⟩ := definitionScore_inside (S := S) inside symbol
  cases scores.symm.trans scored
  exact inside

theorem rankSymbol_fromFiles (own : OwnChunks files) (symbol : String) (limit : Nat) :
    (SymbolIndex.fromFiles files).rankSymbol symbol (chunksOf files) limit =
      some ((Turns.dedupByKey Prod.fst ((symbolResults (S := S) (chunksOf files) (located 0 files) symbol).mergeSort
        (ranksUpTo (chunksOf files)))).take limit) := by
  have indexed := SymbolIndex.indexed_fromFiles files
  have positions := indexed.lookup symbol
  have listed := SymbolIndex.definitions_fromFiles files
  rw [listed] at positions
  have read : (positionsOf (located 0 files) symbol).mapM
      (fun position => ((located 0 files)[position]?).bind (definitionScore (S := S) (chunksOf files) symbol)) =
        some (symbolResults (chunksOf files) (located 0 files) symbol) := by
    rw [mapM_of_isSome, filterMap_positionsOf]
    · rfl
    · intro position member
      obtain ⟨definition, found, -⟩ := mem_positionsOf.mp member
      obtain ⟨score, scores⟩ := definitionScore_inside (S := S) (own.inside definition (mem_of_getElem? found)) symbol
      exact ⟨_, by rw [found]; exact scores⟩
  unfold SymbolIndex.rankSymbol
  rw [positions, listed]
  show Option.bind ((positionsOf _ _).mapM _) _ = _
  rw [read]
  rfl

theorem rankSymbol_one (own : OwnChunks files) (symbol : String) :
    (SymbolIndex.fromFiles files).rankSymbol symbol (chunksOf files) 1 =
      some ((symbolResults (S := S) (chunksOf files) (located 0 files) symbol).mergeSort
        (ranksUpTo (chunksOf files))).head?.toList := by
  rw [rankSymbol_fromFiles own, Turns.take_one_dedupByKey]

theorem flatten_reduceOption {α β : Type} (f : α → Option (Option β)) (list : List α) :
    (list.map fun element => (f element).toList).flatten.reduceOption = list.filterMap fun element => (f element).join := by
  induction list with
  | nil => rfl
  | cons element list ih =>
    rw [map_cons, flatten_cons, reduceOption_append, ih]
    cases here : f element with
    | none => rw [filterMap_cons_none (by rw [here]; rfl)]; rfl
    | some value =>
      cases value with
      | none => rw [filterMap_cons_none (by rw [here]; rfl)]; rfl
      | some value => rw [filterMap_cons_some (by rw [here]; rfl)]; rfl

theorem inferredResults_fromFiles (own : OwnChunks files) (query : String) (limit : Nat) :
    (SymbolIndex.fromFiles files).inferredResults query (chunksOf files) limit =
      some (suggestedResults (S := S) files query limit) := by
  let terms := queryTerms query
  let symbols : List (String × S) := ((suggestedSymbols terms (located 0 files)).mergeSort suggestionUpTo).take (min limit 6)
  let best (symbol : String × S) : Option (Nat × S) :=
    ((symbolResults (chunksOf files) (located 0 files) symbol.1).mergeSort (ranksUpTo (chunksOf files))).head?
  let result (symbol : String × S) := (best symbol).bind (inferredResult terms (chunksOf files) symbol)
  have each : ∀ symbol : String × S, (((SymbolIndex.fromFiles files).rankSymbol symbol.1 (chunksOf files) 1).bind
      fun ranked => ranked.mapM (inferredResult terms (chunksOf files) symbol)) = some (result symbol).toList := by
    intro symbol
    rw [rankSymbol_one own]
    show (best symbol).toList.mapM _ = _
    cases top : best symbol with
    | none => simp only [result, top]; rfl
    | some ranked =>
      have listed := mem_mergeSort.mp (mem_of_head? top)
      have inside := symbolResults_inside own symbol.1 ranked listed
      obtain ⟨value, found⟩ : ∃ value, inferredResult terms (chunksOf files) symbol ranked = some value := by
        unfold inferredResult
        rw [getElem?_eq_getElem inside]
        exact ⟨_, rfl⟩
      simp only [result, top, Option.toList_some, Option.bind_some, mapM_cons, mapM_nil, found]
      rfl
  have whole : (symbols.mapM fun symbol => ((SymbolIndex.fromFiles files).rankSymbol symbol.1 (chunksOf files) 1).bind
      fun ranked => ranked.mapM (inferredResult terms (chunksOf files) symbol)) =
        some (symbols.map fun symbol => (result symbol).toList) := by
    rw [mapM_of_isSome fun symbol _ => ⟨_, each symbol⟩, filterMap_congr fun symbol _ => each symbol]
    exact congrArg some (congrFun filterMap_eq_map' symbols)
  calc (SymbolIndex.fromFiles files).inferredResults query (chunksOf files) limit
      = (symbols.mapM fun symbol => ((SymbolIndex.fromFiles files).rankSymbol symbol.1 (chunksOf files) 1).bind
          fun ranked => ranked.mapM (inferredResult terms (chunksOf files) symbol)).bind
            fun results => some results.flatten.reduceOption := by
        unfold SymbolIndex.inferredResults
        rw [SymbolIndex.definitions_fromFiles]
        rfl
    _ = some (symbols.map fun symbol => (result symbol).toList).flatten.reduceOption := by rw [whole]; rfl
    _ = some (symbols.filterMap fun symbol => (result symbol).join) := by rw [flatten_reduceOption]
    _ = some (suggestedResults files query limit) := by
        refine congrArg some (filterMap_congr fun symbol _ => ?_)
        show ((best symbol).bind _).join = (best symbol).bind _
        cases best symbol with
        | none => rfl
        | some ranked => rfl

/-- Both searches answer, with the best results first, and the exact one with every chunk that defines the symbol unless
the limit cuts it off; the index is accepted, in whatever order its map is. -/
structure SearchesSymbols (S : Type) [LinearOrder S] [Add S] [Sub S] [Mul S] [Div S] [NatCast S] [OfScientific S]
    (files : List IndexedFile) (query : String) (limit : Nat) : Prop where
  accepted : ∀ entries, entries.Perm (SymbolIndex.fromFiles files).definitionsBySymbol →
    SymbolIndex.validate ⟨(SymbolIndex.fromFiles files).definitions, entries⟩ (chunksOf files).length = true
  exact : ∃ results : List (Nat × S), (SymbolIndex.fromFiles files).exactSymbol query (chunksOf files) limit = some results ∧
    BestFirst (chunksOf files) limit results ∧
    (results.length < limit → ∀ definition ∈ located 0 files, definition.symbol = SymbolIndex.lastSegment query →
      definition.chunk ∈ results.map Prod.fst)
  inferred : ∃ results : List (Nat × S),
    (SymbolIndex.fromFiles files).inferredSymbols query (chunksOf files) limit = some results ∧
    BestFirst (chunksOf files) limit results

theorem suggestedResults_inside (own : OwnChunks files) (query : String) (limit : Nat) :
    ∀ result ∈ (suggestedResults files query limit : List (Nat × S)), result.1 < (chunksOf files).length := by
  intro result listed
  obtain ⟨symbol, -, gives⟩ := mem_filterMap.mp listed
  obtain ⟨ranked, top, joined⟩ := Option.bind_eq_some_iff.mp gives
  have inside := symbolResults_inside own symbol.1 ranked (mem_mergeSort.mp (mem_of_head? top))
  unfold inferredResult at joined
  rw [getElem?_eq_getElem inside] at joined
  simp only [Option.map_some, Option.join_some] at joined
  split at joined
  · cases joined
  · cases joined
    exact inside

/-- **Symbol search** answers as it should exactly when no chunk takes a turn again among the first ones: neither in the
ranking of the definitions of the symbol, nor in that of the symbols which the query suggests. -/
theorem symbol_search_iff (own : OwnChunks files) (query : String) (limit : Nat) :
    SearchesSymbols S files query limit ↔
      OneTurn (ranksUpTo (chunksOf files)) limit
        (symbolResults (S := S) (chunksOf files) (located 0 files) (SymbolIndex.lastSegment query)) ∧
      OneTurn resultUpTo limit (suggestedResults (S := S) files query limit) := by
  have exact := rankSymbol_fromFiles (S := S) own (SymbolIndex.lastSegment query) limit
  have inferred : (SymbolIndex.fromFiles files).inferredSymbols query (chunksOf files) limit =
      some ((Turns.dedupByKey Prod.fst ((suggestedResults (S := S) files query limit).mergeSort resultUpTo)).take limit) := by
    unfold SymbolIndex.inferredSymbols
    rw [inferredResults_fromFiles own]
    rfl
  have ranking := bestFirst_iff (falling_ranksUpTo (S := S) (chunksOf files))
    (symbolResults_inside own (SymbolIndex.lastSegment query)) limit
  have suggesting := bestFirst_iff (falling_resultUpTo (S := S)) (suggestedResults_inside own query limit) limit
  constructor
  · rintro ⟨-, ⟨_, ran, best, -⟩, ⟨_, ran', best'⟩⟩
    cases exact.symm.trans ran
    cases inferred.symm.trans ran'
    exact ⟨ranking.mp best, suggesting.mp best'⟩
  · rintro ⟨one, one'⟩
    refine ⟨fun entries perm => ?_, ⟨_, exact, ranking.mpr one, ?_⟩, ⟨_, inferred, suggesting.mpr one'⟩⟩
    · refine ((SymbolIndex.indexed_fromFiles files).perm perm).validate ?_
      rw [SymbolIndex.definitions_fromFiles]
      exact own.inside
    · intro short definition listed same
      obtain ⟨score, scores⟩ := definitionScore_inside (S := S) (own.inside definition listed) (SymbolIndex.lastSegment query)
      refine mem_of_short short (mem_filterMap.mpr ⟨definition, ?_, scores⟩)
      exact mem_filter.mpr ⟨listed, decide_eq_true same⟩

end Searches

/-! ### A chunk that defines a symbol twice -/

/-- A file of one chunk. -/
def oneChunk (path content : String) (endLine : Nat) (definitions : List IndexedDefinition) : IndexedFile where
  path := path
  stamp := { modifiedNs := 1, size := Utf8.size content.toList }
  contentType := .code
  chunks := [{ filePath := path, startLine := 1, endLine, language := some "rust", content }]
  definitions := definitions
  lexicalDocuments := []
  vectors := []

/-- A chunk has a function with a body and one without; another chunk, of a better source, has one without. -/
def runFiles : List IndexedFile :=
  [oneChunk "a.rs" "fn run() \x7b\x7d\n\ntrait Task \x7b\n    fn run();\n\x7d\n" 5
      [⟨"run", 0, true⟩, ⟨"Task", 0, true⟩, ⟨"run", 0, false⟩],
    oneChunk "x/src/b.rs" "trait Job \x7b\n    fn run();\n\x7d\n" 3 [⟨"Job", 0, true⟩, ⟨"run", 0, false⟩]]

theorem exactSymbol_runFiles : (SymbolIndex.fromFiles runFiles).exactSymbol "run" (chunksOf runFiles) 3 =
    some ([(0, 1.5), (1, 1.35), (0, 1)] : List (Nat × ℚ)) := by
  let unsorted : List (Nat × ℚ) := [(0, 1.5), (0, 1), (1, 1.35)]
  let ranking : List (Nat × ℚ) := [(0, 1.5), (1, 1.35), (0, 1)]
  have own : OwnChunks runFiles := by decide
  have segment : SymbolIndex.lastSegment "run" = "run" := by decide +kernel
  have results : symbolResults (chunksOf runFiles) (located 0 runFiles) "run" = unsorted := by decide +kernel
  have falling := falling_ranksUpTo (S := ℚ) (chunksOf runFiles)
  have sorted : unsorted.mergeSort (ranksUpTo (chunksOf runFiles)) = ranking := by
    have strict : ∀ first ∈ unsorted, ∀ second ∈ ranking, ranksUpTo (chunksOf runFiles) first second →
        ranksUpTo (chunksOf runFiles) second first → first = second := by
      decide +kernel
    refine List.Perm.eq_of_pairwise (fun first second here there => strict first (mem_mergeSort.mp here) second there)
      (pairwise_mergeSort falling.trans falling.total _) ?_
      ((mergeSort_perm unsorted _).trans (.cons _ (.swap _ _ _)))
    decide +kernel
  unfold SymbolIndex.exactSymbol
  rw [segment, rankSymbol_fromFiles own, results, sorted]
  rfl

theorem symbol_search_repeats : ¬ SearchesSymbols ℚ runFiles "run" 3 := by
  rintro ⟨-, ⟨results, ran, best, -⟩, -⟩
  cases exactSymbol_runFiles.symm.trans ran
  exact absurd best.once (by decide)

/-- Two chunks with a definition each. -/
def allFiles : List IndexedFile :=
  [oneChunk "a.rs" "fn all() \x7b\x7d\n" 1 [⟨"all", 0, true⟩], oneChunk "b.rs" "fn all() \x7b\x7d\n" 1 [⟨"all", 0, true⟩]]

theorem symbol_search_sample : OwnChunks allFiles ∧ SearchesSymbols ℚ allFiles "all" 3 := by
  have own : OwnChunks allFiles := by decide
  refine ⟨own, (symbol_search_iff own "all" 3).mpr ⟨oneTurn_of_nodup ?_ 3, oneTurn_of_nodup ?_ 3⟩⟩
  · decide +kernel
  · have none : (suggestedSymbols (queryTerms "all") (located 0 allFiles) : List (String × ℚ)) = [] := by decide +kernel
    simp only [suggestedResults, none, mergeSort_nil, take_nil, filterMap_nil, map_nil]
    exact .nil

end Byok.Semble
