/-
**Spilled tool results and archives.** `server/src/model/tool_result_spill.rs`.

The full text of a tool result that was cut, and the messages that a compaction took out of the history, are kept as files.
A file is named after what refers to it, and the maintenance deletes the files that nothing refers to, and the oldest ones of
a directory that is over its ceilings.

* `spillFileName`, `archiveFileName` — the names, with the functions that read the reference off them.
* `archiveBody` — the newest messages that fit.
* `pruneDirectory` — the maintenance of a directory.
-/

import Byok.Library.Hex
import Byok.Model.Message
import Byok.Model.Text

namespace Byok.Spill

open Library List

/-! ### Names -/

def asBytes (text : String) : List UInt8 := text.toByteArray.data.toList

def fromUtf8 (bytes : List UInt8) : Option String := String.fromUTF8? ⟨bytes.toArray⟩

def fnv1a (bytes : List UInt8) : UInt32 :=
  bytes.foldl (fun hash byte => (hash ^^^ byte.toUInt32) * 0x01000193) 0x811c9dc5

/-- `{hash:08x}`. -/
def paddedHex (hash : UInt32) : List Char :=
  [28, 24, 20, 16, 12, 8, 4, 0].map fun shift => Hex.digit (hash.toNat / 2 ^ shift % 16)

def fileNamePart : Nat := 40

def sanitize (value : String) : List Char :=
  let cleaned := (value.toList.map fun character =>
    if Hex.alphanumeric character ∨ character = '-' ∨ character = '_' then character else '_').take fileNamePart
  if cleaned = [] then "result".toList else cleaned

def spillFileName (name callId : String) : String :=
  String.ofList (paddedHex (fnv1a (asBytes (name ++ "\x00" ++ callId))) ++ '-' :: Hex.encode (asBytes callId) ++
    '-' :: sanitize name ++ ".txt".toList)

def archiveFileName (conversationId runId : String) (stamp : Nat) : String :=
  String.ofList (Hex.encode (asBytes conversationId) ++ '-' :: (toString stamp).toList ++
    '-' :: paddedHex (fnv1a (asBytes (conversationId ++ "\x00" ++ runId))) ++ ".jsonl".toList)

def stripSuffix (text suffix : List Char) : Option (List Char) :=
  if suffix.isSuffixOf text then some (text.take (text.length - suffix.length)) else none

def splitOnce (mark : Char) : List Char → Option (List Char × List Char)
  | [] => none
  | character :: rest =>
    if character = mark then some ([], rest)
    else (splitOnce mark rest).map fun parts => (character :: parts.1, parts.2)

def spillCallId (fileName : String) : Option String := do
  let rest ← stripSuffix fileName.toList ".txt".toList
  let (hash, rest) ← splitOnce '-' rest
  if Utf8.size hash ≠ 8 ∨ ¬ hash.all (Hex.value · |>.isSome) then none
  let (encoded, _) ← splitOnce '-' rest
  fromUtf8 (← Hex.decode encoded)

def archiveConversationId (fileName : String) : Option String := do
  let rest ← stripSuffix fileName.toList ".jsonl".toList
  let (encoded, _) ← splitOnce '-' rest
  fromUtf8 (← Hex.decode encoded)

/-! ### Archives -/

def maxArchiveBytes : Nat := 8 * 1024 * 1024

/-- The loop of `archive_body` over the messages, the newest first. `toJson` is `serde_json::to_string`. -/
def archiveLines (toJson : CanonicalMessage → Option String) : List CanonicalMessage → Nat → Option (List String)
  | [], _ => some []
  | message :: older, bytes => do
    let line ← toJson message
    let needed := strLength line + 1
    if maxArchiveBytes < bytes + needed then some []
    else
      let lines ← archiveLines toJson older (bytes + needed)
      some (line :: lines)

/-- The lines with their line breaks. -/
def archiveText (lines : List String) : String := lines.foldl (fun body line => body ++ line ++ "\n") ""

def archiveBody (toJson : CanonicalMessage → Option String) (messages : List CanonicalMessage) : Option String := do
  let lines ← archiveLines toJson messages.reverse 0
  if lines = [] then none else some (archiveText lines.reverse)

/-! ### The maintenance of a directory -/

/-- `GRACE`, in nanoseconds. -/
def grace : Nat := 60 * 60 * 10 ^ 9

/-- `RETENTION`, in nanoseconds. -/
def retention : Nat := 7 * 24 * 60 * 60 * 10 ^ 9

def maxDirectoryBytes : Nat := 512 * 1024 * 1024

def spillMaxFiles : Nat := 2048

def archiveMaxFiles : Nat := 256

/-- `std::fs::Metadata`. There may be no time of the last change. -/
structure Metadata where
  isFile : Bool
  modified : Option Nat
  len : Nat
deriving DecidableEq, Repr

/-- An entry of a directory, with the metadata if they can be read. -/
structure DirectoryEntry where
  name : String
  path : String
  metadata : Option Metadata
deriving DecidableEq, Repr

/-- A file of `prune_directory`. -/
structure PruneFile where
  modified : Nat
  len : Nat
  path : String
  keep : Bool
deriving DecidableEq, Repr

/-- The file of an entry, and whether it stays: while it is referred to, for the time of grace when nothing refers to it any
more, and for the time of retention when its name says nothing. -/
def pruneFile (now : Nat) (reference : String → Option Bool) (entry : DirectoryEntry) : Option PruneFile := do
  let metadata ← entry.metadata.filter (·.isFile)
  let modified ← metadata.modified
  let age := now - modified
  let keep := match reference entry.name with
    | some true => true
    | some false => decide (age ≤ grace)
    | none => decide (age ≤ retention)
  some ⟨modified, metadata.len, entry.path, keep⟩

/-- Whether so many files of so many bytes are over a ceiling. -/
def exceeds (ceiling count bytes : Nat) : Bool := ceiling < count || maxDirectoryBytes < bytes

/-- The loop that removes the oldest files: those it calls `remove_file` for, and how many calls went well. -/
def pruneLoop (ceiling : Nat) (removeFile : String → Bool) : List PruneFile → Nat → List PruneFile × Nat
  | [], _ => ([], 0)
  | file :: rest, bytes =>
    if exceeds ceiling (file :: rest).length bytes then
      if removeFile file.path then
        let (attempted, removed) := pruneLoop ceiling removeFile rest (bytes - file.len)
        (file :: attempted, removed + 1)
      else
        let (attempted, removed) := pruneLoop ceiling removeFile rest bytes
        (file :: attempted, removed)
    else ([], 0)

/-- `prune_directory`: the files it calls `remove_file` for, in order, and how many calls went well. `entries` is `read_dir`,
where each entry may be an error, and `removeFile` says which files can be removed. -/
def pruneDirectory (entries : Option (List (Option DirectoryEntry))) (ceiling now : Nat)
    (reference : String → Option Bool) (removeFile : String → Bool) : List PruneFile × Nat :=
  match entries with
  | none => ([], 0)
  | some entries =>
    let files := entries.reduceOption.filterMap (pruneFile now reference)
    let dead := files.filter (!·.keep)
    let files := files.filter (·.keep)
    let removed := dead.countP (removeFile ·.path)
    let bytes := (files.map (·.len)).sum
    if exceeds ceiling files.length bytes then
      let files := files.mergeSort fun first second => first.modified ≤ second.modified
      let (attempted, more) := pruneLoop ceiling removeFile files bytes
      (dead ++ attempted, removed + more)
    else (dead, removed)

def pruneArtifactsIn (spills archives : Option (List (Option DirectoryEntry))) (liveCalls liveConversations : String → Bool)
    (now : Nat) (removeFile : String → Bool) : Nat :=
  (pruneDirectory spills spillMaxFiles now (fun name => (spillCallId name).map liveCalls) removeFile).2 +
    (pruneDirectory archives archiveMaxFiles now (fun name => (archiveConversationId name).map liveConversations)
      removeFile).2

/-! ### References in names -/

section Names

theorem fromUtf8_asBytes (text : String) : fromUtf8 (asBytes text) = some text := by
  show (if valid : text.toByteArray.IsValidUTF8 then some (String.fromUTF8 text.toByteArray valid) else none) = _
  rw [dif_pos text.isValidUTF8]
  rfl

theorem stripSuffix_append (text suffix : List Char) : stripSuffix (text ++ suffix) suffix = some text := by
  have ends : suffix.isSuffixOf (text ++ suffix) = true := isSuffixOf_iff_suffix.mpr (suffix_append _ _)
  rw [stripSuffix, if_pos ends, length_append, Nat.add_sub_cancel, take_left]

theorem splitOnce_append {mark : Char} {front : List Char} (free : mark ∉ front) (rest : List Char) :
    splitOnce mark (front ++ mark :: rest) = some (front, rest) := by
  induction front with
  | nil => exact if_pos rfl
  | cons character front ih =>
    have other : character ≠ mark := fun same => free (same ▸ mem_cons_self)
    rw [cons_append, splitOnce, if_neg other, ih fun listed => free (mem_cons_of_mem _ listed)]
    rfl

theorem mem_paddedHex {hash : UInt32} {character : Char} (listed : character ∈ paddedHex hash) :
    ∃ number < 16, character = Hex.digit number := by
  obtain ⟨shift, -, rfl⟩ := mem_map.mp listed
  exact ⟨_, Nat.mod_lt _ (by decide), rfl⟩

theorem digit_ne {number : Nat} (small : number < 16) {other : Char} (mark : Hex.alphanumeric other = false) :
    Hex.digit number ≠ other := by
  intro same
  have digit := Hex.alphanumeric_digit small
  rw [same, mark] at digit
  cases digit

theorem splitOnce_paddedHex (hash : UInt32) (rest : List Char) :
    splitOnce '-' (paddedHex hash ++ '-' :: rest) = some (paddedHex hash, rest) := by
  refine splitOnce_append (fun listed => ?_) rest
  obtain ⟨number, small, same⟩ := mem_paddedHex listed
  exact digit_ne small (by decide) same.symm

theorem splitOnce_encode (bytes : List UInt8) (rest : List Char) :
    splitOnce '-' (Hex.encode bytes ++ '-' :: rest) = some (Hex.encode bytes, rest) := by
  refine splitOnce_append (fun listed => ?_) rest
  obtain ⟨number, small, same⟩ := Hex.mem_encode listed
  exact digit_ne small (by decide) same.symm

theorem size_paddedHex (hash : UInt32) : Utf8.size (paddedHex hash) = 8 := by
  have ascii : ∀ character ∈ paddedHex hash, character.utf8Size = 1 := by
    intro character listed
    obtain ⟨number, small, rfl⟩ := mem_paddedHex listed
    exact Hex.size_digit small
  rw [Utf8.size_ascii ascii]
  rfl

theorem hex_paddedHex (hash : UInt32) : ∀ character ∈ paddedHex hash, ¬ Hex.value character = none := by
  intro character listed
  obtain ⟨number, small, rfl⟩ := mem_paddedHex listed
  rw [Hex.value_digit small]
  exact Option.some_ne_none _

/-- **A spilled result is found by its call.** -/
theorem spillCallId_spillFileName (name callId : String) : spillCallId (spillFileName name callId) = some callId := by
  have parts : (spillFileName name callId).toList =
      (paddedHex (fnv1a (asBytes (name ++ "\x00" ++ callId))) ++
        '-' :: (Hex.encode (asBytes callId) ++ '-' :: sanitize name)) ++ ".txt".toList := by
    simp [spillFileName]
  unfold spillCallId
  rw [parts, stripSuffix_append]
  simp only [Option.bind_eq_bind, Option.bind_some, splitOnce_paddedHex, size_paddedHex, splitOnce_encode, Hex.decode_encode,
    fromUtf8_asBytes]
  rw [if_neg]
  simpa using hex_paddedHex _

/-- **An archive is found by its conversation.** -/
theorem archiveConversationId_archiveFileName (conversationId runId : String) (stamp : Nat) :
    archiveConversationId (archiveFileName conversationId runId stamp) = some conversationId := by
  have parts : (archiveFileName conversationId runId stamp).toList =
      (Hex.encode (asBytes conversationId) ++ '-' :: ((toString stamp).toList ++
        '-' :: paddedHex (fnv1a (asBytes (conversationId ++ "\x00" ++ runId))))) ++ ".jsonl".toList := by
    simp [archiveFileName]
  unfold archiveConversationId
  rw [parts, stripSuffix_append]
  simp [splitOnce_encode, Hex.decode_encode, fromUtf8_asBytes]

/-- The characters of a path that part its components. -/
def separator (character : Char) : Bool := character == '/' || character == '\\'

theorem plain_iff {character : Char} : separator character = false ↔ character ≠ '/' ∧ character ≠ '\\' := by
  simp [separator]

theorem plain_of_all {text : List Char} (all : (text.all fun character => !separator character) = true) :
    ∀ character ∈ text, separator character = false := by
  intro character listed
  simpa using all_eq_true.mp all character listed

theorem plain_digit {number : Nat} (small : number < 16) : separator (Hex.digit number) = false :=
  plain_iff.mpr ⟨digit_ne small (by decide), digit_ne small (by decide)⟩

theorem plain_sanitize (value : String) : ∀ character ∈ sanitize value, separator character = false := by
  have kept : ∀ character : Char, separator (if Hex.alphanumeric character ∨ character = '-' ∨ character = '_' then character
      else '_') = false := by
    intro character
    split
    · rename_i allowed
      rw [plain_iff]
      refine ⟨?_, ?_⟩
      · rintro rfl
        exact absurd allowed (by decide)
      · rintro rfl
        exact absurd allowed (by decide)
    · decide
  unfold sanitize
  simp only
  split
  · exact plain_of_all (by decide)
  · intro character listed
    obtain ⟨original, -, rfl⟩ := mem_map.mp (mem_of_mem_take listed)
    exact kept original

theorem plain_paddedHex (hash : UInt32) : ∀ character ∈ paddedHex hash, separator character = false := by
  intro character listed
  obtain ⟨number, small, rfl⟩ := mem_paddedHex listed
  exact plain_digit small

theorem plain_encode (bytes : List UInt8) : ∀ character ∈ Hex.encode bytes, separator character = false := by
  intro character listed
  obtain ⟨number, small, rfl⟩ := Hex.mem_encode listed
  exact plain_digit small

theorem plain_spillFileName (name callId : String) :
    ∀ character ∈ (spillFileName name callId).toList, separator character = false := by
  simp only [spillFileName, String.toList_ofList, forall_mem_append, forall_mem_cons]
  exact ⟨⟨⟨plain_paddedHex _, by decide, plain_encode _⟩, by decide, plain_sanitize _⟩, plain_of_all (by decide)⟩

theorem plain_toString (number : Nat) : ∀ character ∈ (toString number).toList, separator character = false := by
  intro character listed
  have digit : character.isDigit = true := by
    refine Nat.isDigit_of_mem_toDigits (b := 10) (by decide) (by decide) (n := number) ?_
    simpa [Nat.repr] using listed
  rw [plain_iff]
  refine ⟨?_, ?_⟩
  · rintro rfl
    exact absurd digit (by decide)
  · rintro rfl
    exact absurd digit (by decide)

theorem plain_archiveFileName (conversationId runId : String) (stamp : Nat) :
    ∀ character ∈ (archiveFileName conversationId runId stamp).toList, separator character = false := by
  simp only [archiveFileName, String.toList_ofList, forall_mem_append, forall_mem_cons]
  exact ⟨⟨⟨plain_encode _, by decide, plain_toString _⟩, by decide, plain_paddedHex _⟩, plain_of_all (by decide)⟩

end Names

/-! ### The newest messages that fit -/

section Archives

variable {toJson : CanonicalMessage → Option String} {line : CanonicalMessage → String}

/-- The bytes of lines with their line breaks. -/
def cost (lines : List String) : Nat := (lines.map fun line => strLength line + 1).sum

/-- The longest end of the lines that fits. -/
structure Longest (lines kept : List String) : Prop where
  part : kept <:+ lines
  fits : cost kept ≤ maxArchiveBytes
  longest : ∀ other, other <:+ lines → cost other ≤ maxArchiveBytes → other <:+ kept

/-- What the loop keeps of the lines, the newest first: the longest beginning that fits beside so many bytes. -/
theorem archiveLines_spec {newest : List CanonicalMessage} (serialises : ∀ message ∈ newest, toJson message = some (line message))
    {bytes : Nat} (within : bytes ≤ maxArchiveBytes) :
    ∃ kept, archiveLines toJson newest bytes = some kept ∧ kept <+: newest.map line ∧ bytes + cost kept ≤ maxArchiveBytes ∧
      ∀ other, other <+: newest.map line → bytes + cost other ≤ maxArchiveBytes → other <+: kept := by
  induction newest generalizing bytes with
  | nil =>
    refine ⟨[], rfl, nil_prefix, within, fun other part _ => ?_⟩
    rwa [map_nil] at part
  | cons message older ih =>
    have here := serialises message mem_cons_self
    simp only [archiveLines, here, Option.bind_eq_bind, Option.bind_some, map_cons]
    by_cases full : maxArchiveBytes < bytes + (strLength (line message) + 1)
    · refine ⟨[], if_pos full, nil_prefix, within, fun other part fits => ?_⟩
      rcases prefix_cons_iff.mp part with rfl | ⟨rest, rfl, -⟩
      · exact nil_prefix
      · have more : cost (line message :: rest) = strLength (line message) + 1 + cost rest := rfl
        omega
    · rw [if_neg full]
      obtain ⟨kept, ran, part, fits, longest⟩ := ih (fun other listed => serialises other (mem_cons_of_mem _ listed))
        (Nat.not_lt.mp full)
      have more : ∀ rest, cost (line message :: rest) = strLength (line message) + 1 + cost rest := fun _ => rfl
      refine ⟨line message :: kept, by rw [ran]; rfl, (prefix_cons_inj _).mpr part, ?_, fun other begins short => ?_⟩
      · rw [more]
        omega
      · rcases prefix_cons_iff.mp begins with rfl | ⟨rest, rfl, later⟩
        · exact nil_prefix
        · rw [more] at short
          exact (prefix_cons_inj _).mpr (longest rest later (by omega))

theorem cost_reverse (lines : List String) : cost lines.reverse = cost lines := by
  rw [cost, map_reverse, sum_reverse, cost]

/-- **An archive has the newest messages that fit.** -/
theorem archiveBody_longest {messages : List CanonicalMessage}
    (serialises : ∀ message ∈ messages, toJson message = some (line message)) :
    ∃ kept, Longest (messages.map line) kept ∧
      archiveBody toJson messages = if kept = [] then none else some (archiveText kept) := by
  have newest : ∀ message ∈ messages.reverse, toJson message = some (line message) := fun message listed =>
    serialises message (mem_reverse.mp listed)
  obtain ⟨kept, ran, part, fits, longest⟩ := archiveLines_spec newest (Nat.zero_le maxArchiveBytes)
  rw [map_reverse] at part longest
  refine ⟨kept.reverse, ⟨?_, ?_, fun other ends short => ?_⟩, ?_⟩
  · rwa [← reverse_prefix, reverse_reverse]
  · rw [cost_reverse]
    omega
  · rw [← reverse_prefix, reverse_reverse]
    refine longest other.reverse (List.reverse_prefix.mpr ends) ?_
    rw [cost_reverse]
    omega
  · simp only [archiveBody, ran, Option.bind_eq_bind, Option.bind_some, reverse_eq_nil_iff]

end Archives

/-! ### What is removed -/

section Pruning

variable {ceiling : Nat} {removeFile : String → Bool}

/-- The bytes of files. -/
def bytesOf (files : List PruneFile) : Nat := (files.map (·.len)).sum

/-- The files that are still there when `remove_file` was called for the first `count` of them. -/
def stillThere (removeFile : String → Bool) (files : List PruneFile) (count : Nat) : List PruneFile :=
  (files.take count).filter (fun file => !removeFile file.path) ++ files.drop count

theorem bytesOf_append (first second : List PruneFile) : bytesOf (first ++ second) = bytesOf first + bytesOf second := by
  simp [bytesOf]

theorem stillThere_succ (file : PruneFile) (rest : List PruneFile) (count : Nat) :
    stillThere removeFile (file :: rest) (count + 1) =
      (if removeFile file.path then [] else [file]) ++ stillThere removeFile rest count := by
  cases removed : removeFile file.path <;> simp [stillThere, removed]

/-- What the loop tests before a file. -/
def goesOn (ceiling : Nat) (removeFile : String → Bool) (stuck : Nat) (files : List PruneFile) (index : Nat) : Bool :=
  exceeds ceiling (files.drop index).length (stuck + bytesOf (stillThere removeFile files index))

theorem goesOn_succ (stuck : Nat) (file : PruneFile) (rest : List PruneFile) (index : Nat) :
    goesOn ceiling removeFile stuck (file :: rest) (index + 1) =
      goesOn ceiling removeFile (if removeFile file.path then stuck else stuck + file.len) rest index := by
  unfold goesOn
  rw [stillThere_succ, drop_succ_cons, bytesOf_append]
  cases removeFile file.path with
  | true =>
    rw [if_pos rfl, if_pos rfl]
    show exceeds _ _ (stuck + (0 + _)) = _
    rw [Nat.zero_add]
  | false =>
    rw [if_neg Bool.false_ne_true, if_neg Bool.false_ne_true]
    show exceeds _ _ (stuck + (file.len + 0 + _)) = _
    rw [Nat.add_zero, Nat.add_assoc]

theorem pruneLoop_spec (files : List PruneFile) (stuck : Nat) :
    ∃ count ≤ files.length, (pruneLoop ceiling removeFile files (stuck + bytesOf files)).1 = files.take count ∧
      (∀ index < count, goesOn ceiling removeFile stuck files index = true) ∧
      (count < files.length → goesOn ceiling removeFile stuck files count = false) := by
  induction files generalizing stuck with
  | nil => exact ⟨0, Nat.le_refl _, rfl, fun _ none => absurd none (Nat.not_lt_zero _), fun none => absurd none (Nat.lt_irrefl _)⟩
  | cons file rest ih =>
    have whole : stuck + bytesOf (file :: rest) = stuck + file.len + bytesOf rest := (Nat.add_assoc ..).symm
    have first : goesOn ceiling removeFile stuck (file :: rest) 0 =
        exceeds ceiling (file :: rest).length (stuck + bytesOf (file :: rest)) := rfl
    unfold pruneLoop
    by_cases beyond : exceeds ceiling (file :: rest).length (stuck + bytesOf (file :: rest)) = true
    · rw [if_pos beyond]
      obtain ⟨count, within, attempted, needed, enough⟩ :=
        ih (if removeFile file.path then stuck else stuck + file.len)
      refine ⟨count + 1, Nat.succ_le_succ within, ?_, fun index before => ?_, fun inside => ?_⟩
      · rw [take_succ_cons, ← attempted]
        cases removed : removeFile file.path with
        | true =>
          have left : stuck + bytesOf (file :: rest) - file.len = stuck + bytesOf rest := by omega
          simp only [left, if_true]
        | false => simp only [whole, if_false, Bool.false_eq_true]
      · cases index with
        | zero => exact first.trans beyond
        | succ index =>
          rw [goesOn_succ]
          exact needed index (Nat.lt_of_succ_lt_succ before)
      · rw [goesOn_succ]
        exact enough (Nat.lt_of_succ_lt_succ inside)
    · rw [if_neg beyond]
      refine ⟨0, Nat.zero_le _, rfl, fun _ none => absurd none (Nat.not_lt_zero _), fun _ => ?_⟩
      rw [first]
      exact Bool.not_eq_true _ ▸ beyond

theorem exceeds_mono {count count' bytes bytes' : Nat} (more : count ≤ count') (larger : bytes ≤ bytes')
    (beyond : exceeds ceiling count bytes = true) : exceeds ceiling count' bytes' = true := by
  simp only [exceeds, Bool.or_eq_true, decide_eq_true_eq] at beyond ⊢
  omega

/-- What the maintenance does to the files of a directory. It calls `remove_file` for the dead ones, then for the first
`count` of the others by their age: each of these while the others that are still there are over a ceiling. -/
structure Pruned (ceiling : Nat) (removeFile : String → Bool) (files order : List PruneFile) (count : Nat)
    (attempted : List PruneFile) : Prop where
  sorted : order.Perm (files.filter (·.keep))
  oldest : order.Pairwise fun first second => first.modified ≤ second.modified
  attempted : attempted = files.filter (!·.keep) ++ order.take count
  needed : ∀ index < count, exceeds ceiling (stillThere removeFile order index).length
    (bytesOf (stillThere removeFile order index)) = true
  enough : count < order.length →
    exceeds ceiling (order.drop count).length (bytesOf (stillThere removeFile order count)) = false

theorem pruneDirectory_pruned (entries : List (Option DirectoryEntry)) (now : Nat) (reference : String → Option Bool) :
    ∃ order count, Pruned ceiling removeFile (entries.reduceOption.filterMap (pruneFile now reference)) order count
      (pruneDirectory (some entries) ceiling now reference removeFile).1 := by
  generalize found : entries.reduceOption.filterMap (pruneFile now reference) = files
  let kept := files.filter (·.keep)
  let order := kept.mergeSort fun first second => first.modified ≤ second.modified
  have perm : order.Perm kept := mergeSort_perm _ _
  have oldest : order.Pairwise fun first second => first.modified ≤ second.modified := by
    have transitive : ∀ first second third : PruneFile, decide (first.modified ≤ second.modified) = true →
        decide (second.modified ≤ third.modified) = true → decide (first.modified ≤ third.modified) = true := by
      intro first second third before behind
      simp only [decide_eq_true_eq] at before behind ⊢
      omega
    have total : ∀ first second : PruneFile,
        (decide (first.modified ≤ second.modified) || decide (second.modified ≤ first.modified)) = true := by
      intro first second
      simp only [Bool.or_eq_true, decide_eq_true_eq]
      omega
    have sorted := pairwise_mergeSort transitive total kept
    simpa using sorted
  have bytes : bytesOf order = bytesOf kept := (perm.map _).sum_nat
  have ran : pruneDirectory (some entries) ceiling now reference removeFile =
      if exceeds ceiling kept.length (bytesOf kept) then
        let (attempted, more) := pruneLoop ceiling removeFile order (bytesOf kept)
        (files.filter (!·.keep) ++ attempted, (files.filter (!·.keep)).countP (removeFile ·.path) + more)
      else (files.filter (!·.keep), (files.filter (!·.keep)).countP (removeFile ·.path)) := by
    rw [pruneDirectory, found]
    rfl
  rw [ran]
  by_cases beyond : exceeds ceiling kept.length (bytesOf kept) = true
  · obtain ⟨count, within, attempted, needed, enough⟩ := @pruneLoop_spec ceiling removeFile order 0
    rw [Nat.zero_add, bytes] at attempted
    refine ⟨order, count, perm, oldest, ?_, fun index before => ?_, fun inside => ?_⟩
    · rw [if_pos beyond, ← attempted]
    · have still : (order.drop index).length ≤ (stillThere removeFile order index).length := by
        rw [stillThere, length_append]
        exact Nat.le_add_left _ _
      exact exceeds_mono still (Nat.le_of_eq (Nat.zero_add _)) (needed index before)
    · have stops := enough inside
      rwa [goesOn, Nat.zero_add] at stops
  · refine ⟨order, 0, perm, oldest, ?_, fun _ none => absurd none (Nat.not_lt_zero _), fun _ => ?_⟩
    · rw [if_neg beyond, take_zero, append_nil]
    · show exceeds ceiling order.length (bytesOf order) = false
      rw [bytes, perm.length_eq]
      exact Bool.not_eq_true _ ▸ beyond

theorem pruneFile_live {now : Nat} {reference : String → Option Bool} {entry : DirectoryEntry} {file : PruneFile}
    (live : reference entry.name = some true) (found : pruneFile now reference entry = some file) : file.keep = true := by
  obtain ⟨metadata, -, found⟩ := Option.bind_eq_some_iff.mp found
  obtain ⟨modified, -, found⟩ := Option.bind_eq_some_iff.mp found
  cases found
  simp only [live]

end Pruning

/-- **Files are found again, and stay while they are referred to.** The reference is read off a name, which has no path
separator; an archive has the newest messages that fit; and a file that is referred to is removed only while the files that
are not dead are over a ceiling, the oldest first. -/
theorem artifacts_kept (toJson : CanonicalMessage → Option String) (line : CanonicalMessage → String)
    (messages : List CanonicalMessage) (serialises : ∀ message ∈ messages, toJson message = some (line message)) :
    (∀ name callId, spillCallId (spillFileName name callId) = some callId ∧
      ∀ character ∈ (spillFileName name callId).toList, separator character = false) ∧
    (∀ conversationId runId stamp,
      archiveConversationId (archiveFileName conversationId runId stamp) = some conversationId ∧
      ∀ character ∈ (archiveFileName conversationId runId stamp).toList, separator character = false) ∧
    (∃ kept, Longest (messages.map line) kept ∧
      archiveBody toJson messages = if kept = [] then none else some (archiveText kept)) ∧
    ∀ entries ceiling now reference removeFile,
      (∃ order count, Pruned ceiling removeFile (entries.reduceOption.filterMap (pruneFile now reference)) order count
        (pruneDirectory (some entries) ceiling now reference removeFile).1) ∧
      ∀ entry file, reference entry.name = some true → pruneFile now reference entry = some file → file.keep = true := by
  refine ⟨fun name callId => ?_, fun conversationId runId stamp => ?_, archiveBody_longest serialises, ?_⟩
  · exact ⟨spillCallId_spillFileName name callId, plain_spillFileName name callId⟩
  · exact ⟨archiveConversationId_archiveFileName conversationId runId stamp, plain_archiveFileName conversationId runId stamp⟩
  · exact fun entries ceiling now reference removeFile =>
      ⟨pruneDirectory_pruned entries now reference, fun _ _ live found => pruneFile_live live found⟩

/-- A directory of three results, of which the second cannot be removed. -/
def sampleEntries : List (Option DirectoryEntry) :=
  [some ⟨"new", "new", some ⟨true, some 3, 1⟩⟩, none, some ⟨"stuck", "stuck", some ⟨true, some 2, 1⟩⟩,
    some ⟨"old", "old", some ⟨true, some 1, 1⟩⟩]

/-- A message whose line is its id. -/
def sampleMessage : CanonicalMessage := ⟨"first", .user, .runtime, .parts [.text "A task is done."], none⟩

theorem artifacts_kept_sample :
    (∃ kept, Longest ["first"] kept ∧ archiveBody (fun message => some message.messageId) [sampleMessage] =
      if kept = [] then none else some (archiveText kept)) ∧
    ∃ order count, Pruned 1 (· ≠ "stuck") (sampleEntries.reduceOption.filterMap (pruneFile 3 fun _ => some true)) order count
      (pruneDirectory (some sampleEntries) 1 3 (fun _ => some true) (· ≠ "stuck")).1 :=
  have kept := artifacts_kept (fun message => some message.messageId) (·.messageId) [sampleMessage] fun _ _ => rfl
  ⟨kept.2.2.1, (kept.2.2.2 sampleEntries 1 3 (fun _ => some true) (· ≠ "stuck")).1⟩

end Byok.Spill
