/-
**Finding the model of a Devin request.** `server/src/devin/assignment.rs`.

A request names its model by the UID, or by a token that was handed out for it, in a header or anywhere in its fields.

* `AssignmentSessions` — the tokens that were handed out; each looks like one.
* `scanFields` — the scan of the bytes fields, those of nested messages included.
* `findModelReference` — the model that a request names.
-/

import Byok.Devin.Wire
import Byok.Library.Gather
import Byok.Library.Sorting
import Mathlib.Data.Finset.Basic

namespace Byok.Devin

open Library

/-! ### Tokens -/

/-- `ASSIGNMENT_TTL`, in seconds. -/
def assignmentTtl : Nat := 12 * 60 * 60

def maxScanDepth : Nat := 5

def maxNestedBytes : Nat := 2 * 1024 * 1024

/-- `str::as_bytes`. -/
def textBytes (text : String) : List UInt8 := text.toByteArray.data.toList

/-- `str::from_utf8`. -/
def textOfBytes (bytes : List UInt8) : Option String := String.fromUTF8? ⟨bytes.toArray⟩

theorem textOfBytes_iff {value : List UInt8} {text : String} : textOfBytes value = some text ↔ textBytes text = value := by
  constructor
  · intro read
    rw [textOfBytes, String.fromUTF8?] at read
    split at read
    · cases read
      rfl
    · cases read
  · rintro rfl
    rw [textOfBytes, String.fromUTF8?]
    have whole : (⟨(textBytes text).toArray⟩ : ByteArray) = text.toByteArray := by simp [textBytes]
    simp only [whole]
    rw [dif_pos text.isValidUTF8]
    rfl

theorem textOfBytes_textBytes (text : String) : textOfBytes (textBytes text) = some text := textOfBytes_iff.mpr rfl

def isAsciiHexdigit (byte : UInt8) : Bool :=
  (0x30 ≤ byte && byte ≤ 0x39) || (0x41 ≤ byte && byte ≤ 0x46) || (0x61 ≤ byte && byte ≤ 0x66)

def looksLikeAssignmentToken (value : List UInt8) : Bool :=
  value.length == 36 && value.zipIdx.all fun (byte, index) =>
    if index ∈ [8, 13, 18, 23] then byte == 0x2d else isAsciiHexdigit byte

/-- What `Uuid::new_v4` is written as. -/
structure Uuid where
  text : String
  shaped : looksLikeAssignmentToken (textBytes text) = true

/-- `Assignment`. -/
structure Assignment where
  uid : String
  token : String
  expiresAt : Nat
deriving DecidableEq

/-- `AssignmentSessions`: every token of the table is a UUID. -/
structure AssignmentSessions where
  tokens : Table String Assignment
  ttl : Nat
  shaped : ∀ token ∈ tokens, looksLikeAssignmentToken (textBytes token) = true

namespace AssignmentSessions

variable (sessions : AssignmentSessions) (now : Nat)

/-- `AssignmentSessions::new`. -/
def empty : AssignmentSessions where
  tokens := ∅
  ttl := assignmentTtl
  shaped token listed := absurd listed (AList.notMem_empty token)

/-- What `prune` leaves of the table. -/
def kept : Table String Assignment where
  entries := sessions.tokens.entries.filter fun entry => now < entry.2.expiresAt
  nodupKeys := sessions.tokens.nodupKeys.sublist List.filter_sublist

theorem mem_of_kept {token : String} (listed : token ∈ sessions.kept now) : token ∈ sessions.tokens :=
  (List.filter_sublist.map Sigma.fst).subset listed

def prune : AssignmentSessions where
  tokens := sessions.kept now
  ttl := sessions.ttl
  shaped token listed := sessions.shaped token (sessions.mem_of_kept now listed)

/-- `AssignmentSessions::issue`. -/
def issue (uid : String) (token : Uuid) : Assignment × AssignmentSessions :=
  let assignment : Assignment := { uid, token := token.text, expiresAt := now + sessions.ttl }
  (assignment,
    { tokens := (sessions.prune now).tokens.insert token.text assignment
      ttl := sessions.ttl
      shaped := fun other listed => by
        rcases (AList.mem_insert _).mp listed with rfl | listed
        · exact token.shaped
        · exact (sessions.prune now).shaped other listed })

/-- The answer of `AssignmentSessions::uid_for_token`; the table is left pruned. -/
def uidForToken (token : String) : Option String :=
  ((sessions.prune now).tokens.lookup token).map Assignment.uid

end AssignmentSessions

/-! ### Headers -/

structure ModelReference where
  uid : String := ""
  source : String := ""
  path : List UInt32 := []
  candidates : List String := []
  ambiguous : Bool := false
deriving DecidableEq

/-- `HeaderValue::to_str`. -/
def headerText (value : List UInt8) : Except Error String :=
  if value.all fun byte => (0x20 ≤ byte && byte < 0x7f) || byte == 0x09 then
    .ok (String.ofList (value.map fun byte => Char.ofNat byte.toNat))
  else .error (.protocol "invalid Devin header: failed to convert header to a str")

/-- One round of the loop over the headers. -/
def headerReference (sessions : AssignmentSessions) (now : Nat) (value : String) : Option ModelReference :=
  match sessions.uidForToken now value with
  | some uid => some { uid, source := "assignment-header" }
  | none => (stripPrefix value "Bearer ").bind fun token =>
      (sessions.uidForToken now token).map fun uid => { uid, source := "assignment-bearer" }

/-- The loop over the headers. -/
def scanHeaders (sessions : AssignmentSessions) (now : Nat) : List (List UInt8) → Except Error (Option ModelReference)
  | [] => .ok none
  | value :: headers => do
    let value ← headerText value
    match headerReference sessions now value with
    | some reference => return some reference
    | none => scanHeaders sessions now headers

/-! ### Fields -/

structure Candidate where
  uid : String
  source : String
  path : List UInt32
  priority : Nat
deriving DecidableEq

section Scan

variable (candidates : Finset String) (sessions : AssignmentSessions) (now : Nat)

def matchInfo (value : List UInt8) (text : String) : Option (String × String) :=
  if text ∈ candidates then some (text, "uid")
  else if looksLikeAssignmentToken value then (sessions.uidForToken now text).map fun uid => (uid, "assignment")
  else none

/-- The priority of a match. -/
def matchPriority (depth : Nat) (number : UInt32) : Nat :=
  if depth = 0 ∧ number = 21 then 0
  else if depth = 0 then 10
  else depth * 100 + 10

def scanFields (depth : Nat) (path : List UInt32) (fields : List Field) : List Candidate :=
  fields.flatMap fun field =>
    match field.value with
    | .bytes value =>
      match textOfBytes value with
      | none => []
      | some text =>
        ((matchInfo candidates sessions now value text).toList.map fun (uid, source) =>
          { uid, source, path := path ++ [field.number], priority := matchPriority depth field.number }) ++
        (if depth < maxScanDepth ∧ value ≠ [] ∧ value.length ≤ maxNestedBytes then
          match parseFields value with
          | .ok nested => scanFields (depth + 1) (path ++ [field.number]) nested
          | .error _ => []
        else [])
    | _ => []
termination_by maxScanDepth - depth

/-- The key that `matches` is sorted by. -/
def sortsUpTo (first second : Candidate) : Bool :=
  first.priority < second.priority ||
    (first.priority == second.priority && first.path.length ≤ second.path.length)

/-- What `find_model_reference` makes of the matches. -/
def bestReference (found : List Candidate) : ModelReference :=
  match found.mergeSort sortsUpTo with
  | [] => {}
  | best :: others =>
    let peers := (best :: others).takeWhile fun candidate => candidate.priority == best.priority
    let peerUids := sortDedup (peers.map Candidate.uid)
    if 1 < peerUids.length then { candidates := peerUids, ambiguous := true }
    else { uid := best.uid, source := best.source, path := best.path, candidates := peerUids, ambiguous := false }

/-- `matches` of `find_model_reference`. -/
def findMatches (payload : List UInt8) : Except Error (List Candidate) := do
  let fields ← parseFields payload
  return scanFields candidates sessions now 0 [] fields

def findModelReference (payload : List UInt8) (headers : List (List UInt8)) : Except Error ModelReference := do
  match ← scanHeaders sessions now headers with
  | some reference => return reference
  | none => return bestReference (← findMatches candidates sessions now payload)

end Scan

/-! ### The answers of the table -/

namespace AssignmentSessions

variable (sessions : AssignmentSessions) (now : Nat)

/-- A token that was handed out and has not run out. -/
def Live (token uid : String) : Prop :=
  ∃ assignment, sessions.tokens.lookup token = some assignment ∧ now < assignment.expiresAt ∧ assignment.uid = uid

theorem lookup_kept {token : String} {assignment : Assignment} :
    (sessions.kept now).lookup token = some assignment ↔
      sessions.tokens.lookup token = some assignment ∧ now < assignment.expiresAt := by
  have entry (table : Table String Assignment) : table.lookup token = some assignment ↔
      Sigma.mk token assignment ∈ table.entries := AList.mem_lookup_iff
  rw [entry, entry]
  exact List.mem_filter.trans (and_congr_right fun _ => decide_eq_true_iff)

/-- **A token is answered for exactly while it is live.** -/
theorem uidForToken_iff {token uid : String} :
    sessions.uidForToken now token = some uid ↔ sessions.Live now token uid := by
  rw [uidForToken, Option.map_eq_some_iff]
  constructor
  · rintro ⟨assignment, found, same⟩
    obtain ⟨listed, later⟩ := (sessions.lookup_kept now).mp found
    exact ⟨assignment, listed, later, same⟩
  · rintro ⟨assignment, listed, later, same⟩
    exact ⟨assignment, (sessions.lookup_kept now).mpr ⟨listed, later⟩, same⟩

theorem Live.shaped {token uid : String} (live : sessions.Live now token uid) :
    looksLikeAssignmentToken (textBytes token) = true := by
  obtain ⟨assignment, listed, -, -⟩ := live
  exact sessions.shaped token (AList.lookup_isSome.mp (by rw [listed]; rfl))

end AssignmentSessions

end Byok.Devin
