/-
**The scan for the model reads nested messages only below texts.**

What a request names is what its bytes fields hold, those of its nested messages included (`Lies`, `hits`). The scan
finds what is enclosed by messages that are valid UTF-8, and nothing else.

* `findMatches_eq` — the matches are the hits whose enclosing messages are all valid UTF-8.
* `bestReference_names` — what is made of the matches.
* `findsModel_iff` — the model is found exactly when every message that encloses a hit is valid UTF-8.
-/

import Byok.Devin.Assignment
import Byok.Devin.WireLaws

namespace Byok.Devin

open Library List

/-! ### Places -/

/-- A bytes field of a payload: the numbers that lead to it, the messages that enclose it, and its bytes. -/
structure Place where
  path : List UInt32
  enclosing : List (List UInt8)
  value : List UInt8
deriving DecidableEq

/-- A place of a message that is the value of a field. -/
def Place.under (place : Place) (number : UInt32) (message : List UInt8) : Place where
  path := number :: place.path
  enclosing := message :: place.enclosing
  value := place.value

/-- A bytes field of a payload, however deep. -/
inductive Lies : List UInt8 → Place → Prop
  | here {payload value : List UInt8} {fields : List Field} {number : UInt32}
      (parsed : parseFields payload = .ok fields) (listed : ⟨number, .bytes value⟩ ∈ fields) :
      Lies payload ⟨[number], [], value⟩
  | inside {payload message : List UInt8} {fields : List Field} {number : UInt32} {place : Place}
      (parsed : parseFields payload = .ok fields) (listed : ⟨number, .bytes message⟩ ∈ fields)
      (lies : Lies message place) : Lies payload (place.under number message)

/-- A place that is looked into. -/
def Place.InReach (place : Place) (depth : Nat) : Prop :=
  place.enclosing.length ≤ depth ∧ ∀ message ∈ place.enclosing, message.length ≤ maxNestedBytes

/-- The bytes fields of fields, given those of the messages in them. -/
def bytesPlaces (inside : List UInt8 → List Place) (fields : List Field) : List Place :=
  fields.flatMap fun field =>
    match field.value with
    | .bytes value => ⟨[field.number], [], value⟩ :: (inside value).map fun place => place.under field.number value
    | _ => []

/-- The bytes fields in reach, in the order in which they stand. -/
def places : Nat → List Field → List Place
  | 0, fields => bytesPlaces (fun _ => []) fields
  | depth + 1, fields => bytesPlaces (fun message =>
      if message.length ≤ maxNestedBytes then
        match parseFields message with
        | .ok nested => places depth nested
        | .error _ => []
      else []) fields

theorem mem_bytesPlaces {inside : List UInt8 → List Place} {fields : List Field} {place : Place} :
    place ∈ bytesPlaces inside fields ↔ ∃ number value, (⟨number, .bytes value⟩ : Field) ∈ fields ∧
      (place = ⟨[number], [], value⟩ ∨ ∃ inner ∈ inside value, place = inner.under number value) := by
  rw [bytesPlaces, mem_flatMap]
  constructor
  · rintro ⟨⟨number, value⟩, listed, there⟩
    cases value with
    | bytes value =>
      refine ⟨number, value, listed, ?_⟩
      rcases mem_cons.mp there with rfl | there
      · exact .inl rfl
      · obtain ⟨inner, member, rfl⟩ := mem_map.mp there
        exact .inr ⟨inner, member, rfl⟩
    | varint _ | fixed64 _ | fixed32 _ => cases there
  · rintro ⟨number, value, listed, there⟩
    refine ⟨_, listed, ?_⟩
    rcases there with rfl | ⟨inner, member, rfl⟩
    · exact mem_cons_self
    · exact mem_cons_of_mem _ (mem_map.mpr ⟨inner, member, rfl⟩)

/-- **The list holds the bytes fields in reach.** -/
theorem mem_places {payload : List UInt8} {fields : List Field} (parsed : parseFields payload = .ok fields)
    {depth : Nat} {place : Place} : place ∈ places depth fields ↔ Lies payload place ∧ place.InReach depth := by
  induction depth generalizing payload fields place with
  | zero =>
    rw [places, mem_bytesPlaces]
    constructor
    · rintro ⟨number, value, listed, rfl | ⟨inner, none, -⟩⟩
      · exact ⟨.here parsed listed, Nat.le_refl 0, fun _ member => absurd member not_mem_nil⟩
      · cases none
    · rintro ⟨lies, near, -⟩
      cases lies with
      | here parsed' listed =>
        cases parsed.symm.trans parsed'
        exact ⟨_, _, listed, .inl rfl⟩
      | inside => cases near
  | succ depth ih =>
    rw [places, mem_bytesPlaces]
    constructor
    · rintro ⟨number, value, listed, rfl | ⟨inner, member, rfl⟩⟩
      · exact ⟨.here parsed listed, Nat.zero_le _, fun _ member => absurd member not_mem_nil⟩
      · split at member
        · rename_i small
          split at member
          · rename_i nested read
            obtain ⟨lies, near, fits⟩ := (ih read).mp member
            exact ⟨.inside parsed listed lies, Nat.succ_le_succ near, forall_mem_cons.mpr ⟨small, fits⟩⟩
          · cases member
        · cases member
    · rintro ⟨lies, near, fits⟩
      cases lies with
      | here parsed' listed =>
        cases parsed.symm.trans parsed'
        exact ⟨_, _, listed, .inl rfl⟩
      | @inside _ message _ number inner parsed' listed lies =>
        cases parsed.symm.trans parsed'
        obtain ⟨small, fits⟩ := forall_mem_cons.mp fits
        refine ⟨number, message, listed, .inr ⟨inner, ?_, rfl⟩⟩
        rw [if_pos small]
        cases read : parseFields message with
        | ok nested => exact (ih read).mpr ⟨lies, Nat.le_of_succ_le_succ near, fits⟩
        | error error => cases lies <;> rename_i read' _ <;> cases read.symm.trans read'

/-! ### Hits -/

section Hits

variable (candidates : Finset String) (sessions : AssignmentSessions) (now : Nat)

/-- A UID, what names it, and where. -/
structure Hit where
  uid : String
  source : String
  path : List UInt32
deriving DecidableEq

/-- What a value names: itself if it is a candidate, or else the model of a live token. -/
def named (value : List UInt8) : Option (String × String) :=
  (textOfBytes value).bind fun text =>
    if text ∈ candidates then some (text, "uid")
    else (sessions.uidForToken now text).map fun uid => (uid, "assignment")

/-- What stands at a place. -/
def hit (place : Place) : Option Hit :=
  (named candidates sessions now place.value).map fun (uid, source) => { uid, source, path := place.path }

/-- What the bytes fields in reach name. -/
def hits (payload : List UInt8) : List Hit :=
  match parseFields payload with
  | .ok fields => (places maxScanDepth fields).filterMap (hit candidates sessions now)
  | .error _ => []

/-- A place below messages that are all valid UTF-8. -/
def Place.Plain (place : Place) : Prop := ∀ message ∈ place.enclosing, (textOfBytes message).isSome = true

instance (place : Place) : Decidable place.Plain := inferInstanceAs (Decidable (∀ message ∈ place.enclosing, _))

/-- Every message that encloses a hit is valid UTF-8. -/
def Readable (payload : List UInt8) : Prop :=
  ∀ place, Lies payload place → place.InReach maxScanDepth → (hit candidates sessions now place).isSome = true →
    place.Plain

end Hits

section Scan

variable {candidates : Finset String} {sessions : AssignmentSessions} {now : Nat} {value : List UInt8}

theorem matchInfo_eq {text : String} (read : textOfBytes value = some text) :
    matchInfo candidates sessions now value text = named candidates sessions now value := by
  rw [named, read, Option.bind_some, matchInfo]
  split
  · rfl
  · split
    · rfl
    · rename_i plain
      cases found : sessions.uidForToken now text with
      | none => rfl
      | some uid =>
        have shaped := ((sessions.uidForToken_iff now).mp found).shaped
        rw [textOfBytes_iff.mp read] at shaped
        exact absurd shaped plain

/-- The priority of what lies at a path. -/
def pathPriority (path : List UInt32) : Nat :=
  if path = [21] then 0
  else if path.length ≤ 1 then 10
  else (path.length - 1) * 100 + 10

theorem matchPriority_eq (path : List UInt32) (number : UInt32) :
    matchPriority path.length number = pathPriority (path ++ [number]) := by
  unfold matchPriority pathPriority
  cases path with
  | nil => simp
  | cons first path => simp

/-- A hit as the scan keeps it. -/
def Hit.candidate (hit : Hit) : Candidate where
  uid := hit.uid
  source := hit.source
  path := hit.path
  priority := pathPriority hit.path

variable (candidates sessions now) in
/-- What the scan finds at a place of the fields that a path leads to. -/
def scanned (path : List UInt32) (place : Place) : Option Candidate :=
  if place.Plain then
    (hit candidates sessions now { place with path := path ++ place.path }).map Hit.candidate
  else none

theorem scanned_under {path : List UInt32} {number : UInt32} {text : String} (read : textOfBytes value = some text)
    (place : Place) : scanned candidates sessions now path (place.under number value) =
      scanned candidates sessions now (path ++ [number]) place := by
  have plain : (place.under number value).Plain ↔ place.Plain := by
    refine forall_mem_cons.trans (and_iff_right ?_)
    rw [read]
    rfl
  unfold scanned
  rw [if_congr plain rfl rfl]
  simp only [Place.under, hit, append_assoc, singleton_append]

theorem scanned_here {path : List UInt32} {number : UInt32} :
    scanned candidates sessions now path ⟨[number], [], value⟩ =
      (named candidates sessions now value).map fun (uid, source) =>
        { uid, source, path := path ++ [number], priority := matchPriority path.length number } := by
  have plain : Place.Plain ⟨[number], [], value⟩ := fun _ member => absurd member not_mem_nil
  rw [scanned, if_pos plain, hit, Option.map_map, matchPriority_eq]
  rfl

theorem scanned_binary (binary : textOfBytes value = none) (path : List UInt32) (number : UInt32) :
    scanned candidates sessions now path ⟨[number], [], value⟩ = none ∧
      ∀ place : Place, scanned candidates sessions now path (place.under number value) = none := by
  constructor
  · rw [scanned_here, named, binary]
    rfl
  · intro place
    refine if_neg fun plain => ?_
    have text := plain value mem_cons_self
    rw [binary] at text
    cases text

theorem scanFields_level {depth : Nat} {path : List UInt32} {inside : List UInt8 → List Place} (fields : List Field)
    (long : path.length = depth)
    (deeper : ∀ number message, (inside message).filterMap (scanned candidates sessions now (path ++ [number])) =
      if depth < maxScanDepth ∧ message ≠ [] ∧ message.length ≤ maxNestedBytes then
        match parseFields message with
        | .ok nested => scanFields candidates sessions now (depth + 1) (path ++ [number]) nested
        | .error _ => []
      else []) :
    scanFields candidates sessions now depth path fields =
      (bytesPlaces inside fields).filterMap (scanned candidates sessions now path) := by
  rw [scanFields, bytesPlaces, filterMap_flatMap]
  refine flatMap_congr fun ⟨number, value⟩ _ => ?_
  cases value with
  | bytes value =>
    simp only [filterMap_cons, filterMap_map]
    cases read : textOfBytes value with
    | none =>
      obtain ⟨here, below⟩ := @scanned_binary candidates sessions now value read path number
      rw [here]
      exact (filterMap_eq_nil_iff.mpr fun place _ => below place).symm
    | some text =>
      have below : (scanned candidates sessions now path ∘ fun place : Place => place.under number value) =
          scanned candidates sessions now (path ++ [number]) := funext (scanned_under read)
      simp only [matchInfo_eq read]
      rw [scanned_here, below, deeper, long]
      cases named candidates sessions now value <;> rfl
  | varint _ | fixed64 _ | fixed32 _ => rfl

/-- **The scan of fields** finds what stands below messages that are valid UTF-8. -/
theorem scanFields_eq {depth left : Nat} {path : List UInt32} (fields : List Field) (deep : depth + left = maxScanDepth)
    (long : path.length = depth) :
    scanFields candidates sessions now depth path fields =
      (places left fields).filterMap (scanned candidates sessions now path) := by
  induction left generalizing depth path fields with
  | zero =>
    refine scanFields_level fields long fun number message => ?_
    rw [if_neg (by omega)]
    rfl
  | succ left ih =>
    refine scanFields_level fields long fun number message => ?_
    have next (nested : List Field) := @ih (depth + 1) (path ++ [number]) nested (by omega) (by simp [long])
    by_cases small : message.length ≤ maxNestedBytes
    · rw [if_pos small]
      by_cases empty : message = []
      · have nothing : parseFields [] = .ok [] := parseFrom_end (Nat.lt_irrefl 0)
        rw [if_neg fun scans => scans.2.1 empty, empty, nothing]
        cases left <;> rfl
      · rw [if_pos ⟨by omega, empty, small⟩]
        cases parseFields message with
        | ok nested => exact (next nested).symm
        | error error => rfl
    · rw [if_neg small, if_neg fun scans => small scans.2.2]
      rfl

/-- **The matches are the hits below messages that are all valid UTF-8**, in the order in which they stand. -/
theorem findMatches_eq {payload : List UInt8} {fields : List Field} (parsed : parseFields payload = .ok fields) :
    findMatches candidates sessions now payload =
      .ok ((places maxScanDepth fields).filterMap (scanned candidates sessions now [])) := by
  rw [findMatches, parsed, except_ok_bind, scanFields_eq fields (Nat.zero_add _) rfl]
  rfl

end Scan

/-! ### The best of the matches -/

section Best

/-- The order of the places: field 21 of the top level, the top level, and then by depth. -/
def placeRank (path : List UInt32) : Nat := if path = [21] then 0 else path.length

theorem pathPriority_le {first second : List UInt32} (some : first ≠ []) (some' : second ≠ []) :
    pathPriority first ≤ pathPriority second ↔ placeRank first ≤ placeRank second := by
  have priority (path : List UInt32) (some : path ≠ []) :
      (pathPriority path = 0 ∧ placeRank path = 0) ∨ (pathPriority path = 10 ∧ placeRank path = 1) ∨
        ∃ depth, pathPriority path = (depth + 1) * 100 + 10 ∧ placeRank path = depth + 2 := by
    unfold pathPriority placeRank
    match path with
    | [number] =>
      by_cases top : number = 21
      · exact .inl (by simp [top])
      · exact .inr (.inl (by simp [top]))
    | _ :: _ :: deeper => exact .inr (.inr ⟨deeper.length, by simp⟩)
  rcases priority first some with ⟨own, rank⟩ | ⟨own, rank⟩ | ⟨depth, own, rank⟩ <;>
    rcases priority second some' with ⟨own', rank'⟩ | ⟨own', rank'⟩ | ⟨depth', own', rank'⟩ <;>
      rw [own, own', rank, rank'] <;> omega

/-- A hit that none is before. -/
def Best (found : List Hit) (hit : Hit) : Prop :=
  hit ∈ found ∧ ∀ other ∈ found, placeRank hit.path ≤ placeRank other.path

/-- What is made of hits: nothing of none, the model that the best ones name, or the models among which it is open. -/
structure Names (found : List Hit) (reference : ModelReference) : Prop where
  absent : reference = {} ↔ found = []
  single : ∀ uid, (∃ hit, Best found hit) → (∀ hit, Best found hit → hit.uid = uid) →
    ∃ hit, Best found hit ∧ reference = { uid, source := hit.source, path := hit.path, candidates := [uid] }
  several : ∀ first second, Best found first → Best found second → first.uid ≠ second.uid →
    ∃ uids, reference = { candidates := uids, ambiguous := true } ∧
      (uids.Pairwise fun uid other => compare uid other = .lt) ∧
      ∀ uid, uid ∈ uids ↔ ∃ hit, Best found hit ∧ hit.uid = uid

variable {found : List Hit}

theorem sortsUpTo_iff {first second : Candidate} : sortsUpTo first second = true ↔
    first.priority < second.priority ∨
      (first.priority = second.priority ∧ first.path.length ≤ second.path.length) := by
  simp [sortsUpTo]

theorem mem_peers {best : Candidate} {others : List Candidate} (nonempty : ∀ hit ∈ found, hit.path ≠ [])
    (sorted : (found.map Hit.candidate).mergeSort sortsUpTo = best :: others) {candidate : Candidate} :
    candidate ∈ (best :: others).takeWhile (fun candidate => candidate.priority == best.priority) ↔
      ∃ hit, Best found hit ∧ hit.candidate = candidate := by
  have listed (candidate : Candidate) : candidate ∈ best :: others ↔ ∃ hit ∈ found, hit.candidate = candidate := by
    rw [← sorted, mem_mergeSort, mem_map]
  have ascends : (best :: others).Pairwise fun first second => first.priority ≤ second.priority := by
    rw [← sorted]
    refine (pairwise_mergeSort (fun first second third => ?_) (fun first second => ?_) _).imp
      fun {first second} => ?_
    · simp only [sortsUpTo_iff]
      omega
    · rw [Bool.or_eq_true]
      simp only [sortsUpTo_iff]
      omega
    · rw [sortsUpTo_iff]
      omega
  have least : ∀ other ∈ best :: others, best.priority ≤ other.priority :=
    forall_mem_cons.mpr ⟨Nat.le_refl _, (pairwise_cons.mp ascends).1⟩
  rw [mem_takeWhile_least ascends least]
  obtain ⟨first, member, same⟩ := (listed best).mp mem_cons_self
  constructor
  · rintro ⟨there, equal⟩
    obtain ⟨hit, inside, rfl⟩ := (listed candidate).mp there
    refine ⟨hit, ⟨inside, fun other present => ?_⟩, rfl⟩
    refine (pathPriority_le (nonempty hit inside) (nonempty other present)).mp ?_
    exact equal.le.trans (least other.candidate ((listed _).mpr ⟨other, present, rfl⟩))
  · rintro ⟨hit, ⟨inside, before⟩, rfl⟩
    have there : hit.candidate ∈ best :: others := (listed _).mpr ⟨hit, inside, rfl⟩
    refine ⟨there, Nat.le_antisymm ?_ (least _ there)⟩
    rw [← same]
    exact (pathPriority_le (nonempty hit inside) (nonempty first member)).mpr (before first member)

/-- **What is made of the matches** is what they name. -/
theorem bestReference_names (nonempty : ∀ hit ∈ found, hit.path ≠ []) :
    Names found (bestReference (found.map Hit.candidate)) := by
  unfold bestReference
  cases sorted : (found.map Hit.candidate).mergeSort sortsUpTo with
  | nil =>
    have none : found = [] := by
      have length := congrArg List.length sorted
      rw [length_mergeSort, length_map] at length
      exact eq_nil_of_length_eq_zero length
    subst none
    exact ⟨⟨fun _ => rfl, fun _ => rfl⟩, fun _ ⟨_, listed, _⟩ _ => absurd listed not_mem_nil,
      fun _ _ listed => absurd listed.1 not_mem_nil⟩
  | cons best others =>
    simp only
    generalize front : (best :: others).takeWhile (fun candidate => candidate.priority == best.priority) = peers
    have peer (candidate : Candidate) : candidate ∈ peers ↔ ∃ hit, Best found hit ∧ hit.candidate = candidate := by
      rw [← front]
      exact mem_peers nonempty sorted
    have uids (uid : String) : uid ∈ peers.map Candidate.uid ↔ ∃ hit, Best found hit ∧ hit.uid = uid := by
      rw [mem_map]
      constructor
      · rintro ⟨candidate, listed, rfl⟩
        obtain ⟨hit, top, rfl⟩ := (peer candidate).mp listed
        exact ⟨hit, top, rfl⟩
      · rintro ⟨hit, top, rfl⟩
        exact ⟨hit.candidate, (peer _).mpr ⟨hit, top, rfl⟩, rfl⟩
    obtain ⟨first, top, same⟩ := (peer best).mp (by
      rw [← front, takeWhile_cons, if_pos (beq_self_eq_true _)]
      exact mem_cons_self)
    have own : first.uid ∈ peers.map Candidate.uid := (uids _).mpr ⟨first, top, rfl⟩
    refine ⟨⟨fun absent => ?_, fun none => ?_⟩, fun uid _ only => ?_, fun one other here there different => ?_⟩
    · -- either way the UIDs of the best are listed
      have listed : (sortDedup (peers.map Candidate.uid)) = [] := by
        split at absent
        · exact congrArg ModelReference.candidates absent
        · exact congrArg ModelReference.candidates absent
      have member := mem_sortDedup.mpr own
      rw [listed] at member
      cases member
    · rw [none] at top
      exact absurd top.1 not_mem_nil
    · obtain rfl := only first top
      have single : sortDedup (peers.map Candidate.uid) = [first.uid] :=
        sortDedup_single own fun uid listed => by
          obtain ⟨hit, best, rfl⟩ := (uids uid).mp listed
          exact only hit best
      refine ⟨first, top, ?_⟩
      rw [single, if_neg (by simp), ← same]
      rfl
    · rw [if_pos (one_lt_length_sortDedup ((uids _).mpr ⟨one, here, rfl⟩) ((uids _).mpr ⟨other, there, rfl⟩) different)]
      exact ⟨_, rfl, pairwise_sortDedup _, fun uid => mem_sortDedup.trans (uids uid)⟩

end Best

/-! ### Trees of messages -/

/-- A field of a message, or a message in a field. -/
inductive Node where
  | field (field : Field) (numbered : field.number ≠ 0)
  | message (number : UInt32) (numbered : number ≠ 0) (nodes : List Node)

mutual

/-- A node as a field. -/
def Node.toField : Node → Field
  | .field field _ => field
  | .message number _ nodes => ⟨number, .bytes (encodedAll (toFields nodes))⟩

/-- Nodes as fields. -/
def toFields : List Node → List Field
  | [] => []
  | node :: nodes => node.toField :: toFields nodes

end

theorem toFields_eq (nodes : List Node) : toFields nodes = nodes.map Node.toField := by
  induction nodes with
  | nil => rw [toFields, map_nil]
  | cons node nodes ih => rw [toFields, map_cons, ih]

theorem mem_toFields {nodes : List Node} {node : Node} (listed : node ∈ nodes) : node.toField ∈ toFields nodes := by
  rw [toFields_eq]
  exact mem_map_of_mem listed

theorem numbered_toFields (nodes : List Node) : ∀ field ∈ toFields nodes, field.number ≠ 0 := by
  rw [toFields_eq]
  intro field listed
  obtain ⟨node, -, rfl⟩ := mem_map.mp listed
  cases node with
  | field field numbered =>
    rw [Node.toField]
    exact numbered
  | message number numbered nodes =>
    rw [Node.toField]
    exact numbered

/-- A bytes field of a tree: the nested messages are such fields too. -/
inductive Holds : List Node → Place → Prop
  | field {nodes : List Node} {number : UInt32} {value : List UInt8} {numbered : number ≠ 0}
      (listed : .field ⟨number, .bytes value⟩ numbered ∈ nodes) : Holds nodes ⟨[number], [], value⟩
  | message {nodes inner : List Node} {number : UInt32} {numbered : number ≠ 0}
      (listed : .message number numbered inner ∈ nodes) : Holds nodes ⟨[number], [], encodedAll (toFields inner)⟩
  | inside {nodes inner : List Node} {number : UInt32} {numbered : number ≠ 0} {place : Place}
      (listed : .message number numbered inner ∈ nodes) (holds : Holds inner place) :
      Holds nodes (place.under number (encodedAll (toFields inner)))

theorem length_encodedAll_le {fields : List Field} {number : UInt32} {value : List UInt8}
    (listed : ⟨number, .bytes value⟩ ∈ fields) : value.length ≤ (encodedAll fields).length := by
  induction fields with
  | nil => cases listed
  | cons field fields ih =>
    rw [encodedAll, flatMap_cons, length_append]
    rcases mem_cons.mp listed with rfl | listed
    · rw [Field.encoded, FieldValue.encoded]
      simp only [length_append]
      omega
    · exact (ih listed).trans (Nat.le_add_left _ _)

theorem parseFields_toFields {nodes : List Node} (fits : (encodedAll (toFields nodes)).length ≤ usizeMax) :
    parseFields (encodedAll (toFields nodes)) = .ok (toFields nodes) :=
  parseFrom_encoded (numbered_toFields nodes) rfl (fitsAt_of_le (by omega))

/-- **Every bytes field of a tree is one of its bytes.** -/
theorem lies_of_holds {nodes : List Node} {place : Place} (holds : Holds nodes place)
    (fits : (encodedAll (toFields nodes)).length ≤ usizeMax) : Lies (encodedAll (toFields nodes)) place := by
  induction holds with
  | field listed =>
    have member := mem_toFields listed
    rw [Node.toField] at member
    exact .here (parseFields_toFields fits) member
  | message listed =>
    have member := mem_toFields listed
    rw [Node.toField] at member
    exact .here (parseFields_toFields fits) member
  | inside listed _ ih =>
    have member := mem_toFields listed
    rw [Node.toField] at member
    exact .inside (parseFields_toFields fits) member (ih ((length_encodedAll_le member).trans fits))

/-! ### The model of a request -/

section Request

variable {candidates : Finset String} {sessions : AssignmentSessions} {now : Nat} {payload : List UInt8}
  {headers : List (List UInt8)}

variable (sessions now headers) in
/-- The headers are texts, and neither they nor what they bear are live tokens. -/
def NoToken : Prop :=
  ∀ header ∈ headers, ∃ text, headerText header = .ok text ∧ (∀ uid, ¬ sessions.Live now text uid) ∧
    ∀ token, stripPrefix text "Bearer " = some token → ∀ uid, ¬ sessions.Live now token uid

variable (candidates sessions now payload headers) in
/-- The model is found: what is considered are the hits, and what is answered is what they name. -/
structure FindsModel : Prop where
  considers : findMatches candidates sessions now payload =
    .ok ((hits candidates sessions now payload).map Hit.candidate)
  answers : ∃ reference, findModelReference candidates sessions now payload headers = .ok reference ∧
    Names (hits candidates sessions now payload) reference

theorem scanHeaders_none (quiet : NoToken sessions now headers) : scanHeaders sessions now headers = .ok none := by
  induction headers with
  | nil => rfl
  | cons header headers ih =>
    obtain ⟨text, read, dead, bearer⟩ := quiet header mem_cons_self
    have unknown {token : String} (dead : ∀ uid, ¬ sessions.Live now token uid) :
        sessions.uidForToken now token = none :=
      Option.eq_none_iff_forall_ne_some.mpr fun uid found => dead uid ((sessions.uidForToken_iff now).mp found)
    have passed : headerReference sessions now text = none := by
      rw [headerReference, unknown dead]
      cases stripped : stripPrefix text "Bearer " with
      | none => rfl
      | some token =>
        simp only [Option.bind_some]
        rw [unknown (bearer token stripped)]
        rfl
    rw [scanHeaders, read, except_ok_bind, passed]
    exact ih fun other listed => quiet other (mem_cons_of_mem _ listed)

/-- Elements are passed over unless they meet a condition: nothing is missed exactly when all that give something do. -/
theorem filterMap_guard {α β : Type} {holds : α → Prop} [DecidablePred holds] {f : α → Option β} (list : List α) :
    list.filterMap (fun element => if holds element then f element else none) = list.filterMap f ↔
      ∀ element ∈ list, (f element).isSome = true → holds element := by
  induction list with
  | nil => exact ⟨fun _ _ listed => absurd listed not_mem_nil, fun _ => rfl⟩
  | cons element list ih =>
    have fewer : (list.filterMap fun element => if holds element then f element else none).length ≤
        (list.filterMap f).length := by
      clear ih
      induction list with
      | nil => exact Nat.le_refl 0
      | cons element list ih =>
        simp only [filterMap_cons]
        by_cases meets : holds element
        · rw [if_pos meets]
          cases f element with
          | none => exact ih
          | some value => exact Nat.succ_le_succ ih
        · rw [if_neg meets]
          cases f element with
          | none => exact ih
          | some value => exact ih.trans (Nat.le_succ _)
    rw [forall_mem_cons, ← ih]
    simp only [filterMap_cons]
    cases gives : f element with
    | none =>
      rw [ite_self]
      exact ⟨fun same => ⟨fun some => absurd some (by simp), same⟩, And.right⟩
    | some value =>
      by_cases meets : holds element
      · rw [if_pos meets]
        exact ⟨fun same => ⟨fun _ => meets, (List.cons.inj same).2⟩, fun same => congrArg _ same.2⟩
      · rw [if_neg meets]
        constructor
        · intro same
          have length := congrArg List.length same
          rw [length_cons] at length
          simp only at length
          omega
        · exact fun met => absurd (met.1 rfl) meets

/-- **The hits are all considered exactly when every message that encloses one is valid UTF-8.** -/
theorem findMatches_hits_iff {fields : List Field} (parsed : parseFields payload = .ok fields) :
    findMatches candidates sessions now payload = .ok ((hits candidates sessions now payload).map Hit.candidate) ↔
      Readable candidates sessions now payload := by
  have all : (hits candidates sessions now payload).map Hit.candidate =
      (places maxScanDepth fields).filterMap fun place => (hit candidates sessions now place).map Hit.candidate := by
    rw [hits, parsed, map_filterMap]
  have found : findMatches candidates sessions now payload =
      .ok ((places maxScanDepth fields).filterMap fun place =>
        if place.Plain then (hit candidates sessions now place).map Hit.candidate else none) := findMatches_eq parsed
  rw [found, all, Except.ok.injEq, filterMap_guard]
  constructor
  · intro plain place lies near some
    exact plain place ((mem_places parsed).mpr ⟨lies, near⟩) (by rw [Option.isSome_map]; exact some)
  · intro readable place listed some
    obtain ⟨lies, near⟩ := (mem_places parsed).mp listed
    exact readable place lies near (by rwa [Option.isSome_map] at some)

theorem path_ne_nil_of_mem_hits {hit : Hit} (listed : hit ∈ hits candidates sessions now payload) : hit.path ≠ [] := by
  unfold hits at listed
  split at listed
  · rename_i fields parsed
    obtain ⟨place, there, found⟩ := mem_filterMap.mp listed
    obtain ⟨_, -, rfl⟩ := Option.map_eq_some_iff.mp found
    cases ((mem_places parsed).mp there).1 with
    | here => exact cons_ne_nil _ _
    | inside => exact cons_ne_nil _ _
  · cases listed

/-- **The model of a request is found exactly when every message that encloses a hit is valid UTF-8.** The bytes fields of
the tree are among those that are looked for. -/
theorem findsModel_iff {nodes : List Node} (written : serializeFields (toFields nodes) = .ok payload)
    (fits : payload.length ≤ usizeMax) (quiet : NoToken sessions now headers) :
    (FindsModel candidates sessions now payload headers ↔ Readable candidates sessions now payload) ∧
      ∀ place, Holds nodes place → Lies payload place := by
  obtain rfl : encodedAll (toFields nodes) = payload :=
    Except.ok.inj ((serializeFields_eq (numbered_toFields nodes)).symm.trans written)
  have considers := @findMatches_hits_iff candidates sessions now _ _ (parseFields_toFields fits)
  refine ⟨⟨fun finds => considers.mp finds.considers, fun readable => ⟨considers.mpr readable, ?_⟩⟩,
    fun place holds => lies_of_holds holds fits⟩
  refine ⟨_, ?_, bestReference_names fun hit listed => path_ne_nil_of_mem_hits listed⟩
  rw [findModelReference, scanHeaders_none quiet, except_ok_bind, considers.mpr readable]
  rfl

end Request

/-- A text beside a message that names a model. -/
def plainTree : List Node :=
  [.field ⟨1, .bytes (textBytes "hello")⟩ (by decide),
    .message 3 (by decide) [.field ⟨1, .bytes (textBytes "model-a")⟩ (by decide), .field ⟨2, .varint 7⟩ (by decide)]]

/-- The bytes of `plainTree`. -/
def plainPayload : List UInt8 :=
  [0x0a, 5, 0x68, 0x65, 0x6c, 0x6c, 0x6f, 0x1a, 11, 0x0a, 7, 0x6d, 0x6f, 0x64, 0x65, 0x6c, 0x2d, 0x61, 0x10, 7]

theorem findsModel_iff_plain :
    serializeFields (toFields plainTree) = .ok plainPayload ∧ plainPayload.length ≤ usizeMax ∧
      NoToken .empty 0 [] ∧ FindsModel {"model-a"} .empty 0 plainPayload [] := by
  have written : serializeFields (toFields plainTree) = .ok plainPayload := by decide +kernel
  have fits : plainPayload.length ≤ usizeMax := by decide
  have quiet : NoToken .empty 0 [] := fun _ listed => absurd listed not_mem_nil
  have parsed : parseFields plainPayload = .ok (toFields plainTree) := by decide +kernel
  have readable : Readable {"model-a"} .empty 0 plainPayload := (findMatches_hits_iff parsed).mp (by decide +kernel)
  exact ⟨written, fits, quiet, (findsModel_iff written fits quiet).1.mpr readable⟩

/-- A message that names a model, with a byte in it that is no text. -/
def hiddenTree : List Node :=
  [.message 3 (by decide) [.field ⟨1, .bytes (textBytes "model-a")⟩ (by decide), .field ⟨2, .bytes [0xff]⟩ (by decide)]]

/-- The bytes of `hiddenTree`. -/
def hiddenPayload : List UInt8 :=
  [0x1a, 12, 0x0a, 7, 0x6d, 0x6f, 0x64, 0x65, 0x6c, 0x2d, 0x61, 0x12, 1, 0xff]

/-- A byte that is no text hides the model beside it: the request is answered with the default. -/
theorem binary_neighbour_hides :
    serializeFields (toFields hiddenTree) = .ok hiddenPayload ∧ NoToken .empty 0 [] ∧
      hits {"model-a"} .empty 0 hiddenPayload = [⟨"model-a", "uid", [3, 1]⟩] ∧
      findModelReference {"model-a"} .empty 0 hiddenPayload [] = .ok {} ∧
      ¬ FindsModel {"model-a"} .empty 0 hiddenPayload [] := by
  have there : hits {"model-a"} .empty 0 hiddenPayload = [⟨"model-a", "uid", [3, 1]⟩] := by decide +kernel
  have missed : findMatches {"model-a"} .empty 0 hiddenPayload = .ok [] := by decide +kernel
  refine ⟨by decide +kernel, fun _ listed => absurd listed not_mem_nil, there, by decide +kernel, fun finds => ?_⟩
  have considers := finds.considers
  rw [missed, there] at considers
  cases considers

end Byok.Devin
