/-
**What is collected of the blobs.**

A pass pins what was used lately, what traces, conversations and images name, and all that these
lead to.

* `collectBlobs_spares` — a pass takes nothing that is pinned, and keeps the edges between what it
  spares. Whether it is skipped makes no difference.
* `collectPasses_exhaust` — enough passes take all that is not pinned.
-/

import Byok.Library.Fallible
import Byok.Store.Blobs
import Mathlib.Data.List.Nodup

namespace Byok

open Library Reachable List

namespace BlobTables

/-! ### What is pinned -/

/-- A blob is named by its data, and there is one of a name. Edges and artifacts name blobs that are
there. -/
structure Sound (codec : BlobCodec) (tables : BlobTables) : Prop where
  named : ∀ row ∈ tables.blobs, row.blobId = codec.sha256 row.data
  distinct : tables.ids.Nodup
  edges : ∀ edge ∈ tables.blobEdges, edge.parentBlobId ∈ tables.ids ∧ edge.childBlobId ∈ tables.ids
  artifacts : ∀ artifact ∈ tables.artifacts, artifact.blobId ∈ tables.ids

/-- What a pass starts from leads to the blob. -/
def Pinned (unrootedCutoff : Int) (images : List BlobId) (tables : BlobTables) (blobId : BlobId) :
    Prop :=
  Reaches tables.edges (tables.retainedFrom unrootedCutoff images) blobId

section Collecting

variable {codec : BlobCodec} {tables : BlobTables} {order : List BlobId} {unrootedCutoff : Int}
  {images : List BlobId}

theorem mem_retainedBlobs_iff {blobId : BlobId} :
    blobId ∈ tables.retainedBlobs unrootedCutoff images ↔
      tables.Pinned unrootedCutoff images blobId := by
  rw [retainedBlobs, mem_walked_iff]
  exact ⟨fun reached => reached.mono (List.Subset.refl _) (dedup_subset _),
    fun reached => reached.mono (List.Subset.refl _) (subset_dedup _)⟩

theorem mem_looseBlobs_iff {blobId : BlobId} : blobId ∈ tables.looseBlobs unrootedCutoff images ↔
    blobId ∈ tables.ids ∧ ¬ tables.Pinned unrootedCutoff images blobId := by
  simp only [looseBlobs, unretained, ids, mem_map, mem_filter, decide_eq_true_eq,
    mem_retainedBlobs_iff]
  constructor
  · rintro ⟨row, ⟨listed, free⟩, rfl⟩
    exact ⟨⟨row, listed, rfl⟩, free⟩
  · rintro ⟨⟨row, listed, rfl⟩, free⟩
    exact ⟨row, ⟨listed, free⟩, rfl⟩

theorem mem_retainedFrom_iff {blobId : BlobId} :
    blobId ∈ tables.retainedFrom unrootedCutoff images ↔
    (∃ row ∈ tables.blobs, unrootedCutoff ≤ row.lastUsedAtMs ∧ row.blobId = blobId) ∨
      (∃ artifact ∈ tables.artifacts, artifact.blobId = blobId) ∨
      (∃ root ∈ tables.conversationBlobRoots, root.2 = blobId) ∨ blobId ∈ images := by
  simp only [retainedFrom, recent, mem_append, mem_map, mem_filter, decide_eq_true_eq, and_assoc,
    or_assoc]

theorem pinned_of_recent {row : BlobRow} (listed : row ∈ tables.blobs)
    (recent : unrootedCutoff ≤ row.lastUsedAtMs) :
    tables.Pinned unrootedCutoff images row.blobId :=
  Reaches.root (mem_retainedFrom_iff.mpr (.inl ⟨row, listed, recent, rfl⟩))

theorem pinned_of_expired {blobId : BlobId}
    (expired : blobId ∈ tables.expiredBlobs order unrootedCutoff images) :
    blobId ∈ tables.ids ∧ ¬ tables.Pinned unrootedCutoff images blobId :=
  mem_looseBlobs_iff.mp (limited_subset expired)

theorem Pinned.earlier {earlier : Int} {blobId : BlobId}
    (pinned : tables.Pinned unrootedCutoff images blobId)
    (le : earlier ≤ unrootedCutoff) : tables.Pinned earlier images blobId := by
  refine pinned.mono (List.Subset.refl _) fun other listed => mem_retainedFrom_iff.mpr ?_
  exact (mem_retainedFrom_iff.mp listed).imp_left
    fun ⟨row, listed, recent, named⟩ => ⟨row, listed, Int.le_trans le recent, named⟩

/-! ### Deleting -/

theorem edges_deleteBlobs (expired : List BlobId) :
    (tables.deleteBlobs expired).edges = sweep (· ∉ expired) tables.edges := by
  simp only [edges, deleteBlobs, sweep, filter_map, Function.comp_def]

theorem mem_deleteBlobs_iff {expired : List BlobId} {row : BlobRow} :
    row ∈ (tables.deleteBlobs expired).blobs ↔ row ∈ tables.blobs ∧ row.blobId ∉ expired := by
  simp [deleteBlobs, mem_filter]

theorem mem_ids_deleteBlobs_iff {expired : List BlobId} {blobId : BlobId} :
    blobId ∈ (tables.deleteBlobs expired).ids ↔ blobId ∈ tables.ids ∧ blobId ∉ expired := by
  simp only [ids, mem_map, mem_deleteBlobs_iff]
  constructor
  · rintro ⟨row, ⟨listed, stays⟩, rfl⟩
    exact ⟨⟨row, listed, rfl⟩, stays⟩
  · rintro ⟨⟨row, listed, rfl⟩, stays⟩
    exact ⟨row, ⟨listed, stays⟩, rfl⟩

theorem Pinned.of_deleteBlobs {expired : List BlobId} {blobId : BlobId}
    (pinned : (tables.deleteBlobs expired).Pinned unrootedCutoff images blobId) :
    tables.Pinned unrootedCutoff images blobId := by
  refine pinned.mono (edges_deleteBlobs expired ▸ filter_subset_self _) fun other listed => ?_
  refine mem_retainedFrom_iff.mpr ((mem_retainedFrom_iff.mp listed).imp_left ?_)
  exact fun ⟨row, listed, recent, named⟩ => ⟨row, (mem_deleteBlobs_iff.mp listed).1, recent, named⟩

/-- **What is pinned stays pinned** when only blobs are deleted that are not, then and at every
later cutoff. -/
theorem pinned_deleteBlobs_iff {expired : List BlobId} {later : Int} {blobId : BlobId}
    (free : ∀ other ∈ expired, ¬ tables.Pinned unrootedCutoff images other)
    (le : unrootedCutoff ≤ later) :
    (tables.deleteBlobs expired).Pinned later images blobId ↔
    tables.Pinned later images blobId := by
  refine ⟨Pinned.of_deleteBlobs, fun pinned => ?_⟩
  have stays (other : BlobId) (reached : tables.Pinned later images other) : other ∉ expired :=
    fun listed => free other listed (reached.earlier le)
  have kept : Reaches (tables.deleteBlobs expired).edges (tables.retainedFrom later images)
    blobId := by
    rw [edges_deleteBlobs, reaches_sweep_iff fun other reached => decide_eq_true
      (stays other reached)]
    exact pinned
  refine kept.mono (List.Subset.refl _) fun other listed => ?_
  refine mem_retainedFrom_iff.mpr ((mem_retainedFrom_iff.mp listed).imp_left ?_)
  rintro ⟨row, there, recent, rfl⟩
  exact ⟨row, mem_deleteBlobs_iff.mpr ⟨there, stays _ (pinned_of_recent there recent)⟩, recent, rfl⟩

theorem Sound.deleteBlobs (sound : tables.Sound codec) {expired : List BlobId}
    (free : ∀ artifact ∈ tables.artifacts, artifact.blobId ∉ expired) :
    (tables.deleteBlobs expired).Sound codec := by
  constructor
  case named => exact fun row listed => sound.named row (mem_deleteBlobs_iff.mp listed).1
  case distinct => exact sound.distinct.sublist (filter_sublist.map _)
  case edges =>
    intro edge listed
    simp only [BlobTables.deleteBlobs, mem_filter, Bool.and_eq_true, decide_eq_true_eq] at listed
    obtain ⟨listed, parent, child⟩ := listed
    obtain ⟨above, below⟩ := sound.edges edge listed
    exact ⟨mem_ids_deleteBlobs_iff.mpr ⟨above, parent⟩, mem_ids_deleteBlobs_iff.mpr ⟨below, child⟩⟩
  case artifacts =>
    exact fun artifact listed =>
      mem_ids_deleteBlobs_iff.mpr ⟨sound.artifacts artifact listed, free artifact listed⟩

/-! ### A pass -/

/-- What a pass leaves, where these are the images of messages. -/
structure Spared (unrootedCutoff : Int) (images : List BlobId) (tables after : BlobTables) :
    Prop where
  blobs : after.blobs.Sublist tables.blobs
  rows : ∀ row ∈ tables.blobs, tables.Pinned unrootedCutoff images row.blobId → row ∈ after.blobs
  edges : after.blobEdges.Sublist tables.blobEdges
  leads : ∀ edge ∈ tables.blobEdges, tables.Pinned unrootedCutoff images edge.parentBlobId →
    edge ∈ after.blobEdges
  pinned : ∀ later blobId, unrootedCutoff ≤ later →
    (after.Pinned later images blobId ↔ tables.Pinned later images blobId)
  bounded : tables.blobs.length ≤ after.blobs.length + maxPrunedBlobsPerPass
  thorough : tables.blobs.length < after.blobs.length + maxPrunedBlobsPerPass →
    ∀ row ∈ after.blobs, tables.Pinned unrootedCutoff images row.blobId
  others : after = { tables with blobs := after.blobs, blobEdges := after.blobEdges }

theorem length_deleteBlobs (sound : tables.Sound codec) {expired : List BlobId}
    (once : expired.Nodup)
    (within : expired ⊆ tables.ids) :
    (tables.deleteBlobs expired).blobs.length + expired.length = tables.blobs.length := by
  have counted := length_filter_notMem sound.distinct once within
  simpa only [ids, filter_map, length_map, Function.comp_def, BlobTables.deleteBlobs] using counted

theorem nodup_looseBlobs (sound : tables.Sound codec) :
    (tables.looseBlobs unrootedCutoff images).Nodup :=
  sound.distinct.sublist (filter_sublist.map _)

theorem nodup_expiredBlobs (sound : tables.Sound codec) :
    (tables.expiredBlobs order unrootedCutoff images).Nodup :=
  nodup_limited (nodup_looseBlobs sound)

theorem length_expiredBlobs (sound : tables.Sound codec) :
    (tables.expiredBlobs order unrootedCutoff images).length =
    min maxPrunedBlobsPerPass (tables.looseBlobs unrootedCutoff images).length :=
  length_limited (nodup_looseBlobs sound)

theorem pinned_of_few (sound : tables.Sound codec)
    (few : (tables.looseBlobs unrootedCutoff images).length ≤ maxPrunedBlobsPerPass) {row : BlobRow}
    (listed : row ∈ (tables.deleteBlobs (tables.expiredBlobs order unrootedCutoff images)).blobs) :
    tables.Pinned unrootedCutoff images row.blobId := by
  obtain ⟨before, stays⟩ := mem_deleteBlobs_iff.mp listed
  rw [expiredBlobs, mem_limited_of_few (nodup_looseBlobs sound) few, mem_looseBlobs_iff] at stays
  by_contra loose
  exact stays ⟨mem_map_of_mem before, loose⟩

theorem Spared.sweep (sound : tables.Sound codec) :
    Spared unrootedCutoff images tables
      (tables.deleteBlobs (tables.expiredBlobs order unrootedCutoff images)) := by
  have free (other : BlobId) (expired : other ∈ tables.expiredBlobs order unrootedCutoff images) :=
    (pinned_of_expired expired).2
  have within : tables.expiredBlobs order unrootedCutoff images ⊆ tables.ids :=
    fun other expired => (pinned_of_expired expired).1
  have counted := length_deleteBlobs sound (nodup_expiredBlobs sound) within
  have most : (tables.expiredBlobs order unrootedCutoff images).length ≤ maxPrunedBlobsPerPass :=
    (length_expiredBlobs sound).trans_le (Nat.min_le_left _ _)
  constructor
  case blobs => exact filter_sublist
  case rows =>
    exact fun row listed pinned => mem_deleteBlobs_iff.mpr ⟨listed,
      fun expired => free _ expired pinned⟩
  case edges => exact filter_sublist
  case leads =>
    intro edge listed pinned
    have child : tables.Pinned unrootedCutoff images edge.childBlobId :=
      Reaches.tail pinned (mem_map.mpr ⟨edge, listed, rfl⟩)
    simp only [BlobTables.deleteBlobs, mem_filter, Bool.and_eq_true, decide_eq_true_eq]
    exact ⟨listed, fun expired => free _ expired pinned, fun expired => free _ expired child⟩
  case pinned => exact fun later blobId le => pinned_deleteBlobs_iff free le
  case bounded => omega
  case thorough =>
    intro fewer row listed
    refine pinned_of_few sound ?_ listed
    by_contra more
    have full : (tables.expiredBlobs order unrootedCutoff images).length = maxPrunedBlobsPerPass :=
      (length_expiredBlobs sound).trans (Nat.min_eq_left (Nat.le_of_not_le more))
    omega
  case others => rfl

theorem pinned_of_skipped (skipped : tables.hasExpiredBlobCandidates unrootedCutoff = false)
    {row : BlobRow}
    (listed : row ∈ tables.blobs) : tables.Pinned unrootedCutoff images row.blobId := by
  have spared := any_eq_false.mp skipped row listed
  simp only [Bool.and_eq_true, decide_eq_true_eq, Bool.not_eq_true', not_and, Bool.not_eq_false,
    any_eq_true,
    and_imp] at spared
  by_cases stale : row.lastUsedAtMs < unrootedCutoff
  · refine Reaches.root (mem_retainedFrom_iff.mpr (.inr ?_))
    by_cases rooted : tables.conversationBlobRoots.any (·.2 = row.blobId) = true
    · obtain ⟨root, there, named⟩ := any_eq_true.mp rooted
      exact .inr (.inl ⟨root, there, of_decide_eq_true named⟩)
    · obtain ⟨artifact, there, named⟩ := spared stale (Bool.eq_false_iff.mpr rooted)
      exact .inl ⟨artifact, there, named⟩
  · exact pinned_of_recent listed (Int.not_lt.mp stale)

theorem deleteBlobs_nil : tables.deleteBlobs [] = tables := by
  simp [deleteBlobs]

/-- **A pass that is skipped would have taken nothing.** -/
theorem collectBlobs_eq (decoded : tables.imageBlobs codec = .ok images) :
    tables.collectBlobs codec order unrootedCutoff =
      tables.sweepBlobs codec order unrootedCutoff := by
  by_cases candidates : tables.hasExpiredBlobCandidates unrootedCutoff = true
  · rw [collectBlobs, if_pos candidates]
  · rw [Bool.not_eq_true] at candidates
    have none : tables.expiredBlobs order unrootedCutoff images = [] := by
      refine eq_nil_iff_forall_not_mem.mpr fun blobId expired => ?_
      obtain ⟨there, loose⟩ := pinned_of_expired expired
      obtain ⟨row, listed, rfl⟩ := mem_map.mp there
      exact loose (pinned_of_skipped candidates listed)
    simp only [collectBlobs, candidates, sweepBlobs, decoded, except_ok_bind, none, deleteBlobs_nil,
      Bool.false_eq_true,
      if_false]

theorem sweepBlobs_eq (decoded : tables.imageBlobs codec = .ok images) :
    tables.sweepBlobs codec order unrootedCutoff =
    .ok (tables.deleteBlobs (tables.expiredBlobs order unrootedCutoff images)) := by
  rw [sweepBlobs, decoded, except_ok_bind]

theorem Sound.sweep (sound : tables.Sound codec) :
    (tables.deleteBlobs (tables.expiredBlobs order unrootedCutoff images)).Sound codec := by
  refine sound.deleteBlobs fun artifact listed expired => (pinned_of_expired expired).2 ?_
  exact Reaches.root (mem_retainedFrom_iff.mpr (.inr (.inl ⟨artifact, listed, rfl⟩)))

/-- **A pass of sound tables spares all that is pinned**, whether or not it is skipped, and leaves
the tables sound. -/
theorem collectBlobs_spares (sound : tables.Sound codec)
    (decoded : tables.imageBlobs codec = .ok images) :
    ∃ after, tables.collectBlobs codec order unrootedCutoff = .ok after ∧
      tables.sweepBlobs codec order unrootedCutoff = .ok after ∧
        Spared unrootedCutoff images tables after ∧
      after.Sound codec := by
  have swept : tables.sweepBlobs codec order unrootedCutoff = _ := sweepBlobs_eq decoded
  exact ⟨_, (collectBlobs_eq decoded).trans swept, swept, .sweep sound, sound.sweep⟩

/-! ### Pass after pass -/

/-- Passes one after another, each with its order and its cutoff. -/
def collectPasses (codec : BlobCodec) (passes : List (List BlobId × Int)) (tables : BlobTables) :
    Except Error BlobTables :=
  passes.foldlM (fun tables pass => tables.collectBlobs codec pass.1 pass.2) tables

/-- What passes leave, where these are the images of messages. -/
def swept (images : List BlobId) (passes : List (List BlobId × Int)) (tables : BlobTables) :
    BlobTables :=
  passes.foldl (fun tables pass => tables.deleteBlobs (tables.expiredBlobs pass.1 pass.2 images))
    tables

theorem collectPasses_eq (decoded : tables.imageBlobs codec = .ok images)
    (passes : List (List BlobId × Int)) :
    tables.collectPasses codec passes = .ok (tables.swept images passes) := by
  induction passes generalizing tables with
  | nil => rfl
  | cons pass passes ih =>
    have same : (tables.deleteBlobs (tables.expiredBlobs pass.1 pass.2 images)).imageBlobs codec =
      .ok images := decoded
    rw [collectPasses, foldlM_cons, collectBlobs_eq decoded, sweepBlobs_eq decoded, except_ok_bind]
    exact ih same

theorem swept_sublist (passes : List (List BlobId × Int)) :
    (tables.swept images passes).blobs.Sublist tables.blobs := by
  induction passes generalizing tables with
  | nil => exact List.Sublist.refl _
  | cons pass passes ih => exact ih.trans filter_sublist

theorem mem_swept_of_pinned {passes : List (List BlobId × Int)} {last : Int}
    (within : ∀ pass ∈ passes, pass.2 ≤ last) {row : BlobRow}
    (listed : row ∈ tables.blobs) (pinned : tables.Pinned last images row.blobId) :
    row ∈ (tables.swept images passes).blobs := by
  induction passes generalizing tables with
  | nil => exact listed
  | cons pass passes ih =>
    have le := within pass mem_cons_self
    have free (other : BlobId) (expired : other ∈ tables.expiredBlobs pass.1 pass.2 images) :=
      (pinned_of_expired expired).2
    refine ih (fun other later => within other (mem_cons_of_mem _ later)) ?_ ?_
    · exact mem_deleteBlobs_iff.mpr ⟨listed, fun expired => free _ expired (pinned.earlier le)⟩
    · exact (pinned_deleteBlobs_iff free le).mpr pinned

theorem length_looseBlobs_sweep (sound : tables.Sound codec) {last : Int}
    (le : unrootedCutoff ≤ last)
    (many : maxPrunedBlobsPerPass ≤ (tables.looseBlobs unrootedCutoff images).length) :
    ((tables.deleteBlobs (tables.expiredBlobs order unrootedCutoff images)).looseBlobs
      last images).length +
      maxPrunedBlobsPerPass = (tables.looseBlobs last images).length := by
  have free (other : BlobId) (expired : other ∈ tables.expiredBlobs order unrootedCutoff images) :=
    (pinned_of_expired expired).2
  have within : tables.expiredBlobs order unrootedCutoff images ⊆
      tables.looseBlobs last images := by
    intro other expired
    obtain ⟨there, loose⟩ := pinned_of_expired expired
    exact mem_looseBlobs_iff.mpr ⟨there, fun pinned => loose (pinned.earlier le)⟩
  have counted := length_filter_notMem (nodup_looseBlobs sound) (nodup_expiredBlobs sound) within
  have full : (tables.expiredBlobs order unrootedCutoff images).length = maxPrunedBlobsPerPass :=
    (length_expiredBlobs sound).trans (Nat.min_eq_left many)
  have same : ((tables.deleteBlobs
    (tables.expiredBlobs order unrootedCutoff images)).looseBlobs last images).Perm
      ((tables.looseBlobs last images).filter
        (· ∉ tables.expiredBlobs order unrootedCutoff images)) := by
    refine (perm_ext_iff_of_nodup (nodup_looseBlobs sound.sweep)
      ((nodup_looseBlobs sound).filter _)).mpr ?_
    intro other
    simp only [mem_looseBlobs_iff, mem_ids_deleteBlobs_iff, pinned_deleteBlobs_iff free le,
      mem_filter,
      decide_eq_true_eq, and_left_comm, and_comm]
  rw [same.length_eq, ← full, counted]

theorem pinned_of_swept (sound : tables.Sound codec) {passes : List (List BlobId × Int)}
    {first last : Int} (le : first ≤ last)
    (within : ∀ pass ∈ passes, first ≤ pass.2 ∧ pass.2 ≤ last)
    (enough : (tables.looseBlobs last images).length ≤ maxPrunedBlobsPerPass * passes.length)
    {row : BlobRow}
    (listed : row ∈ (tables.swept images passes).blobs) :
    tables.Pinned first images row.blobId := by
  induction passes generalizing tables with
  | nil =>
    have none := eq_nil_of_length_eq_zero (Nat.le_zero.mp enough)
    have all := mt mem_looseBlobs_iff.mpr (none ▸ not_mem_nil :
      row.blobId ∉ tables.looseBlobs last images)
    exact (not_not.mp (not_and.mp all (mem_map_of_mem listed))).earlier le
  | cons pass passes ih =>
    obtain ⟨early, late⟩ := within pass mem_cons_self
    have rest := fun other later => within other (mem_cons_of_mem pass later)
    by_cases few : (tables.looseBlobs pass.2 images).length ≤ maxPrunedBlobsPerPass
    · exact (pinned_of_few sound few ((swept_sublist passes).subset listed)).earlier early
    · have fewer := @length_looseBlobs_sweep _ _ pass.1 _ _ sound _ late (Nat.le_of_not_le few)
      rw [length_cons, Nat.mul_succ] at enough
      exact (ih sound.sweep rest (by omega) listed).of_deleteBlobs

/-- **Enough passes collect all that is loose, and nothing else**: what is left was pinned at the
first of their cutoffs, and what is pinned at the last is left. -/
theorem collectPasses_exhaust (sound : tables.Sound codec)
    (decoded : tables.imageBlobs codec = .ok images)
    {passes : List (List BlobId × Int)} {first last : Int} (le : first ≤ last)
    (within : ∀ pass ∈ passes, first ≤ pass.2 ∧ pass.2 ≤ last)
    (enough : (tables.looseBlobs last images).length ≤ maxPrunedBlobsPerPass * passes.length) :
    ∃ after, tables.collectPasses codec passes = .ok after ∧
      (∀ row ∈ after.blobs, row ∈ tables.blobs ∧ tables.Pinned first images row.blobId) ∧
      ∀ row ∈ tables.blobs, tables.Pinned last images row.blobId → row ∈ after.blobs :=
  ⟨_, collectPasses_eq decoded passes,
    fun _ listed => ⟨(swept_sublist passes).subset listed,
      pinned_of_swept sound le within enough listed⟩,
    fun _ => mem_swept_of_pinned fun pass member => (within pass member).2⟩

theorem length_looseBlobs_le : (tables.looseBlobs unrootedCutoff images).length ≤
    tables.blobs.length := by
  rw [looseBlobs, unretained, length_map]
  exact length_filter_le _ _

end Collecting

end BlobTables

/-! ### A sample -/

/-- The digest of no bytes. -/
def emptyDigest : BlobId where
  bytes := [227, 176, 196, 66, 152, 252, 28, 20, 154, 251, 244, 200, 153, 111, 185, 36, 39, 174, 65,
    228, 100, 155,
    147, 76, 164, 149, 153, 27, 120, 82, 184, 85]
  size := rfl

/-- The digest of `abc`. -/
def abcDigest : BlobId where
  bytes := [186, 120, 22, 191, 143, 1, 207, 234, 65, 65, 64, 222, 93, 174, 34, 35, 176, 3, 97, 163,
    150, 23,
    122, 156, 180, 16, 255, 97, 242, 0, 21, 173]
  size := rfl

/-- The names of no bytes and of `abc`. -/
def sampleBlobCodec : BlobCodec where
  sha256 data := if data = [] then emptyDigest else abcDigest
  encode bytes := if bytes = emptyDigest.bytes then "47DEQpj8HBSa+/TImW+5JCeuQeRkm5NMpJWZG3hSuFU="
    else "ungWv48Bz+pBQUDeXa4iI7ADYaOWF3qctBD/YfIAFa0="
  decode value := .ok (if value =
    "47DEQpj8HBSa+/TImW+5JCeuQeRkm5NMpJWZG3hSuFU=" then emptyDigest.bytes
    else abcDigest.bytes)

/-- Two old blobs, of which a conversation names one. -/
def sampleBlobs : BlobTables where
  blobs := [⟨emptyDigest, [], 0, 0⟩, ⟨abcDigest, [97, 98, 99], 0, 0⟩]
  blobEdges := []
  conversationBlobRoots := [(⟨"conversation"⟩, abcDigest)]
  artifacts := []
  messageImageBlobs := []

theorem sampleBlobs_sound : sampleBlobs.Sound sampleBlobCodec :=
  ⟨by decide, by decide, nofun, nofun⟩

namespace BlobTables

theorem collectBlobs_spares_sample : ∃ after, sampleBlobs.collectBlobs sampleBlobCodec [] 10 =
    .ok after ∧
    sampleBlobs.sweepBlobs sampleBlobCodec [] 10 = .ok after ∧ Spared 10 [] sampleBlobs after ∧
      after.Sound sampleBlobCodec :=
  collectBlobs_spares sampleBlobs_sound rfl

theorem collectPasses_exhaust_sample : ∃ after, sampleBlobs.collectPasses sampleBlobCodec [([], 10),
    ([], 20)] = .ok after ∧
    (∀ row ∈ after.blobs, row ∈ sampleBlobs.blobs ∧ sampleBlobs.Pinned 10 [] row.blobId) ∧
    ∀ row ∈ sampleBlobs.blobs, sampleBlobs.Pinned 20 [] row.blobId → row ∈ after.blobs :=
  collectPasses_exhaust sampleBlobs_sound rfl (by decide) (by decide)
    (Nat.le_trans length_looseBlobs_le (by decide))

end BlobTables

end Byok
