/-
**The extension over whole runs of its patch.**

The operations in any order, each cut off anywhere or with any of its steps failing, and updates of the extension
between them.

* `Held` — what every step keeps of the files while the extension is the original one.
* `LosesReceipt` — what becomes of the steps of a patch that loses its receipt.
* `restorePersisted_held`, `apply_held` and their like — the operations keep `Held`, where no recovery overwrites the
  host file and no patch loses its receipt.
-/

import Byok.Devin.PatchSteps
import Byok.Library.System

namespace Byok.Devin.HostPatch

open Library

/-- What the digest and the encoding of receipts are documented to do. -/
structure Host.Documented (host : Host) : Prop where
  sha256_injective : Function.Injective host.sha256
  fromSlice_toVec : ∀ receipt bytes, host.toVec receipt = .ok bytes → host.fromSlice bytes = some receipt

/-- The original without its gate. -/
def patchOf (original : ByteArray) : Option ByteArray :=
  (String.fromUTF8? original).bind fun content => (patchContent content).toOption.map String.toByteArray

/-! ### The bytes without the gate -/

theorem patchContent_counts {content patched : String} (patch : patchContent content = .ok patched) :
    (matchCount cleanGate content = 1 ∧ matchCount patchedGate content = 0) ∧
      matchCount cleanGate patched = 0 ∧ matchCount patchedGate patched = 1 := by
  unfold patchContent at patch
  split at patch
  case isTrue => cases patch
  case isFalse before =>
    dsimp only at patch
    split at patch
    case isTrue => cases patch
    case isFalse after =>
      obtain rfl := Except.ok.inj patch
      simp only [not_or, ne_eq, Decidable.not_not] at before after
      exact ⟨before, after.2, after.1⟩

theorem fromUTF8?_toByteArray (text : String) : String.fromUTF8? text.toByteArray = some text := by
  unfold String.fromUTF8?
  rw [dif_pos text.isValidUTF8]
  rfl

section Bytes

variable (host : Host) {original patched : ByteArray}

theorem patchOf_eq_some (patch : patchOf original = some patched) :
    ∃ content text, String.fromUTF8? original = some content ∧ patchContent content = .ok text ∧
      patched = text.toByteArray := by
  obtain ⟨content, decoded, mapped⟩ := Option.bind_eq_some_iff.mp patch
  obtain ⟨text, taken, rfl⟩ := Option.map_eq_some_iff.mp mapped
  refine ⟨content, text, decoded, ?_, rfl⟩
  cases result : patchContent content with
  | error error => rw [result] at taken; cases taken
  | ok value =>
    rw [result] at taken
    rw [Option.some.inj taken]

theorem patched_counts (patch : patchOf original = some patched) : isPatchedBytes patched = true := by
  obtain ⟨content, text, _, patches, rfl⟩ := patchOf_eq_some patch
  have counts := (patchContent_counts patches).2
  simp [isPatchedBytes, fromUTF8?_toByteArray, counts.1, counts.2]

theorem original_clean (patch : patchOf original = some patched) :
    isCleanBytes host original (host.sha256 original) = true := by
  obtain ⟨content, text, decoded, patches, _⟩ := patchOf_eq_some patch
  have counts := (patchContent_counts patches).1
  simp [isCleanBytes, decoded, counts.1, counts.2]

theorem patched_not_clean (patch : patchOf original = some patched) (expected : String) :
    isCleanBytes host patched expected = false := by
  obtain ⟨content, text, _, patches, rfl⟩ := patchOf_eq_some patch
  have counts := (patchContent_counts patches).2
  simp [isCleanBytes, fromUTF8?_toByteArray, counts.1]

theorem patched_ne_original (patch : patchOf original = some patched) : patched ≠ original := by
  rintro rfl
  have clean := original_clean ⟨fun _ => "", fun _ => .error "", fun _ => none, fun _ => none, fun _ => ""⟩ patch
  rw [patched_not_clean _ patch] at clean
  cases clean

theorem sha256_of_clean {bytes : ByteArray} {expected : String} (clean : isCleanBytes host bytes expected = true) :
    host.sha256 bytes = expected := by
  unfold isCleanBytes at clean
  exact eq_of_beq (Bool.and_eq_true_iff.mp clean).1

end Bytes

/-! ### While the extension is the original one -/

section Runs

variable (host : Host) (path : String) (original : ByteArray)

/-- The receipt of the patch of the original. -/
def receiptOf (patched : ByteArray) : GateReceipt := .ofPatch host path supportedVersion original patched

/-- The backup and the receipt are there. -/
structure Safe (patched : ByteArray) (files : Files ByteArray) : Prop where
  patch : patchOf original = some patched
  backup : files (backupPath path) = some original
  receipt : ∃ bytes, files (receiptPath path) = some bytes ∧ host.fromSlice bytes = some (receiptOf host path original patched)
  parent : (host.parent path).isSome

/-- No receipt in place describes `bytes` as a patched file. -/
def Undescribed (files : Files ByteArray) (bytes : ByteArray) : Prop :=
  ∀ stored receipt, files (receiptPath path) = some stored → host.fromSlice stored = some receipt →
    receipt.patchedSha256 ≠ host.sha256 bytes

/-- The host file, or the displaced one while it is away, is the original, or the patched one with its backup and
receipt. -/
inductive Held (files : Files ByteArray) : Prop
  | clean (there : files path = some original) (fresh : Undescribed host path files original)
  | displaced (absent : files path = none) (waits : files (displacedPath path) = some original)
    (fresh : Undescribed host path files original)
  | patched {patched : ByteArray} (there : files path = some patched) (safe : Safe host path original patched files)
  | patchedDisplaced {patched : ByteArray} (absent : files path = none)
    (waits : files (displacedPath path) = some patched) (safe : Safe host path original patched files)

variable {host path original} {files after : Files ByteArray} {patched : ByteArray} {outcomes : List Outcome}

theorem Undescribed.frame {bytes : ByteArray} (fresh : Undescribed host path files bytes)
    (receipt : after (receiptPath path) = files (receiptPath path)) : Undescribed host path after bytes :=
  fun stored found here => fresh stored found (receipt ▸ here)

theorem Undescribed.of_none {bytes : ByteArray} (receipt : files (receiptPath path) = none) :
    Undescribed host path files bytes := fun _ _ here => absurd (receipt.symm.trans here) nofun

theorem Safe.frame (safe : Safe host path original patched files)
    (backup : after (backupPath path) = files (backupPath path))
    (receipt : after (receiptPath path) = files (receiptPath path)) : Safe host path original patched after :=
  ⟨safe.patch, backup.trans safe.backup, receipt ▸ safe.receipt, safe.parent⟩

theorem Safe.beside (safe : Safe host path original patched files) (beside : Beside path files after) :
    Safe host path original patched after :=
  safe.frame (beside _ (by simp) (by simp)) (beside _ (by simp) (by simp))

theorem Safe.undescribed (safe : Safe host path original patched files) (documented : host.Documented) {bytes : ByteArray}
    (differs : bytes ≠ patched) : Undescribed host path files bytes := by
  intro stored receipt here decoded described
  obtain ⟨bytes', there, is⟩ := safe.receipt
  obtain rfl := Option.some.inj (there.symm.trans here)
  obtain rfl := Option.some.inj (is.symm.trans decoded)
  exact differs (documented.sha256_injective described).symm

theorem Safe.undescribed_original (safe : Safe host path original patched files) (documented : host.Documented) :
    Undescribed host path files original := safe.undescribed documented (patched_ne_original safe.patch).symm

theorem Undescribed.apart {bytes : ByteArray} (fresh : Undescribed host path files bytes)
    (apart : Apart (displacedPath path) files after) : Undescribed host path after bytes := fresh.frame (apart _ (by simp))

theorem Safe.apart (safe : Safe host path original patched files) (apart : Apart (displacedPath path) files after) :
    Safe host path original patched after := safe.frame (apart _ (by simp)) (apart _ (by simp))

theorem Held.apart (held : Held host path original files) (present : (files path).isSome)
    (apart : Apart (displacedPath path) files after) : Held host path original after := by
  have same : after path = files path := apart _ (by simp)
  cases held with
  | clean there fresh => exact .clean (same.trans there) (fresh.apart apart)
  | patched there safe => exact .patched (same.trans there) (safe.apart apart)
  | displaced absent => simp [absent] at present
  | patchedDisplaced absent => simp [absent] at present

theorem Held.recovers (held : Held host path original files) (recovers : Recovers path files after) :
    Held host path original after := by
  cases recovers with
  | same => exact held
  | joined present apart => exact held.apart present apart
  | @back bytes absent displaced =>
    cases held with
    | clean there => exact absurd (absent.symm.trans there) nofun
    | patched there => exact absurd (absent.symm.trans there) nofun
    | displaced _ waits fresh =>
      obtain rfl := Option.some.inj (displaced.symm.trans waits)
      exact .clean (by simp) (fresh.frame (by simp))
    | patchedDisplaced _ waits safe =>
      obtain rfl := Option.some.inj (displaced.symm.trans waits)
      exact .patched (by simp) (safe.frame (by simp) (by simp))

theorem Held.present (held : Held host path original files) {current : ByteArray} (there : files path = some current) :
    current = original ∧ Undescribed host path files original ∨ Safe host path original current files := by
  cases held with
  | clean same fresh => exact .inl ⟨Option.some.inj (there.symm.trans same), fresh⟩
  | patched same safe => exact .inr (Option.some.inj (there.symm.trans same) ▸ safe)
  | displaced absent => exact absurd (absent.symm.trans there) nofun
  | patchedDisplaced absent => exact absurd (absent.symm.trans there) nofun

theorem Safe.standing (safe : Safe host path original patched files) (documented : host.Documented) {old bytes : ByteArray}
    (beside : Beside path files after) (olds : old = original ∨ old = patched) (news : bytes = original ∨ bytes = patched)
    (standing : Standing host path old bytes after) : Held host path original after := by
  have safe := safe.beside beside
  have fresh := safe.undescribed_original documented
  cases standing with
  | kept there =>
    rcases olds with rfl | rfl
    · exact .clean there fresh
    · exact .patched there safe
  | away absent waits =>
    rcases olds with rfl | rfl
    · exact .displaced absent waits fresh
    · exact .patchedDisplaced absent waits safe
  | turned there =>
    rcases news with rfl | rfl
    · exact .clean there fresh
    · exact .patched there safe

/-! ### What the operations keep -/

/-- A receipt of a patch of the original. -/
def Handed (host : Host) (path : String) (original : ByteArray) (receipt : GateReceipt) : Prop :=
  ∃ patched, patchOf original = some patched ∧ receipt = receiptOf host path original patched

theorem Held.usable (held : Held host path original files) {current : ByteArray} (there : files path = some current)
    {receipt : GateReceipt} (usable : Usable host path files current receipt) : Handed host path original receipt := by
  obtain ⟨stored, here, decoded⟩ := usable.stored
  rcases held.present there with ⟨rfl, fresh⟩ | safe
  · exact absurd usable.digest.symm (fresh stored receipt here decoded)
  · obtain ⟨bytes, kept, is⟩ := safe.receipt
    obtain rfl := Option.some.inj (kept.symm.trans here)
    exact ⟨current, safe.patch, Option.some.inj (decoded.symm.trans is)⟩

theorem inspectExisting_held (held : Held host path original files) (version expectedSha256 : String) :
    Ends (Overwrites path) outcomes files (inspectExisting host path version expectedSha256)
      (fun status _ after => Held host path original after ∧
        (status.clean = true → ∃ current, after path = some current ∧ isCleanBytes host current expectedSha256 = true) ∧
        ∀ receipt, status.restoreReceipt = some receipt → Handed host path original receipt)
      (Held host path original) := by
  refine recoverDisplaced_then path (fun _ => held.recovers) fun rest now recovers => ?_
  have held := held.recovers recovers
  refine (inspectRecovered_ends host path version expectedSha256).weaken ?_ fun _ same => same ▸ held
  rintro status last _ ⟨rfl, sees⟩
  refine ⟨held, sees.clean, fun receipt found => ?_⟩
  obtain ⟨current, there, usable⟩ := sees.receipt receipt found
  exact held.usable there usable

theorem inspectExisting_present {current : ByteArray} (there : files path = some current) (version expectedSha256 : String) :
    Ends (Overwrites path) outcomes files (inspectExisting host path version expectedSha256)
      (fun status rest after => Apart (displacedPath path) files after ∧
        ∃ more, (recoverDisplaced path).run outcomes files = (after, some ((), more)) ∧
          Sees host path expectedSha256 after more status rest)
      (Apart (displacedPath path) files) := by
  refine Ends.bind_of_run ((recoverDisplaced_ends path).weaken
    (fun _ _ _ recovers => recovers.apart_of_present path there) fun _ recovers => recovers.apart_of_present path there) ?_
  intro value more after ran apart
  refine (inspectRecovered_ends host path version expectedSha256).weaken ?_ fun _ same => same ▸ apart
  rintro status rest _ ⟨rfl, sees⟩
  exact ⟨apart, more, ran, sees⟩

theorem restoreFrom_held (documented : host.Documented) (safe : Safe host path original patched files)
    (there : files path = some patched) :
    Ends (Overwrites path) outcomes files (restoreFrom host (receiptOf host path original patched) patched original)
      (fun _ _ => Held host path original) (Held host path original) := by
  refine (atomicReplace_ends host path original there).bind_within
    (fun _ cut => safe.standing documented cut.1 (.inr rfl) (.inl rfl) cut.2) fun result rest now replaced => ?_
  have held := safe.standing documented replaced.beside (.inr rfl) (.inl rfl) replaced.standing
  cases result with
  | error error => exact Ends.pure held
  | ok value =>
    have turned : now path = some original := by
      rcases replaced.stands with ⟨⟨error, impossible⟩, _⟩ | ⟨⟨error, impossible⟩, _⟩ | ⟨_, turned, _⟩
      · cases impossible
      · cases impossible
      · exact turned
    have safe := safe.beside replaced.beside
    have here : (now path).isSome := by simp [turned]
    refine (inspectExisting_present turned supportedVersion (host.sha256 original)).bind_within
      (fun _ => held.apart here) ?_
    rintro status more now ⟨apart, _⟩
    have held := held.apart here apart
    have turned : now path = some original := (apart _ (by simp)).trans turned
    have safe := safe.apart apart
    split
    case isTrue =>
      refine (atomicReplace_ends host path patched turned).bind_within
        (fun _ cut => safe.standing documented cut.1 (.inl rfl) (.inr rfl) cut.2) fun _ _ last replaced => ?_
      exact Ends.pure (safe.standing documented replaced.beside (.inl rfl) (.inr rfl) replaced.standing)
    case isFalse =>
      refine Ends.remove (fun _ => held) (fun _ _ _ _ => ?_) fun _ _ _ => Ends.pure held
      exact Ends.pure (.clean (by simpa [receiptOf, GateReceipt.ofPatch] using turned)
        (.of_none (by simp [receiptOf, GateReceipt.ofPatch])))

theorem restore_held (documented : host.Documented) (held : Held host path original files) {receipt : GateReceipt}
    (handed : Handed host path original receipt) :
    Ends (Overwrites path) outcomes files (restore host receipt) (fun _ _ => Held host path original)
      (Held host path original) := by
  obtain ⟨patched, patch, rfl⟩ := handed
  have refuses {rest : List Outcome} {now : Files ByteArray} (reason : String) (held : Held host path original now) :
      Ends (Overwrites path) rest now
        (do let error ← restoreRefusal host (receiptOf host path original patched) reason
            pure (.error error) : Patch (Except Error Unit))
        (fun _ _ => Held host path original) (Held host path original) := by
    refine (restoreRefusal_ends host (receiptOf host path original patched) reason).bind_within
      (fun _ same => same ▸ held) ?_
    rintro error more _ rfl
    exact Ends.pure held
  refine recoverDisplaced_then path (fun _ => held.recovers) fun rest now recovers => ?_
  have held := held.recovers recovers
  refine Ends.read (fun _ => held) (fun more current _ there => ?_) fun more error _ => ?_
  · dsimp only
    split
    case isTrue => exact refuses _ held
    case isFalse same =>
      have same : host.sha256 current = host.sha256 patched := not_not.mp same
      obtain rfl := documented.sha256_injective same
      have safe : Safe host path original current now := by
        rcases held.present there with ⟨rfl, _⟩ | safe
        · exact absurd rfl (patched_ne_original patch)
        · exact safe
      refine Ends.read (fun _ => held) (fun last backup _ stored => ?_) fun last error _ => Ends.pure held
      obtain rfl := Option.some.inj (safe.backup.symm.trans stored)
      dsimp only
      split
      case isTrue => exact refuses _ held
      case isFalse => exact restoreFrom_held documented safe there
  · exact hostReadError_then host path (fun _ => held) fun _ _ message _ => Ends.pure held

theorem restorePersisted_held (documented : host.Documented) (held : Held host path original files) :
    Ends (Overwrites path) outcomes files (restorePersisted host path) (fun _ _ => Held host path original)
      (Held host path original) := by
  refine (inspectExisting_held held supportedVersion supportedSha256).bind ?_
  rintro status rest now ⟨held, _, handed⟩
  cases found : status.restoreReceipt with
  | none => exact Ends.pure held
  | some receipt =>
    refine (restore_held documented held (handed receipt found)).bind fun result more after held => ?_
    cases result with
    | ok value => exact Ends.pure held
    | error error => exact Ends.pure held

/-! ### The patch -/

theorem discardFailedReceipt_held (held : Held host path original files)
    (unpatched : files path = some original ∨ files path = none ∧ files (displacedPath path) = some original) :
    Ends (Overwrites path) outcomes files (discardFailedReceipt path original) (fun _ _ => Held host path original)
      (Held host path original) := by
  refine (discardFailedReceipt_ends path original).weaken ?_ fun _ same => same ▸ held
  rintro ⟨⟩ rest after (rfl | ⟨rfl, _⟩)
  · exact held
  · rcases unpatched with kept | ⟨absent, waits⟩
    · exact .clean (by simpa using kept) (.of_none (by simp))
    · exact .displaced (by simpa using absent) (by simpa using waits) (.of_none (by simp))

theorem replaceWith_held (documented : host.Documented) {content text : String}
    (decoded : String.fromUTF8? original = some content)
    (patches : patchContent content = .ok text) (there : files path = some original)
    (fresh : Undescribed host path files original) :
    Ends (Overwrites path) outcomes files (replaceWith host path supportedVersion original text.toByteArray)
      (fun result _ after => Held host path original after ∧ ∀ made, result = .ok made →
        made.1 = original ∧ ∃ patched, after path = some patched ∧ Safe host path original patched after ∧
          made.2 = receiptOf host path original patched)
      (Held host path original) := by
  have patch : patchOf original = some text.toByteArray := by simp [patchOf, decoded, patches, Except.toOption]
  refine (ensureBackup_ends host (backupPath path) original).bind_within (fun now apart => ?_) ?_
  · exact .clean ((apart _ (by simp)).trans there) (fresh.frame (apart _ (by simp)))
  rintro result rest now ⟨apart, backed⟩
  have there : now path = some original := (apart _ (by simp)).trans there
  have fresh := fresh.frame (apart _ (by simp))
  have held : Held host path original now := .clean there fresh
  cases result with
  | error error => exact Ends.pure ⟨held, nofun⟩
  | ok value =>
    refine (writeReceipt_ends host _).bind_within (fun _ same => same ▸ held) ?_
    rintro result more after (⟨rfl, bytes, encoded, rfl⟩ | ⟨⟨error, rfl⟩, rfl⟩)
    · have there : (now.put (receiptPath path) (some bytes)) path = some original := by simpa using there
      have safe (parent : (host.parent path).isSome) :
          Safe host path original text.toByteArray (now.put (receiptPath path) (some bytes)) :=
        ⟨patch, by simpa using backed rfl, ⟨bytes, by simp, documented.fromSlice_toVec _ _ encoded⟩, parent⟩
      have fresh : Undescribed host path (now.put (receiptPath path) (some bytes)) original := by
        intro stored receipt here is described
        have same : stored = bytes := by simpa using here.symm
        rw [same, documented.fromSlice_toVec _ _ encoded] at is
        obtain rfl := Option.some.inj is
        exact patched_ne_original patch (documented.sha256_injective described)
      change Ends (Overwrites path) _ (now.put (receiptPath path) (some bytes)) _ _ _
      generalize now.put (receiptPath path) (some bytes) = now at there safe fresh
      have stands {after : Files ByteArray} (beside : Beside path now after)
          (standing : Standing host path original text.toByteArray after) : Held host path original after := by
        have fresh := fresh.frame (beside _ (by simp) (by simp))
        cases standing with
        | kept holds => exact .clean holds fresh
        | away absent waits => exact .displaced absent waits fresh
        | turned holds parent => exact .patched holds ((safe parent).beside beside)
      refine (atomicReplace_ends host path text.toByteArray there).bind_within (fun _ cut => stands cut.1 cut.2) ?_
      intro result last after replaced
      have held := stands replaced.beside replaced.standing
      -- where the original is still the host file or the displaced one, the receipt may go
      have drop {rest : List Outcome} {error : Error} (unpatched : after path = some original ∨
          after path = none ∧ after (displacedPath path) = some original) : Ends (Overwrites path) rest after
          (do discardFailedReceipt path original; pure (.error error) : Patch (Except Error (ByteArray × GateReceipt)))
          (fun result _ after => Held host path original after ∧ ∀ made, result = .ok made →
            made.1 = original ∧ ∃ patched, after path = some patched ∧ Safe host path original patched after ∧
              made.2 = receiptOf host path original patched)
          (Held host path original) :=
        (discardFailedReceipt_held held unpatched).bind fun _ _ _ held => Ends.pure ⟨held, nofun⟩
      rcases replaced.stands with ⟨⟨error, rfl⟩, kept, _⟩ | ⟨⟨error, rfl⟩, absent, waits, _⟩ | ⟨rfl, turned, parent⟩
      · refine Ends.read (fun _ => held) (fun tail found _ same => ?_) fun tail error _ => drop (.inl kept)
        split
        case isTrue equal =>
          have equal : found = text.toByteArray := of_decide_eq_true equal
          exact absurd (equal.symm.trans (Option.some.inj (same.symm.trans kept))) (patched_ne_original patch)
        case isFalse => exact drop (.inl kept)
      · refine Ends.read (fun _ => held) (fun tail found _ same => ?_) fun tail error _ => drop (.inr ⟨absent, waits⟩)
        exact absurd (absent.symm.trans same) nofun
      · refine Ends.pure ⟨held, fun made equal => ?_⟩
        obtain rfl := Except.ok.inj equal
        exact ⟨rfl, text.toByteArray, turned, (safe parent).beside replaced.beside, rfl⟩
    · exact Ends.pure ⟨held, nofun⟩

theorem Held.clean_eq (held : Held host path original files) {current : ByteArray} (there : files path = some current)
    {expected : String} (clean : isCleanBytes host current expected = true) :
    current = original ∧ Undescribed host path files original := by
  rcases held.present there with same | safe
  · exact same
  · rw [patched_not_clean host safe.patch] at clean
    cases clean

theorem replaceGate_held (documented : host.Documented) (held : Held host path original files) :
    Ends (Overwrites path) outcomes files (replaceGate host path supportedVersion supportedSha256)
      (fun result _ after => Held host path original after ∧ ∀ made, result = .ok made →
        made.1 = original ∧ ∃ patched, after path = some patched ∧ Safe host path original patched after ∧
          made.2 = receiptOf host path original patched)
      (Held host path original) := by
  refine recoverDisplaced_then path (fun _ => held.recovers) fun rest now recovers => ?_
  have held := held.recovers recovers
  refine Ends.read (fun _ => held) (fun more current _ there => ?_) fun more error _ => ?_
  · cases decoded : String.fromUTF8? current with
    | none =>
      simp only [decoded]
      exact Ends.pure ⟨held, nofun⟩
    | some content =>
      simp only [decoded]
      have here : (now path).isSome := by simp [there]
      refine (inspectExisting_present there supportedVersion supportedSha256).bind_within (fun _ => held.apart here) ?_
      rintro status last now ⟨apart, _, _, sees⟩
      have held := held.apart here apart
      have there : now path = some current := (apart _ (by simp)).trans there
      split
      case isTrue => exact Ends.pure ⟨held, nofun⟩
      case isFalse clean =>
        obtain ⟨other, same, clean⟩ := sees.clean (by simpa using clean)
        obtain rfl := Option.some.inj (there.symm.trans same)
        obtain ⟨rfl, fresh⟩ := held.clean_eq there clean
        cases patches : patchContent content with
        | error error => exact Ends.pure ⟨held, nofun⟩
        | ok text => exact replaceWith_held documented decoded patches there fresh
  · exact hostReadError_then host path (fun _ => held) fun _ _ message _ => Ends.pure ⟨held, nofun⟩

/-- What becomes of the steps behind a recovery when the receipt is lost: the host file cannot be read, the patched file
is not put back, and the receipt goes though the patched file is there, or is the displaced one. -/
inductive Loses : List Outcome → Prop
  | intro (backup look : Outcome) {putBack discard rest : List Outcome} {away : Bool}
    (unreplaced : Unreplaced discard away putBack) (discards : Discards rest away discard) :
    Loses (backup :: .fails :: look :: putBack)

/-- A patch that loses its receipt, once it replaced the host file. -/
def LosesReceipt (host : Host) (path : String) (files : Files ByteArray) (outcomes : List Outcome) : Prop :=
  ∃ after made rest,
    (replaceGate host path supportedVersion supportedSha256).run outcomes files = (after, some (.ok made, rest)) ∧
    ∃ recovered more, (recoverDisplaced path).run rest after = (recovered, some ((), more)) ∧ Loses more

theorem verifyGate_held (documented : host.Documented) (safe : Safe host path original patched files)
    (there : files path = some patched)
    (keeps : ∀ recovered more, (recoverDisplaced path).run outcomes files = (recovered, some ((), more)) → ¬ Loses more) :
    Ends (Overwrites path) outcomes files
      (verifyGate host path supportedVersion supportedSha256 original (receiptOf host path original patched))
      (fun result _ after => Held host path original after ∧
        ∀ receipt, result = .ok receipt → receipt = receiptOf host path original patched)
      (Held host path original) := by
  have held : Held host path original files := .patched there safe
  have here : (files path).isSome := by simp [there]
  refine (inspectExisting_present there supportedVersion supportedSha256).bind_within (fun _ => held.apart here) ?_
  rintro status rest between ⟨apart, more, ran, sees⟩
  have safe := safe.apart apart
  have there : between path = some patched := (apart _ (by simp)).trans there
  split
  case isTrue => exact Ends.pure ⟨held.apart here apart, fun _ equal => (Except.ok.inj equal).symm⟩
  case isFalse unverified =>
    -- the inspection told what it saw of the patched file, or could not read it
    rcases sees.told patched there with ⟨patches, digest⟩ | ⟨backup, look, lost⟩
    · refine absurd ?_ unverified
      rw [patches, patched_counts safe.patch, digest]
      simp [receiptOf, GateReceipt.ofPatch]
    · refine (atomicReplace_ends host path original there).bind_within
        (fun _ cut => safe.standing documented cut.1 (.inr rfl) (.inl rfl) cut.2) fun result discard now replaced => ?_
      have held := safe.standing documented replaced.beside (.inr rfl) (.inl rfl) replaced.standing
      have loses {away : Bool} {last : List Outcome} (unreplaced : Unreplaced discard away rest)
          (discards : Discards last away discard) : False :=
        keeps between more ran (lost ▸ .intro backup look unreplaced discards)
      refine (discardFailedReceipt_ends path original).bind_within (fun _ same => same ▸ held) ?_
      rintro value last final (rfl | ⟨rfl, original_there | discards⟩)
      · exact Ends.pure ⟨held, nofun⟩
      · exact Ends.pure ⟨.clean (by simpa using original_there) (.of_none (by simp)), nofun⟩
      · rcases replaced.stands with ⟨_, kept, unreplaced⟩ | ⟨_, absent, _, unreplaced⟩ | ⟨_, turned, _⟩
        · rw [kept] at discards
          exact absurd discards (loses (unreplaced safe.parent))
        · rw [absent] at discards
          exact absurd discards (loses unreplaced)
        · exact Ends.pure ⟨.clean (by simpa using turned) (.of_none (by simp)), nofun⟩

theorem apply_held (documented : host.Documented) (held : Held host path original files)
    (keeps : ¬ LosesReceipt host path files outcomes) :
    Ends (Overwrites path) outcomes files (apply host path)
      (fun result _ after => Held host path original after ∧
        ∀ receipt, result = .ok receipt → Handed host path original receipt)
      (Held host path original) := by
  refine (replaceGate_held documented held).bind_of_run ?_
  rintro result rest now ran ⟨held, makes⟩
  cases result with
  | error error => exact Ends.pure ⟨held, nofun⟩
  | ok made =>
    obtain ⟨current, receipt⟩ := made
    obtain ⟨same, patched, there, safe, is⟩ := makes _ rfl
    obtain rfl : current = original := same
    obtain rfl : receipt = receiptOf host path current patched := is
    have keeps (recovered : Files ByteArray) (more : List Outcome)
        (recovers : (recoverDisplaced path).run rest now = (recovered, some ((), more))) : ¬ Loses more := fun loses =>
      keeps ⟨now, _, rest, ran, recovered, more, recovers, loses⟩
    refine (verifyGate_held documented safe there keeps).weaken ?_ fun _ held => held
    rintro result more after ⟨held, is⟩
    exact ⟨held, fun receipt equal => ⟨patched, safe.patch, is receipt equal⟩⟩

end Runs

end Byok.Devin.HostPatch
