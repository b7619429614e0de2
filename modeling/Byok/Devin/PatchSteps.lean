/-
**What the operations on the extension do to its files.**

* `Overwrites` — a recovery that puts a displaced file over a host file that is there. What follows is about runs
  without such a step.
* `Sees`, `inspectRecovered_ends` — what the inspection tells.
* `Unreplaced`, `atomicReplace_ends` — how a replacement ends, with the outcomes that lead to the old file staying or
  being away.
* `Discards`, `discardFailedReceipt_ends` — when the receipt goes, with the outcomes that lead to it.
* `recoverDisplaced_ends`, `atomicCreate_ends` — the other operations.
-/

import Byok.Devin.HostPatch
import Mathlib.Tactic.Common

namespace Byok.Devin.HostPatch

open Library

/-! ### The four files -/

theorem self_ne_append {path suffix : String} (some : suffix ≠ "") : path ≠ path ++ suffix := by
  intro equal
  have lengths := congrArg String.length equal
  rw [String.length_append] at lengths
  exact some (String.length_eq_zero_iff.mp (by omega))

@[simp] theorem paths_distinct (path : String) :
    (path ≠ displacedPath path ∧ path ≠ backupPath path ∧ path ≠ receiptPath path) ∧
      (displacedPath path ≠ path ∧ displacedPath path ≠ backupPath path ∧ displacedPath path ≠ receiptPath path) ∧
      (backupPath path ≠ path ∧ backupPath path ≠ displacedPath path ∧ backupPath path ≠ receiptPath path) ∧
      receiptPath path ≠ path ∧ receiptPath path ≠ displacedPath path ∧ receiptPath path ≠ backupPath path := by
  have apart {first second : String} (differ : first ≠ second) : path ++ first ≠ path ++ second := fun equal =>
    differ ((String.append_right_inj path).mp equal)
  have displaced : path ≠ displacedPath path := self_ne_append (by decide)
  have backup : path ≠ backupPath path := self_ne_append (by decide)
  have receipt : path ≠ receiptPath path := self_ne_append (by decide)
  have displaced_backup : displacedPath path ≠ backupPath path := apart (by decide)
  have displaced_receipt : displacedPath path ≠ receiptPath path := apart (by decide)
  have backup_receipt : backupPath path ≠ receiptPath path := apart (by decide)
  exact ⟨⟨displaced, backup, receipt⟩, ⟨displaced.symm, displaced_backup, displaced_receipt⟩,
    ⟨backup.symm, displaced_backup.symm, backup_receipt⟩, receipt.symm, displaced_receipt.symm, backup_receipt.symm⟩

/-! ### The displaced file -/

/-- The displaced file takes the place of a host file that is there and has other bytes. -/
def Overwrites (path : String) (before after : Files ByteArray) : Prop :=
  (before path).isSome ∧ (before (displacedPath path)).isSome ∧ before (displacedPath path) ≠ before path ∧
    after path = before (displacedPath path) ∧ after (displacedPath path) = none

instance (path : String) (before after : Files ByteArray) : Decidable (Overwrites path before after) :=
  inferInstanceAs (Decidable (_ ∧ _))

/-- Everything but one file. -/
def Apart (path : String) (files after : Files ByteArray) : Prop := ∀ other, other ≠ path → after other = files other

section Steps

variable (host : Host) (path : String)
variable {bad : Files ByteArray → Files ByteArray → Prop} {outcomes : List Outcome} {files : Files ByteArray} {α : Type}
  {post : α → List Outcome → Files ByteArray → Prop} {cut : Files ByteArray → Prop}

theorem Apart.rfl : Apart path files files := fun _ _ => Eq.refl _

theorem Apart.trans {middle after : Files ByteArray} (first : Apart path files middle) (second : Apart path middle after) :
    Apart path files after := fun other differs => (second other differs).trans (first other differs)

/-- What the recovery does: nothing, or it brings the displaced file back. Where a host file is there that it does not
see, that one has the same bytes. -/
inductive Recovers (path : String) (files : Files ByteArray) : Files ByteArray → Prop
  | same : Recovers path files files
  | back {bytes : ByteArray} (absent : files path = none) (displaced : files (displacedPath path) = some bytes) :
      Recovers path files ((files.put (displacedPath path) none).put path (some bytes))
  | joined {after : Files ByteArray} (present : (files path).isSome) (apart : Apart (displacedPath path) files after) :
      Recovers path files after

theorem Recovers.apart_of_present {after : Files ByteArray} (recovers : Recovers path files after) {bytes : ByteArray}
    (present : files path = some bytes) : Apart (displacedPath path) files after := by
  cases recovers with
  | same => exact .rfl _
  | back absent _ => exact absurd (absent.symm.trans present) nofun
  | joined _ apart => exact apart

theorem Recovers.of_rename {bytes : ByteArray} (displaced : files (displacedPath path) = some bytes)
    (avoids : ¬ Overwrites path files ((files.put (displacedPath path) none).put path (some bytes))) :
    Recovers path files ((files.put (displacedPath path) none).put path (some bytes)) := by
  cases there : files path with
  | none => exact .back there displaced
  | some current =>
    have same : bytes = current := by
      by_contra differs
      exact avoids ⟨by simp [there], by simp [displaced], by simp [there, displaced, differs], by simp [displaced], by simp⟩
    subst same
    refine .joined (by simp [there]) fun other apart => ?_
    by_cases own : other = path
    · subst own
      simp [there]
    · simp [own, apart]

theorem recoverDisplaced_ends : Ends (Overwrites path) outcomes files (recoverDisplaced path)
    (fun _ _ => Recovers path files) (Recovers path files) := by
  refine Ends.exists_any (fun _ => .same) fun first rest seen _ _ => ?_
  split
  case isTrue => exact Ends.pure .same
  case isFalse =>
    refine Ends.exists_any (fun _ => .same) fun second more seen _ _ => ?_
    split
    case isTrue =>
      refine Ends.rename (fun _ => .same) (fun last bytes _ displaced avoids => ?_) fun last error _ => Ends.pure .same
      exact Ends.pure (.of_rename path displaced avoids)
    case isFalse => exact Ends.pure .same

theorem recoverDisplaced_then {next : Unit → Patch α} (stops : ∀ after, Recovers path files after → cut after)
    (goes : ∀ rest after, Recovers path files after → Ends (Overwrites path) rest after (next ()) post cut) :
    Ends (Overwrites path) outcomes files (recoverDisplaced path >>= next) post cut :=
  (recoverDisplaced_ends path).bind_within stops fun _ => goes

/-! ### Errors and receipts -/

theorem hostReadError_then {error : IoError} {next : Error → Patch α}
    (stops : outcomes = [] → cut files)
    (goes : ∀ first rest error, outcomes = first :: rest → Ends bad rest files (next error) post cut) :
    Ends bad outcomes files (hostReadError host path error >>= next) post cut := by
  refine Ends.exists_any stops fun first rest seen at_head _ => ?_
  exact goes first rest _ at_head

/-- A text with the gate taken out. -/
def isPatchedBytes (bytes : ByteArray) : Bool :=
  (String.fromUTF8? bytes).any fun content => matchCount cleanGate content == 0 && matchCount patchedGate content == 1

/-- A receipt for the host file and its backup. -/
structure Usable (files : Files ByteArray) (current : ByteArray) (receipt : GateReceipt) : Prop where
  patched : isPatchedBytes current = true
  path_eq : receipt.path = path
  backupPath_eq : receipt.backupPath = backupPath path
  digest : host.sha256 current = receipt.patchedSha256
  stored : ∃ bytes, files (receiptPath path) = some bytes ∧ host.fromSlice bytes = some receipt
  backup : ∃ bytes, files (backupPath path) = some bytes ∧ host.sha256 bytes = receipt.originalSha256

theorem usableReceipt_ends {status : GateStatus} {current : ByteArray} (patched : status.patched = isPatchedBytes current)
    (digest : status.currentSha256 = host.sha256 current) (backup : status.backupPath = some (backupPath path)) :
    Ends bad outcomes files (usableReceipt host path status)
      (fun found _ after => after = files ∧ ∀ receipt, found = some receipt → Usable host path files current receipt)
      (fun after => after = files) := by
  have nothing {rest : List Outcome} : Ends bad rest files (pure none : Patch (Option GateReceipt))
      (fun found _ after => after = files ∧ ∀ receipt, found = some receipt → Usable host path files current receipt)
      (fun after => after = files) := Ends.pure ⟨rfl, nofun⟩
  refine Ends.read (fun _ => rfl) (fun _ bytes _ stored => ?_) fun _ _ _ => nothing
  cases decoded : host.fromSlice bytes with
  | none => simpa only [decoded] using nothing
  | some receipt =>
    simp only [decoded]
    split
    case isTrue => exact nothing
    case isFalse same =>
      split
      case isTrue => exact nothing
      case isFalse current =>
        simp only [not_or, ne_eq, Decidable.not_not, Bool.not_eq_false] at same current
        refine Ends.read (fun _ => rfl) (fun _ kept _ there => ?_) fun _ _ _ => nothing
        simp only
        split
        case isTrue => exact nothing
        case isFalse clean =>
          simp only [not_or, ne_eq, Decidable.not_not] at clean
          refine Ends.pure ⟨rfl, fun _ equal => ?_⟩
          obtain rfl := Option.some.inj equal
          have backupPath_eq : receipt.backupPath = backupPath path :=
            Option.some.inj (same.2.trans backup)
          exact ⟨patched ▸ current.1, same.1, backupPath_eq, digest ▸ current.2, ⟨bytes, stored, decoded⟩,
            kept, backupPath_eq ▸ there, clean.1⟩

/-! ### The inspection -/

/-- What an inspection tells of the files. -/
structure Sees (expectedSha256 : String) (files : Files ByteArray) (outcomes : List Outcome) (status : GateStatus)
    (rest : List Outcome) : Prop where
  clean : status.clean = true → ∃ current, files path = some current ∧ isCleanBytes host current expectedSha256 = true
  receipt : ∀ receipt, status.restoreReceipt = some receipt →
    ∃ current, files path = some current ∧ Usable host path files current receipt
  told : ∀ current, files path = some current →
    status.patched = isPatchedBytes current ∧ status.currentSha256 = host.sha256 current ∨
      ∃ first look, outcomes = first :: .fails :: look :: rest

theorem inspectRecovered_ends (version expectedSha256 : String) :
    Ends bad outcomes files (inspectRecovered host path version expectedSha256)
      (fun status rest after => after = files ∧ Sees host path expectedSha256 files outcomes status rest)
      (fun after => after = files) := by
  -- the read of the backup, whatever it gives
  refine Ends.read_any (fun _ => rfl) fun first rest backup at_head _ => ?_
  refine Ends.read (fun _ => rfl) (fun more current _ there => ?_) fun more error lost => ?_
  · cases decoded : String.fromUTF8? current with
    | none =>
      simp only [decoded]
      refine Ends.pure ⟨rfl, nofun, nofun, fun other same => .inl ?_⟩
      obtain rfl := Option.some.inj (there.symm.trans same)
      exact ⟨by simp [GateStatus.unusable, isPatchedBytes, decoded], rfl⟩
    | some content =>
      simp only [decoded]
      have patched : (GateStatus.ofContent host path version expectedSha256 backup current content).patched =
          isPatchedBytes current := by simp [GateStatus.ofContent, isPatchedBytes, decoded]
      refine (usableReceipt_ends host path patched rfl rfl).bind ?_
      rintro receipt last after ⟨rfl, usable⟩
      refine Ends.pure ⟨rfl, fun clean => ⟨current, there, ?_⟩, fun other found => ⟨current, there, usable other found⟩,
        fun other same => .inl ?_⟩
      · simp only [GateStatus.ofContent, Bool.and_eq_true] at clean
        simp [isCleanBytes, decoded, clean.1.1, clean.1.2, clean.2]
      · obtain rfl := Option.some.inj (there.symm.trans same)
        exact ⟨patched, rfl⟩
  · refine hostReadError_then host path (fun _ => rfl) fun look tail message last => ?_
    refine Ends.pure ⟨rfl, nofun, nofun, fun current there => .inr ?_⟩
    rcases lost with ⟨_, absent⟩ | fails
    · exact absurd (absent.symm.trans there) nofun
    · exact ⟨first, look, by rw [at_head, fails, last]⟩

/-! ### Files put in place -/

theorem atomicCreate_ends (bytes : ByteArray) :
    Ends bad outcomes files (atomicCreate host path bytes)
      (fun result _ after => result = .ok () ∧ after = files.put path (some bytes) ∨
        (∃ error, result = .error error) ∧ after = files)
      (fun after => after = files) := by
  unfold atomicCreate
  cases host.parent path with
  | none => exact Ends.pure (.inr ⟨⟨_, rfl⟩, rfl⟩)
  | some parent =>
    refine Ends.stage (fun _ => rfl) (fun rest _ => ?_) fun _ _ _ => Ends.pure (.inr ⟨⟨_, rfl⟩, rfl⟩)
    exact Ends.persist (fun _ => rfl) (fun _ _ => Ends.pure (.inl ⟨rfl, rfl⟩))
      fun _ _ _ => Ends.pure (.inr ⟨⟨_, rfl⟩, rfl⟩)

/-- The files apart from the host file and the displaced one. -/
def Beside (files after : Files ByteArray) : Prop :=
  ∀ other, other ≠ path → other ≠ displacedPath path → after other = files other

theorem Beside.rfl : Beside path files files := fun _ _ _ => Eq.refl _

theorem Beside.put {after : Files ByteArray} (beside : Beside path files after) {target : String}
    {value : Option ByteArray} (own : target = path ∨ target = displacedPath path) :
    Beside path files (after.put target value) := by
  intro other host displaced
  have apart : other ≠ target := by
    rcases own with same | same
    · exact same ▸ host
    · exact same ▸ displaced
  rw [Files.put, Function.update_of_ne apart]
  exact beside other host displaced

/-- Where a replacement may leave the host file. -/
inductive Standing (old bytes : ByteArray) (after : Files ByteArray) : Prop
  | kept (holds : after path = some old)
  | away (absent : after path = none) (displaced : after (displacedPath path) = some old)
  | turned (holds : after path = some bytes) (parent : (host.parent path).isSome)

/-- What becomes of the steps of a replacement that fails, and whether the old file is away then: the staging may fail,
the look at the host file and the direct replacement, the displacement, or the replacement behind it, where the
displaced file may not come back. -/
inductive Unreplaced (rest : List Outcome) : Bool → List Outcome → Prop
  | unstaged : Unreplaced rest false (.fails :: rest)
  | unseen : Unreplaced rest false (.works :: .fails :: .fails :: rest)
  | undisplaced (removal : Outcome) : Unreplaced rest false (.works :: .works :: removal :: .fails :: rest)
  | returned (removal : Outcome) :
      Unreplaced rest false (.works :: .works :: removal :: .works :: .fails :: .works :: rest)
  | away (removal : Outcome) :
      Unreplaced rest true (.works :: .works :: removal :: .works :: .fails :: .fails :: rest)

/-- How a replacement ends. -/
structure Replaced (files : Files ByteArray) (old bytes : ByteArray) (outcomes : List Outcome)
    (result : Except Error Unit) (rest : List Outcome) (after : Files ByteArray) : Prop where
  beside : Beside path files after
  stands : (∃ error, result = .error error) ∧ after path = some old ∧
      ((host.parent path).isSome → Unreplaced rest false outcomes) ∨
    (∃ error, result = .error error) ∧ after path = none ∧ after (displacedPath path) = some old ∧
      Unreplaced rest true outcomes ∨
    result = .ok () ∧ after path = some bytes ∧ (host.parent path).isSome

theorem Replaced.standing {old bytes : ByteArray} {result : Except Error Unit} {rest : List Outcome}
    {after : Files ByteArray} (replaced : Replaced host path files old bytes outcomes result rest after) :
    Standing host path old bytes after := by
  rcases replaced.stands with ⟨_, kept, _⟩ | ⟨_, away, displaced, _⟩ | ⟨_, turned, parent⟩
  · exact .kept kept
  · exact .away away displaced
  · exact .turned turned parent

theorem putInPlace_ends {old : ByteArray} (bytes : ByteArray) (here : (host.parent path).isSome)
    (present : files path = some old) :
    Ends bad outcomes files (putInPlace path bytes)
      (Replaced host path files old bytes (.works :: outcomes))
      (fun after => Beside path files after ∧ Standing host path old bytes after) := by
  refine Ends.exists? (fun _ => ⟨.rfl path, .kept present⟩) (fun rest sees => ?_) fun rest blind => ?_
  · rw [present]
    -- an older displaced file is removed, if there is one
    refine Ends.remove_any (fun _ => ⟨.rfl path, .kept present⟩) fun removal more result now so_far changed => ?_
    have beside : Beside path files now := by
      rcases changed with rfl | rfl
      · exact .rfl path
      · exact (Beside.rfl path).put path (.inr rfl)
    have still : now path = some old := by
      rcases changed with rfl | rfl
      · exact present
      · simpa using present
    refine Ends.rename (fun _ => ⟨beside, .kept still⟩) (fun tail value works there _ => ?_) fun tail error lost => ?_
    · obtain rfl := Option.some.inj (still.symm.trans there)
      have displaced : Beside path files ((now.put path none).put (displacedPath path) (some old)) :=
        (beside.put path (.inl rfl)).put path (.inr rfl)
      have absent : ((now.put path none).put (displacedPath path) (some old)) path = none := by simp
      have waits : ((now.put path none).put (displacedPath path) (some old)) (displacedPath path) = some old := by simp
      generalize (now.put path none).put (displacedPath path) (some old) = later at displaced absent waits
      refine Ends.persist (fun _ => ⟨displaced, .away absent waits⟩) (fun last _ => ?_) fun last error fails => ?_
      · have turned : (later.put path (some bytes)) path = some bytes := by simp
        refine Ends.remove (fun _ => ⟨displaced.put path (.inl rfl), .turned turned here⟩) (fun _ _ _ _ => ?_) fun _ _ _ => ?_
        · exact Ends.pure ⟨(displaced.put path (.inl rfl)).put path (.inr rfl), .inr (.inr ⟨rfl, by simp, here⟩)⟩
        · exact Ends.pure ⟨displaced.put path (.inl rfl), .inr (.inr ⟨rfl, turned, here⟩)⟩
      · refine Ends.rename (fun _ => ⟨displaced, .away absent waits⟩) (fun end_ value back_ back _ => ?_) fun end_ _ lost => ?_
        · obtain rfl := Option.some.inj (waits.symm.trans back)
          refine Ends.pure ⟨(displaced.put path (.inr rfl)).put path (.inl rfl), .inl ⟨⟨_, rfl⟩, by simp, fun _ => ?_⟩⟩
          rw [sees, so_far, works, fails, back_]
          exact .returned removal
        · refine Ends.pure ⟨displaced, .inr (.inl ⟨⟨_, rfl⟩, absent, waits, ?_⟩)⟩
          rcases lost with ⟨_, gone⟩ | again
          · exact absurd (gone.symm.trans waits) nofun
          · rw [sees, so_far, works, fails, again]
            exact .away removal
    · refine Ends.pure ⟨beside, .inl ⟨⟨_, rfl⟩, still, fun _ => ?_⟩⟩
      rcases lost with ⟨_, gone⟩ | fails
      · exact absurd (gone.symm.trans still) nofun
      · rw [sees, so_far, fails]
        exact .undisplaced removal
  · -- the host file is not seen, and is replaced without being displaced
    refine Ends.persist (fun _ => ⟨.rfl path, .kept present⟩) (fun last _ => ?_) fun last error fails => ?_
    · exact Ends.pure ⟨(Beside.rfl path).put path (.inl rfl), .inr (.inr ⟨rfl, by simp, here⟩)⟩
    · refine Ends.pure ⟨.rfl path, .inl ⟨⟨_, rfl⟩, present, fun _ => ?_⟩⟩
      rw [blind, fails]
      exact .unseen

theorem atomicReplace_ends {old : ByteArray} (bytes : ByteArray) (present : files path = some old) :
    Ends bad outcomes files (atomicReplace host path bytes) (Replaced host path files old bytes outcomes)
      (fun after => Beside path files after ∧ Standing host path old bytes after) := by
  unfold atomicReplace
  cases parent : host.parent path with
  | none => exact Ends.pure ⟨.rfl path, .inl ⟨⟨_, rfl⟩, present, by simp [parent]⟩⟩
  | some directory =>
    have here : (host.parent path).isSome := by rw [parent]; rfl
    refine Ends.stage (fun _ => ⟨.rfl path, .kept present⟩) (fun rest works => ?_) fun rest error fails => ?_
    · subst works
      exact putInPlace_ends host path bytes here present
    · exact Ends.pure ⟨.rfl path, .inl ⟨⟨_, rfl⟩, present, fun _ => fails ▸ .unstaged⟩⟩

/-! ### The backup and the receipt -/

theorem removeIfExists_ends :
    Ends bad outcomes files (removeIfExists path) (fun _ _ after => after = files ∨ after = files.put path none)
      (fun after => after = files) := by
  refine Ends.remove (fun _ => rfl) (fun _ _ _ _ => Ends.pure (.inr rfl)) fun _ error _ => ?_
  cases error with
  | notFound => exact Ends.pure (.inl rfl)
  | refused => exact Ends.pure (.inl rfl)

theorem ensureBackup_ends (source : ByteArray) :
    Ends bad outcomes files (ensureBackup host path source)
      (fun result _ after => Apart path files after ∧ (result = .ok () → after path = some source))
      (Apart path files) := by
  refine Ends.read_any (fun _ _ _ => rfl) fun first rest existing _ there => ?_
  split
  case isTrue same =>
    cases existing with
    | error error => cases same
    | ok bytes =>
      obtain rfl := of_decide_eq_true same
      exact Ends.pure ⟨fun _ _ => rfl, fun _ => there _ rfl⟩
  case isFalse =>
    -- the file is written anew, where it was removed first
    refine (removeIfExists_ends path).bind_within (fun _ same => same ▸ fun _ _ => rfl) fun result more now ends => ?_
    have apart : Apart path files now := by
      rcases ends with rfl | rfl
      · exact fun _ _ => rfl
      · exact fun other differs => Function.update_of_ne differs _ _
    cases result with
    | error error => exact Ends.pure ⟨apart, nofun⟩
    | ok value =>
      refine (atomicCreate_ends host path source).weaken ?_ fun _ same => same ▸ apart
      rintro result _ after (⟨rfl, rfl⟩ | ⟨⟨error, rfl⟩, rfl⟩)
      · exact ⟨fun other differs => (Function.update_of_ne differs _ _).trans (apart other differs), fun _ => by simp⟩
      · exact ⟨apart, nofun⟩

theorem writeReceipt_ends (receipt : GateReceipt) :
    Ends bad outcomes files (writeReceipt host receipt)
      (fun result _ after =>
        (result = .ok () ∧ ∃ bytes, host.toVec receipt = .ok bytes ∧
          after = files.put (receiptPath receipt.path) (some bytes)) ∨ (∃ error, result = .error error) ∧ after = files)
      (fun after => after = files) := by
  unfold writeReceipt
  cases encoded : host.toVec receipt with
  | error error => exact Ends.pure (.inr ⟨⟨_, rfl⟩, rfl⟩)
  | ok bytes =>
    refine (atomicCreate_ends host (receiptPath receipt.path) bytes).bind ?_
    rintro result rest after (⟨rfl, rfl⟩ | ⟨⟨error, rfl⟩, rfl⟩)
    · exact Ends.pure (.inl ⟨rfl, bytes, rfl, rfl⟩)
    · exact Ends.pure (.inr ⟨⟨_, rfl⟩, rfl⟩)

/-- What becomes of the steps behind a failure when the receipt goes though the original is not seen: the host file is
away, or its looks fail. -/
inductive Discards (rest : List Outcome) : Bool → List Outcome → Prop
  | away (first second : Outcome) : Discards rest true (first :: second :: .works :: rest)
  | unseen : Discards rest false (.fails :: .fails :: .works :: rest)
  | lost (read : Outcome) : Discards rest false (.works :: read :: .fails :: .works :: rest)

theorem discardFailedReceipt_ends (original : ByteArray) :
    Ends bad outcomes files (discardFailedReceipt path original)
      (fun _ rest after => after = files ∨ after = files.put (receiptPath path) none ∧
        (files path = some original ∨ Discards rest (files path).isNone outcomes))
      (fun after => after = files) := by
  -- the removal, where it may take place
  have discard {middle : List Outcome}
      (allowed : ∀ rest, middle = .works :: rest → files path = some original ∨ Discards rest (files path).isNone outcomes) :
      Ends bad middle files (do let _ ← Files.remove (receiptPath path); pure () : Patch Unit)
        (fun _ rest after => after = files ∨ after = files.put (receiptPath path) none ∧
          (files path = some original ∨ Discards rest (files path).isNone outcomes))
        (fun after => after = files) :=
    Ends.remove (fun _ => rfl) (fun rest _ works _ => Ends.pure (.inr ⟨rfl, allowed rest works⟩))
      fun _ _ _ => Ends.pure (.inl rfl)
  have looked : Ends bad outcomes files (holdsBytes path original)
      (fun same rest after => after = files ∧ (same = true → files path = some original) ∧
        (same = false → (∃ first, outcomes = first :: rest ∧ (files path ≠ none → first = .fails)) ∨
          files path ≠ none ∧ ∃ read, outcomes = .works :: read :: rest))
      (fun after => after = files) := by
    refine Ends.exists? (fun _ => rfl) (fun rest sees => ?_) fun rest blind => ?_
    · split
      case isTrue present =>
        have there : files path ≠ none := Option.isSome_iff_ne_none.mp present
        refine Ends.read (fun _ => rfl) (fun more bytes works found => ?_) fun more _ lost => ?_
        · exact Ends.pure ⟨rfl, fun same => (of_decide_eq_true same) ▸ found, fun _ => .inr ⟨there, _, by rw [sees, works]⟩⟩
        · refine Ends.pure ⟨rfl, nofun, fun _ => .inr ⟨there, .fails, ?_⟩⟩
          rcases lost with ⟨_, absent⟩ | fails
          · exact absurd absent there
          · rw [sees, fails]
      case isFalse absent =>
        have away : files path = none := by simpa using absent
        exact Ends.pure ⟨rfl, nofun, fun _ => .inl ⟨_, sees, fun there => absurd away there⟩⟩
    · exact Ends.pure ⟨rfl, nofun, fun _ => .inl ⟨_, blind, fun _ => rfl⟩⟩
  refine looked.bind ?_
  rintro same rest files ⟨rfl, holds, misses⟩
  cases same with
  | true => exact discard fun _ _ => .inl (holds rfl)
  | false =>
    refine Ends.exists? (fun _ => rfl) (fun more sees => ?_) fun more blind => ?_
    · split
      case isTrue => exact Ends.pure (.inl rfl)
      case isFalse absent =>
        have away : files path = none := by simpa using absent
        refine discard fun last works => .inr ?_
        rcases misses rfl with ⟨first, at_head, _⟩ | ⟨there, _⟩
        · rw [away, at_head, sees, works]
          exact .away first .works
        · exact absurd away there
    · refine discard fun last works => .inr ?_
      rcases misses rfl with ⟨first, at_head, fails⟩ | ⟨there, read, at_head⟩
      · cases host : files path with
        | none =>
          rw [at_head, blind, works]
          exact .away first .fails
        | some bytes =>
          rw [at_head, blind, works, fails (by simp [host])]
          exact .unseen
      · rw [Option.isNone_eq_false_iff.mpr (Option.isSome_iff_ne_none.mpr there), at_head, blind, works]
        exact .lost read

theorem restoreRefusal_ends (receipt : GateReceipt) (reason : String) :
    Ends bad outcomes files (restoreRefusal host receipt reason) (fun _ _ after => after = files)
      (fun after => after = files) := by
  refine Ends.read (fun _ => rfl) (fun _ bytes _ _ => ?_) fun _ _ _ => Ends.pure rfl
  simp only
  split
  · exact Ends.pure rfl
  · exact Ends.pure rfl

end Steps

end Byok.Devin.HostPatch
