/-
**The extension can always be brought back.**

* `Foreign` — a file put by an update, which no operation touches.
* `patches` — the system of the operations and updates; `Recoverable`, what holds of its states.
* `patch_survives` — in every run in which no recovery overwrites a host file and no patch loses its receipt, every
  state is recoverable.
* `receipt_lost` — a patch that loses its receipt leaves the patched file for good, and a recovery overwrites an update.
-/

import Byok.Devin.PatchRuns
import Byok.Library.System
import Mathlib.Data.List.Basic

namespace Byok.Devin.HostPatch

open Library

section Foreign

variable {host : Host} {path : String} {original : ByteArray} {files : Files ByteArray} {outcomes : List Outcome}
  {bytes : ByteArray}

/-! ### A file put by an update -/

/-- A host file that is neither the original nor its patch. -/
structure Foreign (host : Host) (path : String) (original : ByteArray) (files : Files ByteArray) (bytes : ByteArray) :
    Prop where
  there : files path = some bytes
  differs : bytes ≠ original
  unpatched : patchOf original ≠ some bytes
  fresh : Undescribed host path files bytes

theorem Foreign.apart (foreign : Foreign host path original files bytes) {after : Files ByteArray}
    (apart : Apart (displacedPath path) files after) : Foreign host path original after bytes :=
  ⟨(apart _ (by simp)).trans foreign.there, foreign.differs, foreign.unpatched, foreign.fresh.apart apart⟩

theorem Foreign.inspectExisting_ends (foreign : Foreign host path original files bytes) (version expectedSha256 : String) :
    Ends (Overwrites path) outcomes files (inspectExisting host path version expectedSha256)
      (fun status _ after => Apart (displacedPath path) files after ∧ status.restoreReceipt = none ∧
        (status.clean = true → isCleanBytes host bytes expectedSha256 = true))
      (Apart (displacedPath path) files) := by
  refine (inspectExisting_present foreign.there version expectedSha256).weaken ?_ fun _ apart => apart
  rintro status rest after ⟨apart, more, _, sees⟩
  have foreign := foreign.apart apart
  refine ⟨apart, ?_, fun clean => ?_⟩
  · cases found : status.restoreReceipt with
    | none => rfl
    | some receipt =>
      obtain ⟨current, there, usable⟩ := sees.receipt receipt found
      obtain rfl := Option.some.inj (there.symm.trans foreign.there)
      obtain ⟨stored, here, decoded⟩ := usable.stored
      exact absurd usable.digest.symm (foreign.fresh stored receipt here decoded)
  · obtain ⟨current, there, clean⟩ := sees.clean clean
    obtain rfl := Option.some.inj (there.symm.trans foreign.there)
    exact clean

theorem Foreign.recoverDisplaced_then {α : Type} {post : α → List Outcome → Files ByteArray → Prop}
    {next : Unit → Patch α} (foreign : Foreign host path original files bytes)
    (goes : ∀ rest after, Apart (displacedPath path) files after → Foreign host path original after bytes →
      Ends (Overwrites path) rest after (next ()) post (Apart (displacedPath path) files)) :
    Ends (Overwrites path) outcomes files (recoverDisplaced path >>= next) post (Apart (displacedPath path) files) := by
  refine HostPatch.recoverDisplaced_then path (fun _ recovers => recovers.apart_of_present path foreign.there) ?_
  intro rest after recovers
  have apart := recovers.apart_of_present path foreign.there
  exact goes rest after apart (foreign.apart apart)

theorem Foreign.apply_ends (foreign : Foreign host path original files bytes) (documented : host.Documented)
    (supported : host.sha256 original = supportedSha256) :
    Ends (Overwrites path) outcomes files (apply host path)
      (fun result _ after => Apart (displacedPath path) files after ∧ ∃ error, result = .error error)
      (Apart (displacedPath path) files) := by
  have refused : Ends (Overwrites path) outcomes files (replaceGate host path supportedVersion supportedSha256)
      (fun result _ after => Apart (displacedPath path) files after ∧ ∃ error, result = .error error)
      (Apart (displacedPath path) files) := by
    refine foreign.recoverDisplaced_then fun rest now apart foreign => ?_
    refine Ends.read (fun _ => apart) (fun more current _ there => ?_) fun more error _ => ?_
    · cases decoded : String.fromUTF8? current with
      | none =>
        simp only [decoded]
        exact Ends.pure ⟨apart, _, rfl⟩
      | some content =>
        simp only [decoded]
        refine (foreign.inspectExisting_ends supportedVersion supportedSha256).bind_within (fun _ => apart.trans _) ?_
        rintro status last after ⟨later, _, clean⟩
        have apart := apart.trans _ later
        split
        case isTrue => exact Ends.pure ⟨apart, _, rfl⟩
        case isFalse isClean =>
          have digest := sha256_of_clean host (clean (by simpa using isClean))
          exact absurd (documented.sha256_injective (digest.trans supported.symm)) foreign.differs
    · exact hostReadError_then host path (fun _ => apart) fun _ _ message _ => Ends.pure ⟨apart, _, rfl⟩
  refine refused.bind ?_
  rintro result rest after ⟨apart, error, rfl⟩
  exact Ends.pure ⟨apart, _, rfl⟩

theorem Foreign.restore_ends (foreign : Foreign host path original files bytes) (documented : host.Documented)
    {receipt : GateReceipt} (handed : Handed host path original receipt) :
    Ends (Overwrites path) outcomes files (restore host receipt)
      (fun _ _ after => Apart (displacedPath path) files after) (Apart (displacedPath path) files) := by
  obtain ⟨patched, patch, rfl⟩ := handed
  refine foreign.recoverDisplaced_then fun rest now apart foreign => ?_
  refine Ends.read (fun _ => apart) (fun more current _ there => ?_) fun more error _ => ?_
  · have there : now path = some current := there
    obtain rfl := Option.some.inj (there.symm.trans foreign.there)
    dsimp only
    split
    case isTrue =>
      refine (restoreRefusal_ends host (receiptOf host path original patched) _).bind_within
        (fun _ same => same ▸ apart) ?_
      rintro error rest _ rfl
      exact Ends.pure apart
    case isFalse same =>
      have same : host.sha256 current = host.sha256 patched := not_not.mp same
      obtain rfl := documented.sha256_injective same
      exact absurd patch foreign.unpatched
  · exact hostReadError_then host path (fun _ => apart) fun _ _ message _ => Ends.pure apart

theorem Foreign.restorePersisted_ends (foreign : Foreign host path original files bytes) :
    Ends (Overwrites path) outcomes files (restorePersisted host path)
      (fun _ _ after => Apart (displacedPath path) files after) (Apart (displacedPath path) files) := by
  refine (foreign.inspectExisting_ends supportedVersion supportedSha256).bind ?_
  rintro status rest after ⟨apart, none, _⟩
  rw [none]
  exact Ends.pure apart

end Foreign

/-! ### The recovery and the restoration that work -/

section Restored

variable {host : Host} {path : String} {original : ByteArray} {files : Files ByteArray} {patched : ByteArray}

theorem recoverDisplaced_exec_present {bytes : ByteArray} (there : files path = some bytes) :
    (recoverDisplaced path).exec files = (files, ()) := by simp [recoverDisplaced, there]

theorem recoverDisplaced_exec_displaced {bytes : ByteArray} (absent : files path = none)
    (waits : files (displacedPath path) = some bytes) :
    (recoverDisplaced path).exec files = ((files.put (displacedPath path) none).put path (some bytes), ()) := by
  simp [recoverDisplaced, absent, waits, Files.exec_rename]

theorem Held.recovered (held : Held host path original files) :
    Held host path original ((recoverDisplaced path).exec files).1 ∧
      ∃ bytes, ((recoverDisplaced path).exec files).1 path = some bytes := by
  have back {bytes : ByteArray} (absent : files path = none) (waits : files (displacedPath path) = some bytes) :
      Held host path original ((recoverDisplaced path).exec files).1 ∧
        ∃ bytes, ((recoverDisplaced path).exec files).1 path = some bytes := by
    rw [recoverDisplaced_exec_displaced absent waits]
    exact ⟨held.recovers (.back absent waits), bytes, by simp⟩
  cases held with
  | clean there fresh =>
    rw [recoverDisplaced_exec_present there]
    exact ⟨.clean there fresh, _, there⟩
  | patched there safe =>
    rw [recoverDisplaced_exec_present there]
    exact ⟨.patched there safe, _, there⟩
  | displaced absent waits => exact back absent waits
  | patchedDisplaced absent waits => exact back absent waits

theorem inspectExisting_exec (safe : Safe host path original patched files) (there : files path = some patched)
    (version expectedSha256 : String) :
    ((inspectExisting host path version expectedSha256).exec files).1 = files ∧
      ((inspectExisting host path version expectedSha256).exec files).2.restoreReceipt =
        some (receiptOf host path original patched) := by
  obtain ⟨stored, kept, decoded⟩ := safe.receipt
  have clean := original_clean host safe.patch
  obtain ⟨content, text, _, patches, rfl⟩ := patchOf_eq_some safe.patch
  have counts := (patchContent_counts patches).2
  simp [inspectExisting, inspectRecovered, recoverDisplaced_exec_present there, there, safe.backup, usableReceipt,
    fromUTF8?_toByteArray, kept, decoded, GateStatus.ofContent, receiptOf, GateReceipt.ofPatch, counts, clean]

variable (host) in
theorem inspectExisting_exec_clean (patch : patchOf original = some patched) (there : files path = some original)
    (version : String) :
    ((inspectExisting host path version (host.sha256 original)).exec files).1 = files ∧
      ((inspectExisting host path version (host.sha256 original)).exec files).2.clean = true := by
  obtain ⟨content, text, decoded, patches, rfl⟩ := patchOf_eq_some patch
  have counts := (patchContent_counts patches).1
  have unpatched : (GateStatus.ofContent host path version (host.sha256 original)
      ((files (backupPath path)).elim (.error .notFound) .ok) original content).patched = false := by
    simp [GateStatus.ofContent, counts]
  have looks : ∃ receipt, (usableReceipt host path (GateStatus.ofContent host path version (host.sha256 original)
      ((files (backupPath path)).elim (.error .notFound) .ok) original content)).exec files = (files, receipt) := by
    cases kept : files (receiptPath path) with
    | none => exact ⟨none, by simp [usableReceipt, kept]⟩
    | some stored =>
      cases found : host.fromSlice stored with
      | none => exact ⟨none, by simp [usableReceipt, kept, found]⟩
      | some receipt => exact ⟨none, by simp [usableReceipt, kept, found, unpatched]⟩
  obtain ⟨receipt, looks⟩ := looks
  have clean : (GateStatus.ofContent host path version (host.sha256 original)
      ((files (backupPath path)).elim (.error .notFound) .ok) original content).clean = true := by
    simp [GateStatus.ofContent, counts]
  simp [inspectExisting, inspectRecovered, recoverDisplaced_exec_present there, there, decoded, looks, clean]

theorem atomicReplace_exec {old : ByteArray} (parent : (host.parent path).isSome) (there : files path = some old)
    (bytes : ByteArray) :
    ((atomicReplace host path bytes).exec files).2 = .ok () ∧
      ((atomicReplace host path bytes).exec files).1 path = some bytes ∧
      Beside path files ((atomicReplace host path bytes).exec files).1 := by
  obtain ⟨directory, parent⟩ := Option.isSome_iff_exists.mp parent
  have moves : (Files.rename path (displacedPath path)).exec (files.put (displacedPath path) none) =
      (((files.put (displacedPath path) none).put path none).put (displacedPath path) (some old), .ok ()) :=
    Files.exec_rename _ (by simpa using there)
  have ends : (atomicReplace host path bytes).exec files =
      ((((((files.put (displacedPath path) none).put path none).put (displacedPath path) (some old)).put path
        (some bytes)).put (displacedPath path) none), .ok ()) := by
    simp [atomicReplace, putInPlace, parent, there, moves]
  rw [ends]
  refine ⟨rfl, by simp, ?_⟩
  exact (((((Beside.rfl path).put path (.inr rfl)).put path (.inl rfl)).put path (.inr rfl)).put path (.inl rfl)).put
    path (.inr rfl)

theorem Safe.restorePersisted_exec (safe : Safe host path original patched files) (there : files path = some patched) :
    ((restorePersisted host path).exec files).2 = true ∧
      ((restorePersisted host path).exec files).1 path = some original := by
  obtain ⟨same, found⟩ := inspectExisting_exec safe there supportedVersion supportedSha256
  obtain ⟨done, turned, beside⟩ := atomicReplace_exec safe.parent there original
  obtain ⟨after_same, clean⟩ := inspectExisting_exec_clean host safe.patch turned supportedVersion
  have verified := original_clean host safe.patch
  have restores : ((restore host (receiptOf host path original patched)).exec files).2 = .ok () ∧
      ((restore host (receiptOf host path original patched)).exec files).1 path = some original := by
    simp [restore, receiptOf, GateReceipt.ofPatch, recoverDisplaced_exec_present there, there, safe.backup, verified,
      restoreFrom, done, clean, after_same, turned]
  simp [restorePersisted, same, found, restores]

end Restored

/-! ### Runs -/

/-- The operations of this module on the one extension. -/
inductive Call where
  | inspect
  | apply
  | restore (receipt : GateReceipt)
  | restorePersisted
deriving DecidableEq

/-- The program of an operation, and the receipts it hands out. -/
def Call.prog (host : Host) (path : String) : Call → Patch (List GateReceipt)
  | .inspect => do
    let status ← HostPatch.inspect host (some path)
    pure status.restoreReceipt.toList
  | .apply => do
    match ← HostPatch.apply host path with
    | .ok receipt => pure [receipt]
    | .error _ => pure []
  | .restore receipt => do
    let _ ← HostPatch.restore host receipt
    pure []
  | .restorePersisted => do
    let _ ← HostPatch.restorePersisted host path
    pure []

/-- An operation with what becomes of its steps, or an update of the extension. -/
inductive Action where
  | call (call : Call) (outcomes : List Outcome)
  | update (bytes : ByteArray)
deriving DecidableEq

/-- The directory, the receipts that were handed out, and what others last put in place of the host file. -/
structure World where
  files : Files ByteArray
  receipts : List GateReceipt
  installed : ByteArray

/-- The world behind an operation, which may have been cut off. -/
def World.call (host : Host) (path : String) (world : World) (call : Call) (outcomes : List Outcome) : World :=
  let ended := (call.prog host path).run outcomes world.files
  { world with files := ended.1, receipts := world.receipts ++ (ended.2.map Prod.fst).getD [] }

/-- The steps: a receipt that is restored was handed out, and an update puts a file that is not the patch and that no
receipt in place describes. -/
inductive Step (host : Host) (path : String) (original : ByteArray) : World → Action → World → Prop
  | call (world : World) (call : Call) (outcomes : List Outcome)
    (known : ∀ receipt, call = .restore receipt → receipt ∈ world.receipts) :
    Step host path original world (.call call outcomes) (world.call host path call outcomes)
  | update (world : World) (bytes : ByteArray) (unpatched : patchOf original ≠ some bytes)
    (fresh : Undescribed host path world.files bytes) :
    Step host path original world (.update bytes)
      { world with files := world.files.put path (some bytes), installed := bytes }

/-- The operations and the updates, from a directory with the original. -/
def patches (host : Host) (path : String) (original : ByteArray) : System World Action where
  initial world := world.files path = some original ∧ Undescribed host path world.files original ∧ world.receipts = [] ∧
    world.installed = original
  step := Step host path original

/-- No recovery overwrites a host file that it does not see, and no patch loses its receipt. -/
structure Careful (host : Host) (path : String) (before : World) (action : Action) (_ : World) : Prop where
  avoids : ∀ call outcomes, action = .call call outcomes → (call.prog host path).Avoids (Overwrites path) outcomes before.files
  keeps : ∀ outcomes, action = .call .apply outcomes → ¬ LosesReceipt host path before.files outcomes

/-- The directory once the displaced file was recovered. -/
def World.recovered (path : String) (world : World) : Files ByteArray := ((recoverDisplaced path).exec world.files).1

/-- The host file comes back as the original or the patched one, the patched one can be restored, and a file that
others put is left alone. -/
structure Recoverable (host : Host) (path : String) (original : ByteArray) (world : World) : Prop where
  comes_back : world.installed = original → ∃ bytes, world.recovered path path = some bytes ∧
    (bytes = original ∨ patchOf original = some bytes)
  restorable : ∀ patched, patchOf original = some patched → world.recovered path path = some patched →
    (world.recovered path (receiptPath path)).isSome ∧ (world.recovered path (backupPath path)).isSome ∧
      ((restorePersisted host path).exec (world.recovered path)).2 = true ∧
      ((restorePersisted host path).exec (world.recovered path)).1 path = some original
  untouched : world.installed ≠ original → world.files path = some world.installed

section Survives

variable {host : Host} {path : String} {original : ByteArray}

/-- What every step keeps. -/
structure Kept (host : Host) (path : String) (original : ByteArray) (world : World) : Prop where
  receipts : ∀ receipt ∈ world.receipts, Handed host path original receipt
  files : world.installed = original ∧ Held host path original world.files ∨
    Foreign host path original world.files world.installed

theorem call_held (documented : host.Documented) {files : Files ByteArray} (held : Held host path original files)
    {call : Call} (known : ∀ receipt, call = .restore receipt → Handed host path original receipt)
    {outcomes : List Outcome} (careful : call = .apply → ¬ LosesReceipt host path files outcomes) :
    Ends (Overwrites path) outcomes files (call.prog host path)
      (fun receipts _ after => Held host path original after ∧ ∀ receipt ∈ receipts, Handed host path original receipt)
      (Held host path original) := by
  cases call with
  | inspect =>
    refine (inspectExisting_held held supportedVersion supportedSha256).bind ?_
    rintro status rest after ⟨held, _, handed⟩
    exact Ends.pure ⟨held, fun receipt found => handed receipt (Option.mem_toList.mp found)⟩
  | apply =>
    refine (apply_held documented held (careful rfl)).bind ?_
    rintro result rest after ⟨held, handed⟩
    cases result with
    | error error => exact Ends.pure ⟨held, nofun⟩
    | ok receipt =>
      refine Ends.pure ⟨held, fun other found => ?_⟩
      rw [List.mem_singleton.mp found]
      exact handed receipt rfl
  | restore receipt =>
    refine (restore_held documented held (known receipt rfl)).bind fun _ _ _ held => ?_
    exact Ends.pure ⟨held, nofun⟩
  | restorePersisted =>
    refine (restorePersisted_held documented held).bind fun _ _ _ held => ?_
    exact Ends.pure ⟨held, nofun⟩

theorem call_foreign (documented : host.Documented) (supported : host.sha256 original = supportedSha256)
    {files : Files ByteArray} {bytes : ByteArray} (foreign : Foreign host path original files bytes) {call : Call}
    (known : ∀ receipt, call = .restore receipt → Handed host path original receipt) {outcomes : List Outcome} :
    Ends (Overwrites path) outcomes files (call.prog host path)
      (fun receipts _ after => Apart (displacedPath path) files after ∧ receipts = [])
      (Apart (displacedPath path) files) := by
  cases call with
  | inspect =>
    refine (foreign.inspectExisting_ends supportedVersion supportedSha256).bind ?_
    rintro status rest after ⟨apart, none, _⟩
    exact Ends.pure ⟨apart, by rw [none]; rfl⟩
  | apply =>
    refine (foreign.apply_ends documented supported).bind ?_
    rintro result rest after ⟨apart, error, rfl⟩
    exact Ends.pure ⟨apart, rfl⟩
  | restore receipt =>
    exact (foreign.restore_ends documented (known receipt rfl)).bind fun _ _ _ apart => Ends.pure ⟨apart, rfl⟩
  | restorePersisted =>
    exact foreign.restorePersisted_ends.bind fun _ _ _ apart => Ends.pure ⟨apart, rfl⟩

theorem Kept.step (documented : host.Documented) (supported : host.sha256 original = supportedSha256)
    {before after : World} {action : Action} (kept : Kept host path original before)
    (step : Step host path original before action after) (careful : Careful host path before action after) :
    Kept host path original after := by
  cases step with
  | call call outcomes known =>
    have known (receipt : GateReceipt) (is : call = .restore receipt) := kept.receipts receipt (known receipt is)
    have avoids := careful.avoids call outcomes rfl
    unfold World.call
    rcases kept.files with ⟨same, held⟩ | foreign
    · have ends := call_held documented held known (fun is => careful.keeps outcomes (by rw [is])) avoids
      cases ran : (call.prog host path).run outcomes before.files with
      | mk files result =>
        rw [ran] at ends
        cases result with
        | none => exact ⟨by simpa using kept.receipts, .inl ⟨same, ends⟩⟩
        | some result =>
          refine ⟨fun receipt found => ?_, .inl ⟨same, ends.1⟩⟩
          rcases List.mem_append.mp found with old | new
          · exact kept.receipts receipt old
          · exact ends.2 receipt new
    · have ends := call_foreign documented supported foreign known avoids
      cases ran : (call.prog host path).run outcomes before.files with
      | mk files result =>
        rw [ran] at ends
        cases result with
        | none => exact ⟨by simpa using kept.receipts, .inr (foreign.apart ends)⟩
        | some result =>
          obtain ⟨apart, none⟩ := ends
          exact ⟨by simpa [none] using kept.receipts, .inr (foreign.apart apart)⟩
  | update bytes unpatched fresh =>
    refine ⟨kept.receipts, ?_⟩
    have fresh : Undescribed host path (before.files.put path (some bytes)) bytes := fresh.frame (by simp)
    by_cases same : bytes = original
    · subst same
      exact .inl ⟨rfl, .clean (by simp) fresh⟩
    · exact .inr ⟨by simp, same, unpatched, fresh⟩

theorem Kept.recoverable {world : World} (kept : Kept host path original world) : Recoverable host path original world := by
  rcases kept.files with ⟨same, held⟩ | foreign
  · obtain ⟨held, bytes, there⟩ := held.recovered
    refine ⟨fun _ => ⟨bytes, there, ?_⟩, fun patched patch found => ?_, fun differs => absurd same differs⟩
    · rcases held.present there with ⟨is, _⟩ | safe
      · exact .inl is
      · exact .inr safe.patch
    · have safe : Safe host path original patched (world.recovered path) := by
        rcases held.present found with ⟨is, _⟩ | safe
        · exact absurd is (patched_ne_original patch)
        · exact safe
      obtain ⟨stored, kept, _⟩ := safe.receipt
      exact ⟨by rw [kept]; rfl, by rw [safe.backup]; rfl, safe.restorePersisted_exec found⟩
  · have there : world.recovered path path = some world.installed := by
      unfold World.recovered
      rw [recoverDisplaced_exec_present foreign.there]
      exact foreign.there
    refine ⟨fun same => absurd same foreign.differs, fun patched patch found => ?_, fun _ => foreign.there⟩
    obtain rfl := Option.some.inj (there.symm.trans found)
    exact absurd patch foreign.unpatched

/-- **The extension can always be brought back.** In every run of the operations, each cut off anywhere or with any
of its steps failing, and of updates between them, in which no recovery overwrites a host file and no patch loses its
receipt, every state is recoverable. -/
theorem patch_survives (documented : host.Documented) (supported : host.sha256 original = supportedSha256)
    {start last : World} {actions : List Action} (begins : (patches host path original).initial start)
    (run : ((patches host path original).confine (Careful host path)).Run start actions last) :
    Recoverable host path original last := by
  obtain ⟨there, fresh, empty, installed⟩ := begins
  have first : Kept host path original start := ⟨by simp [empty], .inl ⟨installed, .clean there fresh⟩⟩
  have kept := System.run_invariant (fun _ _ _ kept step => kept.step documented supported step.1 step.2) first run
  exact kept.recoverable

end Survives

/-! ### A patch that loses its receipt -/

/-- The text of the extension in the samples. -/
def sampleOriginal : ByteArray := cleanGate.toByteArray

/-- The samples' extension without its gate. -/
def samplePatched : ByteArray := patchedGate.toByteArray

/-- The samples' digest: the supported one of the extension, and the bytes themselves of everything else. -/
def sampleSha256 (bytes : ByteArray) : String :=
  if bytes = sampleOriginal then supportedSha256
  else String.ofList ('x' :: bytes.data.toList.map fun byte => Char.ofNat byte.toNat)

/-- The samples' receipt. -/
def sampleReceipt : GateReceipt where
  path := "extension.js"
  backupPath := "extension.js.devin-router-gate.backup"
  version := "3.11.216"
  originalSha256 := supportedSha256
  patchedSha256 := "xif(!1)return i();"

/-- The text of the samples' receipt. -/
def sampleText : String :=
  "\x7b\"path\":\"extension.js\",\"backup_path\":\"extension.js.devin-router-gate.backup\",\"version\":\"3.11.216\"," ++
    "\"original_sha256\":\"A063DAE82C91328E17AE16121E90780087674B65839B5AD39915C9C59C652FF0\"," ++
    "\"patched_sha256\":\"xif(!1)return i();\"\x7d"

/-- A host of the one receipt. -/
def sampleHost : Host where
  sha256 := sampleSha256
  toVec receipt := if receipt = sampleReceipt then .ok sampleText.toByteArray else .error "not a sample"
  fromSlice bytes := if bytes = sampleText.toByteArray then some sampleReceipt else none
  parent _ := some ""
  describe
    | .notFound => "No such file or directory (os error 2)"
    | .refused => "Permission denied (os error 13)"

theorem charOfByte_injective : Function.Injective fun byte : UInt8 => Char.ofNat byte.toNat := by
  have back : ∀ code : Fin 256, (Char.ofNat code.val).toNat = code.val := by decide +kernel
  intro first second equal
  have codes : first.toNat = second.toNat :=
    calc first.toNat = (Char.ofNat first.toNat).toNat := (back ⟨first.toNat, first.toNat_lt⟩).symm
      _ = (Char.ofNat second.toNat).toNat := congrArg Char.toNat equal
      _ = second.toNat := back ⟨second.toNat, second.toNat_lt⟩
  exact UInt8.toNat_inj.mp codes

theorem sampleSha256_injective : Function.Injective sampleSha256 := by
  intro first second equal
  unfold sampleSha256 at equal
  split at equal
  case isTrue one =>
    split at equal
    case isTrue two => rw [one, two]
    case isFalse =>
      have heads := congrArg (fun text : String => text.toList.head?) equal
      simp [supportedSha256] at heads
  case isFalse =>
    split at equal
    case isTrue =>
      have heads := congrArg (fun text : String => text.toList.head?) equal
      simp [supportedSha256] at heads
    case isFalse =>
      have lists := List.cons.inj (String.ofList_injective equal) |>.2
      have bytes := List.map_injective_iff.mpr charOfByte_injective lists
      exact ByteArray.ext (Array.toList_inj.mp bytes)

theorem sampleHost_documented : sampleHost.Documented where
  sha256_injective := sampleSha256_injective
  fromSlice_toVec receipt bytes encoded := by
    simp only [sampleHost] at encoded ⊢
    split at encoded
    case isTrue same =>
      obtain rfl := Except.ok.inj encoded
      rw [if_pos rfl, same]
    case isFalse => cases encoded

/-- The directory of the samples. -/
def sampleStart : World where
  files path := if path = "extension.js" then some sampleOriginal else none
  receipts := []
  installed := sampleOriginal

theorem sampleStart_initial : (patches sampleHost "extension.js" sampleOriginal).initial sampleStart :=
  ⟨rfl, .of_none rfl, rfl, rfl⟩

/-- A patch that does not see the host file when it replaces it, and is cut off once the patched text is in place. -/
def cutSteps : List Outcome := List.replicate 13 Outcome.works ++ [Outcome.fails, .works]

/-- The patch cut off there can be brought back. -/
theorem patch_survives_cut : Recoverable sampleHost "extension.js" sampleOriginal
    (sampleStart.call sampleHost "extension.js" .apply cutSteps) := by
  refine patch_survives sampleHost_documented rfl sampleStart_initial
    (System.Run.single ⟨Step.call sampleStart .apply cutSteps nofun, fun call outcomes is => ?_, fun outcomes is => ?_⟩)
  · obtain ⟨rfl, rfl⟩ := Action.call.inj is
    decide +kernel
  · obtain ⟨_, rfl⟩ := Action.call.inj is
    rintro ⟨after, made, rest, ran, recovered, more, recovers, _⟩
    have nothing : ((replaceGate sampleHost "extension.js" supportedVersion supportedSha256).run cutSteps
        sampleStart.files).2.map Prod.snd = some [] := by decide +kernel
    rw [ran] at nothing
    obtain rfl : rest = [] := Option.some.inj nothing
    cases recovers

/-- A patch whose verification fails to read the host file, and whose rollback displaces it and fails to put the
original or the displaced file in its place. -/
def losingSteps : List Outcome :=
  List.replicate 20 Outcome.works ++
    [Outcome.fails, .works, .works, .works, .works, .works, .fails, .fails, .works, .works, .works]

/-- The directory of the samples, with a displaced file that was left behind. -/
def sampleStale : World :=
  { sampleStart with files := sampleStart.files.put "extension.js.devin-router-gate-replace" (some samplePatched) }

theorem sampleStale_initial : (patches sampleHost "extension.js" sampleOriginal).initial sampleStale :=
  ⟨by decide +kernel, .of_none (by decide +kernel), rfl, rfl⟩

/-- The extension that an update of the samples puts. -/
def sampleUpdate : ByteArray := "updated".toByteArray

/-- The samples' directory behind the update. -/
def sampleUpdated : World :=
  { sampleStale with
    files := sampleStale.files.put "extension.js" (some sampleUpdate)
    installed := sampleUpdate }

/-- An inspection whose recovery does not see the host file, and is cut off behind its rename. -/
def blindSteps : List Outcome := [.fails, .works, .works]

/-- The patched file comes back, and cannot be restored; and a file that an update put is overwritten. -/
theorem receipt_lost :
    (∃ start last actions, (patches sampleHost "extension.js" sampleOriginal).initial start ∧
      (patches sampleHost "extension.js" sampleOriginal).Run start actions last ∧
      patchOf sampleOriginal = some samplePatched ∧
      last.recovered "extension.js" "extension.js" = some samplePatched ∧
      last.recovered "extension.js" "extension.js.devin-router-gate.receipt" = none ∧
      ((restorePersisted sampleHost "extension.js").exec (last.recovered "extension.js")).2 = false ∧
      ¬ Recoverable sampleHost "extension.js" sampleOriginal last) ∧
    ∃ start last actions, (patches sampleHost "extension.js" sampleOriginal).initial start ∧
      (patches sampleHost "extension.js" sampleOriginal).Run start actions last ∧
      last.installed = sampleUpdate ∧ last.files "extension.js" = some samplePatched ∧
      ¬ Recoverable sampleHost "extension.js" sampleOriginal last := by
  have patch : patchOf sampleOriginal = some samplePatched := by decide +kernel
  constructor
  · have comes_back : (sampleStart.call sampleHost "extension.js" .apply losingSteps).recovered "extension.js"
        "extension.js" = some samplePatched := by decide +kernel
    have stays : ((restorePersisted sampleHost "extension.js").exec
        ((sampleStart.call sampleHost "extension.js" .apply losingSteps).recovered "extension.js")).2 = false := by
      decide +kernel
    refine ⟨sampleStart, sampleStart.call sampleHost "extension.js" .apply losingSteps, [.call .apply losingSteps],
      sampleStart_initial, System.Run.single (Step.call sampleStart .apply losingSteps nofun), patch, comes_back,
      by decide +kernel, stays, fun recoverable => ?_⟩
    have restored := (recoverable.restorable samplePatched patch comes_back).2.2.1
    rw [stays] at restored
    cases restored
  · have updates : Step sampleHost "extension.js" sampleOriginal sampleStale (.update sampleUpdate) sampleUpdated :=
      .update sampleStale sampleUpdate (by decide +kernel) (.of_none (by decide +kernel))
    have overwritten : (sampleUpdated.call sampleHost "extension.js" .inspect blindSteps).files "extension.js" =
        some samplePatched := by decide +kernel
    refine ⟨sampleStale, sampleUpdated.call sampleHost "extension.js" .inspect blindSteps,
      [.update sampleUpdate, .call .inspect blindSteps], sampleStale_initial,
      (System.Run.single updates).append (System.Run.single (Step.call sampleUpdated .inspect blindSteps nofun)), rfl,
      overwritten, fun recoverable => ?_⟩
    have untouched := recoverable.untouched (by decide +kernel)
    rw [overwritten] at untouched
    exact absurd untouched (by decide +kernel)

end Byok.Devin.HostPatch
