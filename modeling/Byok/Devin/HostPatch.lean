/-
**The patch of the Devin extension.** `server/src/devin/host_patch.rs`.

One gate of the extension's bundle is taken out, and a backup and a receipt are kept beside it. The operations
are programs on the files of the directory, each of whose steps may fail. The digest, the encoding of receipts,
the parent of a path and the texts of errors are those of a `Host`.

* `patchContent` — the text without the gate.
* `atomicReplace`, `recoverDisplaced` — a file is replaced by way of a displaced one.
* `inspect`, `apply`, `restore`, `restorePersisted` — the operations.
-/

import Mathlib
import Byok.Library.Files

namespace Byok.Devin.HostPatch

open Library

def supportedVersion : String := "3.11.216"

def supportedSha256 : String := "A063DAE82C91328E17AE16121E90780087674B65839B5AD39915C9C59C652FF0"

def backupSuffix : String := ".devin-router-gate.backup"

def receiptSuffix : String := ".devin-router-gate.receipt"

def cleanGate : String := "if(!R()&&!(0,p.isDevelopment)())return i();"

def patchedGate : String := "if(!1)return i();"

structure GateReceipt where
  path : String
  backupPath : String
  version : String
  originalSha256 : String
  patchedSha256 : String
deriving DecidableEq

structure GateStatus where
  path : Option String
  version : String
  supportedSha256 : String
  compatible : Bool
  clean : Bool
  patched : Bool
  backupPath : Option String
  backupAvailable : Bool
  currentSha256 : String
  backupSha256 : Option String
  restoreReceipt : Option GateReceipt
  message : String
deriving DecidableEq

/-- The errors of this module. -/
inductive Error where
  | config (message : String)
  | io (error : IoError)
deriving DecidableEq

/-- What is used of other code: the upper-case digest, the encoding of receipts, the parent of a path, and the
texts of errors of files. -/
structure Host where
  sha256 : ByteArray → String
  toVec : GateReceipt → Except String ByteArray
  fromSlice : ByteArray → Option GateReceipt
  parent : String → Option String
  describe : IoError → String

variable (host : Host)

/-- The text of an error. -/
def Error.toText : Error → String
  | .config message => "configuration error: " ++ message
  | .io error => "io error: " ++ host.describe error

def displacedPath (path : String) : String := path ++ ".devin-router-gate-replace"

def backupPath (path : String) : String := path ++ backupSuffix

def receiptPath (path : String) : String := path ++ receiptSuffix

/-! ### The text -/

/-- How often a pattern occurs, behind as many characters as belong to the last occurrence. -/
def countFrom (pattern : List Char) : Nat → List Char → Nat
  | _, [] => 0
  | skip + 1, _ :: rest => countFrom pattern skip rest
  | 0, char :: rest =>
    if pattern.isPrefixOf (char :: rest) then countFrom pattern (pattern.length - 1) rest + 1
    else countFrom pattern 0 rest

/-- `str::matches` with `count`. -/
def matchCount (pattern content : String) : Nat := countFrom pattern.toList 0 content.toList

/-- `str::replacen` with a count of one. -/
def replaceFirst (pattern replacement : List Char) : List Char → List Char
  | [] => []
  | char :: rest =>
    if pattern.isPrefixOf (char :: rest) then replacement ++ (char :: rest).drop pattern.length
    else char :: replaceFirst pattern replacement rest

def patchContent (content : String) : Except Error String :=
  if matchCount cleanGate content ≠ 1 ∨ matchCount patchedGate content ≠ 0 then
    .error (.config "Devin endpoint settings gate is missing or ambiguous; patch refused")
  else
    let patched := String.ofList (replaceFirst cleanGate.toList patchedGate.toList content.toList)
    if matchCount patchedGate patched ≠ 1 ∨ matchCount cleanGate patched ≠ 0 then
      .error (.config "Devin endpoint settings gate verification failed before writing")
    else .ok patched

def isCleanBytes (bytes : ByteArray) (expectedSha256 : String) : Bool :=
  host.sha256 bytes == expectedSha256 &&
    (String.fromUTF8? bytes).any fun content => matchCount cleanGate content == 1 && matchCount patchedGate content == 0

/-! ### Files -/

/-- The steps of this module, on files of bytes. -/
abbrev Patch (α : Type) : Type 1 := Prog (Files ByteArray) α

/-- `Result::is_ok_and` with an equality. -/
def isOkAnd (result : Except IoError ByteArray) (bytes : ByteArray) : Bool :=
  match result with
  | .ok found => decide (found = bytes)
  | .error _ => false

def recoverDisplaced (path : String) : Patch Unit := do
  if ← Files.exists? path then pure ()
  else if ← Files.exists? (displacedPath path) then
    let _ ← Files.rename (displacedPath path) path
    pure ()
  else pure ()

def atomicCreate (path : String) (bytes : ByteArray) : Patch (Except Error Unit) :=
  match host.parent path with
  | none => pure (.error (.config "Devin extension backup path has no parent"))
  | some _ => do
    match ← Files.stage with
    | .error error => pure (.error (.io error))
    | .ok () =>
      match ← Files.persist path bytes with
      | .error error => pure (.error (.io error))
      | .ok () => pure (.ok ())

/-- `atomic_replace`, once the replacement is staged. -/
def putInPlace (path : String) (bytes : ByteArray) : Patch (Except Error Unit) := do
  if ← Files.exists? path then
    let _ ← Files.remove (displacedPath path)
    match ← Files.rename path (displacedPath path) with
    | .error error => pure (.error (.io error))
    | .ok () =>
      match ← Files.persist path bytes with
      | .error error => do
        let _ ← Files.rename (displacedPath path) path
        pure (.error (.io error))
      | .ok () => do
        let _ ← Files.remove (displacedPath path)
        pure (.ok ())
  else
    match ← Files.persist path bytes with
    | .error error => pure (.error (.io error))
    | .ok () => pure (.ok ())

def atomicReplace (path : String) (bytes : ByteArray) : Patch (Except Error Unit) :=
  match host.parent path with
  | none => pure (.error (.config "Devin extension has no parent directory"))
  | some _ => do
    match ← Files.stage with
    | .error error => pure (.error (.io error))
    | .ok () => putInPlace path bytes

def removeIfExists (path : String) : Patch (Except Error Unit) := do
  match ← Files.remove path with
  | .ok () => pure (.ok ())
  | .error .notFound => pure (.ok ())
  | .error error => pure (.error (.io error))

def ensureBackup (path : String) (source : ByteArray) : Patch (Except Error Unit) := do
  let existing ← Files.read path
  if isOkAnd existing source then pure (.ok ())
  else
    match ← removeIfExists path with
    | .error error => pure (.error error)
    | .ok () => atomicCreate host path source

def hostReadError (path : String) (error : IoError) : Patch Error := do
  let backup ← Files.exists? (backupPath path)
  let hint := if backup then
      "; copy the verified backup " ++ backupPath path ++ " over " ++ path ++ " after closing Devin; backup: " ++
        backupPath path
    else ""
  pure (.config ("cannot read Devin extension " ++ path ++ ": " ++ host.describe error ++
    "; check the installation and try again" ++ hint))

/-! ### The receipt -/

def writeReceipt (receipt : GateReceipt) : Patch (Except Error Unit) :=
  match host.toVec receipt with
  | .error error => pure (.error (.config ("cannot encode the Devin extension restore receipt: " ++ error)))
  | .ok bytes => do
    match ← atomicCreate host (receiptPath receipt.path) bytes with
    | .ok () => pure (.ok ())
    | .error error =>
      pure (.error (.config ("cannot persist the Devin extension restore receipt " ++ receiptPath receipt.path ++ " (" ++
        error.toText host ++ "); the extension was left unchanged")))

/-- Whether a file is there and holds `bytes`. -/
def holdsBytes (path : String) (bytes : ByteArray) : Patch Bool := do
  if ← Files.exists? path then
    let found ← Files.read path
    pure (isOkAnd found bytes)
  else pure false

def discardFailedReceipt (path : String) (original : ByteArray) : Patch Unit := do
  if ← holdsBytes path original then
    let _ ← Files.remove (receiptPath path)
    pure ()
  else if ← Files.exists? path then pure ()
  else
    let _ ← Files.remove (receiptPath path)
    pure ()

def usableReceipt (path : String) (status : GateStatus) : Patch (Option GateReceipt) := do
  match ← Files.read (receiptPath path) with
  | .error _ => pure none
  | .ok bytes =>
    match host.fromSlice bytes with
    | none => pure none
    | some receipt =>
      if receipt.path ≠ path ∨ some receipt.backupPath ≠ status.backupPath then pure none
      else if status.patched = false ∨ status.currentSha256 ≠ receipt.patchedSha256 then pure none
      else
        match ← Files.read receipt.backupPath with
        | .error _ => pure none
        | .ok backup =>
          if host.sha256 backup ≠ receipt.originalSha256 ∨ isCleanBytes host backup receipt.originalSha256 = false then
            pure none
          else pure (some receipt)

/-! ### The state of the extension -/

def GateStatus.notFound : GateStatus where
  path := none
  version := HostPatch.supportedVersion
  supportedSha256 := HostPatch.supportedSha256
  compatible := false
  clean := false
  patched := false
  backupPath := none
  backupAvailable := false
  currentSha256 := ""
  backupSha256 := none
  restoreReceipt := none
  message := "Devin extension.js not found; start Devin once or reinstall it before enabling this integration"

/-- The status of a file that cannot be used. -/
def GateStatus.unusable (path version expectedSha256 : String) (backup : Except IoError ByteArray)
    (currentSha256 message : String) : GateStatus where
  path := some path
  version := version
  supportedSha256 := expectedSha256
  compatible := false
  clean := false
  patched := false
  backupPath := some (HostPatch.backupPath path)
  backupAvailable := backup.isOk
  currentSha256 := currentSha256
  backupSha256 := backup.toOption.map host.sha256
  restoreReceipt := none
  message := message

/-- What is wrong with a text that is neither clean nor patched. -/
def incompatibleMessage (version expectedSha256 currentSha256 : String) (cleanCount patchedCount : Nat) : String :=
  if currentSha256 ≠ expectedSha256 then
    "Devin " ++ version ++ " extension SHA-256 " ++ currentSha256 ++ " is not supported (expected " ++ expectedSha256 ++
      "); this integration currently supports Devin " ++ supportedVersion ++
      " only. Reinstall the supported Devin version or update this application"
  else
    "Devin " ++ version ++ " extension does not contain exactly one supported endpoint settings gate (clean=" ++
      toString cleanCount ++ ", patched=" ++ toString patchedCount ++ "); reinstall Devin " ++ version ++ " and try again"

/-- The status of a text, without a receipt. -/
def GateStatus.ofContent (path version expectedSha256 : String) (backup : Except IoError ByteArray)
    (current : ByteArray) (content : String) : GateStatus :=
  let cleanCount := matchCount cleanGate content
  let patchedCount := matchCount patchedGate content
  let clean := cleanCount == 1 && patchedCount == 0 && host.sha256 current == expectedSha256
  let patched := cleanCount == 0 && patchedCount == 1
  { path := some path
    version := version
    supportedSha256 := expectedSha256
    compatible := clean || patched
    clean := clean
    patched := patched
    backupPath := some (HostPatch.backupPath path)
    backupAvailable := backup.isOk
    currentSha256 := host.sha256 current
    backupSha256 := backup.toOption.map host.sha256
    restoreReceipt := none
    message := if clean || patched then ""
      else incompatibleMessage version expectedSha256 (host.sha256 current) cleanCount patchedCount }

/-- `inspect_existing`, behind the recovery. -/
def inspectRecovered (path version expectedSha256 : String) : Patch GateStatus := do
  let backup ← Files.read (backupPath path)
  match ← Files.read path with
  | .error error => do
    let message ← hostReadError host path error
    pure (.unusable host path version expectedSha256 backup "" (message.toText host))
  | .ok current =>
    match String.fromUTF8? current with
    | none =>
      pure (.unusable host path version expectedSha256 backup (host.sha256 current)
        "Devin extension is not UTF-8; patch and restore are refused")
    | some content => do
      let status := GateStatus.ofContent host path version expectedSha256 backup current content
      let receipt ← usableReceipt host path status
      pure { status with restoreReceipt := receipt }

def inspectExisting (path version expectedSha256 : String) : Patch GateStatus := do
  recoverDisplaced path
  inspectRecovered host path version expectedSha256

def inspect (path : Option String) : Patch GateStatus :=
  match path with
  | none => pure .notFound
  | some path => inspectExisting host path supportedVersion supportedSha256

/-! ### The operations -/

def refusalMessage (status : GateStatus) : String :=
  if status.patched then
    "Devin extension already has this application's settings gate; restore the clean extension first; backup: " ++
      status.backupPath.getD "unavailable"
  else if status.message ≠ "" then status.message
  else "Devin extension is not a supported clean bundle; patch refused"

/-- The receipt of a patch. -/
def GateReceipt.ofPatch (path version : String) (current patched : ByteArray) : GateReceipt where
  path := path
  backupPath := HostPatch.backupPath path
  version := version
  originalSha256 := host.sha256 current
  patchedSha256 := host.sha256 patched

/-- `apply_with`, from the patched text to the host file that holds it. -/
def replaceWith (path version : String) (current patched : ByteArray) :
    Patch (Except Error (ByteArray × GateReceipt)) := do
  match ← ensureBackup host (backupPath path) current with
  | .error error => pure (.error error)
  | .ok () =>
    let receipt := GateReceipt.ofPatch host path version current patched
    match ← writeReceipt host receipt with
    | .error error => pure (.error error)
    | .ok () =>
      match ← atomicReplace host path patched with
      | .ok () => pure (.ok (current, receipt))
      | .error error => do
        let found ← Files.read path
        if isOkAnd found patched then pure (.ok (current, receipt))
        else do
          discardFailedReceipt path current
          pure (.error error)

/-- `apply_with`, up to the host file that holds the patched text. -/
def replaceGate (path version expectedSha256 : String) : Patch (Except Error (ByteArray × GateReceipt)) := do
  recoverDisplaced path
  match ← Files.read path with
  | .error error => do
    let error ← hostReadError host path error
    pure (.error error)
  | .ok current =>
    match String.fromUTF8? current with
    | none => pure (.error (.config "Devin extension is not UTF-8; patch refused"))
    | some content => do
      let status ← inspectExisting host path version expectedSha256
      if status.clean = false then pure (.error (.config (refusalMessage status)))
      else
        match patchContent content with
        | .error error => pure (.error error)
        | .ok patched => replaceWith host path version current patched.toByteArray

/-- `apply_with`, behind the replacement. -/
def verifyGate (path version expectedSha256 : String) (current : ByteArray) (receipt : GateReceipt) :
    Patch (Except Error GateReceipt) := do
  let verified ← inspectExisting host path version expectedSha256
  if verified.patched && verified.currentSha256 == receipt.patchedSha256 then pure (.ok receipt)
  else do
    let _ ← atomicReplace host path current
    discardFailedReceipt path current
    pure (.error (.config ("Devin extension patch verification failed: " ++ verified.message)))

def applyWith (path version expectedSha256 : String) : Patch (Except Error GateReceipt) := do
  match ← replaceGate host path version expectedSha256 with
  | .error error => pure (.error error)
  | .ok (current, receipt) => verifyGate host path version expectedSha256 current receipt

def apply (path : String) : Patch (Except Error GateReceipt) := applyWith host path supportedVersion supportedSha256

def restoreRefusal (receipt : GateReceipt) (reason : String) : Patch Error := do
  match ← Files.read receipt.backupPath with
  | .ok bytes =>
    if isCleanBytes host bytes receipt.originalSha256 then
      pure (.config (reason ++ "; copy " ++ receipt.backupPath ++ " over " ++ receipt.path ++
        " and restart Devin; backup: " ++ receipt.backupPath))
    else pure (.config (reason ++ "; the verified backup is unavailable, so reinstall Devin 3.11.216; backup: " ++
      receipt.backupPath))
  | .error _ => pure (.config (reason ++ "; the verified backup is unavailable, so reinstall Devin 3.11.216; backup: " ++
      receipt.backupPath))

/-- `restore`, once the backup is verified. -/
def restoreFrom (receipt : GateReceipt) (current backup : ByteArray) : Patch (Except Error Unit) := do
  match ← atomicReplace host receipt.path backup with
  | .error error => pure (.error error)
  | .ok () => do
    let restored ← inspectExisting host receipt.path receipt.version receipt.originalSha256
    if restored.clean = false then do
      let _ ← atomicReplace host receipt.path current
      pure (.error (.config "Devin extension restore verification failed; the patched file was put back"))
    else do
      let _ ← Files.remove (receiptPath receipt.path)
      pure (.ok ())

def restore (receipt : GateReceipt) : Patch (Except Error Unit) := do
  recoverDisplaced receipt.path
  match ← Files.read receipt.path with
  | .error error => do
    let error ← hostReadError host receipt.path error
    pure (.error error)
  | .ok current =>
    if host.sha256 current ≠ receipt.patchedSha256 then do
      let error ← restoreRefusal host receipt
        "Devin extension changed after this application patched it; restore refused"
      pure (.error error)
    else do
      match ← Files.read receipt.backupPath with
      | .error error =>
        pure (.error (.config ("Devin extension backup " ++ receipt.backupPath ++ " is unavailable (" ++
          host.describe error ++ "); restore refused; restore the clean Devin installation or reinstall Devin; backup: " ++
          receipt.backupPath)))
      | .ok backup =>
        if host.sha256 backup ≠ receipt.originalSha256 ∨ isCleanBytes host backup receipt.originalSha256 = false then do
          let error ← restoreRefusal host receipt
            "Devin extension backup does not match the verified clean file; restore refused"
          pure (.error error)
        else restoreFrom host receipt current backup

def restorePersisted (path : String) : Patch Bool := do
  let status ← inspectExisting host path supportedVersion supportedSha256
  match status.restoreReceipt with
  | none => pure false
  | some receipt => do
    match ← restore host receipt with
    | .ok () => pure true
    | .error _ => pure false

end Byok.Devin.HostPatch
