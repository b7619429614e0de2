/-
**The gate of tool cards.** `gate_completion` and the gates that it chooses from, of
`server/src/cursor/tools/tool_call_result/gate.rs`.

A result that is missing, or of a kind that its gate passes by, is `none`.

* `gateCard` — what the gate makes of a card.
* `gateCard_settled_iff` — which cards are not cut again.
-/

import Byok.Cursor.Tools.EditPath
import Byok.Cursor.Tools.GrepSettled
import Byok.Cursor.Tools.McpCard
import Byok.Cursor.Tools.WebSearchCard

namespace Byok.CardGate

open Library Replay

/-! ### The results -/

/-- What `ShellSuccess` and `ShellFailure` show. -/
structure ShellOutput where
  stdout : String
  stderr : String
  interleavedOutput : Option String
deriving DecidableEq

/-- The `output` of `ReadToolSuccess`. -/
inductive ReadOutput
  | content (text : String)
  | data (bytes : List UInt8)
  | blob
deriving DecidableEq

/-- `ReadToolSuccess`. -/
structure ReadSuccess where
  output : Option ReadOutput
  exceededLimit : Bool
deriving DecidableEq

/-- `GlobToolSuccess`. -/
structure GlobSuccess where
  files : List String
  totalFiles : Int
  clientTruncated : Bool
deriving DecidableEq

structure EditSuccess where
  diffString : Option String
  beforeFullFileContent : Option String
  afterFullFileContent : String
deriving DecidableEq

structure McpResource where
  uri : String
  name : Option String := none
  description : Option String := none
deriving DecidableEq

/-- The content of `ReadMcpResourceSuccess`. -/
inductive ResourceContent
  | text (text : String)
  | blob (bytes : List UInt8)
  | missing
deriving DecidableEq

/-- `tool_call::Tool`, by its results. -/
inductive Tool (Value : Type)
  | shell (result : Option ShellOutput)
  | grep (result : Option GrepSuccess)
  | glob (result : Option GlobSuccess)
  | read (result : Option ReadSuccess)
  | edit (result : Option EditSuccess)
  | mcp (result : Option (McpSuccess Value))
  | listMcpResources (resources : Option (List McpResource))
  | readMcpResource (content : Option ResourceContent)
  | getMcpTools (content : Option String)
  | webFetch (markdown : Option String)
  | webSearch (references : Option (List WebSearchReference))
  | generateImage (imageData : Option String)
  | other

/-! ### The gates -/

def shellStreamLimit : Nat := 16 * kib

def shellInterleavedLimit : Nat := 32 * kib

/-- `gate_shell_result`. -/
def gateShell (output : ShellOutput) : ShellOutput :=
  { stdout := truncateEdges "Shell stdout" output.stdout shellStreamLimit
    stderr := truncateEdges "Shell stderr" output.stderr shellStreamLimit
    interleavedOutput := output.interleavedOutput.map (truncateEdges "Shell interleaved output" · shellInterleavedLimit) }

def readContentLimit : Nat := 64 * kib

def readBinaryLimit : Nat := 32 * kib

def gateRead (success : ReadSuccess) : ReadSuccess :=
  match success.output with
  | some (.content value) =>
    let next := truncateText "Read" value readContentLimit
    if next ≠ value then { output := some (.content next), exceededLimit := true } else success
  | some (.data bytes) =>
    if readBinaryLimit < bytes.length then
      { output := some (.content (truncationNotice "Read binary data" readBinaryLimit 0 bytes.length))
        exceededLimit := true }
    else success
  | _ => success

def globFileLimit : Nat := 200

def gateGlob (success : GlobSuccess) : GlobSuccess :=
  let original := success.files.length
  if original ≤ globFileLimit then
    { success with totalFiles := if success.totalFiles ≤ 0 then asI32 original else success.totalFiles }
  else
    { files := success.files.take globFileLimit
      totalFiles := max success.totalFiles (asI32 original)
      clientTruncated := true }

/-- The limit of `gate_edit`. -/
def editCardLimit (name : String) : Nat :=
  if normalizedName name ∈ ["patchedit", "patcheditlines", "patcheditspan", "strreplace"] then 4 * kib else 32 * kib

def gateEdit (name : String) (success : EditSuccess) : EditSuccess :=
  match success.diffString with
  | some diff =>
    { diffString := some (truncateText name diff (editCardLimit name))
      beforeFullFileContent := none
      afterFullFileContent := "" }
  | none =>
    { diffString := none
      beforeFullFileContent := none
      afterFullFileContent := truncateText name success.afterFullFileContent (editCardLimit name) }

def mcpResourceLimit : Nat := 200

def mcpResourceDescriptionLimit : Nat := kib

/-- The resource that stands for those left out. -/
def resourcesNotice (shown original : Nat) : McpResource where
  uri := "truncated:list-mcp-resources"
  name := some "truncated"
  description := some ("[truncated: ListMcpResources result exceeded " ++ toString mcpResourceLimit ++
    " resources; showing " ++ toString shown ++ " of " ++ toString original ++ " resources]")

def gateMcpResources (resources : List McpResource) : List McpResource :=
  if resources.any fun resource => resource.uri == "truncated:list-mcp-resources" then resources
  else
    let shown := (resources.take mcpResourceLimit).map fun resource =>
      { resource with
        description := resource.description.map
          (truncateText "MCP resource description" · mcpResourceDescriptionLimit) }
    if shown.length < resources.length then shown ++ [resourcesNotice shown.length resources.length] else shown

def mcpBinaryLimit : Nat := 32 * kib

def gateMcpResource : ResourceContent → ResourceContent
  | .text text => .text (truncateText "FetchMcpResource" text mcpTextLimit)
  | .blob bytes =>
    if mcpBinaryLimit < bytes.length then
      .text (truncationNotice "FetchMcpResource blob" mcpBinaryLimit 0 bytes.length)
    else .blob bytes
  | .missing => .missing

def gateMcpTools (content : String) : String := truncateText "GetMcpTools" content mcpTextLimit

def webFetchLimit : Nat := 32 * kib

def gateWebFetch (markdown : String) : String := truncateText "WebFetch" markdown webFetchLimit

def gateGenerateImage (imageData : String) : String :=
  if trim imageData ≠ "" ∧ startsWith imageData "[base64 image data omitted from replay; bytes=" = false then
    "[base64 image data omitted from replay; bytes=" ++ toString (strLength (trim imageData)) ++ "]"
  else imageData

section Gate

variable {Value : Type} (prost : Prost Value)

/-- The card of `gate_completion`. -/
def gateCard (name : String) : Tool Value → Tool Value
  | .shell result => .shell (result.map gateShell)
  | .grep result => .grep (result.map gateGrep)
  | .glob result => .glob (result.map gateGlob)
  | .read result => .read (result.map gateRead)
  | .edit result => .edit (result.map (gateEdit name))
  | .mcp result => .mcp (result.map (gateMcp prost))
  | .listMcpResources resources => .listMcpResources (resources.map gateMcpResources)
  | .readMcpResource content => .readMcpResource (content.map gateMcpResource)
  | .getMcpTools content => .getMcpTools (content.map gateMcpTools)
  | .webFetch markdown => .webFetch (markdown.map gateWebFetch)
  | .webSearch references => .webSearch (references.map gateWebSearch)
  | .generateImage imageData => .generateImage (imageData.map gateGenerateImage)
  | .other => .other

end Gate

/-! ### Cards that are cut once -/

section Settled

theorem gateShell_settled {output : ShellOutput} (stdout : strLength output.stdout < 2 ^ 64)
    (stderr : strLength output.stderr < 2 ^ 64)
    (interleaved : ∀ text ∈ output.interleavedOutput, strLength text < 2 ^ 64) :
    gateShell (gateShell output) = gateShell output := by
  have stream : shellStreamLimit ∈ limits := by decide
  have both : shellInterleavedLimit ∈ limits := by decide
  have first : strLength "Shell stdout" = 12 := strLength_ofList _
  have second : strLength "Shell stderr" = 12 := strLength_ofList _
  have third : strLength "Shell interleaved output" = 24 := strLength_ofList _
  obtain ⟨out, err, interleavedOutput⟩ := output
  simp only [gateShell, truncateEdges_idempotent stream (first.trans_le (by decide)) stdout,
    truncateEdges_idempotent stream (second.trans_le (by decide)) stderr]
  cases interleavedOutput with
  | none => rfl
  | some text =>
    simp only [Option.map_some, truncateEdges_idempotent both (third.trans_le (by decide)) (interleaved text rfl)]

theorem truncationNotice_le {name : String} (named : strLength name ≤ 64) {limit original : Nat}
    (few : Settle.digits limit ≤ 5) (small : original < 2 ^ 64) :
    strLength (truncationNotice name limit 0 original) ≤ 256 := by
  have frame := frame_le name limit original
  have digits : Settle.digits original ≤ 20 := (Settle.digits_le_iff (by decide)).mpr (by omega)
  have zero : Settle.digits 0 = 1 := rfl
  rw [strLength_truncationNotice]
  omega

theorem gateRead_settled {success : ReadSuccess}
    (sized : ∀ bytes, success.output = some (.data bytes) → bytes.length < 2 ^ 64) :
    gateRead (gateRead success) = gateRead success := by
  obtain ⟨output, exceededLimit⟩ := success
  match output with
  | none => rfl
  | some .blob => rfl
  | some (.content value) =>
    by_cases same : truncateText "Read" value readContentLimit = value
    · simp [gateRead, same]
    · simp [gateRead, same, truncateText_idempotent]
  | some (.data bytes) =>
    by_cases large : readBinaryLimit < bytes.length
    · have named : strLength "Read binary data" = 16 := strLength_ofList _
      have short := truncationNotice_le (named.trans_le (by decide))
        (show Settle.digits readBinaryLimit ≤ 5 by decide) (sized bytes rfl)
      have limit : (256 : Nat) ≤ readContentLimit := by decide
      simp [gateRead, large, truncateText_short (Nat.le_trans short limit)]
    · simp [gateRead, large]

theorem gateGlob_settled {success : GlobSuccess} (sized : success.files.length < 2 ^ 31) :
    gateGlob (gateGlob success) = gateGlob success := by
  have count := asI32_of_lt sized
  unfold gateGlob
  dsimp only
  split
  · rename_i few
    by_cases none : success.totalFiles ≤ 0
    · simp only [none, if_true, ite_self]
    · simp only [none, if_false]
  · rename_i many
    have taken : (success.files.take globFileLimit).length = globFileLimit := List.length_take_of_le (by omega)
    have total : ¬ max success.totalFiles (asI32 success.files.length) ≤ 0 := by omega
    simp only [taken, Nat.le_refl, if_true, total, if_false]

theorem gateEdit_settled (name : String) (success : EditSuccess) :
    gateEdit name (gateEdit name success) = gateEdit name success := by
  obtain ⟨diffString, before, after⟩ := success
  cases diffString with
  | none => simp only [gateEdit, truncateText_idempotent]
  | some diff => simp only [gateEdit, truncateText_idempotent]

theorem gateMcpResources_settled (resources : List McpResource) :
    gateMcpResources (gateMcpResources resources) = gateMcpResources resources := by
  have left {list : List McpResource}
      (marked : list.any (fun resource => resource.uri == "truncated:list-mcp-resources") = true) :
      gateMcpResources list = list := if_pos marked
  by_cases marked : resources.any (fun resource => resource.uri == "truncated:list-mcp-resources") = true
  · rw [left marked, left marked]
  · obtain ⟨shown, hshown⟩ : ∃ shown, shown = (resources.take mcpResourceLimit).map fun resource => { resource with
        description := resource.description.map (truncateText "MCP resource description" · mcpResourceDescriptionLimit) } :=
      ⟨_, rfl⟩
    have out : gateMcpResources resources =
        if shown.length < resources.length then shown ++ [resourcesNotice shown.length resources.length] else shown := by
      rw [gateMcpResources, if_neg marked, hshown]
    by_cases fewer : shown.length < resources.length
    · rw [out, if_pos fewer]
      exact left (List.any_eq_true.mpr ⟨_, List.mem_append_right _ (List.mem_singleton_self _), by simp [resourcesNotice]⟩)
    · have few : shown.length ≤ mcpResourceLimit := by
        rw [hshown, List.length_map]
        exact List.length_take_le _ _
      have again : shown.map (fun resource => { resource with
          description := resource.description.map (truncateText "MCP resource description" · mcpResourceDescriptionLimit) }) =
          shown := by
        rw [hshown, List.map_map]
        refine List.map_congr_left fun resource _ => ?_
        cases described : resource.description with
        | none => simp [described]
        | some description => simp [described, truncateText_idempotent]
      rw [out, if_neg fewer, gateMcpResources, List.take_of_length_le few, again]
      simp

theorem gateMcpResource_settled {content : ResourceContent}
    (sized : ∀ bytes, content = .blob bytes → bytes.length < 2 ^ 64) :
    gateMcpResource (gateMcpResource content) = gateMcpResource content := by
  cases content with
  | text text => simp only [gateMcpResource, truncateText_idempotent]
  | blob bytes =>
    by_cases large : mcpBinaryLimit < bytes.length
    · have named : strLength "FetchMcpResource blob" = 21 := strLength_ofList _
      have short := truncationNotice_le (named.trans_le (by decide))
        (show Settle.digits mcpBinaryLimit ≤ 5 by decide) (sized bytes rfl)
      have limit : (256 : Nat) ≤ mcpTextLimit := by decide
      simp only [gateMcpResource, large, if_true, truncateText_short (Nat.le_trans short limit)]
    · simp only [gateMcpResource, large, if_false]
  | missing => rfl

theorem gateGenerateImage_settled (imageData : String) :
    gateGenerateImage (gateGenerateImage imageData) = gateGenerateImage imageData := by
  by_cases shown : trim imageData ≠ "" ∧ startsWith imageData "[base64 image data omitted from replay; bytes=" = false
  · have out : gateGenerateImage imageData = "[base64 image data omitted from replay; bytes=" ++
        (toString (strLength (trim imageData)) ++ "]") := by
      rw [gateGenerateImage, if_pos shown, String.append_assoc]
    rw [out, gateGenerateImage, if_neg]
    rintro ⟨-, other⟩
    rw [startsWith_append] at other
    cases other
  · have same : gateGenerateImage imageData = imageData := if_neg shown
    rw [same, same]

/-- The parts of a result have the sizes that a message can have. -/
def Tool.Sized {Value : Type} : Tool Value → Prop
  | .shell (some output) => strLength output.stdout < 2 ^ 64 ∧ strLength output.stderr < 2 ^ 64 ∧
      ∀ text ∈ output.interleavedOutput, strLength text < 2 ^ 64
  | .grep (some success) => ∀ union ∈ success.unions, union.Sized
  | .glob (some success) => success.files.length < 2 ^ 31
  | .read (some success) => ∀ bytes, success.output = some (.data bytes) → bytes.length < 2 ^ 64
  | .readMcpResource (some content) => ∀ bytes, content = .blob bytes → bytes.length < 2 ^ 64
  | .webSearch (some references) => webSearchBytes references < 2 ^ 64
  | _ => True

variable {Value : Type} {prost : Prost Value} {tool : Tool Value}

/-- **Which cards are not cut again.** -/
theorem gateCard_settled_iff (name : String) (sized : tool.Sized) :
    gateCard prost name (gateCard prost name tool) = gateCard prost name tool ↔
      ∀ references, tool = .webSearch (some references) → Lasting references := by
  have rest (settled : gateCard prost name (gateCard prost name tool) = gateCard prost name tool)
      (other : ∀ references, tool ≠ .webSearch (some references)) :
      gateCard prost name (gateCard prost name tool) = gateCard prost name tool ↔
        ∀ references, tool = .webSearch (some references) → Lasting references :=
    iff_of_true settled fun references same => absurd same (other references)
  rcases tool with (_ | output) | (_ | success) | (_ | success) | (_ | success) | (_ | success) | (_ | success) |
    (_ | resources) | (_ | content) | (_ | content) | (_ | markdown) | (_ | references) | (_ | imageData) | _
  · exact rest rfl (by simp)
  · exact rest (congrArg (fun result => Tool.shell (some result)) (gateShell_settled sized.1 sized.2.1 sized.2.2)) (by simp)
  · exact rest rfl (by simp)
  · exact rest (congrArg (fun result => Tool.grep (some result)) (gateGrep_settled sized)) (by simp)
  · exact rest rfl (by simp)
  · exact rest (congrArg (fun result => Tool.glob (some result)) (gateGlob_settled sized)) (by simp)
  · exact rest rfl (by simp)
  · exact rest (congrArg (fun result => Tool.read (some result)) (gateRead_settled sized)) (by simp)
  · exact rest rfl (by simp)
  · exact rest (congrArg (fun result => Tool.edit (some result)) (gateEdit_settled name success)) (by simp)
  · exact rest rfl (by simp)
  · exact rest (congrArg (fun result => Tool.mcp (some result)) (gateMcp_settled success)) (by simp)
  · exact rest rfl (by simp)
  · exact rest (congrArg (fun result => Tool.listMcpResources (some result)) (gateMcpResources_settled resources)) (by simp)
  · exact rest rfl (by simp)
  · exact rest (congrArg (fun result => Tool.readMcpResource (some result)) (gateMcpResource_settled sized)) (by simp)
  · exact rest rfl (by simp)
  · exact rest (congrArg (fun result => Tool.getMcpTools (some result)) (truncateText_idempotent ..)) (by simp)
  · exact rest rfl (by simp)
  · exact rest (congrArg (fun result => Tool.webFetch (some result)) (truncateText_idempotent ..)) (by simp)
  · exact rest rfl (by simp)
  · have only : (∀ other, (Tool.webSearch (some references) : Tool Value) = .webSearch (some other) → Lasting other) ↔
        Lasting references := by
      simp
    rw [only, ← gateWebSearch_settled_iff sized]
    simp [gateCard]
  · exact rest rfl (by simp)
  · exact rest (congrArg (fun result => Tool.generateImage (some result)) (gateGenerateImage_settled imageData)) (by simp)
  · exact rest rfl (by simp)

/-- The parameters where every value is its name. -/
def named : Prost String := ⟨toString, toString, fun fields => some fields.length⟩

/-- What a search found, with a long chunk. -/
def sampleReference : WebSearchReference := ⟨"Lean", "https://example.com", String.ofList (List.replicate 2000 'x')⟩

theorem chunk_sampleReference : strLength sampleReference.chunk = 2000 := strLength_replicate 'x' (by decide) 2000

theorem bytes_sampleReferences : webSearchBytes (List.replicate 10 sampleReference) = 20230 := by
  have title : strLength sampleReference.title = 4 := by decide
  have url : strLength sampleReference.url = 19 := by decide +kernel
  have each : sampleReference.bytes = 2023 := by
    rw [WebSearchReference.bytes, title, url, chunk_sampleReference]
  rw [webSearchBytes, List.map_replicate, List.sum_replicate, each]
  decide

theorem gateCard_settled_iff_search :
    let references := List.replicate 10 sampleReference
    webSearchLimit < originalBytes references ∧
    (gateCard named "WebSearch" (gateCard named "WebSearch" (.webSearch (some references))) =
        gateCard named "WebSearch" (.webSearch (some references)) ↔
      ∀ other, (Tool.webSearch (some references) : Tool String) = .webSearch (some other) → Lasting other) := by
  have uncut : cutReference sampleReference = sampleReference := by
    have chunk : strLength sampleReference.chunk ≤ webSearchSnippetLimit := by
      rw [chunk_sampleReference]
      decide
    rw [cutReference, truncateText_short chunk,
      truncateText_short (show strLength sampleReference.title ≤ webSearchTitleLimit by decide)]
  refine ⟨?_, gateCard_settled_iff "WebSearch" (show webSearchBytes _ < 2 ^ 64 from ?_)⟩
  · rw [originalBytes, List.map_replicate, uncut, bytes_sampleReferences]
    decide
  · rw [bytes_sampleReferences]
    decide

end Settled

end Byok.CardGate
