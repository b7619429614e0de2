/-
**The context breakdown.** `server/src/cursor/services/usage.rs`.

What each category of a context costs is estimated from the texts that are measured in it, and is then fitted to the
number of tokens that were used.

* `measureRuntime` — a runtime text is split by its tags.
* `MessageMeasureCache.measures` — a message is measured once.
* `fitSpecialEstimates` — the estimates of all categories but the conversation are scaled down to what was used.
* `breakdown` — the whole.

Counters are `u64`: `Fault.overflow` is a step that leaves their range, `Fault.slice` a slice that is not within its
text. Positions count characters.
-/

import Byok.Library.Apportion
import Byok.Model.TokenCount

namespace Byok.Cursor.Services

open Library

/-! ### Counters and texts -/

/-- Why a call does not return a breakdown: it panics, or it fails. -/
inductive Fault where
  | overflow
  | slice
  | failed (error : Error)
deriving DecidableEq, Repr

/-- `u64::MAX`. -/
def u64Max : Nat := 18446744073709551615

/-- `u32::MAX`. -/
def u32Max : Nat := 4294967295

def addU64 (left right : Nat) : Except Fault Nat :=
  if left + right ≤ u64Max then .ok (left + right) else .error .overflow

def subU64 (left right : Nat) : Except Fault Nat := if right ≤ left then .ok (left - right) else .error .overflow

/-- `saturating_mul`. -/
def mulSaturating (left right : Nat) : Nat := min (left * right) u64Max

/-- `as u32`, after a `min`. -/
def toU32 (value : Nat) : UInt32 := UInt32.ofNat (min value u32Max)

def lenUtf16 (character : Char) : Nat := if character.toNat ≤ 0xFFFF then 1 else 2

/-- `str::encode_utf16`, counted. -/
def utf16Length (text : List Char) : Nat := (text.map lenUtf16).sum

/-- `str::find`, in characters. -/
def find (pattern text : List Char) : Option Nat := text.tails.findIdx? fun rest => pattern.isPrefixOf rest

/-- `&text[start..stop]`. -/
def slice (text : List Char) (start stop : Nat) : Except Fault (List Char) :=
  if start ≤ stop ∧ stop ≤ text.length then .ok ((text.drop start).take (stop - start)) else .error .slice

/-! ### Measures -/

/-- The indices of `CATEGORIES`. -/
inductive Category where
  | system
  | tools
  | rules
  | skills
  | mcp
  | subagents
  | summary
  | conversation
deriving DecidableEq, Repr

namespace Category

/-- The categories before the conversation. -/
def special : List Category := [.system, .tools, .rules, .skills, .mcp, .subagents, .summary]

def all : List Category := special ++ [.conversation]

/-- `CATEGORIES`. -/
def id : Category → String
  | .system => "system_prompt"
  | .tools => "tools"
  | .rules => "rules"
  | .skills => "skills"
  | .mcp => "mcp"
  | .subagents => "subagents"
  | .summary => "summarized_conversation"
  | .conversation => "conversation"

def label : Category → String
  | .system => "System prompt"
  | .tools => "Tool definitions"
  | .rules => "Rules"
  | .skills => "Skills"
  | .mcp => "MCP & dynamic tools"
  | .subagents => "Subagent definitions"
  | .summary => "Summarized conversation"
  | .conversation => "Conversation"

end Category

structure Measure where
  characters : Nat
  tokenUnits : Nat
deriving DecidableEq, Repr

namespace Measure

def default : Measure := ⟨0, 0⟩

/-- What a character adds to `token_units`. -/
def unitsOf (character : Char) : Nat :=
  if character.toNat < 128 then lenUtf16 character * 273 else lenUtf16 character * 550

def add (measure : Measure) (text : List Char) : Except Fault Measure := do
  let characters ← addU64 measure.characters (utf16Length text)
  let units ← text.foldlM (fun units character => addU64 units (unitsOf character)) 0
  let tokenUnits ← addU64 measure.tokenUnits units
  return ⟨characters, tokenUnits⟩

def estimatedTokens (measure : Measure) : Nat := (measure.tokenUnits + 999) / 1000

end Measure

/-- `[Measure; 8]`. -/
abbrev Measures := Category → Measure

namespace Measures

def default : Measures := fun _ => .default

/-- A text is added to a category. -/
def addTo (measures : Measures) (category : Category) (text : List Char) : Except Fault Measures := do
  let measure ← (measures category).add text
  return Function.update measures category measure

end Measures

/-! ### Runtime texts -/

structure TagRange where
  start : Nat
  stop : Nat
  category : Category
deriving DecidableEq, Repr

theorem find_lt {pattern text : List Char} {index : Nat} (found : find pattern text = some index)
    (some : pattern ≠ []) : index + pattern.length ≤ text.length ∧ index < text.length := by
  obtain ⟨bound, starts, -⟩ := List.findIdx?_eq_some_iff_getElem.mp found
  rw [List.getElem_tails] at starts
  have fits := (List.isPrefixOf_iff_prefix.mp starts).length_le
  have positive := List.length_pos_of_ne_nil some
  rw [List.length_drop] at fits
  omega

/-- The loop of `collect_ranges`, on the text from `cursor` on. -/
def collectFrom (opening closing : List Char) (category : Category) (cursor : Nat) (rest : List Char) :
    List TagRange :=
  match find opening rest with
  | none => []
  | some start =>
    match _opened : find ['>'] (rest.drop start) with
    | none => []
    | some offset =>
      let openEnd := start + offset + 1
      match find closing (rest.drop openEnd) with
      | none => []
      | some relativeEnd =>
        let stop := openEnd + relativeEnd + closing.length
        ⟨cursor + start, cursor + stop, category⟩ ::
          collectFrom opening closing category (cursor + stop) (rest.drop stop)
termination_by rest.length
decreasing_by
  have within := (find_lt _opened (List.cons_ne_nil _ _)).2
  rw [List.length_drop] at within ⊢
  omega

def collectRanges (text : List Char) (tag : String) (category : Category) : List TagRange :=
  collectFrom ("<" ++ tag).toList ("</" ++ tag ++ ">").toList category 0 text

/-- The ranges of a text, in the order of their starts. -/
def tagRanges (text : List Char) : List TagRange :=
  (collectRanges text "rules" .rules ++ collectRanges text "rule" .rules ++
    collectRanges text "agent_skills" .skills ++ collectRanges text "skill" .skills ++
    collectRanges text "subagents" .subagents ++ collectRanges text "mcp_meta_tools" .mcp ++
    collectRanges text "conversation_summary" .summary).mergeSort fun first second => first.start ≤ second.start

/-- The loop body of `measure_runtime`. -/
def measureRange (text : List Char) (state : Nat × Measures) (range : TagRange) : Except Fault (Nat × Measures) := do
  if range.start < state.1 then return state
  let before ← slice text state.1 range.start
  let measures ← state.2.addTo .conversation before
  let inside ← slice text range.start range.stop
  let measures ← measures.addTo range.category inside
  return (range.stop, measures)

def measureRuntime (text : List Char) (measures : Measures) : Except Fault Measures := do
  let (cursor, measures) ← (tagRanges text).foldlM (measureRange text) (0, measures)
  let rest ← slice text cursor text.length
  measures.addTo .conversation rest

/-! ### Messages -/

/-- `serde_json::to_string`, for what is measured. -/
structure Encoder where
  tool : ToolDefinition → Except Error String
  toolCalls : List ToolCallContent → Except Error String
  toolResult : ToolResultContent → Except Error String

/-- What is written of a tool result: `provider_parts` is skipped. -/
def ToolResultContent.written (result : ToolResultContent) : ToolResultContent := { result with providerParts := [] }

/-- A text that is encoded, or the failure. -/
def encoded (text : Except Error String) : Except Fault (List Char) :=
  match text with
  | .ok text => .ok text.toList
  | .error error => .error (.failed error)

def measurePart (origin : Origin) (measures : Measures) : ContentPart → Except Fault Measures
  | .text text =>
    if origin = .runtime then measureRuntime text.toList measures else measures.addTo .conversation text.toList
  | .image _ _ => .ok measures

variable (encoder : Encoder)

def measureMessage (message : CanonicalMessage) (measures : Measures) : Except Fault Measures :=
  match message.content with
  | .parts parts => parts.foldlM (measurePart message.origin) measures
  | .assistant text thinking _ _ toolCalls => do
    let measures ← measures.addTo .conversation text.toList
    let measures ← measures.addTo .conversation thinking.toList
    let calls ← encoded (encoder.toolCalls toolCalls)
    measures.addTo .conversation calls
  | .toolResult result => do
    let result ← encoded (encoder.toolResult (ToolResultContent.written result))
    measures.addTo .conversation result

/-- `StaticMeasures::new`. -/
def staticMeasures (instructions : String) (tools : List ToolDefinition) (dynamicTools : List String) :
    Except Fault Measures := do
  let measures ← Measures.default.addTo .system instructions.toList
  tools.foldlM (fun measures tool => do
    let text ← encoded (encoder.tool tool)
    measures.addTo (if dynamicTools.contains tool.name then .mcp else .tools) text) measures

structure MessageMeasureCache where
  entries : String → Option Measures

namespace MessageMeasureCache

def default : MessageMeasureCache := ⟨fun _ => none⟩

/-- `measures`, with the cache that it leaves. -/
def measures (cache : MessageMeasureCache) (message : CanonicalMessage) : Except Fault Measures × MessageMeasureCache :=
  match cache.entries message.messageId with
  | some cached => (.ok cached, cache)
  | none =>
    match measureMessage encoder message .default with
    | .ok measures => (.ok measures, ⟨Function.update cache.entries message.messageId (some measures)⟩)
    | .error fault => (.error fault, cache)

end MessageMeasureCache

/-! ### The breakdown -/

structure PromptTokenBreakdownCategory where
  id : String
  label : String
  estimatedTokens : UInt32
  characterCount : Option UInt32
deriving DecidableEq

structure PromptTokenBreakdownSnapshot where
  totalUsedTokens : UInt32
  maxTokens : UInt32
  categories : List PromptTokenBreakdownCategory
deriving DecidableEq

/-- `[u64; 8]`. -/
abbrev Estimates := Category → Nat

/-- `Iterator::sum`. -/
def sumU64 (estimates : Estimates) (categories : List Category) : Except Fault Nat :=
  categories.foldlM (fun sum category => addU64 sum (estimates category)) 0

/-- The first loop of `fit_special_estimates`: the scaled estimates, and their sum. -/
def scaleEstimates (original : Estimates) (total specialTotal : Nat) : Except Fault (Estimates × Nat) :=
  Category.special.foldlM (fun state category => do
    let scaled := mulSaturating (original category) total / specialTotal
    let assigned ← addU64 state.2 scaled
    return (Function.update state.1 category scaled, assigned)) (original, 0)

/-- The last loop of `fit_special_estimates`. -/
def handOutRemainder : Nat → List Category → Estimates → Except Fault Estimates
  | 0, _, estimates => .ok estimates
  | _ + 1, [], estimates => .ok estimates
  | remainder + 1, category :: order, estimates => do
    let more ← addU64 (estimates category) 1
    handOutRemainder remainder order (Function.update estimates category more)

def fitSpecialEstimates (estimates : Estimates) (total : Nat) : Except Fault Estimates := do
  let specialTotal ← sumU64 estimates Category.special
  if specialTotal ≤ total ∨ specialTotal = 0 then return estimates
  let (scaled, assigned) ← scaleEstimates estimates total specialTotal
  let remainder ← subU64 total assigned
  let rest (category : Category) := mulSaturating (estimates category) total % specialTotal
  let order := Category.special.mergeSort fun first second => rest second ≤ rest first
  handOutRemainder remainder order scaled

/-- The contribution of a message is added. -/
def addContribution (measures contribution : Measures) : Except Fault Measures :=
  Category.all.foldlM (fun measures category => do
    let characters ← addU64 (measures category).characters (contribution category).characters
    let tokenUnits ← addU64 (measures category).tokenUnits (contribution category).tokenUnits
    return Function.update measures category ⟨characters, tokenUnits⟩) measures

/-- The loop over the messages, with the cache that it leaves. -/
def measureMessages : List CanonicalMessage → Measures → MessageMeasureCache →
    Except Fault Measures × MessageMeasureCache
  | [], measures, cache => (.ok measures, cache)
  | message :: messages, measures, cache =>
    let looked := cache.measures encoder message
    match looked.1 with
    | .error fault => (.error fault, looked.2)
    | .ok contribution =>
      match addContribution measures contribution with
      | .error fault => (.error fault, looked.2)
      | .ok measures => measureMessages messages measures looked.2

/-- The summary of the baseline. -/
def baselineSummary (baseline : Option PromptTokenBreakdownSnapshot) : Option PromptTokenBreakdownCategory :=
  baseline.bind fun snapshot => snapshot.categories.find? fun category => category.id = Category.summary.id

/-- The estimates before they are fitted, and the measures that are shown: without a summary of its own the context
has that of the baseline. -/
def estimate (baseline : Option PromptTokenBreakdownSnapshot) (measures : Measures) : Estimates × Measures :=
  let estimates : Estimates := fun category =>
    if category = .conversation then 0 else (measures category).estimatedTokens
  if (measures .summary).characters ≠ 0 then (estimates, measures)
  else
    match baselineSummary baseline with
    | none => (estimates, measures)
    | some summary =>
      (Function.update estimates .summary summary.estimatedTokens.toNat,
        Function.update measures .summary
          { measures .summary with characters := ((summary.characterCount.map UInt32.toNat).getD 0) })

/-- The categories as they are shown. -/
def toCategories (estimates : Estimates) (measures : Measures) : List PromptTokenBreakdownCategory :=
  Category.all.map fun category =>
    { id := category.id
      label := category.label
      estimatedTokens := toU32 (estimates category)
      characterCount :=
        if (measures category).characters ≠ 0 then some (toU32 (measures category).characters) else none }

/-- What `breakdown` does after the measuring. -/
def fitBreakdown (usedTokens maxTokens : UInt32) (baseline : Option PromptTokenBreakdownSnapshot)
    (measures : Measures) : Except Fault PromptTokenBreakdownSnapshot := do
  let (estimates, measures) := estimate baseline measures
  let estimates ← fitSpecialEstimates estimates usedTokens.toNat
  let special ← sumU64 estimates Category.special
  let estimates := Function.update estimates .conversation (usedTokens.toNat - special)
  return ⟨usedTokens, maxTokens, toCategories estimates measures⟩

/-- The arguments of `breakdown`. -/
structure BreakdownCall where
  usedTokens : UInt32
  maxTokens : UInt32
  baseline : Option PromptTokenBreakdownSnapshot
  statics : Measures
  messages : List CanonicalMessage

/-- `breakdown`, with the cache that it leaves. -/
def breakdown (call : BreakdownCall) (cache : MessageMeasureCache) :
    Except Fault PromptTokenBreakdownSnapshot × MessageMeasureCache :=
  let (measured, cache) := measureMessages encoder call.messages call.statics cache
  (measured.bind (fitBreakdown call.usedTokens call.maxTokens call.baseline), cache)

end Byok.Cursor.Services
