/-
**What a context costs.** `server/src/model/token_count.rs`: an estimate of the tokens that a provider counts for a
prompt and for projected messages.

The JSON text of a value comes from `serde_json` (`Value → String`).

* `estimateTextTokens` — a text by its scripts.
* `estimateMessageTokens`, `estimateProjectedMessagesTokens`, `estimateContextTokens` — messages, and all of a context.
* `estimateProjectedMessagesTokens_sublist` — a part of a history costs no more than all of it.
-/

import Byok.Model.Projection
import Mathlib.Algebra.BigOperators.Group.List.Basic
import Mathlib.Algebra.Order.Ring.Nat
import Mathlib.Order.Lattice.Nat

namespace Byok

/-- `u64::MAX`. -/
def maxTokens : Nat := 18446744073709551615

def saturatingAdd (first second : Nat) : Nat := min (first + second) 18446744073709551615

def divCeil (number divisor : Nat) : Nat := (number + divisor - 1) / divisor

/-! ### Texts -/

def isCjk (character : Char) : Bool :=
  let code := character.toNat
  (0x2E80 ≤ code && code ≤ 0x2FFF) || (0x3000 ≤ code && code ≤ 0x303F) || (0x3040 ≤ code && code ≤ 0x30FF) ||
    (0x3100 ≤ code && code ≤ 0x312F) || (0x3400 ≤ code && code ≤ 0x4DBF) || (0x4E00 ≤ code && code ≤ 0x9FFF) ||
    (0xA960 ≤ code && code ≤ 0xA97F) || (0xAC00 ≤ code && code ≤ 0xD7AF) || (0xF900 ≤ code && code ≤ 0xFAFF) ||
    (0xFE10 ≤ code && code ≤ 0xFE1F) || (0xFE30 ≤ code && code ≤ 0xFE4F) || (0xFF00 ≤ code && code ≤ 0xFFEF) ||
    (0x20000 ≤ code && code ≤ 0x2FA1F)

def isAscii (character : Char) : Bool := character.toNat < 128

/-- The scripts that a character is counted under. -/
inductive Script where
  | ascii
  | cjk
  | other
deriving DecidableEq, Repr

/-- The script of a character. -/
def scriptOf (character : Char) : Script :=
  if isAscii character then .ascii else if isCjk character then .cjk else .other

/-- The characters of a script. -/
def countScript (script : Script) (text : List Char) : Nat := text.countP fun character => scriptOf character = script

/-- The price of a text that is not blank at its ends: `ASCII_CHARS_PER_TOKEN` is 4, `CJK_CHARS_PER_TOKEN` and
`OTHER_CHARS_PER_TOKEN` are 2, and a line break is a token more. -/
def scriptTokens (text : List Char) : Nat :=
  max 1 (saturatingAdd
    (saturatingAdd
      (saturatingAdd (divCeil (countScript .ascii text) 4) (divCeil (countScript .cjk text) 2))
      (divCeil (countScript .other text) 2))
    (text.count '\n'))

def estimateTextTokens (text : String) : Nat :=
  let text := (trim text).toList
  if text = [] then 0 else scriptTokens text

/-! ### Images -/

/-- `str::contains`. -/
def containsText (text pattern : String) : Bool := text.toList.tails.any (pattern.toList.isPrefixOf ·)

/-- The number of bytes, the highest first. -/
def fromBigEndian (bytes : List UInt8) : Nat := bytes.foldl (fun number byte => 256 * number + byte.toNat) 0

/-- The number of bytes, the lowest first. -/
def fromLittleEndian (bytes : List UInt8) : Nat := fromBigEndian bytes.reverse

/-- `&data[start..stop]`, where the data is that long. -/
def bytesAt (data : List UInt8) (start stop : Nat) : List UInt8 := (data.take stop).drop start

/-- `(width > 0 && height > 0).then_some((width, height))`. -/
def positiveDimensions (width height : Nat) : Option (Nat × Nat) :=
  if 0 < width ∧ 0 < height then some (width, height) else none

def pngDimensions (data : List UInt8) : Option (Nat × Nat) :=
  if data.length < 24 ∨ bytesAt data 12 16 ≠ [0x49, 0x48, 0x44, 0x52] then none
  else positiveDimensions (fromBigEndian (bytesAt data 16 20)) (fromBigEndian (bytesAt data 20 24))

def gifDimensions (data : List UInt8) : Option (Nat × Nat) :=
  if data.length < 10 then none
  else positiveDimensions (fromLittleEndian (bytesAt data 6 8)) (fromLittleEndian (bytesAt data 8 10))

/-- The markers with the dimensions of a frame. -/
def frameMarkers : List UInt8 :=
  [0xC0, 0xC1, 0xC2, 0xC3, 0xC5, 0xC6, 0xC7, 0xC9, 0xCA, 0xCB, 0xCD, 0xCE, 0xCF]

/-- The markers without a length. -/
def standaloneMarkers : List UInt8 := [0xD8, 0xD9, 0x01, 0xD0, 0xD1, 0xD2, 0xD3, 0xD4, 0xD5, 0xD6, 0xD7]

/-- The loop of `jpeg_dimensions`, on the bytes from `index` on: every round goes a byte on at least. -/
def jpegDimensionsFrom : Nat → List UInt8 → Option (Nat × Nat)
  | 0, _ => none
  | rounds + 1, data =>
    if data.length < 9 then none
    else if data.getD 0 0 ≠ 0xFF then jpegDimensionsFrom rounds (data.drop 1)
    else
      let marker := data.getD 1 0
      if marker ∈ frameMarkers then
        positiveDimensions (fromBigEndian (bytesAt data 7 9)) (fromBigEndian (bytesAt data 5 7))
      else if marker ∈ standaloneMarkers then jpegDimensionsFrom rounds (data.drop 2)
      else
        let length := fromBigEndian (bytesAt data 2 4)
        if length < 2 then none else jpegDimensionsFrom rounds (data.drop (2 + length))

def jpegDimensions (data : List UInt8) : Option (Nat × Nat) := jpegDimensionsFrom data.length (data.drop 2)

def imageDimensions (mimeType : String) (data : List UInt8) : Option (Nat × Nat) :=
  let mime := String.ofList (mimeType.toList.map Char.toLower)
  if containsText mime "png" || [0x89, 0x50, 0x4E, 0x47].isPrefixOf data then pngDimensions data
  else if containsText mime "gif" || [0x47, 0x49, 0x46].isPrefixOf data then gifDimensions data
  else if containsText mime "jpeg" || containsText mime "jpg" || [0xFF, 0xD8].isPrefixOf data then jpegDimensions data
  else none

def estimateImageTokens (mimeType : String) (data : List UInt8) : Nat :=
  match imageDimensions mimeType data with
  | none => 1024
  | some (width, height) =>
    let pixels := min (width * height) maxTokens
    let anthropic := max (divCeil pixels 750) 200
    let tiles := min (divCeil width 512 * divCeil height 512) maxTokens
    let openai := saturatingAdd 85 (min (170 * tiles) maxTokens)
    min (max anthropic openai) 20000

/-! ### Messages -/

section Messages

variable (toJson : Value → String)

/-- A fold of `saturating_add` over a list. -/
def sumTokens {α : Type} (price : α → Nat) (items : List α) : Nat :=
  items.foldl (fun total item => saturatingAdd total (price item)) 0

/-- One part of `estimate_parts_tokens`. -/
def estimatePartTokens : ContentPart → Nat
  | .text text => estimateTextTokens text
  | .image mimeType data => saturatingAdd (estimateImageTokens mimeType data) (estimateTextTokens mimeType)

def estimatePartsTokens (parts : List ContentPart) : Nat := sumTokens estimatePartTokens parts

def estimateJsonTokens (value : Value) : Nat := estimateTextTokens (toJson value)

/-- The tool calls of an assistant message. -/
def estimateCallsTokens (calls : List ToolCallContent) : Nat :=
  calls.foldl (fun total call =>
    saturatingAdd (saturatingAdd (saturatingAdd (saturatingAdd total 6) (estimateTextTokens call.callId))
      (estimateTextTokens call.name)) (estimateJsonTokens toJson call.arguments)) 0

/-- The content of a tool result. -/
def estimateResultTokens (result : ToolResultContent) : Nat :=
  if result.providerParts = [] then
    saturatingAdd (estimateTextTokens result.content)
      ((result.image.map fun image => saturatingAdd 1024 (estimateTextTokens image.mimeType)).getD 0)
  else estimatePartsTokens result.providerParts

def estimateMessageTokens (message : ProjectedMessage) : Nat :=
  saturatingAdd 8 <|
    match message.content with
    | .parts parts => estimatePartsTokens parts
    | .assistant text thinking _ calls =>
      saturatingAdd (saturatingAdd (estimateTextTokens text) (estimateTextTokens thinking))
        (estimateCallsTokens toJson calls)
    | .toolResult result =>
      saturatingAdd (saturatingAdd (estimateTextTokens result.callId) (estimateTextTokens result.name))
        (estimateResultTokens result)

def estimateProjectedMessagesTokens (messages : List ProjectedMessage) : Nat :=
  sumTokens (estimateMessageTokens toJson) messages

structure ToolDefinition where
  name : String
  description : String
  parameters : Value

/-- A tool as `serde_json` reads it. -/
def ToolDefinition.toValue (tool : ToolDefinition) : Value :=
  .object [("name", .string tool.name), ("description", .string tool.description), ("parameters", tool.parameters)]

structure PromptSpec where
  instructions : String
  tools : List ToolDefinition

def estimateContextTokens (prompt : PromptSpec) (messages : List ProjectedMessage) : Nat :=
  saturatingAdd
    (saturatingAdd (estimateTextTokens prompt.instructions)
      (sumTokens (fun tool : ToolDefinition => estimateJsonTokens toJson tool.toValue) prompt.tools))
    (estimateProjectedMessagesTokens toJson messages)

end Messages

/-! ### Sums -/

theorem saturatingAdd_eq (first second : Nat) : saturatingAdd first second = min (first + second) maxTokens := rfl

section Sums

variable {α : Type} {price : α → Nat}

theorem sumTokens_from (items : List α) (total : Nat) (small : total ≤ maxTokens) :
    items.foldl (fun total item => saturatingAdd total (price item)) total =
      min (total + (items.map price).sum) maxTokens := by
  induction items generalizing total with
  | nil => simpa using small
  | cons item rest ih =>
    rw [List.foldl_cons, ih _ (by rw [saturatingAdd_eq]; exact Nat.min_le_right _ _), List.map_cons, List.sum_cons,
      saturatingAdd_eq]
    omega

theorem sumTokens_eq (items : List α) : sumTokens price items = min (items.map price).sum maxTokens := by
  rw [sumTokens, sumTokens_from items 0 (Nat.zero_le _), Nat.zero_add]

theorem sumTokens_sublist {first second : List α} (part : first.Sublist second) :
    sumTokens price first ≤ sumTokens price second := by
  have le : (first.map price).sum ≤ (second.map price).sum := by
    induction part with
    | slnil => exact Nat.le_refl _
    | cons item part ih => exact ih.trans (by simp)
    | cons_cons item part ih => simpa using ih
  simp only [sumTokens_eq]
  omega

end Sums

section Estimates

variable (toJson : Value → String)

theorem estimateProjectedMessagesTokens_sublist {first second : List ProjectedMessage} (part : first.Sublist second) :
    estimateProjectedMessagesTokens toJson first ≤ estimateProjectedMessagesTokens toJson second :=
  sumTokens_sublist part

end Estimates

end Byok
