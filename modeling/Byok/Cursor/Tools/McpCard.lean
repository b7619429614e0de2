/-
**The card of an MCP call.** `gate_mcp` and what it calls, of `server/src/cursor/tools/tool_call_result/gate.rs`.

The values of `prost_types` and the text that `serde_json` writes of them are parameters. An item that looks like a notice
stops the gate before it cuts anything.

* `gateMcp` — the gate of the card.
* `gateMcp_settled` — a card that was cut is not cut again.
* `gateMcp_bounded_iff` — the card is bounded without an item that looks like a notice, and where it is as it comes.
-/

import Byok.Cursor.Tools.TruncatedText
import Mathlib.Algebra.Order.BigOperators.Group.List

namespace Byok.CardGate

open Library Replay List

/-! ### The result -/

def mcpTextLimit : Nat := 32 * kib

def mcpContentItemLimit : Nat := 20

def mcpStructuredLimit : Nat := 32 * kib

/-- `prost_types::Value`: `prost_bool`, `prost_number`, and the length of the text of some fields (`None` where they have
no text). -/
structure Prost (Value : Type) where
  bool : Bool → Value
  number : Nat → Value
  jsonLength : List (String × Value) → Option Nat

/-- The content of `McpToolResultContentItem`. -/
inductive McpItem
  | text (text : String)
  | image (data : List UInt8) (mimeType : String)
  | missing
deriving DecidableEq

/-- `McpSuccess`, with the fields of `structured_content` in the order of their names. -/
structure McpSuccess (Value : Type) where
  content : List McpItem := []
  structuredContent : Option (List (String × Value)) := none

/-- What the text of an item costs. -/
def McpItem.bytes : McpItem → Nat
  | .text content => strLength content
  | _ => 0

/-- The texts of all items. -/
def mcpBytes (items : List McpItem) : Nat := (items.map McpItem.bytes).sum

/-! ### The gate -/

def isMcpNotice : McpItem → Bool
  | .text text => startsWith text "[truncated:"
  | _ => false

/-- What the loop over the items keeps of them, the bytes that remain, and `text_truncated`. -/
structure KeptItems where
  list : List McpItem
  remaining : Nat
  truncated : Bool

/-- The loop of `gate_mcp`. -/
def gateItems : List McpItem → Nat → KeptItems
  | [], remaining => ⟨[], remaining, false⟩
  | .text text :: rest, remaining =>
    let next := truncateText "MCP content item" text mcpTextLimit
    if remaining = 0 then
      let after := gateItems rest remaining
      { after with truncated := decide (next ≠ "") || after.truncated }
    else
      let cut := truncateText "MCP text" next remaining
      let after := gateItems rest (remaining - strLength cut)
      ⟨.text cut :: after.list, after.remaining, decide (cut ≠ next) || after.truncated⟩
  | item :: rest, remaining =>
    let after := gateItems rest remaining
    { after with list := item :: after.list }

/-- The notice of too many items. -/
def itemsNotice (original : Nat) : String :=
  "[truncated: MCP content items exceeded " ++ toString mcpContentItemLimit ++ " items; showing " ++
    toString mcpContentItemLimit ++ " of " ++ toString original ++ " items]"

section Gate

variable {Value : Type} (prost : Prost Value)

def structuredJsonLen (value : Option (List (String × Value))) : Nat := (value.bind prost.jsonLength).getD 0

def truncatedStruct (original limit : Nat) : Option (List (String × Value)) :=
  some [("_truncated", prost.bool true), ("limit_bytes", prost.number limit),
    ("original_json_bytes", prost.number original)]

/-- The notices that `gate_mcp` puts behind the items. -/
def mcpNotices (success : McpSuccess Value) (kept : KeptItems) : List String :=
  (if mcpStructuredLimit < structuredJsonLen prost success.structuredContent then
      [truncationNotice "MCP structured_content" mcpStructuredLimit 0 (structuredJsonLen prost success.structuredContent)]
    else []) ++
  (if mcpContentItemLimit < success.content.length then [itemsNotice success.content.length] else []) ++
  (if kept.truncated then
      [truncationNotice "MCP text" mcpTextLimit (mcpTextLimit - kept.remaining)
        (mcpBytes (success.content.take mcpContentItemLimit))]
    else [])

def gateMcp (success : McpSuccess Value) : McpSuccess Value :=
  if success.content.any isMcpNotice then success
  else
    let original := structuredJsonLen prost success.structuredContent
    let kept := gateItems (success.content.take mcpContentItemLimit) mcpTextLimit
    { content := kept.list ++ (mcpNotices prost success kept).map McpItem.text
      structuredContent :=
        if mcpStructuredLimit < original then truncatedStruct prost original mcpStructuredLimit
        else success.structuredContent }

end Gate

/-! ### The items -/

section Items

variable {items : List McpItem} {remaining : Nat}

theorem mcpBytes_cons (item : McpItem) (items : List McpItem) : mcpBytes (item :: items) = item.bytes + mcpBytes items :=
  sum_cons

theorem gateItems_paid (items : List McpItem) (remaining : Nat) :
    mcpBytes (gateItems items remaining).list + (gateItems items remaining).remaining = remaining ∧
      (gateItems items remaining).list.length ≤ items.length := by
  induction items generalizing remaining with
  | nil => exact ⟨Nat.zero_add _, Nat.le_refl _⟩
  | cons item rest ih =>
    cases item with
    | text text =>
      simp only [gateItems]
      split
      · obtain ⟨paid, fewer⟩ := ih remaining
        exact ⟨paid, Nat.le_succ_of_le fewer⟩
      · have within := truncateText_le "MCP text" (truncateText "MCP content item" text mcpTextLimit) remaining
        obtain ⟨paid, fewer⟩ := ih (remaining - strLength
          (truncateText "MCP text" (truncateText "MCP content item" text mcpTextLimit) remaining))
        simp only [mcpBytes_cons, McpItem.bytes, length_cons]
        omega
    | image data mimeType =>
      obtain ⟨paid, fewer⟩ := ih remaining
      simp only [gateItems, mcpBytes_cons, McpItem.bytes, length_cons]
      omega
    | missing =>
      obtain ⟨paid, fewer⟩ := ih remaining
      simp only [gateItems, mcpBytes_cons, McpItem.bytes, length_cons]
      omega

theorem gateItems_settled (items : List McpItem) {remaining : Nat} (le : remaining ≤ mcpTextLimit) :
    gateItems (gateItems items remaining).list remaining =
      ⟨(gateItems items remaining).list, (gateItems items remaining).remaining, false⟩ := by
  induction items generalizing remaining with
  | nil => rfl
  | cons item rest ih =>
    cases item with
    | text text =>
      simp only [gateItems]
      split
      · exact ih le
      · rename_i some
        have within := truncateText_le "MCP text" (truncateText "MCP content item" text mcpTextLimit) remaining
        generalize truncateText "MCP text" (truncateText "MCP content item" text mcpTextLimit) remaining = cut at within ⊢
        have same : truncateText "MCP content item" cut mcpTextLimit = cut := truncateText_short (Nat.le_trans within le)
        have again := @ih (remaining - strLength cut) (Nat.le_trans (Nat.sub_le _ _) le)
        simp only [gateItems, some, if_false, same, truncateText_short within, again, ne_eq, not_true_eq_false,
          decide_false, Bool.or_self]
    | image data mimeType => simp only [gateItems, ih le]
    | missing => simp only [gateItems, ih le]

end Items

/-! ### The card -/

/-- What the card of an MCP call is to be: its texts and items within their limits but for the notices, and within them
altogether where the items come as they came. -/
structure McpBounded {Value : Type} (before after : McpSuccess Value) : Prop where
  bytes : mcpBytes (after.content.filter fun item => !isMcpNotice item) ≤ mcpTextLimit
  few : (after.content.filter fun item => !isMcpNotice item).length ≤ mcpContentItemLimit
  passed : after.content = before.content →
    mcpBytes after.content ≤ mcpTextLimit ∧ after.content.length ≤ mcpContentItemLimit

section Card

variable {Value : Type} {prost : Prost Value} {success : McpSuccess Value}

theorem gateMcp_noticed (noticed : success.content.any isMcpNotice = true) : gateMcp prost success = success :=
  if_pos noticed

theorem startsWith_bracket (rest : String) : startsWith ("[truncated: " ++ rest) "[truncated:" = true := by
  have space : "[truncated: " = "[truncated:" ++ " " := by decide
  rw [space, String.append_assoc]
  exact startsWith_append ..

theorem mcpNotices_noticed (kept : KeptItems) :
    ∀ notice ∈ mcpNotices prost success kept, isMcpNotice (.text notice) = true := by
  have truncated (name : String) (limit shown original : Nat) :
      isMcpNotice (.text (truncationNotice name limit shown original)) = true := by
    have begins := startsWith_bracket (name ++ " result exceeded " ++ toString limit ++ " bytes; showing " ++
      toString shown ++ " of " ++ toString original ++ " bytes]")
    simp only [← String.append_assoc] at begins
    exact begins
  have items (original : Nat) : isMcpNotice (.text (itemsNotice original)) = true := by
    have begins := startsWith_bracket ("MCP content items exceeded " ++ toString mcpContentItemLimit ++ " items; showing " ++
      toString mcpContentItemLimit ++ " of " ++ toString original ++ " items]")
    have words : "[truncated: " ++ "MCP content items exceeded " = "[truncated: MCP content items exceeded " := by decide
    simp only [← String.append_assoc, -String.reduceAppend] at begins
    rw [words] at begins
    exact begins
  intro notice listed
  simp only [mcpNotices, mem_append] at listed
  rcases listed with (listed | listed) | listed
  · split at listed
    · rw [mem_singleton.mp listed]
      exact truncated ..
    · cases listed
  · split at listed
    · rw [mem_singleton.mp listed]
      exact items _
    · cases listed
  · split at listed
    · rw [mem_singleton.mp listed]
      exact truncated ..
    · cases listed

theorem gateMcp_cut (plain : success.content.any isMcpNotice = false) :
    (gateMcp prost success).content = (gateItems (success.content.take mcpContentItemLimit) mcpTextLimit).list ++
      (mcpNotices prost success (gateItems (success.content.take mcpContentItemLimit) mcpTextLimit)).map McpItem.text := by
  simp only [gateMcp, plain, Bool.false_eq_true, if_false]

/-- **A card that was cut is not cut again.** -/
theorem gateMcp_settled (success : McpSuccess Value) : gateMcp prost (gateMcp prost success) = gateMcp prost success := by
  by_cases noticed : (gateMcp prost success).content.any isMcpNotice = true
  · exact gateMcp_noticed noticed
  · have plain : success.content.any isMcpNotice = false :=
      Bool.not_eq_true _ ▸ fun before => noticed (by rw [gateMcp_noticed before]; exact before)
    have silent : mcpNotices prost success (gateItems (success.content.take mcpContentItemLimit) mcpTextLimit) = [] := by
      by_contra some
      obtain ⟨notice, listed⟩ := exists_mem_of_ne_nil _ some
      refine noticed (any_eq_true.mpr ⟨.text notice, ?_, mcpNotices_noticed _ notice listed⟩)
      rw [gateMcp_cut plain]
      exact mem_append_right _ (mem_map_of_mem listed)
    have fits : ¬ mcpStructuredLimit < structuredJsonLen prost success.structuredContent := by
      intro large
      simp [mcpNotices, large] at silent
    obtain ⟨-, few⟩ := gateItems_paid (success.content.take mcpContentItemLimit) mcpTextLimit
    have few := Nat.le_trans few (length_take_le _ _)
    have again := gateItems_settled (success.content.take mcpContentItemLimit) (Nat.le_refl mcpTextLimit)
    -- there is no notice behind the items, which are kept once more
    have out : gateMcp prost success =
        ⟨(gateItems (success.content.take mcpContentItemLimit) mcpTextLimit).list, success.structuredContent⟩ := by
      simp [gateMcp, plain, silent, fits]
    rw [out] at noticed ⊢
    generalize gateItems (success.content.take mcpContentItemLimit) mcpTextLimit = kept at few again noticed
    simp only [gateMcp, noticed, Bool.false_eq_true, if_false, take_of_length_le few, again, mcpNotices, fits,
      Nat.not_lt.mpr few, append_nil, map_nil]

/-- **Without an item that looks like a notice, the card is bounded.** -/
theorem gateMcp_plain (plain : success.content.any isMcpNotice = false) : McpBounded success (gateMcp prost success) := by
  obtain ⟨paid, few⟩ := gateItems_paid (success.content.take mcpContentItemLimit) mcpTextLimit
  have few := Nat.le_trans few (length_take_le _ _)
  have whole := @gateMcp_cut _ prost _ plain
  have kept : ((gateMcp prost success).content.filter fun item => !isMcpNotice item).Sublist
      (gateItems (success.content.take mcpContentItemLimit) mcpTextLimit).list := by
    have silent : ((mcpNotices prost success (gateItems (success.content.take mcpContentItemLimit) mcpTextLimit)).map
        McpItem.text).filter (fun item => !isMcpNotice item) = [] := by
      refine filter_eq_nil_iff.mpr fun item listed => ?_
      obtain ⟨notice, noted, rfl⟩ := mem_map.mp listed
      simp [mcpNotices_noticed _ notice noted]
    rw [whole, filter_append, silent, append_nil]
    exact filter_sublist
  have bytes : mcpBytes ((gateMcp prost success).content.filter fun item => !isMcpNotice item) ≤ mcpTextLimit :=
    Nat.le_trans ((kept.map McpItem.bytes).sum_le_sum fun _ _ => Nat.zero_le _)
      (Nat.le_trans (Nat.le_add_right _ _) (Nat.le_of_eq paid))
  have length := Nat.le_trans kept.length_le few
  refine ⟨bytes, length, fun same => ?_⟩
  have every : success.content.filter (fun item => !isMcpNotice item) = success.content := by
    rw [any_eq_false] at plain
    exact filter_eq_self.mpr fun item listed => by simp [plain item listed]
  rw [same, every] at bytes length
  rw [same]
  exact ⟨bytes, length⟩

/-- **Which cards are bounded.** -/
theorem gateMcp_bounded_iff (success : McpSuccess Value) : McpBounded success (gateMcp prost success) ↔
    (∀ item ∈ success.content, isMcpNotice item = false) ∨
      mcpBytes success.content ≤ mcpTextLimit ∧ success.content.length ≤ mcpContentItemLimit := by
  by_cases noticed : success.content.any isMcpNotice = true
  · rw [gateMcp_noticed noticed]
    constructor
    · exact fun bounded => .inr (bounded.passed rfl)
    · rintro (plain | ⟨bytes, few⟩)
      · obtain ⟨item, listed, marked⟩ := any_eq_true.mp noticed
        rw [plain item listed] at marked
        cases marked
      · have fewer := filter_sublist (p := fun item => !isMcpNotice item) (l := success.content)
        exact ⟨Nat.le_trans ((fewer.map McpItem.bytes).sum_le_sum fun _ _ => Nat.zero_le _) bytes,
          Nat.le_trans fewer.length_le few, fun _ => ⟨bytes, few⟩⟩
  · have plain := Bool.not_eq_true _ ▸ noticed
    refine iff_of_true (gateMcp_plain plain) (.inl fun item listed => ?_)
    rw [any_eq_false] at plain
    exact Bool.not_eq_true _ ▸ plain item listed

end Card

end Byok.CardGate
