/-
**The card of a web search.** `gate_web_search` and what it calls, of
`server/src/cursor/tools/tool_call_result/gate.rs`.

The notice is put behind the last chunk after the references were cut to the limit, so that the card may be larger than the
limit and may be cut again.

* `gateWebSearch` — the gate of the card.
* `gateWebSearch_bounded_iff` — which cards keep the limit.
* `gateWebSearch_settled_iff` — which cards are not cut again.
-/

import Byok.Cursor.Tools.TruncatedText
import Mathlib.Algebra.Order.BigOperators.Group.List

namespace Byok.CardGate

open Library Replay List

/-! ### The gate -/

def webSearchLimit : Nat := 16 * kib

def webSearchTitleLimit : Nat := 512

def webSearchSnippetLimit : Nat := 2 * kib

structure WebSearchReference where
  title : String
  url : String
  chunk : String
deriving DecidableEq

/-- What a reference costs. -/
def WebSearchReference.bytes (reference : WebSearchReference) : Nat :=
  strLength reference.title + strLength reference.url + strLength reference.chunk

def webSearchBytes (references : List WebSearchReference) : Nat := (references.map WebSearchReference.bytes).sum

/-- A reference with its title and its chunk cut. -/
def cutReference (reference : WebSearchReference) : WebSearchReference :=
  { reference with
    title := truncateText "WebSearch title" reference.title webSearchTitleLimit
    chunk := truncateText "WebSearch snippet" reference.chunk webSearchSnippetLimit }

/-- The `while` of `gate_web_search`. -/
def popReferences (references : List WebSearchReference) : List WebSearchReference :=
  if 1 < references.length ∧ webSearchLimit < webSearchBytes references then popReferences references.dropLast
  else references
termination_by references.length
decreasing_by
  rw [length_dropLast]
  omega

/-- The chunk of the last reference. -/
def lastChunk (references : List WebSearchReference) : String := ((references.getLast?).map (·.chunk)).getD ""

/-- `other`: what the references cost but for the last chunk. -/
def otherBytes (references : List WebSearchReference) : Nat := webSearchBytes references - strLength (lastChunk references)

/-- The `notice`, behind its two line breaks. -/
def searchNotice (references : List WebSearchReference) (original : Nat) : String :=
  behind "WebSearch" webSearchLimit (webSearchLimit - otherBytes references) original

/-- What is kept of the last chunk. -/
def keptChunk (references : List WebSearchReference) (original : Nat) : String :=
  trimEndMatches (utf8Prefix (lastChunk references)
    (webSearchLimit - (otherBytes references + strLength (searchNotice references original)))) '\n'

/-- The references with the notice behind the last chunk. -/
def noticeLast (references : List WebSearchReference) (original : Nat) : List WebSearchReference :=
  match references.getLast? with
  | some reference =>
    references.dropLast ++ [{ reference with chunk := keptChunk references original ++ searchNotice references original }]
  | none => references

/-- `original`. -/
def originalBytes (references : List WebSearchReference) : Nat := webSearchBytes (references.map cutReference)

/-- The references that the `while` leaves. -/
def shownReferences (references : List WebSearchReference) : List WebSearchReference :=
  popReferences (references.map cutReference)

def gateWebSearch (references : List WebSearchReference) : List WebSearchReference :=
  if webSearchLimit < originalBytes references then noticeLast (shownReferences references) (originalBytes references)
  else shownReferences references

/-! ### Its parts -/

section Parts

variable {references front : List WebSearchReference} {last : WebSearchReference} {original : Nat}

theorem webSearchBytes_concat (front : List WebSearchReference) (last : WebSearchReference) :
    webSearchBytes (front ++ [last]) = webSearchBytes front + last.bytes := by
  simp [webSearchBytes]

theorem lastChunk_concat (front : List WebSearchReference) (last : WebSearchReference) :
    lastChunk (front ++ [last]) = last.chunk := by
  simp [lastChunk]

theorem otherBytes_concat (front : List WebSearchReference) (last : WebSearchReference) :
    otherBytes (front ++ [last]) = webSearchBytes front + strLength last.title + strLength last.url := by
  rw [otherBytes, webSearchBytes_concat, lastChunk_concat, WebSearchReference.bytes]
  omega

theorem noticeLast_concat (front : List WebSearchReference) (last : WebSearchReference) (original : Nat) :
    noticeLast (front ++ [last]) original = front ++ [{ last with
      chunk := keptChunk (front ++ [last]) original ++ searchNotice (front ++ [last]) original }] := by
  simp [noticeLast]

theorem cutReference_settled (reference : WebSearchReference) :
    cutReference (cutReference reference) = cutReference reference := by
  simp only [cutReference, truncateText_idempotent]

theorem cutReference_le (reference : WebSearchReference) : (cutReference reference).bytes ≤ reference.bytes := by
  have title := truncateText_le_length "WebSearch title" reference.title webSearchTitleLimit
  have chunk := truncateText_le_length "WebSearch snippet" reference.chunk webSearchSnippetLimit
  simp only [cutReference, WebSearchReference.bytes]
  omega

theorem popReferences_front (references : List WebSearchReference) : popReferences references <+: references := by
  induction references using popReferences.induct with
  | case1 references more ih =>
    rw [popReferences, if_pos more]
    exact ih.trans (List.dropLast_prefix _)
  | case2 references few =>
    have whole : popReferences references = references := by rw [popReferences, if_neg few]
    exact ⟨[], (append_nil _).trans whole⟩

theorem popReferences_fits (references : List WebSearchReference) :
    webSearchBytes (popReferences references) ≤ webSearchLimit ∨ (popReferences references).length ≤ 1 := by
  induction references using popReferences.induct with
  | case1 references more ih =>
    rw [popReferences, if_pos more]
    exact ih
  | case2 references few =>
    rw [popReferences, if_neg few]
    omega

theorem popReferences_some (some : references ≠ []) : popReferences references ≠ [] := by
  induction references using popReferences.induct with
  | case1 references more ih =>
    rw [popReferences, if_pos more]
    refine ih fun none => ?_
    have length := congrArg List.length none
    rw [length_dropLast, length_nil] at length
    omega
  | case2 references few =>
    rw [popReferences, if_neg few]
    exact some

theorem popReferences_short (short : references.length ≤ 1 ∨ webSearchBytes references ≤ webSearchLimit) :
    popReferences references = references := by
  rw [popReferences, if_neg (by omega)]

end Parts

/-! ### Which cards keep the limit -/

/-- There is room for the notice beside everything but the last chunk. -/
def Roomy (references : List WebSearchReference) : Prop :=
  otherBytes (shownReferences references) +
      strLength (searchNotice (shownReferences references) (originalBytes references)) ≤
    webSearchLimit

/-- What the card of a web search is to be: within its limit, or one reference with nothing but the notice for a chunk. -/
def SearchBounded (references : List WebSearchReference) : Prop :=
  webSearchBytes references ≤ webSearchLimit ∨
    ∃ reference shown original, references = [reference] ∧
      reference.chunk = behind "WebSearch" webSearchLimit shown original

section Limit

variable {references : List WebSearchReference}

theorem keptChunk_le (references : List WebSearchReference) (original : Nat) : strLength (keptChunk references original) ≤
    webSearchLimit - (otherBytes references + strLength (searchNotice references original)) :=
  Nat.le_trans (strLength_trimEndMatches_le _ _) (utf8Prefix_le _ _)

theorem gateWebSearch_short (short : originalBytes references ≤ webSearchLimit) :
    gateWebSearch references = references.map cutReference := by
  rw [gateWebSearch, if_neg (Nat.not_lt.mpr short), shownReferences, popReferences_short (.inr short)]

theorem gateWebSearch_long (long : webSearchLimit < originalBytes references) : ∃ front last,
    shownReferences references = front ++ [last] ∧ (∀ reference ∈ front ++ [last], cutReference reference = reference) ∧
      gateWebSearch references = front ++ [{ last with
        chunk := keptChunk (front ++ [last]) (originalBytes references) ++
          searchNotice (front ++ [last]) (originalBytes references) }] := by
  have some : references.map cutReference ≠ [] := fun none => by
    rw [originalBytes, none] at long
    exact absurd long (Nat.not_lt_zero _)
  obtain ⟨front, last, shown⟩ := (shownReferences references).eq_nil_or_concat'.resolve_left (popReferences_some some)
  refine ⟨front, last, shown, fun reference listed => ?_, ?_⟩
  · have inside := (popReferences_front (references.map cutReference)).subset (shown ▸ listed)
    obtain ⟨whole, -, rfl⟩ := mem_map.mp inside
    exact cutReference_settled whole
  · rw [gateWebSearch, if_pos long, shown, noticeLast_concat]

theorem webSearchBytes_noticed (front : List WebSearchReference) (last : WebSearchReference) (original : Nat) :
    webSearchBytes (front ++ [{ last with
        chunk := keptChunk (front ++ [last]) original ++ searchNotice (front ++ [last]) original }]) =
      otherBytes (front ++ [last]) + strLength (searchNotice (front ++ [last]) original) +
        strLength (keptChunk (front ++ [last]) original) := by
  rw [webSearchBytes_concat, otherBytes_concat]
  simp only [WebSearchReference.bytes, strLength_append]
  omega

theorem keptChunk_empty {references : List WebSearchReference} {original : Nat}
    (full : webSearchLimit < otherBytes references + strLength (searchNotice references original)) :
    keptChunk references original = "" := by
  have none := keptChunk_le references original
  exact eq_empty_of_strLength (by omega)

/-- **Which cards keep the limit.** -/
theorem gateWebSearch_bounded_iff (references : List WebSearchReference) : SearchBounded (gateWebSearch references) ↔
    originalBytes references ≤ webSearchLimit ∨ Roomy references ∨ (shownReferences references).length ≤ 1 := by
  by_cases short : originalBytes references ≤ webSearchLimit
  · rw [gateWebSearch_short short]
    exact iff_of_true (.inl short) (.inl short)
  · obtain ⟨front, last, shown, -, out⟩ := gateWebSearch_long (Nat.not_le.mp short)
    rw [out, Roomy, shown, SearchBounded, webSearchBytes_noticed]
    by_cases room : otherBytes (front ++ [last]) + strLength (searchNotice (front ++ [last]) (originalBytes references)) ≤
        webSearchLimit
    · have kept := keptChunk_le (front ++ [last]) (originalBytes references)
      exact iff_of_true (.inl (by omega)) (.inr (.inl room))
    · rw [keptChunk_empty (Nat.not_le.mp room), String.empty_append]
      constructor
      · rintro (within | ⟨reference, _, _, same, -⟩)
        · exact absurd within (by omega)
        · have length := congrArg List.length same
          simp only [length_append, length_singleton] at length ⊢
          omega
      · rintro (within | within | single)
        · exact absurd within short
        · exact absurd within room
        · rw [length_append, length_singleton] at single
          obtain rfl := eq_nil_of_length_eq_zero (show front.length = 0 by omega)
          exact .inr ⟨_, _, _, rfl, rfl⟩

end Limit

/-! ### Which cards are not cut again -/

section Settled

variable {references : List WebSearchReference}

theorem around_injective {before : String} {first second : Nat}
    (same : before ++ toString first ++ " bytes]" = before ++ toString second ++ " bytes]") : first = second := by
  have mark : " bytes]".toList = ' ' :: "bytes]".toList := by decide
  have lists := congrArg String.toList same
  rw [String.toList_append, String.toList_append, String.toList_append, String.toList_append, mark, append_assoc,
    append_assoc] at lists
  exact (number_split (by decide) (append_cancel_left lists)).1

theorem behind_original {name : String} {limit shown original other : Nat}
    (same : behind name limit shown original = behind name limit shown other) : original = other := by
  have whole (number : Nat) : behind name limit shown number = "\n\n[truncated: " ++ name ++ " result exceeded " ++
      toString limit ++ " bytes; showing " ++ toString shown ++ " of " ++ toString number ++ " bytes]" := by
    have breaks : "\n\n[truncated: " = "\n\n" ++ "[truncated: " := by decide
    unfold behind truncationNotice
    simp only [breaks, String.append_assoc, -String.reduceAppend]
  rw [whole, whole] at same
  exact around_injective same

theorem originalBytes_le (references : List WebSearchReference) : originalBytes references ≤ webSearchBytes references := by
  induction references with
  | nil => exact Nat.le_refl _
  | cons reference references ih =>
    have here := cutReference_le reference
    simp only [originalBytes, webSearchBytes, map_cons, sum_cons] at ih ⊢
    omega

theorem searchNotice_le (references : List WebSearchReference) {original : Nat} (small : original < 2 ^ 64) :
    strLength (searchNotice references original) ≤ 256 := by
  have sum := strLength_behind "WebSearch" webSearchLimit (webSearchLimit - otherBytes references) original
  have frame := frame_le "WebSearch" webSearchLimit original
  have named : strLength "WebSearch" = 9 := strLength_ofList _
  have limit : Settle.digits webSearchLimit = 5 := by decide
  have shown := Settle.digits_mono (Nat.sub_le webSearchLimit (otherBytes references))
  have digits : Settle.digits original ≤ 20 := (Settle.digits_le_iff (by decide)).mpr (by omega)
  rw [searchNotice]
  omega

theorem noticeLast_length (references : List WebSearchReference) (original : Nat) :
    (noticeLast references original).length = references.length := by
  rcases references.eq_nil_or_concat' with rfl | ⟨front, last, rfl⟩
  · rfl
  · rw [noticeLast_concat, length_append, length_append, length_singleton, length_singleton]

theorem gateWebSearch_single {reference : WebSearchReference} (cut : cutReference reference = reference)
    (large : webSearchLimit < webSearchBytes [reference]) : gateWebSearch [reference] =
      [{ reference with
        chunk := keptChunk [reference] (webSearchBytes [reference]) ++
          searchNotice [reference] (webSearchBytes [reference]) }] := by
  have same : [reference].map cutReference = [reference] := congrArg (fun reference => [reference]) cut
  rw [gateWebSearch, originalBytes, same, if_pos large, shownReferences, same, popReferences_short (.inl (Nat.le_refl _))]
  exact noticeLast_concat [] reference _

theorem gateWebSearch_fewer (cut : references.map cutReference = references) (more : 1 < references.length)
    (large : webSearchLimit < webSearchBytes references) : (gateWebSearch references).length < references.length := by
  have front := popReferences_front references
  have fits := popReferences_fits references
  rw [gateWebSearch, originalBytes, cut, if_pos large, noticeLast_length, shownReferences, cut]
  refine Nat.lt_of_le_of_ne front.length_le fun length => ?_
  rw [front.eq_of_length length] at fits
  omega

/-- A card is not cut again where it is short, where the last chunk stays short with the notice, and where one large
reference with the notice is as large as all of them were. -/
def Lasting (references : List WebSearchReference) : Prop :=
  originalBytes references ≤ webSearchLimit ∨
    (Roomy references ∧ strLength (keptChunk (shownReferences references) (originalBytes references)) +
      strLength (searchNotice (shownReferences references) (originalBytes references)) ≤ webSearchSnippetLimit) ∨
    (¬ Roomy references ∧ (shownReferences references).length = 1 ∧
      originalBytes references = otherBytes (shownReferences references) +
        strLength (searchNotice (shownReferences references) (originalBytes references)))

/-- What is not kept of the card of one reference: it is settled when the notice does not change. -/
theorem gateWebSearch_full {last : WebSearchReference} {original : Nat}
    (cut : cutReference { last with chunk := searchNotice [last] original } =
      { last with chunk := searchNotice [last] original })
    (full : webSearchLimit < otherBytes [last] + strLength (searchNotice [last] original)) :
    gateWebSearch [{ last with chunk := searchNotice [last] original }] =
        [{ last with chunk := searchNotice [last] original }] ↔
      original = otherBytes [last] + strLength (searchNotice [last] original) := by
  have other (chunk : String) : otherBytes [{ last with chunk }] = otherBytes [last] :=
    (otherBytes_concat [] { last with chunk }).trans (otherBytes_concat [] last).symm
  have bytes (chunk : String) : webSearchBytes [{ last with chunk }] = otherBytes [last] + strLength chunk := by
    rw [show otherBytes [last] = _ from otherBytes_concat [] last]
    simp [webSearchBytes, WebSearchReference.bytes]
  have again (next : Nat) :
      searchNotice [{ last with chunk := searchNotice [last] original }] next = searchNotice [last] next := by
    rw [searchNotice, other, searchNotice]
  rw [gateWebSearch_single cut (by rwa [bytes]), bytes, again]
  constructor
  · intro same
    have chunk := congrArg (fun references => lastChunk references) same
    have size := congrArg webSearchBytes same
    simp only [bytes, strLength_append, lastChunk, getLast?_singleton, Option.map_some, Option.getD_some] at chunk size
    have kept := keptChunk_le [{ last with chunk := searchNotice [last] original }]
      (otherBytes [last] + strLength (searchNotice [last] original))
    rw [other (searchNotice [last] original), again] at kept
    -- had there been room, the card would be within the limit
    have none : keptChunk [{ last with chunk := searchNotice [last] original }]
        (otherBytes [last] + strLength (searchNotice [last] original)) = "" := eq_empty_of_strLength (by omega)
    rw [none, String.empty_append] at chunk
    exact (behind_original chunk).symm
  · intro same
    have full' : webSearchLimit < otherBytes [{ last with chunk := searchNotice [last] original }] +
        strLength (searchNotice [{ last with chunk := searchNotice [last] original }] original) := by
      rw [other (searchNotice [last] original), again]
      exact full
    rw [← same, keptChunk_empty full', String.empty_append]

/-- **Which cards are not cut again.** -/
theorem gateWebSearch_settled_iff (small : webSearchBytes references < 2 ^ 64) :
    gateWebSearch (gateWebSearch references) = gateWebSearch references ↔ Lasting references := by
  by_cases short : originalBytes references ≤ webSearchLimit
  · refine iff_of_true ?_ (.inl short)
    have same : (references.map cutReference).map cutReference = references.map cutReference := by
      rw [map_map]
      exact map_congr_left fun reference _ => cutReference_settled reference
    rw [gateWebSearch_short short, gateWebSearch_short (by rwa [originalBytes, same]), same]
  · have size := originalBytes_le references
    obtain ⟨front, last, shown, cut, out⟩ := gateWebSearch_long (Nat.not_le.mp short)
    have whole := webSearchBytes_noticed front last (originalBytes references)
    have kept := keptChunk_le (front ++ [last]) (originalBytes references)
    have narrow := @searchNotice_le (front ++ [last]) (originalBytes references) (by omega)
    rw [Lasting, Roomy, shown, out]
    generalize hchunk : keptChunk (front ++ [last]) (originalBytes references) = chunk at *
    generalize hnotice : searchNotice (front ++ [last]) (originalBytes references) = notice at *
    have titled : truncateText "WebSearch title" last.title webSearchTitleLimit = last.title :=
      congrArg WebSearchReference.title (cut last (mem_append_right _ (mem_singleton_self _)))
    have fronted : front.map cutReference = front := (map_congr_left fun reference listed =>
      cut reference (mem_append_left _ listed)).trans (map_id _)
    -- the references are cut again exactly where the last chunk is too long
    have once : cutReference { last with chunk := chunk ++ notice } = { last with
        chunk := truncateText "WebSearch snippet" (chunk ++ notice) webSearchSnippetLimit } := by
      simp only [cutReference, titled]
    by_cases long : webSearchSnippetLimit < strLength chunk + strLength notice
    · -- there was room, and the card is within the limit when the chunk is cut again
      have room : otherBytes (front ++ [last]) + strLength notice ≤ webSearchLimit := by
        by_contra full
        have none := @keptChunk_empty _ (originalBytes references) (hnotice ▸ Nat.not_le.mp full)
        rw [hchunk] at none
        rw [none] at long
        have empty : strLength "" = 0 := rfl
        have two : webSearchSnippetLimit = 2048 := rfl
        omega
      refine iff_of_false (fun same => ?_) ?_
      · have within := originalBytes_le (front ++ [{ last with chunk := chunk ++ notice }])
        rw [gateWebSearch_short (by omega), map_append, fronted, map_singleton, once] at same
        have cutAgain := congrArg WebSearchReference.chunk (singleton_inj.mp (append_cancel_left same))
        have bounded := truncateText_le "WebSearch snippet" (chunk ++ notice) webSearchSnippetLimit
        rw [show truncateText "WebSearch snippet" (chunk ++ notice) webSearchSnippetLimit = chunk ++ notice from cutAgain,
          strLength_append] at bounded
        omega
      · rintro (within | ⟨-, within⟩ | ⟨full, -⟩)
        · exact absurd within short
        · omega
        · exact full room
    · have fits : strLength (chunk ++ notice) ≤ webSearchSnippetLimit := by
        rw [strLength_append]
        omega
      rw [truncateText_short fits] at once
      have cutOut : (front ++ [{ last with chunk := chunk ++ notice }]).map cutReference =
          front ++ [{ last with chunk := chunk ++ notice }] := by
        rw [map_append, fronted, map_singleton, once]
      by_cases room : otherBytes (front ++ [last]) + strLength notice ≤ webSearchLimit
      · refine iff_of_true ?_ (.inr (.inl ⟨room, Nat.not_lt.mp long⟩))
        rw [gateWebSearch_short (by rw [originalBytes, cutOut]; omega), cutOut]
      · have none := @keptChunk_empty _ (originalBytes references) (hnotice ▸ Nat.not_le.mp room)
        rw [hchunk] at none
        subst none
        by_cases single : front = []
        · subst single
          rw [String.empty_append] at once whole ⊢
          rw [← hnotice] at once room ⊢
          rw [show ([] ++ [last] : List WebSearchReference) = [last] from rfl] at once room ⊢
          simp only [nil_append]
          rw [gateWebSearch_full once (Nat.not_le.mp room)]
          simp [short, room]
        · refine iff_of_false (fun same => ?_) ?_
          · have more : 1 < (front ++ [{ last with chunk := "" ++ notice }]).length := by
              have some := length_pos_of_ne_nil single
              rw [length_append, length_singleton]
              omega
            have fewer := gateWebSearch_fewer cutOut more (by omega)
            rw [same] at fewer
            exact Nat.lt_irrefl _ fewer
          · rintro (within | ⟨within, -⟩ | ⟨-, one, -⟩)
            · exact absurd within short
            · exact absurd within room
            · rw [length_append, length_singleton] at one
              exact single (eq_nil_of_length_eq_zero (by omega))

end Settled

end Byok.CardGate
