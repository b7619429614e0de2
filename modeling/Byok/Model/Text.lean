/-
**Texts cut to a number of bytes.** `utf8_prefix` and `utf8_suffix`, as `server/src/run/compaction.rs` and
`server/src/model/tool_result_replay.rs` each have them.

* `strLength` — `str::len`.
* `utf8Prefix`, `utf8Suffix` — what a text begins and ends with, within so many bytes.
* `strLength_toString` — a number has a byte for each digit.
-/

import Byok.Library.Settle
import Byok.Library.Utf8

namespace Byok

open Library

/-- `str::len`. -/
def strLength (text : String) : Nat := Utf8.size text.toList

def utf8Prefix (value : String) (limit : Nat) : String := String.ofList (Utf8.front value.toList limit)

def utf8Suffix (value : String) (limit : Nat) : String := String.ofList (Utf8.back value.toList limit)

@[simp] theorem strLength_append (first second : String) :
    strLength (first ++ second) = strLength first + strLength second := by
  simp [strLength]

theorem strLength_ofList (text : List Char) : strLength (String.ofList text) = Utf8.size text := by
  simp [strLength]

theorem eq_empty_of_strLength {text : String} (none : strLength text = 0) : text = "" := by
  have short := Utf8.length_le_size text.toList
  rw [← strLength, none, Nat.le_zero, List.length_eq_zero_iff] at short
  exact String.toList_inj.mp short

theorem strLength_toString (number : Nat) : strLength (toString number) = Settle.digits number := by
  have ascii : ∀ character ∈ (Nat.repr number).toList, character.utf8Size = 1 := by
    intro character listed
    have digit : character.isDigit = true := by
      refine Nat.isDigit_of_mem_toDigits (b := 10) (by decide) (by decide) (n := number) ?_
      simpa [Nat.repr] using listed
    rw [Char.utf8Size_eq_one_iff]
    simp only [Char.isDigit, ge_iff_le, Bool.and_eq_true, decide_eq_true_eq] at digit
    exact UInt32.le_trans digit.2 (by decide)
  show Utf8.size (Nat.repr number).toList = (Nat.repr number).length
  rw [Utf8.size_ascii ascii, String.length_toList]

theorem number_split {first second : Nat} {after after' : List Char} {mark : Char} (other : mark.isDigit = false)
    (same : (toString first).toList ++ mark :: after = (toString second).toList ++ mark :: after') :
    first = second ∧ after = after' := by
  have digits (number : Nat) : ∀ character ∈ Nat.toDigits 10 number, character.isDigit = true := fun _ listed =>
    Nat.isDigit_of_mem_toDigits (by decide) (by decide) listed
  have list (number : Nat) : (toString number).toList = Nat.toDigits 10 number := by simp [Nat.repr]
  rw [list, list] at same
  have front := congrArg (List.takeWhile Char.isDigit) same
  rw [List.takeWhile_append_of_pos (digits first), List.takeWhile_append_of_pos (digits second),
    List.takeWhile_cons_of_neg (by simp [other]), List.takeWhile_cons_of_neg (by simp [other]), List.append_nil,
    List.append_nil] at front
  have numbers := congrArg (Nat.ofDigitChars 10 · 0) front
  simp only [Nat.ofDigitChars_toDigits (show 1 < 10 by decide) (Nat.le_refl 10)] at numbers
  rw [front] at same
  exact ⟨numbers, (List.cons.inj (List.append_cancel_left same)).2⟩

theorem strLength_around (before after : String) (number : Nat) :
    strLength (before ++ toString number ++ after) = strLength (before ++ toString 0 ++ after) - 1 + Settle.digits number := by
  have zero : Settle.digits 0 = 1 := rfl
  simp only [strLength_append, strLength_toString, zero]
  omega

theorem strLength_replicate (character : Char) (ascii : character.utf8Size = 1) (count : Nat) :
    strLength (String.ofList (List.replicate count character)) = count := by
  rw [strLength_ofList, Utf8.size_ascii fun other listed => List.eq_of_mem_replicate listed ▸ ascii, List.length_replicate]

/-! ### Beginnings and ends -/

theorem utf8Prefix_split (value : String) (limit : Nat) : ∃ rest, value = utf8Prefix value limit ++ rest := by
  obtain ⟨second, split⟩ := (Utf8.front_spec value.toList limit).part
  refine ⟨String.ofList second, String.toList_inj.mp ?_⟩
  simpa [utf8Prefix] using split

theorem utf8Suffix_split (value : String) (limit : Nat) : ∃ rest, value = rest ++ utf8Suffix value limit := by
  obtain ⟨first, split⟩ := (Utf8.back_spec value.toList limit).part
  refine ⟨String.ofList first, String.toList_inj.mp ?_⟩
  simpa [utf8Suffix] using split

theorem utf8Prefix_le (value : String) (limit : Nat) : strLength (utf8Prefix value limit) ≤ limit := by
  rw [utf8Prefix, strLength_ofList]
  exact (Utf8.front_spec value.toList limit).bounded

theorem utf8Suffix_le (value : String) (limit : Nat) : strLength (utf8Suffix value limit) ≤ limit := by
  rw [utf8Suffix, strLength_ofList]
  exact (Utf8.back_spec value.toList limit).bounded

theorem utf8Prefix_near {value : String} {limit : Nat} (long : limit < strLength value) :
    limit < strLength (utf8Prefix value limit) + 4 := by
  rw [utf8Prefix, strLength_ofList]
  exact (Utf8.front_spec value.toList limit).near long

theorem utf8Suffix_near {value : String} {limit : Nat} (long : limit < strLength value) :
    limit < strLength (utf8Suffix value limit) + 4 := by
  rw [utf8Suffix, strLength_ofList]
  exact (Utf8.back_spec value.toList limit).near long

theorem utf8Prefix_mono (value : String) {limit more : Nat} (le : limit ≤ more) :
    strLength (utf8Prefix value limit) ≤ strLength (utf8Prefix value more) := by
  rw [utf8Prefix, utf8Prefix, strLength_ofList, strLength_ofList]
  exact Utf8.front_mono value.toList le

theorem between_of_short {value first second : String} (begins : ∃ rest, value = first ++ rest)
    (ends : ∃ rest, value = rest ++ second) (short : strLength first + strLength second ≤ strLength value) :
    ∃ middle, value = first ++ middle ++ second := by
  obtain ⟨behind, split⟩ := begins
  obtain ⟨before, split'⟩ := ends
  have lists : first.toList ++ behind.toList = before.toList ++ second.toList := by
    rw [← String.toList_append, ← String.toList_append, ← split, split']
  rcases List.append_eq_append_iff.mp lists with ⟨middle, before_eq, behind_eq⟩ | ⟨shared, first_eq, second_eq⟩
  · refine ⟨String.ofList middle, String.toList_inj.mp ?_⟩
    rw [split]
    simp [behind_eq]
  · have sizes := congrArg strLength split
    have none : Utf8.size shared = 0 := by
      simp only [strLength, first_eq, second_eq, String.toList_append, Utf8.size_append] at sizes short
      omega
    have empty : shared = [] := by
      have length := Utf8.length_le_size shared
      rwa [none, Nat.le_zero, List.length_eq_zero_iff] at length
    refine ⟨"", String.toList_inj.mp ?_⟩
    rw [split]
    simp [second_eq, empty]

end Byok
