/-
**Texts by their bytes in UTF-8.**

A text is a list of characters; an offset into it counts bytes. Slices are taken at the offsets between characters.

* `isBoundary_iff` — the offsets between characters are the sizes of the beginnings.
* `front`, `back` — the longest beginning and the longest end of at most so many bytes: at most three bytes are lost.
-/

import Mathlib.Data.List.Basic
import Mathlib.Tactic.Common

namespace Byok.Library.Utf8

open List

/-! ### Sizes -/

/-- `str::len`. -/
def size : List Char → Nat
  | [] => 0
  | character :: rest => character.utf8Size + size rest

@[simp] theorem size_nil : size [] = 0 := rfl

@[simp] theorem size_cons (character : Char) (rest : List Char) :
    size (character :: rest) = character.utf8Size + size rest := rfl

@[simp] theorem size_append (first second : List Char) : size (first ++ second) = size first + size second := by
  induction first with
  | nil => simp
  | cons character rest ih => simp [ih, Nat.add_assoc]

@[simp] theorem size_reverse (text : List Char) : size text.reverse = size text := by
  induction text with
  | nil => rfl
  | cons character rest ih => rw [reverse_cons, size_append, ih, size_cons, size_cons, size_nil, Nat.add_zero, Nat.add_comm]

theorem size_cons_succ (character : Char) (rest : List Char) : ∃ offset, size (character :: rest) = offset + 1 ∧
    character.utf8Size ≤ offset + 1 ∧ offset + 1 - character.utf8Size = size rest := by
  have positive := character.utf8Size_pos
  refine ⟨character.utf8Size + size rest - 1, ?_, ?_, ?_⟩
  · rw [size_cons]
    omega
  · omega
  · omega

theorem length_le_size (text : List Char) : text.length ≤ size text := by
  induction text with
  | nil => exact Nat.le_refl 0
  | cons character rest ih =>
    have positive := character.utf8Size_pos
    simp only [length_cons, size_cons]
    omega

theorem size_ascii {text : List Char} (ascii : ∀ character ∈ text, character.utf8Size = 1) : size text = text.length := by
  induction text with
  | nil => rfl
  | cons character rest ih =>
    rw [size_cons, ascii character mem_cons_self, ih fun other listed => ascii other (mem_cons_of_mem _ listed),
      length_cons, Nat.add_comm]

/-! ### Offsets -/

/-- `str::is_char_boundary`. -/
def isBoundary : List Char → Nat → Bool
  | _, 0 => true
  | [], _ + 1 => false
  | character :: rest, offset + 1 =>
    decide (character.utf8Size ≤ offset + 1) && isBoundary rest (offset + 1 - character.utf8Size)

/-- The characters before an offset. -/
def takeBytes : List Char → Nat → List Char
  | [], _ => []
  | _, 0 => []
  | character :: rest, offset + 1 => character :: takeBytes rest (offset + 1 - character.utf8Size)

/-- The characters behind an offset. -/
def dropBytes : List Char → Nat → List Char
  | [], _ => []
  | text, 0 => text
  | character :: rest, offset + 1 => dropBytes rest (offset + 1 - character.utf8Size)

@[simp] theorem isBoundary_zero (text : List Char) : isBoundary text 0 = true := by
  cases text <;> rfl

theorem isBoundary_size (first second : List Char) : isBoundary (first ++ second) (size first) = true := by
  induction first with
  | nil => exact isBoundary_zero second
  | cons character rest ih =>
    obtain ⟨offset, whole, wide, behind⟩ := size_cons_succ character rest
    rw [whole, cons_append, isBoundary, behind, ih, Bool.and_true, decide_eq_true_eq]
    exact wide

theorem isBoundary_split {text : List Char} {offset : Nat} (boundary : isBoundary text offset = true) :
    ∃ first second, text = first ++ second ∧ size first = offset := by
  induction text generalizing offset with
  | nil =>
    cases offset with
    | zero => exact ⟨[], [], rfl, rfl⟩
    | succ offset => cases boundary
  | cons character rest ih =>
    cases offset with
    | zero => exact ⟨[], character :: rest, rfl, rfl⟩
    | succ offset =>
      rw [isBoundary, Bool.and_eq_true, decide_eq_true_eq] at boundary
      obtain ⟨first, second, rfl, sized⟩ := ih boundary.2
      exact ⟨character :: first, second, rfl, by rw [size_cons, sized]; omega⟩

/-- **The offsets between characters** are the sizes of the beginnings. -/
theorem isBoundary_iff {text : List Char} {offset : Nat} :
    isBoundary text offset = true ↔ ∃ first second, text = first ++ second ∧ size first = offset := by
  constructor
  · exact isBoundary_split
  · rintro ⟨first, second, rfl, rfl⟩
    exact isBoundary_size first second

theorem takeBytes_size (first second : List Char) : takeBytes (first ++ second) (size first) = first := by
  induction first with
  | nil => cases second <;> rfl
  | cons character rest ih =>
    obtain ⟨offset, whole, wide, behind⟩ := size_cons_succ character rest
    rw [whole, cons_append, takeBytes, behind, ih]

theorem dropBytes_size (first second : List Char) : dropBytes (first ++ second) (size first) = second := by
  induction first with
  | nil => cases second <;> rfl
  | cons character rest ih =>
    obtain ⟨offset, whole, wide, behind⟩ := size_cons_succ character rest
    rw [whole, cons_append, dropBytes, behind, ih]

theorem exists_boundary {text : List Char} {offset : Nat} (inside : offset ≤ size text) :
    ∃ boundary, isBoundary text boundary = true ∧ boundary ≤ offset ∧ offset < boundary + 4 := by
  induction text generalizing offset with
  | nil => exact ⟨0, rfl, Nat.zero_le _, by simp only [size_nil] at inside; omega⟩
  | cons character rest ih =>
    have wide := character.utf8Size_le_four
    by_cases short : offset < character.utf8Size
    · exact ⟨0, isBoundary_zero _, Nat.zero_le _, by omega⟩
    · have rest_inside : offset - character.utf8Size ≤ size rest := by
        simp only [size_cons] at inside
        omega
      obtain ⟨boundary, found, below, near⟩ := ih rest_inside
      obtain ⟨first, second, rfl, sized⟩ := isBoundary_iff.mp found
      refine ⟨character.utf8Size + boundary, isBoundary_iff.mpr ⟨character :: first, second, rfl, ?_⟩, ?_, ?_⟩
      · rw [size_cons, sized]
      · omega
      · omega

/-! ### The longest beginning -/

/-- The last offset between characters up to a given one. -/
def floorBoundary (text : List Char) : Nat → Nat
  | 0 => 0
  | offset + 1 => if isBoundary text (offset + 1) then offset + 1 else floorBoundary text offset

theorem floorBoundary_le (text : List Char) (offset : Nat) : floorBoundary text offset ≤ offset := by
  induction offset with
  | zero => exact Nat.le_refl 0
  | succ offset ih =>
    unfold floorBoundary
    split
    · exact Nat.le_refl _
    · omega

theorem isBoundary_floorBoundary (text : List Char) (offset : Nat) : isBoundary text (floorBoundary text offset) = true := by
  induction offset with
  | zero => exact isBoundary_zero text
  | succ offset ih =>
    unfold floorBoundary
    split
    · assumption
    · exact ih

theorem le_floorBoundary {text : List Char} {boundary offset : Nat} (found : isBoundary text boundary = true)
    (below : boundary ≤ offset) : boundary ≤ floorBoundary text offset := by
  induction offset with
  | zero => exact below
  | succ offset ih =>
    unfold floorBoundary
    split
    · exact below
    · rename_i other
      refine ih (Nat.lt_succ_iff.mp (Nat.lt_of_le_of_ne below ?_))
      rintro rfl
      exact other found

/-- The longest beginning of at most `limit` bytes. -/
def front (text : List Char) (limit : Nat) : List Char := takeBytes text (floorBoundary text (min limit (size text)))

/-- A beginning of a text within so many bytes, and what is behind it. -/
structure Front (text : List Char) (limit : Nat) (first : List Char) : Prop where
  part : ∃ second, text = first ++ second
  bounded : size first ≤ limit
  near : limit < size text → limit < size first + 4
  whole : size text ≤ limit → first = text

theorem front_spec (text : List Char) (limit : Nat) : Front text limit (front text limit) := by
  obtain ⟨first, second, rfl, sized⟩ := isBoundary_iff.mp (isBoundary_floorBoundary text (min limit (size text)))
  have below := floorBoundary_le (first ++ second) (min limit (size (first ++ second)))
  rw [front, ← sized, takeBytes_size]
  refine ⟨⟨second, rfl⟩, by omega, fun short => ?_, fun fits => ?_⟩
  · obtain ⟨boundary, found, le, near⟩ := exists_boundary (Nat.le_of_lt short)
    have least := le_floorBoundary found le
    rw [Nat.min_eq_left (Nat.le_of_lt short)] at sized
    omega
  · have last := isBoundary_size (first ++ second) []
    rw [append_nil] at last
    have least := le_floorBoundary last (Nat.le_refl _)
    rw [Nat.min_eq_right fits] at sized
    rw [size_append] at least
    have rest : size second = 0 := by
      rw [size_append] at sized
      omega
    have empty := length_le_size second
    rw [rest, Nat.le_zero, length_eq_zero_iff] at empty
    rw [empty, append_nil]

theorem size_front (text : List Char) (limit : Nat) : size (front text limit) = floorBoundary text (min limit (size text)) := by
  obtain ⟨first, second, rfl, sized⟩ := isBoundary_iff.mp (isBoundary_floorBoundary text (min limit (size text)))
  rw [front, ← sized, takeBytes_size]

theorem front_mono (text : List Char) {limit more : Nat} (le : limit ≤ more) :
    size (front text limit) ≤ size (front text more) := by
  rw [size_front, size_front]
  refine le_floorBoundary (isBoundary_floorBoundary _ _) ?_
  have below := floorBoundary_le text (min limit (size text))
  omega

/-! ### The longest end -/

/-- The bytes behind the first offset between characters that leaves at most so many. -/
def ceilBoundary (text : List Char) : Nat → Nat
  | 0 => 0
  | rest + 1 => if isBoundary text (size text - (rest + 1)) then rest + 1 else ceilBoundary text rest

theorem ceilBoundary_le (text : List Char) (rest : Nat) : ceilBoundary text rest ≤ rest := by
  induction rest with
  | zero => exact Nat.le_refl 0
  | succ rest ih =>
    unfold ceilBoundary
    split
    · exact Nat.le_refl _
    · omega

theorem isBoundary_ceilBoundary (text : List Char) (rest : Nat) :
    isBoundary text (size text - ceilBoundary text rest) = true := by
  induction rest with
  | zero =>
    have last := isBoundary_size text []
    rw [append_nil] at last
    exact last
  | succ rest ih =>
    unfold ceilBoundary
    split
    · assumption
    · exact ih

theorem le_ceilBoundary {text : List Char} {left rest : Nat} (found : isBoundary text (size text - left) = true)
    (below : left ≤ rest) : left ≤ ceilBoundary text rest := by
  induction rest with
  | zero => exact below
  | succ rest ih =>
    unfold ceilBoundary
    split
    · exact below
    · rename_i other
      refine ih (Nat.lt_succ_iff.mp (Nat.lt_of_le_of_ne below ?_))
      rintro rfl
      exact other found

/-- The longest end of at most `limit` bytes. -/
def back (text : List Char) (limit : Nat) : List Char :=
  dropBytes text (size text - ceilBoundary text (min limit (size text)))

/-- An end of a text within so many bytes, and what is before it. -/
structure Back (text : List Char) (limit : Nat) (second : List Char) : Prop where
  part : ∃ first, text = first ++ second
  bounded : size second ≤ limit
  near : limit < size text → limit < size second + 4

theorem back_spec (text : List Char) (limit : Nat) : Back text limit (back text limit) := by
  obtain ⟨first, second, rfl, sized⟩ := isBoundary_iff.mp (isBoundary_ceilBoundary text (min limit (size text)))
  have below := ceilBoundary_le (first ++ second) (min limit (size (first ++ second)))
  rw [back, ← sized, dropBytes_size]
  rw [size_append] at sized below
  refine ⟨⟨first, rfl⟩, by omega, fun short => ?_⟩
  -- the last offset up to `size - limit`, or the next one behind it
  have inside : size (first ++ second) - limit + 3 ≤ size (first ++ second) ∨ limit < 3 := by omega
  rcases inside with inside | little
  · obtain ⟨boundary, found, le, near⟩ := exists_boundary inside
    have least : size (first ++ second) - boundary ≤
        ceilBoundary (first ++ second) (min limit (size (first ++ second))) :=
      le_ceilBoundary (by rwa [Nat.sub_sub_self (by omega)]) (by omega)
    rw [size_append] at *
    omega
  · omega

/-! ### ASCII -/

section Ascii

variable {text : List Char}

theorem isBoundary_ascii (ascii : ∀ character ∈ text, character.utf8Size = 1) {offset : Nat} (inside : offset ≤ size text) :
    isBoundary text offset = true := by
  refine isBoundary_iff.mpr ⟨text.take offset, text.drop offset, (take_append_drop offset text).symm, ?_⟩
  rw [size_ascii fun character listed => ascii character (mem_of_mem_take listed), length_take,
    Nat.min_eq_left (size_ascii ascii ▸ inside)]

theorem size_front_ascii (ascii : ∀ character ∈ text, character.utf8Size = 1) (limit : Nat) :
    size (front text limit) = min limit (size text) := by
  have most := (front_spec text limit).bounded
  obtain ⟨first, second, split, sized⟩ := isBoundary_iff.mp (isBoundary_floorBoundary text (min limit (size text)))
  have least := le_floorBoundary (isBoundary_ascii ascii (Nat.min_le_right limit (size text))) (Nat.le_refl _)
  have below := floorBoundary_le text (min limit (size text))
  have taken : front text limit = first := by
    rw [front, ← sized]
    conv_lhs => rw [split]
    exact takeBytes_size first second
  rw [taken, sized]
  omega

theorem size_back_ascii (ascii : ∀ character ∈ text, character.utf8Size = 1) (limit : Nat) :
    size (back text limit) = min limit (size text) := by
  obtain ⟨first, second, split, sized⟩ := isBoundary_iff.mp (isBoundary_ceilBoundary text (min limit (size text)))
  have least := le_ceilBoundary (isBoundary_ascii ascii (Nat.sub_le (size text) (min limit (size text)))) (Nat.le_refl _)
  have below := ceilBoundary_le text (min limit (size text))
  have dropped : back text limit = second := by
    rw [back, ← sized]
    conv_lhs => rw [split]
    exact dropBytes_size first second
  have whole : size text = size first + size second := by rw [split, size_append]
  rw [dropped]
  omega

end Ascii

end Byok.Library.Utf8
