/-
Numbers of a fixed width as bytes, in both byte orders, and reading them from the
front of a buffer.

A read that the buffer has no room for is `none`.
-/

import Mathlib.Algebra.Group.Int.Defs
import Mathlib.Algebra.Group.Nat.Defs
import Mathlib.Data.List.Basic

namespace Purple.Endian

open List

/-- The `width` low bytes, the lowest first. -/
def little : Nat → Nat → List UInt8
  | 0, _ => []
  | width + 1, value => UInt8.ofNat value :: little width (value / 256)

def littleValue : List UInt8 → Nat
  | [] => 0
  | byte :: rest => byte.toNat + 256 * littleValue rest

/-- The `width` low bytes, the highest first. -/
def big (width value : Nat) : List UInt8 := (little width value).reverse

def bigValue (bytes : List UInt8) : Nat := littleValue bytes.reverse

@[simp] theorem little_length (width value : Nat) : (little width value).length = width := by
  induction width generalizing value with
  | zero => rfl
  | succ width ih => rw [little, length_cons, ih]

@[simp] theorem big_length (width value : Nat) : (big width value).length = width := by
  rw [big, length_reverse, little_length]

theorem littleValue_little (width : Nat) {value : Nat} (fits : value < 256 ^ width) :
    littleValue (little width value) = value := by
  induction width generalizing value with
  | zero => exact (Nat.lt_one_iff.mp fits).symm
  | succ width ih =>
    have high : value / 256 < 256 ^ width := by
      rw [Nat.pow_succ] at fits
      exact Nat.div_lt_of_lt_mul (by rw [Nat.mul_comm]; exact fits)
    rw [little, littleValue, ih high, UInt8.toNat_ofNat']
    exact Nat.mod_add_div value 256

theorem bigValue_big (width : Nat) {value : Nat} (fits : value < 256 ^ width) :
    bigValue (big width value) = value := by
  rw [bigValue, big, reverse_reverse, littleValue_little width fits]

/-- The first `width` bytes as a number, and the bytes behind them. -/
def pop (decode : List UInt8 → Nat) (width : Nat) (bytes : List UInt8) :
    Option (Nat × List UInt8) :=
  if width ≤ bytes.length then some (decode (bytes.take width), bytes.drop width) else none

theorem pop_front {decode : List UInt8 → Nat} {width : Nat} {front : List UInt8}
    (sized : front.length = width) (rest : List UInt8) :
    pop decode width (front ++ rest) = some (decode front, rest) := by
  have room : width ≤ (front ++ rest).length := by
    rw [length_append, sized]
    exact Nat.le_add_right _ _
  rw [pop, if_pos room, take_left' sized, drop_left' sized]

theorem pop_little (width : Nat) {value : Nat} (fits : value < 256 ^ width) (rest : List UInt8) :
    pop littleValue width (little width value ++ rest) = some (value, rest) := by
  rw [pop_front (little_length width value), littleValue_little width fits]

theorem pop_big (width : Nat) {value : Nat} (fits : value < 256 ^ width) (rest : List UInt8) :
    pop bigValue width (big width value ++ rest) = some (value, rest) := by
  rw [pop_front (big_length width value), bigValue_big width fits]

end Purple.Endian
