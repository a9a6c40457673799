/-
Decimal numbers as C prints them, and that `strtol` reads them back.
-/

import Mathlib.Algebra.Group.Int.Defs
import Purple.CString

namespace Purple.Decimal

open List Option CString

def decimal (value : Nat) : List UInt8 :=
  if value < 10 then [UInt8.ofNat (48 + value)]
  else decimal (value / 10) ++ [UInt8.ofNat (48 + value % 10)]

/-- The conversion `%d`. -/
def printInt (value : Int) : List UInt8 :=
  if value < 0 then 45 :: decimal value.natAbs else decimal value.natAbs

theorem decimal_low {value : Nat} (low : value < 10) : decimal value = [UInt8.ofNat (48 + value)] := by
  rw [decimal, if_pos low]

theorem decimal_high {value : Nat} (high : ¬ value < 10) :
    decimal value = decimal (value / 10) ++ [UInt8.ofNat (48 + value % 10)] := by
  rw [decimal, if_neg high]

theorem printInt_nonneg {value : Int} (nonneg : 0 ≤ value) : printInt value = decimal value.natAbs :=
  if_neg (Int.not_lt.mpr nonneg)

theorem digit_toNat {digit : Nat} (low : digit < 10) : (UInt8.ofNat (48 + digit)).toNat = 48 + digit := by
  rw [UInt8.toNat_ofNat']
  omega

theorem decimal_digits (value : Nat) : ∀ byte ∈ decimal value, 48 ≤ byte.toNat ∧ byte.toNat ≤ 57 := by
  induction value using Nat.strongRecOn with
  | ind value ih =>
    by_cases low : value < 10
    · rw [decimal_low low]
      intro byte member
      rw [mem_singleton.mp member, digit_toNat low]
      omega
    · rw [decimal_high low]
      intro byte member
      obtain front | last := mem_append.mp member
      · exact ih (value / 10) (by omega) byte front
      · have digit := Nat.mod_lt value (show 0 < 10 by decide)
        rw [mem_singleton.mp last, digit_toNat digit]
        omega

theorem decimal_ne_nil (value : Nat) : decimal value ≠ [] := by
  rw [decimal]
  split
  · exact cons_ne_nil _ _
  · exact append_ne_nil_of_right_ne_nil _ (cons_ne_nil _ _)

theorem decimal_length {value count : Nat} (fits : value < 10 ^ (count + 1)) :
    (decimal value).length ≤ count + 1 := by
  induction count generalizing value with
  | zero =>
    rw [decimal_low fits]
    exact Nat.le_refl 1
  | succ count ih =>
    by_cases low : value < 10
    · rw [decimal_low low]
      exact Nat.succ_le_succ (Nat.zero_le _)
    · rw [decimal_high low, length_append]
      refine Nat.add_le_add_right (ih ?_) 1
      rw [Nat.pow_succ] at fits
      exact Nat.div_lt_of_lt_mul (by rw [Nat.mul_comm]; exact fits)

theorem digitValue_digit {digit : Nat} (low : digit < 10) :
    digitValue 10 (UInt8.ofNat (48 + digit)) = some digit := by
  have value := digit_toNat low
  have range : (48 : UInt8) ≤ UInt8.ofNat (48 + digit) ∧ UInt8.ofNat (48 + digit) ≤ 57 := by
    rw [UInt8.le_iff_toNat_le, UInt8.le_iff_toNat_le, value]
    change 48 ≤ 48 + digit ∧ 48 + digit ≤ 57
    omega
  rw [digitValue]
  simp only [if_pos range, value, Nat.add_sub_cancel_left]
  exact filter_some_pos (decide_eq_true low)

theorem scanDigits_append {front : List UInt8} (base : Nat)
    (digits : ∀ byte ∈ front, digitValue base byte ≠ none) (value : Option Nat)
    (rest : List UInt8) :
    scanDigits base value (front ++ rest) = scanDigits base (scanDigits base value front) rest := by
  induction front generalizing value with
  | nil => rfl
  | cons byte front ih =>
    obtain ⟨digit, read⟩ := ne_none_iff_exists'.mp (digits byte mem_cons_self)
    simp only [cons_append, scanDigits, read]
    exact ih (fun other member => digits other (mem_cons_of_mem _ member)) _

theorem scanDigits_lt {base : Nat} {digits : List UInt8} {start : Option Nat} {value : Nat}
    (read : scanDigits base start digits = some value) :
    value < (start.getD 0 + 1) * base ^ digits.length ∨ start = some value := by
  induction digits generalizing start with
  | nil => exact Or.inr read
  | cons byte rest inductionHypothesis =>
    rw [scanDigits] at read
    cases digit : digitValue base byte with
    | none =>
      rw [digit] at read
      exact Or.inr read
    | some low =>
      rw [digit] at read
      have small : low < base := of_decide_eq_true (filter_eq_some_iff.mp digit).2
      have next : start.getD 0 * base + low + 1 ≤ (start.getD 0 + 1) * base := by
        rw [Nat.add_mul, Nat.one_mul]
        omega
      have room : (start.getD 0 * base + low + 1) * base ^ rest.length ≤
          (start.getD 0 + 1) * base ^ (byte :: rest).length := by
        rw [length_cons, Nat.pow_succ, Nat.mul_comm (base ^ rest.length), ← Nat.mul_assoc]
        exact Nat.mul_le_mul_right _ next
      have positive : 0 < base ^ rest.length := Nat.pow_pos (by omega)
      rcases inductionHypothesis read with below | same
      · exact Or.inl (Nat.lt_of_lt_of_le below room)
      · left
        apply Nat.lt_of_lt_of_le _ room
        rw [← Option.some.inj same]
        exact Nat.lt_of_lt_of_le (Nat.lt_succ_self _) (Nat.le_mul_of_pos_right _ positive)

theorem digitValue_decimal (value : Nat) : ∀ byte ∈ decimal value, digitValue 10 byte ≠ none := by
  intro byte member
  have range := decimal_digits value byte member
  have spelled : byte = UInt8.ofNat (48 + (byte.toNat - 48)) := by
    apply UInt8.toNat.inj
    rw [digit_toNat (by omega)]
    omega
  rw [spelled, digitValue_digit (by omega)]
  exact some_ne_none _

theorem scanDigits_decimal (value : Nat) : scanDigits 10 none (decimal value) = some value := by
  induction value using Nat.strongRecOn with
  | ind value ih =>
    by_cases low : value < 10
    · rw [decimal_low low, scanDigits, digitValue_digit low]
      simp only [getD_none, Nat.zero_mul, Nat.zero_add, scanDigits]
    · rw [decimal_high low, scanDigits_append 10 (digitValue_decimal _), ih _ (by omega),
        scanDigits, digitValue_digit (Nat.mod_lt value (by decide))]
      simp only [getD_some, scanDigits, Option.some.injEq]
      omega

theorem stripSign_decimal (value : Nat) :
    stripSign ((decimal value).dropWhile isSpace) = (false, decimal value) := by
  obtain ⟨first, rest, split⟩ := exists_cons_of_ne_nil (decimal_ne_nil value)
  have range := decimal_digits value first (by rw [split]; exact mem_cons_self)
  have solid : isSpace first = false := by
    rw [isSpace, Bool.or_eq_false_iff, beq_eq_false_iff_ne, Bool.and_eq_false_iff,
      decide_eq_false_iff_not, decide_eq_false_iff_not]
    constructor
    · rintro rfl
      change 48 ≤ 32 ∧ _ at range
      omega
    · right
      rw [UInt8.le_iff_toNat_le]
      change ¬ first.toNat ≤ 13
      omega
  rw [split, dropWhile_cons, solid, if_neg Bool.false_ne_true]
  unfold stripSign
  split
  · rename_i same
    cases same
    change 48 ≤ 45 ∧ _ at range
    omega
  · rename_i same
    cases same
    change 48 ≤ 43 ∧ _ at range
    omega
  · rfl

theorem strtol_decimal {value : Nat} (fits : value < 2 ^ 63) : strtol (decimal value) = value := by
  rw [strtol, stripSign_decimal, scanDigits_decimal, getD_some, if_neg Bool.false_ne_true,
    Nat.min_eq_left (by omega)]

theorem strtol_printInt {value : Int} (lower : -2 ^ 63 < value) (upper : value < 2 ^ 63) :
    strtol (printInt value) = value := by
  by_cases negative : value < 0
  · have minus : isSpace 45 = false := by decide
    rw [printInt, if_pos negative, strtol, dropWhile_cons, minus, if_neg Bool.false_ne_true,
      stripSign, scanDigits_decimal, getD_some, if_pos rfl]
    omega
  · rw [printInt, if_neg negative, strtol_decimal (by omega)]
    omega

theorem atoi_printInt {value : Int} (least : -2 ^ 31 ≤ value) (most : value < 2 ^ 31) :
    atoi (printInt value) = value := by
  rw [atoi, strtol_printInt (by omega) (by omega)]
  exact Int.bmod_eq_of_le (by omega) (by omega)

theorem not_mem_printInt {byte : UInt8} (other : byte ≠ 45)
    (noDigit : ¬ (48 ≤ byte.toNat ∧ byte.toNat ≤ 57)) (value : Int) : byte ∉ printInt value := by
  have digits : byte ∉ decimal value.natAbs := fun member =>
    noDigit (decimal_digits value.natAbs byte member)
  rw [printInt]
  split
  · exact fun member => (mem_cons.mp member).elim other digits
  · exact digits

end Purple.Decimal
