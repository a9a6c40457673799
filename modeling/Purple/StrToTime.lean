/-
Reading timestamps in util.c.

A pointer is what is left of the string, and an advance past the terminator is `none`.
`mktime` and `mktime_utc` are those of the platform.
-/

import Purple.Decimal
import Purple.MktimeUtc

namespace Purple.Time

open CString

abbrev Bytes := List UInt8

inductive Scan where
  | eof
  | mismatch
  | matched (value : Int) (rest : Bytes)
deriving Repr, DecidableEq

def isDigit (byte : UInt8) : Bool := 48 ≤ byte && byte ≤ 57

/-- `%d` with a width, in which a sign counts. -/
def scanInt (width : Nat) (str : Bytes) : Scan :=
  let str := str.dropWhile CString.isSpace
  if str = [] then .eof
  else
    let signed := str.head? = some 45 ∨ str.head? = some 43
    let room := if signed then width - 1 else width
    let text := if signed then str.tail else str
    let digits := (text.take room).takeWhile isDigit
    match scanDigits 10 none digits with
    | none => .mismatch
    | some value =>
      .matched (if str.head? = some 45 then -value else value) (text.drop digits.length)

/-- The fields that `sscanf` assigns for `%02d` so many times, with or without a
separator in between. -/
def scanFields (separator : Option UInt8) : Nat → Bytes → List Int
  | 0, _ => []
  | count + 1, str =>
    match scanInt 2 str with
    | .matched value rest =>
      value ::
        match separator with
        | none => scanFields separator count rest
        | some byte => if rest.head? = some byte then scanFields separator count rest.tail else []
    | _ => []

/-- `g_ascii_isspace` -/
def gAsciiIsspace (byte : UInt8) : Bool :=
  byte == 32 || byte == 9 || byte == 10 || byte == 12 || byte == 13

structure Clock where
  mktime : Tm → Int × Tm
  mktimeUtc : Tm → Int × Tm

structure Answer where
  retval : Int
  tm : Option Tm
  tzOff : Option Int
  rest : Option Bytes
deriving Repr, DecidableEq

def noTzOff : Int := -500000

def advance (count : Nat) (str : Bytes) : Option Bytes :=
  if count ≤ str.length then some (str.drop count) else none

def skipSeparator (str : Bytes) : Bytes :=
  if str.head? = some 45 ∨ str.head? = some 47 then str.tail else str

def giveUp (str : Bytes) : Answer :=
  { retval := 0, tm := none, tzOff := none, rest := if str = [] then none else some str }

/-- What `%04d` reads, and the string behind a year. -/
def passYear (str : Bytes) : Option (Int × Bytes) :=
  match scanInt 4 str with
  | .matched year _ =>
    if 1900 ≤ year then (advance 4 str).map fun str => (year, skipSeparator str)
    else some (year, str)
  | _ => some (0, str)

/-- A field of two digits.  Nothing is assigned at the end of the string. -/
def passField (str : Bytes) : Option (Option (Int × Bytes)) :=
  match scanInt 2 str with
  | .mismatch => some none
  | .eof => (advance 2 str).map fun str => some (0, str)
  | .matched value _ => (advance 2 str).map fun str => some (value, str)

def setClock (t : Tm) (values : List Int) : Tm :=
  { t with
    tmHour := values.getD 0 t.tmHour
    tmMin := values.getD 1 t.tmMin
    tmSec := values.getD 2 t.tmSec }

def passFields (count spaced plain : Nat) (str : Bytes) : Option (Option Bytes) :=
  if (scanFields (some 58) count str).length = count then (advance spaced str).map some
  else if (scanFields none count str).length = count then (advance plain str).map some
  else some none

def fieldsOf (count : Nat) (str : Bytes) (t : Tm) : Tm :=
  let colon := scanFields (some 58) count str
  if colon.length = count then setClock t colon
  else setClock (setClock t colon) (scanFields none count str)

def passFraction (str : Bytes) : Bytes :=
  if str.head? = some 46 then str.tail.dropWhile isDigit else str

/-- `tzhrs * 60 * 60 + tzmins * 60` -/
def zoneOffset (str : Bytes) : Int :=
  let colon := scanFields (some 58) 2 str
  let values := if colon.length = 2 then colon else scanFields none 2 str
  values.getD 0 0 * 60 * 60 + values.getD 1 0 * 60

def passZone (str : Bytes) : Option (Option Int × Bytes) :=
  if str.head? = some 43 ∨ str.head? = some 45 then
    let sign := if str.head? = some 43 then 1 else -1
    (passFields 2 5 4 str.tail).map fun
      | some rest => (some (zoneOffset str.tail * sign), rest)
      | none => (none, str.tail)
  else if str.head? = some 90 then some (some 0, str.tail)
  else some (none, str)

def finish (clock : Clock) (t : Tm) (offset : Option Int) (str : Bytes) : Answer :=
  let rest := str.dropWhile gAsciiIsspace
  let result := if offset.isSome then clock.mktimeUtc t else clock.mktime t
  let tzoff := offset.getD noTzOff
  { retval := if tzoff ≠ noTzOff then result.1 - tzoff else result.1
    tm := some result.2
    tzOff := some tzoff
    rest := if rest = [] then none else some rest }

/-- The time of day behind its `T` or `.`. -/
def passTime (clock : Clock) (utc : Bool) (t : Tm) (str : Bytes) : Option Answer := do
  let clockFields ← passFields 3 8 6 str
  let t := fieldsOf 3 str t
  match clockFields with
  | none => return finish clock t none str
  | some str =>
    let (offset, str) ← passZone (passFraction str)
    match offset with
    | some offset => return finish clock t (some offset) str
    | none =>
      if utc then return finish clock t (some 0) str
      else return finish clock { t with tmIsdst := -1 } none str

def passEnd (clock : Clock) (utc : Bool) (year : Int) (t : Tm) (str : Bytes) : Option Answer :=
  if str.head? = some 47 ∨ str.head? = some 45 then
    if 1900 ≤ year then some (giveUp str)
    else
      match scanInt 4 str.tail with
      | .mismatch => some (giveUp str.tail)
      | .eof => some (finish clock { t with tmYear := t.tmYear - 1900 } none str.tail)
      | .matched year _ => some (finish clock { t with tmYear := year - 1900 } none str.tail)
  else if str.head? = some 84 ∨ str.head? = some 46 then passTime clock utc t str.tail
  else some (finish clock t none str)

def startsNumber (str : Bytes) : Bool :=
  str.head?.any fun byte => isDigit byte || byte == 45 || byte == 43

def purpleStrToTime (clock : Clock) (utc : Bool) (timestamp : Bytes) : Option Answer := do
  let str := timestamp.dropWhile gAsciiIsspace
  if !startsNumber str then return giveUp str
  let (year, str) ← passYear str
  let tmYear := if 1900 ≤ year then year - 1900 else 0
  match ← passField str with
  | none => return giveUp str
  | some (month, str) =>
    let str := skipSeparator str
    match ← passField str with
    | none => return giveUp str
    | some (day, str) =>
      passEnd clock utc year ⟨0, 0, 0, day, month - 1, tmYear, 0⟩ str

def FieldsFit (count spaced plain : Nat) (str : Bytes) : Prop :=
  if (scanFields (some 58) count str).length = count then spaced ≤ str.length
  else (scanFields none count str).length = count → plain ≤ str.length

def ZoneFits (str : Bytes) : Prop :=
  str.head? = some 43 ∨ str.head? = some 45 → FieldsFit 2 5 4 str.tail

def clockWidth (str : Bytes) : Nat := if (scanFields (some 58) 3 str).length = 3 then 8 else 6

def Untimed (str : Bytes) : Prop :=
  (scanFields (some 58) 3 str).length ≠ 3 ∧ (scanFields none 3 str).length ≠ 3

def TimeFits (str : Bytes) : Prop :=
  Untimed str ∨ clockWidth str ≤ str.length ∧ ZoneFits (passFraction (str.drop (clockWidth str)))

def EndFits (str : Bytes) : Prop :=
  str.head? = some 84 ∨ str.head? = some 46 → TimeFits str.tail

def afterYear (str : Bytes) : Bytes :=
  match scanInt 4 str with
  | .matched year _ => if 1900 ≤ year then skipSeparator (str.drop 4) else str
  | _ => str

/-- Where a month or a day is read and fits, and what is behind it fits. -/
def FieldThen (behind : Bytes → Prop) (str : Bytes) : Prop :=
  scanInt 2 str = .mismatch ∨ 2 ≤ str.length ∧ behind (str.drop 2)

/-- No field that is read is cut short by the end of the string. -/
def Uncut (timestamp : Bytes) : Prop :=
  let str := timestamp.dropWhile gAsciiIsspace
  startsNumber str = true →
    FieldThen (fun str => FieldThen EndFits (skipSeparator str)) (afterYear str)

theorem advance_some {count : Nat} {str : Bytes} (fits : count ≤ str.length) :
    advance count str = some (str.drop count) := if_pos fits

theorem advance_none {count : Nat} {str : Bytes} (short : ¬ count ≤ str.length) :
    advance count str = none := if_neg short

theorem scanDigits_small {count value : Nat} {digits : Bytes}
    (read : scanDigits 10 none digits = some value) (few : digits.length ≤ count) :
    value < 10 ^ count := by
  rcases Decimal.scanDigits_lt read with below | none
  · rw [Option.getD_none, Nat.zero_add, Nat.one_mul] at below
    exact Nat.lt_of_lt_of_le below (Nat.pow_le_pow_right (by decide) few)
  · cases none

theorem scanInt_length {width : Nat} {str rest : Bytes} {value : Int}
    (read : scanInt (width + 1) str = .matched value rest) (large : 10 ^ width ≤ value) :
    width + 1 ≤ str.length := by
  have front := (List.dropWhile_sublist (p := CString.isSpace) (l := str)).length_le
  rw [scanInt] at read
  generalize str.dropWhile CString.isSpace = text at read front
  by_cases short : width + 1 ≤ text.length
  · omega
  · dsimp only at read
    split at read
    · cases read
    · split at read
      · cases read
      · rename_i scanned
        exfalso
        apply Int.not_lt.mpr large
        cases read
        have few : _ < 10 ^ width := scanDigits_small scanned (by
          apply Nat.le_trans (List.takeWhile_sublist _).length_le
          rw [List.length_take]
          split
          · exact Nat.min_le_left _ _
          · omega)
        have cast : ((10 ^ width : Nat) : Int) = 10 ^ width := by
          rw [Nat.cast_pow]
          rfl
        rw [← cast]
        split
        · omega
        · omega

theorem passYear_eq (str : Bytes) : ∃ year, passYear str = some (year, afterYear str) := by
  rw [passYear, afterYear]
  cases read : scanInt 4 str with
  | eof => exact ⟨0, rfl⟩
  | mismatch => exact ⟨0, rfl⟩
  | matched year rest =>
    dsimp only
    by_cases admitted : 1900 ≤ year
    · have fits : 4 ≤ str.length := @scanInt_length 3 _ _ _ read (by omega)
      rw [if_pos admitted, if_pos admitted, advance_some fits]
      exact ⟨year, rfl⟩
    · rw [if_neg admitted, if_neg admitted]
      exact ⟨year, rfl⟩

theorem passField_cases (str : Bytes) :
    (scanInt 2 str = .mismatch ∧ passField str = some none) ∨
      scanInt 2 str ≠ .mismatch ∧
        if 2 ≤ str.length then ∃ value, passField str = some (some (value, str.drop 2))
        else passField str = none := by
  rw [passField]
  cases scanInt 2 str with
  | mismatch => exact Or.inl ⟨rfl, rfl⟩
  | eof =>
    refine Or.inr ⟨Scan.noConfusion, ?_⟩
    split
    · rename_i fits
      dsimp only
      rw [advance_some fits]
      exact ⟨0, rfl⟩
    · rename_i short
      dsimp only
      rw [advance_none short]
      rfl
  | matched value rest =>
    refine Or.inr ⟨Scan.noConfusion, ?_⟩
    split
    · rename_i fits
      dsimp only
      rw [advance_some fits]
      exact ⟨value, rfl⟩
    · rename_i short
      dsimp only
      rw [advance_none short]
      rfl

theorem passFields_isSome (count spaced plain : Nat) (str : Bytes) :
    (passFields count spaced plain str).isSome ↔ FieldsFit count spaced plain str := by
  rw [passFields, FieldsFit]
  split
  · rw [Option.isSome_map, advance]
    split
    · rename_i fits
      exact iff_of_true rfl fits
    · rename_i short
      exact iff_of_false Bool.false_ne_true short
  · split
    · rename_i read
      rw [Option.isSome_map, advance]
      split
      · rename_i fits
        exact iff_of_true rfl fun _ => fits
      · rename_i short
        exact iff_of_false Bool.false_ne_true fun fits => short (fits read)
    · rename_i unread
      exact iff_of_true rfl fun read => absurd read unread

theorem passZone_isSome (str : Bytes) : (passZone str).isSome ↔ ZoneFits str := by
  rw [passZone, ZoneFits]
  by_cases signed : str.head? = some 43 ∨ str.head? = some 45
  · rw [if_pos signed, Option.isSome_map, passFields_isSome]
    exact ⟨fun fits _ => fits, fun fits => fits signed⟩
  · rw [if_neg signed]
    split
    · exact iff_of_true rfl fun sign => absurd sign signed
    · exact iff_of_true rfl fun sign => absurd sign signed

variable (clock : Clock) (utc : Bool)

theorem passFields_clock (str : Bytes) :
    (Untimed str ∧ passFields 3 8 6 str = some none) ∨
      ¬ Untimed str ∧ passFields 3 8 6 str = (advance (clockWidth str) str).map some := by
  rw [passFields, clockWidth, Untimed]
  by_cases colon : (scanFields (some 58) 3 str).length = 3
  · rw [if_pos colon, if_pos colon]
    exact Or.inr ⟨fun untimed => untimed.1 colon, rfl⟩
  · rw [if_neg colon, if_neg colon]
    by_cases plain : (scanFields none 3 str).length = 3
    · rw [if_pos plain]
      exact Or.inr ⟨fun untimed => untimed.2 plain, rfl⟩
    · rw [if_neg plain]
      exact Or.inl ⟨⟨colon, plain⟩, rfl⟩

theorem passTime_isSome (t : Tm) (str : Bytes) : (passTime clock utc t str).isSome ↔ TimeFits str := by
  rw [passTime, TimeFits]
  rcases passFields_clock str with ⟨untimed, passed⟩ | ⟨timed, passed⟩
  · rw [passed]
    exact iff_of_true rfl (Or.inl untimed)
  · rw [passed, or_iff_right timed]
    by_cases fits : clockWidth str ≤ str.length
    · rw [advance_some fits, and_iff_right fits, ← passZone_isSome]
      cases zone : passZone (passFraction (str.drop (clockWidth str))) with
      | none => exact iff_of_false (by simp [zone]) Bool.false_ne_true
      | some passed =>
        obtain ⟨offset, rest⟩ := passed
        cases offset <;> cases utc <;> exact iff_of_true (by simp [zone]) rfl
    · rw [advance_none fits]
      exact iff_of_false Bool.false_ne_true fun both => fits both.1

theorem passEnd_isSome (year : Int) (t : Tm) (str : Bytes) :
    (passEnd clock utc year t str).isSome ↔ EndFits str := by
  rw [passEnd, EndFits]
  by_cases slash : str.head? = some 47 ∨ str.head? = some 45
  · have untimed : ¬ (str.head? = some 84 ∨ str.head? = some 46) := by
      rcases slash with slash | dash
      · rw [slash]
        decide
      · rw [dash]
        decide
    rw [if_pos slash]
    refine iff_of_true ?_ fun timed => absurd timed untimed
    split
    · rfl
    · cases scanInt 4 str.tail <;> rfl
  · rw [if_neg slash]
    by_cases timed : str.head? = some 84 ∨ str.head? = some 46
    · rw [if_pos timed, passTime_isSome]
      exact ⟨fun fits _ => fits, fun fits => fits timed⟩
    · rw [if_neg timed]
      exact iff_of_true rfl fun both => absurd both timed

/-- No advance passes the terminator exactly where no field is cut short. -/
theorem purpleStrToTime_inside_iff (timestamp : Bytes) :
    (purpleStrToTime clock utc timestamp).isSome ↔ Uncut timestamp := by
  rw [purpleStrToTime, Uncut]
  generalize timestamp.dropWhile gAsciiIsspace = str
  dsimp only
  cases number : startsNumber str with
  | false => exact iff_of_true rfl fun started => Bool.noConfusion started
  | true =>
    obtain ⟨year, passedYear⟩ := passYear_eq str
    rw [passedYear]
    generalize afterYear str = month
    simp only [Bool.not_true, Bool.false_eq_true, if_false, FieldThen, forall_const]
    rcases passField_cases month with ⟨unread, passed⟩ | ⟨read, passed⟩
    · simp [passed, unread]
    · rw [or_iff_right read]
      by_cases fits : 2 ≤ month.length
      · rw [if_pos fits] at passed
        obtain ⟨value, passed⟩ := passed
        rw [and_iff_right fits]
        generalize rest : skipSeparator (month.drop 2) = day
        rcases passField_cases day with ⟨unread, passedDay⟩ | ⟨readDay, passedDay⟩
        · simp [passed, rest, passedDay, unread]
        · rw [or_iff_right readDay]
          by_cases dayFits : 2 ≤ day.length
          · rw [if_pos dayFits] at passedDay
            obtain ⟨dayValue, passedDay⟩ := passedDay
            rw [and_iff_right dayFits, ← passEnd_isSome clock utc year]
            simp [passed, rest, passedDay]
            rfl
          · rw [if_neg dayFits] at passedDay
            simp [passed, rest, passedDay, dayFits]
      · rw [if_neg fits] at passed
        simp [passed, fits]

/-- A month of one digit at the end of the string. -/
theorem lastDigit_passed :
    purpleStrToTime ⟨fun tm => (0, tm), fun tm => (tm.instant, tm)⟩ false (ascii "1") = none := by
  decide

end Purple.Time
