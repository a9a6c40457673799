/-
Timestamps in the forms of ISO 8601 are read as what they denote.

Each field is scanned back as the number that was written.  What follows a timestamp
without a zone must not look like more of it.
-/

import Purple.StrToTime

namespace Purple.Time

open List Option CString Gregorian

/-! ### Rendering -/

/-- A valid date and time of day from 1900 to 9999, the months counted from 0. -/
structure Civil where
  year : Nat
  month : Nat
  day : Nat
  hour : Nat
  minute : Nat
  second : Nat
  admitted : 1900 ≤ year ∧ year ≤ 9999
  isMonth : month < 12
  isDay : 1 ≤ day ∧ (day : Int) ≤ monthLength year month
  isHour : hour < 24
  isMinute : minute < 60
  isSecond : second < 60

def Civil.tm (civil : Civil) : Tm :=
  ⟨civil.second, civil.minute, civil.hour, civil.day, civil.month, civil.year - 1900, 0⟩

structure Offset where
  east : Bool
  hours : Nat
  minutes : Nat
  isMinutes : minutes < 60
  within : hours * 60 + minutes ≤ 14 * 60

inductive Zone where
  | unnamed
  | zulu
  | numeric (colon : Bool) (offset : Offset)

inductive Style where
  | compact
  | dashed
  | dotted

def digits2 (number : Nat) : Bytes :=
  [UInt8.ofNat (48 + number / 10), UInt8.ofNat (48 + number % 10)]

def digits4 (number : Nat) : Bytes := digits2 (number / 100) ++ digits2 (number % 100)

def spaced (civil : Civil) (rest : Bytes) : Bytes :=
  digits2 civil.hour ++ 58 :: (digits2 civil.minute ++ 58 :: (digits2 civil.second ++ rest))

def unspaced (civil : Civil) (rest : Bytes) : Bytes :=
  digits2 civil.hour ++ (digits2 civil.minute ++ (digits2 civil.second ++ rest))

def timeText (civil : Civil) (rest : Bytes) : Style → Bytes
  | .dotted => unspaced civil rest
  | .compact | .dashed => spaced civil rest

/-- `YYYYMMDDThh:mm:ss`, `YYYY-MM-DDThh:mm:ss` or `YYYY-MM-DD.hhmmss` in front of the rest. -/
def rendered (civil : Civil) (rest : Bytes) (style : Style) : Bytes :=
  let time := (if style matches .dotted then 46 else 84) :: timeText civil rest style
  match style with
  | .compact => digits4 civil.year ++ (digits2 (civil.month + 1) ++ (digits2 civil.day ++ time))
  | .dashed | .dotted =>
    digits4 civil.year ++ 45 :: (digits2 (civil.month + 1) ++ 45 :: (digits2 civil.day ++ time))

def fractionText : Option Bytes → Bytes
  | none => []
  | some digits => 46 :: digits

def zoneText : Zone → Bytes
  | .unnamed => []
  | .zulu => [90]
  | .numeric colon offset =>
    (if offset.east then 43 else 45) :: digits2 offset.hours ++
      ((if colon then [58] else []) ++ digits2 offset.minutes)

def Zone.seconds : Zone → Int
  | .numeric _ offset =>
    let size : Int := offset.hours * 60 * 60 + offset.minutes * 60
    if offset.east then size else -size
  | _ => 0

/-- What is behind a zone is arbitrary; otherwise it is no sign, no `Z`, and nothing
that a fraction could go on with. -/
def Follows (fraction : Option Bytes) (zone : Zone) (suffix : Bytes) : Prop :=
  match zone with
  | .unnamed =>
    (∀ byte, suffix.head? = some byte → byte ≠ 43 ∧ byte ≠ 45 ∧ byte ≠ 90) ∧
      ∀ byte, suffix.head? = some byte →
        if fraction.isSome then isDigit byte = false else byte ≠ 46
  | _ => True

def unparsed (suffix : Bytes) : Option Bytes :=
  let rest := suffix.dropWhile gAsciiIsspace
  if rest = [] then none else some rest

/-! ### Scanning the fields -/

theorem digit_isDigit {digit : Nat} (low : digit < 10) : isDigit (UInt8.ofNat (48 + digit)) = true := by
  revert digit
  decide

theorem digits2_isDigit {number : Nat} (low : number < 100) : ∀ byte ∈ digits2 number, isDigit byte = true := by
  intro byte member
  rcases mem_cons.mp member with high | rest
  · rw [high]
    exact digit_isDigit (by omega)
  · rw [mem_singleton.mp rest]
    exact digit_isDigit (by omega)

theorem scanDigits_two {number : Nat} (low : number < 100) (start : Option Nat) (rest : Bytes) :
    scanDigits 10 start (digits2 number ++ rest) =
      scanDigits 10 (some (start.getD 0 * 100 + number)) rest := by
  rw [digits2, cons_append, cons_append, nil_append, scanDigits,
    Decimal.digitValue_digit (show number / 10 < 10 by omega)]
  dsimp only
  rw [scanDigits, Decimal.digitValue_digit (show number % 10 < 10 by omega), getD_some]
  dsimp only
  congr 2
  omega

theorem digit_solid {byte : UInt8} (digit : isDigit byte = true) :
    CString.isSpace byte = false ∧ gAsciiIsspace byte = false ∧ byte ≠ 43 ∧ byte ≠ 45 ∧
      byte ≠ 46 ∧ byte ≠ 47 ∧ byte ≠ 58 ∧ byte ≠ 84 ∧ byte ≠ 90 := by
  have range : 48 ≤ byte.toNat ∧ byte.toNat ≤ 57 := by
    rw [isDigit, Bool.and_eq_true, decide_eq_true_eq, decide_eq_true_eq, UInt8.le_iff_toNat_le,
      UInt8.le_iff_toNat_le] at digit
    exact digit
  have differs : ∀ other : UInt8, (other.toNat < 48 ∨ 57 < other.toNat) → byte ≠ other := by
    intro other outside same
    rw [same] at range
    omega
  have spaces : CString.isSpace byte = false := by
    rw [CString.isSpace, Bool.or_eq_false_iff, Bool.and_eq_false_iff]
    refine ⟨beq_false_of_ne (differs 32 (by decide)), Or.inr (decide_eq_false ?_)⟩
    rw [UInt8.le_iff_toNat_le]
    change ¬ byte.toNat ≤ 13
    omega
  refine ⟨spaces, ?_, differs _ (by decide), differs _ (by decide), differs _ (by decide),
    differs _ (by decide), differs _ (by decide), differs _ (by decide), differs _ (by decide)⟩
  simp only [gAsciiIsspace, Bool.or_eq_false_iff, beq_eq_false_iff_ne]
  exact ⟨⟨⟨⟨differs _ (by decide), differs _ (by decide)⟩, differs _ (by decide)⟩,
    differs _ (by decide)⟩, differs _ (by decide)⟩

theorem scanInt_digits {width value : Nat} {digits : Bytes} (rest : Bytes)
    (all : ∀ byte ∈ digits, isDigit byte = true) (length : digits.length = width + 1)
    (read : scanDigits 10 none digits = some value) :
    scanInt (width + 1) (digits ++ rest) = .matched value rest := by
  cases digits with
  | nil => cases length
  | cons first later =>
    obtain ⟨solid, -, notPlus, notMinus, -⟩ := digit_solid (all first mem_cons_self)
    have unsigned : ¬ (some first = some (45 : UInt8) ∨ some first = some 43) := by
      rintro (minus | plus)
      · exact notMinus (Option.some.inj minus)
      · exact notPlus (Option.some.inj plus)
    have taken : (first :: (later ++ rest)).take (width + 1) = first :: later := by
      rw [← length, ← cons_append, take_left]
    have dropped : (first :: (later ++ rest)).drop (first :: later).length = rest := by
      rw [← cons_append, drop_left]
    have kept : (first :: later).takeWhile isDigit = first :: later := by
      have whole := @takeWhile_append_of_pos _ _ _ [] all
      rw [append_nil, takeWhile_nil, append_nil] at whole
      exact whole
    rw [scanInt, cons_append, dropWhile_cons_of_neg (by rw [solid]; decide)]
    dsimp only
    rw [if_neg (cons_ne_nil _ _), head?_cons]
    simp only [if_neg unsigned, taken, kept, read, dropped]
    rw [if_neg fun minus => notMinus (Option.some.inj minus)]

theorem scanInt_two {number : Nat} (low : number < 100) (rest : Bytes) :
    scanInt 2 (digits2 number ++ rest) = .matched number rest := by
  apply scanInt_digits rest (digits2_isDigit low) rfl
  have read := scanDigits_two low none []
  rw [append_nil, getD_none, Nat.zero_mul, Nat.zero_add] at read
  exact read

theorem scanInt_four {number : Nat} (low : number < 10000) (rest : Bytes) :
    scanInt 4 (digits4 number ++ rest) = .matched number rest := by
  apply scanInt_digits rest
  · intro byte member
    rcases mem_append.mp member with front | back
    · exact digits2_isDigit (by omega) byte front
    · exact digits2_isDigit (by omega) byte back
  · rfl
  · rw [digits4, scanDigits_two (by omega), ← append_nil (digits2 (number % 100)),
      scanDigits_two (by omega), scanDigits, getD_some, getD_none]
    congr 1
    omega

/-! ### Passing the fields -/

variable {number : Nat}

theorem advance_append (count : Nat) {front : Bytes} (length : front.length = count) (rest : Bytes) :
    advance count (front ++ rest) = some rest := by
  have fits : count ≤ (front ++ rest).length := by
    rw [length_append, length]
    exact Nat.le_add_right _ _
  rw [advance_some fits, ← length, drop_left]

theorem skipSeparator_digits (low : number < 100) (rest : Bytes) :
    skipSeparator (digits2 number ++ rest) = digits2 number ++ rest := by
  obtain ⟨-, -, -, notMinus, -, notSlash, -⟩ := digit_solid (digit_isDigit (show number / 10 < 10 by omega))
  have solid : ¬ ((digits2 number ++ rest).head? = some 45 ∨ (digits2 number ++ rest).head? = some 47) := by
    rintro (minus | slash)
    · exact notMinus (Option.some.inj minus)
    · exact notSlash (Option.some.inj slash)
  rw [skipSeparator, if_neg solid]

theorem skipSeparator_dash (rest : Bytes) : skipSeparator (45 :: rest) = rest := rfl

theorem passYear_digits {year : Nat} (admitted : 1900 ≤ year ∧ year ≤ 9999) (rest : Bytes) :
    passYear (digits4 year ++ rest) = some ((year : Int), skipSeparator rest) := by
  rw [passYear, scanInt_four (by omega)]
  dsimp only
  rw [if_pos (by omega), advance_append 4 rfl, map_some]

theorem passField_digits (low : number < 100) (rest : Bytes) :
    passField (digits2 number ++ rest) = some (some ((number : Int), rest)) := by
  rw [passField, scanInt_two low]
  dsimp only
  rw [advance_append 2 rfl, map_some]

theorem scanFields_plain (low : number < 100) (count : Nat) (rest : Bytes) :
    scanFields none (count + 1) (digits2 number ++ rest) = (number : Int) :: scanFields none count rest := by
  rw [scanFields, scanInt_two low]

theorem scanFields_colon (low : number < 100) (count : Nat) (rest : Bytes) :
    scanFields (some 58) (count + 1) (digits2 number ++ 58 :: rest) =
      (number : Int) :: scanFields (some 58) count rest := by
  rw [scanFields, scanInt_two low]
  rfl

theorem scanFields_stops (low : number < 100) {next : Nat} (nextLow : next < 100) (count : Nat)
    (rest : Bytes) :
    scanFields (some 58) (count + 1) (digits2 number ++ (digits2 next ++ rest)) = [(number : Int)] := by
  obtain ⟨-, -, -, -, -, -, notColon, -⟩ := digit_solid (digit_isDigit (show next / 10 < 10 by omega))
  rw [scanFields, scanInt_two low]
  dsimp only
  rw [digits2, cons_append, head?_cons, if_neg fun colon => notColon (Option.some.inj colon)]

theorem scanFields_last (low : number < 100) (rest : Bytes) :
    scanFields (some 58) 1 (digits2 number ++ rest) = [(number : Int)] := by
  rw [scanFields, scanInt_two low]
  dsimp only
  split
  · rfl
  · rfl

section Clock

variable (civil : Civil) (rest : Bytes)

theorem scanFields_spaced : scanFields (some 58) 3 (spaced civil rest) =
    [(civil.hour : Int), (civil.minute : Int), (civil.second : Int)] := by
  have hour := civil.isHour
  have minute := civil.isMinute
  have second := civil.isSecond
  rw [spaced, scanFields_colon (by omega), scanFields_colon (by omega), scanFields_last (by omega)]

theorem passFields_spaced : passFields 3 8 6 (spaced civil rest) = some (some rest) := by
  have whole : spaced civil rest = (digits2 civil.hour ++ 58 :: (digits2 civil.minute ++
      58 :: digits2 civil.second)) ++ rest := rfl
  rw [passFields, if_pos (by rw [scanFields_spaced]; rfl), whole, advance_append 8 rfl, map_some]

theorem fieldsOf_spaced (t : Tm) : fieldsOf 3 (spaced civil rest) t =
    { t with tmHour := civil.hour, tmMin := civil.minute, tmSec := civil.second } := by
  rw [fieldsOf, scanFields_spaced]
  rfl

theorem scanFields_unspaced : scanFields (some 58) 3 (unspaced civil rest) = [(civil.hour : Int)] ∧
    scanFields none 3 (unspaced civil rest) =
      [(civil.hour : Int), (civil.minute : Int), (civil.second : Int)] := by
  have hour := civil.isHour
  have minute := civil.isMinute
  have second := civil.isSecond
  rw [unspaced]
  constructor
  · exact scanFields_stops (by omega) (by omega) 2 _
  · rw [scanFields_plain (by omega), scanFields_plain (by omega), scanFields_plain (by omega),
      scanFields]

theorem passFields_unspaced : passFields 3 8 6 (unspaced civil rest) = some (some rest) := by
  have whole : unspaced civil rest =
      (digits2 civil.hour ++ (digits2 civil.minute ++ digits2 civil.second)) ++ rest := rfl
  obtain ⟨first, all⟩ := scanFields_unspaced civil rest
  rw [passFields, if_neg (by rw [first, length_singleton]; decide), if_pos (by rw [all]; rfl),
    whole, advance_append 6 rfl, map_some]

theorem fieldsOf_unspaced (t : Tm) : fieldsOf 3 (unspaced civil rest) t =
    { t with tmHour := civil.hour, tmMin := civil.minute, tmSec := civil.second } := by
  rw [fieldsOf, (scanFields_unspaced civil rest).1, (scanFields_unspaced civil rest).2]
  rfl

end Clock

/-! ### Fractions and zones -/

variable {fraction : Option Bytes} {zone : Zone} {suffix : Bytes}

theorem zoneText_sign (colon : Bool) (offset : Offset) (suffix : Bytes) :
    zoneText (.numeric colon offset) ++ suffix =
      (if offset.east then 43 else 45) :: (digits2 offset.hours ++
        (if colon then 58 :: (digits2 offset.minutes ++ suffix) else digits2 offset.minutes ++ suffix)) := by
  cases colon <;> rfl

theorem follows_head (follows : Follows fraction zone suffix) {byte : UInt8}
    (head : (zoneText zone ++ suffix).head? = some byte) :
    if fraction.isSome then isDigit byte = false else byte ≠ 46 := by
  cases zone with
  | unnamed => exact follows.2 byte head
  | zulu =>
    rw [← Option.some.inj head]
    split <;> decide
  | numeric colon offset =>
    rw [zoneText_sign] at head
    rw [← Option.some.inj head]
    cases offset.east <;> cases fraction.isSome <;> decide

theorem passFraction_text (digits : ∀ text, fraction = some text → ∀ byte ∈ text, isDigit byte = true)
    (follows : Follows fraction zone suffix) :
    passFraction (fractionText fraction ++ (zoneText zone ++ suffix)) = zoneText zone ++ suffix := by
  have behind := @follows_head fraction zone suffix follows
  generalize zoneText zone ++ suffix = rest at behind ⊢
  cases fraction with
  | none =>
    rw [fractionText, nil_append, passFraction]
    exact if_neg fun point => behind point rfl
  | some text =>
    rw [fractionText, cons_append, passFraction, if_pos head?_cons,
      tail_cons, dropWhile_append_of_pos (digits text rfl)]
    cases rest with
    | nil => rfl
    | cons byte later =>
      rw [dropWhile_cons_of_neg]
      rw [Bool.not_eq_true]
      exact behind rfl

def Zone.named : Zone → Option Int
  | .unnamed => none
  | zone => some zone.seconds

theorem passZone_numeric (colon : Bool) (offset : Offset) (suffix : Bytes) :
    passZone (zoneText (.numeric colon offset) ++ suffix) =
      some (some (Zone.numeric colon offset).seconds, suffix) := by
  have hours : offset.hours < 100 := by
    have within := offset.within
    omega
  have minutes : offset.minutes < 100 := by
    have isMinutes := offset.isMinutes
    omega
  have read : ∃ text, text = digits2 offset.hours ++ (if colon then
        58 :: (digits2 offset.minutes ++ suffix) else digits2 offset.minutes ++ suffix) ∧
      passFields 2 5 4 text = some (some suffix) ∧
      zoneOffset text = offset.hours * 60 * 60 + offset.minutes * 60 := by
    refine ⟨_, rfl, ?_⟩
    cases colon with
    | true =>
      have scanned : scanFields (some 58) 2 (digits2 offset.hours ++ 58 :: (digits2 offset.minutes ++
          suffix)) = [(offset.hours : Int), (offset.minutes : Int)] := by
        rw [scanFields_colon hours, scanFields_last minutes]
      have whole : digits2 offset.hours ++ 58 :: (digits2 offset.minutes ++ suffix) =
          (digits2 offset.hours ++ 58 :: digits2 offset.minutes) ++ suffix := rfl
      simp only [if_true]
      constructor
      · rw [passFields, if_pos (by rw [scanned]; rfl), whole, advance_append 5 rfl, map_some]
      · rw [zoneOffset, scanned]
        rfl
    | false =>
      have stopped := scanFields_stops hours minutes 1 suffix
      have scanned : scanFields none 2 (digits2 offset.hours ++ (digits2 offset.minutes ++ suffix)) =
          [(offset.hours : Int), (offset.minutes : Int)] := by
        rw [scanFields_plain hours, scanFields_plain minutes, scanFields]
      have whole : digits2 offset.hours ++ (digits2 offset.minutes ++ suffix) =
          (digits2 offset.hours ++ digits2 offset.minutes) ++ suffix := rfl
      simp only [Bool.false_eq_true, if_false]
      constructor
      · rw [passFields, if_neg (by rw [stopped, length_singleton]; decide),
          if_pos (by rw [scanned]; rfl), whole, advance_append 4 rfl, map_some]
      · rw [zoneOffset, stopped, scanned]
        rfl
  obtain ⟨text, isText, fields, size⟩ := read
  rw [zoneText_sign, ← isText, passZone, Zone.seconds]
  cases offset.east with
  | true => simp [fields, size]
  | false => simp [fields, size]

theorem passZone_text (follows : Follows fraction zone suffix) :
    passZone (zoneText zone ++ suffix) = some (zone.named, suffix) := by
  cases zone with
  | unnamed =>
    have solid : ∀ byte, suffix.head? = some byte → _ := follows.1
    rw [zoneText, nil_append, passZone, if_neg, if_neg]
    · rfl
    · exact fun zulu => (solid 90 zulu).2.2 rfl
    · rintro (plus | minus)
      · exact (solid 43 plus).1 rfl
      · exact (solid 45 minus).2.1 rfl
  | zulu => rfl
  | numeric colon offset => exact passZone_numeric colon offset suffix

/-! ### The whole timestamp -/

theorem passTime_read (clock : Clock) {utc : Bool} {t : Tm} {str rest : Bytes} {offset : Option Int}
    (fields : passFields 3 8 6 str = some (some rest))
    (read : passZone (passFraction rest) = some (offset, suffix)) (known : offset = none → utc = true) :
    passTime clock utc t str = some (finish clock (fieldsOf 3 str t) (some (offset.getD 0)) suffix) := by
  rw [passTime, fields]
  simp only [bind_eq_bind, bind_some, read]
  cases offset with
  | none =>
    rw [known rfl]
    rfl
  | some offset => rfl

theorem named_seconds (zone : Zone) : zone.named.getD 0 = zone.seconds := by
  cases zone <;> rfl

theorem seconds_ne (zone : Zone) : zone.seconds ≠ noTzOff := by
  cases zone with
  | numeric colon offset =>
    have within := offset.within
    rw [Zone.seconds, noTzOff]
    split
    · omega
    · omega
  | _ => decide

theorem day_low (civil : Civil) : civil.day < 100 := by
  have most : monthLength civil.year civil.month ≤ 31 := by
    unfold monthLength
    split
    · split <;> decide
    all_goals decide
  have isDay := civil.isDay
  omega

theorem passDate (clock : Clock) (utc : Bool) (civil : Civil) (rest : Bytes) (style : Style) :
    purpleStrToTime clock utc (rendered civil rest style) =
      passTime clock utc ⟨0, 0, 0, civil.day, civil.month, civil.year - 1900, 0⟩
        (timeText civil rest style) := by
  have admitted := civil.admitted
  have month : civil.month + 1 < 100 := by
    have isMonth := civil.isMonth
    omega
  have day := day_low civil
  have digit := digit_isDigit (show civil.year / 100 / 10 < 10 by omega)
  have starts : ∀ behind, (digits4 civil.year ++ behind).dropWhile gAsciiIsspace =
      digits4 civil.year ++ behind := fun behind =>
    dropWhile_cons_of_neg (by rw [(digit_solid digit).2.1]; decide)
  have number : ∀ behind, startsNumber (digits4 civil.year ++ behind) = true := by
    intro behind
    change (isDigit _ || _ || _) = true
    rw [digit]
    rfl
  have isYear : (1900 : Int) ≤ civil.year := by omega
  have monthBack : ((civil.month + 1 : Nat) : Int) - 1 = civil.month := by omega
  cases style with
  | compact =>
    simp only [rendered, purpleStrToTime, starts, number, passYear_digits admitted,
      skipSeparator_digits month, passField_digits month, skipSeparator_digits day,
      passField_digits day, bind_eq_bind, bind_some, if_pos isYear, monthBack]
    rfl
  | dashed | dotted =>
    simp only [rendered, purpleStrToTime, starts, number, passYear_digits admitted,
      skipSeparator_dash, passField_digits month, passField_digits day, bind_eq_bind,
      bind_some, if_pos isYear, monthBack]
    rfl

/-- A timestamp is read as the instant it denotes, with its offset, and what is behind it
is left. -/
theorem purpleStrToTime_rendered (clock : Clock)
    (exact : ∀ tm : Tm, 0 ≤ tm.tmMon → tm.tmMon ≤ 11 → (clock.mktimeUtc tm).1 = tm.instant)
    (civil : Civil) (style : Style) (fraction : Option Bytes) (zone : Zone) (suffix : Bytes)
    (digits : ∀ text, fraction = some text → ∀ byte ∈ text, isDigit byte = true)
    (follows : Follows fraction zone suffix) (utc : Bool) (known : zone = .unnamed → utc = true) :
    purpleStrToTime clock utc
        (rendered civil (fractionText fraction ++ (zoneText zone ++ suffix)) style) =
      some { retval := civil.tm.instant - zone.seconds
             tm := some (clock.mktimeUtc civil.tm).2
             tzOff := some zone.seconds
             rest := unparsed suffix } := by
  have zoned := passZone_text follows
  rw [← passFraction_text digits follows] at zoned
  have named : zone.named = none → utc = true := by
    cases zone with
    | unnamed => exact fun _ => known rfl
    | zulu => exact fun absent => nomatch absent
    | numeric => exact fun absent => nomatch absent
  have month := civil.isMonth
  have instant : (clock.mktimeUtc civil.tm).1 = civil.tm.instant :=
    exact civil.tm (by change 0 ≤ (civil.month : Int); omega) (by change (civil.month : Int) ≤ 11; omega)
  have finished : finish clock civil.tm (some zone.seconds) suffix =
      { retval := civil.tm.instant - zone.seconds
        tm := some (clock.mktimeUtc civil.tm).2
        tzOff := some zone.seconds
        rest := unparsed suffix } := by
    rw [finish]
    simp only [isSome_some, if_true, getD_some, if_pos (seconds_ne zone), instant]
    rfl
  rw [passDate]
  cases style with
  | dotted =>
    rw [timeText, passTime_read clock (passFields_unspaced civil _) zoned named,
      fieldsOf_unspaced, named_seconds]
    exact congrArg some finished
  | compact | dashed =>
    rw [timeText, passTime_read clock (passFields_spaced civil _) zoned named,
      fieldsOf_spaced, named_seconds]
    exact congrArg some finished

def calendarClock : Clock := ⟨fun tm => (0, tm), fun tm => (tm.instant, tm)⟩

def evening : Civil :=
  { year := 2010, month := 7, day := 27, hour := 20, minute := 42, second := 2
    admitted := by decide, isMonth := by decide, isDay := by decide
    isHour := by decide, isMinute := by decide, isSecond := by decide }

theorem purpleStrToTime_rendered_west :
    purpleStrToTime calendarClock false (ascii "2010-08-27.204202.5-0700 PDT") =
      some ⟨1282966922, some evening.tm, some (-25200), some (ascii "PDT")⟩ := by
  have digits : ∀ text, some [53] = some text → ∀ byte ∈ text, isDigit byte = true := by
    intro text same byte member
    cases same
    rw [mem_singleton.mp member]
    rfl
  have read := purpleStrToTime_rendered calendarClock (fun _ _ _ => rfl) evening .dotted (some [53])
    (.numeric false ⟨false, 7, 0, by decide, by decide⟩) (ascii " PDT") digits trivial false
    (fun absent => nomatch absent)
  exact Eq.trans (by decide +kernel) (read.trans (by decide +kernel))

end Purple.Time
