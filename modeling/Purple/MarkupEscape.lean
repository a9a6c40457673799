/-
The length of an entity is that of its reference, and escaped text is unescaped to itself.

The match is `sscanf`'s, and the length is counted over the digits: the two agree where
the digits begin right behind the mark.
-/

import Purple.Decimal
import Purple.MarkupEntity
import Purple.MarkupSlice

namespace Purple.Markup

open List Option CString

/-- So many bytes reach up to the first semicolon, and include it. -/
def IsReference (text : Bytes) (len : Nat) : Prop :=
  ∃ front rest, text = front ++ 59 :: rest ∧ 59 ∉ front ∧ len = front.length + 1

/-- What is reported for a text is its whole reference, and yields no more bytes. -/
def Exact (text : Bytes) : Prop :=
  ∀ ent len, purpleMarkupUnescapeEntity text = some (ent, len) →
    IsReference text len ∧ ent.length ≤ len

def referenceStart (text : Bytes) : Nat := if text[2]? = some 120 then 3 else 2

/-- Only digits are between the mark and the semicolon: no white space, sign or second prefix. -/
def Direct (text : Bytes) : Prop :=
  ∀ byte ∈ (text.drop (referenceStart text)).takeWhile (· ≠ 59), isDigit 16 byte = true

instance (text : Bytes) : Decidable (Direct text) :=
  List.decidableBAll _ _

/-- The text begins with a reference by a number that is not 0. -/
def Numeric (text : Bytes) : Prop :=
  (entities.find? fun entity => begins entity.1 text) = none ∧ text[1]? = some 35 ∧
    ∃ pound, referenceNumber text = some pound ∧ pound ≠ 0

variable {text : Bytes}

theorem isReference_unique {front rest : Bytes} {len : Nat} (reference : IsReference text len)
    (split : text = front ++ 59 :: rest) (solid : 59 ∉ front) : len = front.length + 1 := by
  obtain ⟨other, more, split', solid', length⟩ := reference
  rw [length, (stop_unique solid' solid (split'.symm.trans split)).1]

theorem asciiToLower_semicolon {byte : UInt8} (same : asciiToLower byte = 59) : byte = 59 := by
  unfold asciiToLower at same
  split at same
  · rename_i upper
    have low := upper.1
    have high := upper.2
    rw [UInt8.le_iff_toNat_le] at low high
    have value := congrArg UInt8.toNat same
    rw [UInt8.toNat_add] at value
    change 65 ≤ byte.toNat at low
    change byte.toNat ≤ 90 at high
    change (byte.toNat + 32) % 256 = 59 at value
    omega
  · exact same

theorem named_isReference {literal front : Bytes} (named : literal = front ++ [59])
    (solid : 59 ∉ front.map asciiToLower) (found : begins literal text = true) :
    IsReference text literal.length := by
  have same := eq_of_beq found
  rw [take_length, named, map_append] at same
  obtain ⟨before, last, taken, isBefore, isLast⟩ := map_eq_append_iff.mp same
  obtain ⟨byte, rfl, lower⟩ := map_eq_singleton_iff.mp isLast
  refine ⟨before, text.drop literal.length, ?_, ?_, ?_⟩
  · have split := take_append_drop literal.length text
    rw [named] at split ⊢
    rw [taken, asciiToLower_semicolon lower, append_assoc] at split
    exact split.symm
  · intro member
    apply solid
    rw [← isBefore]
    exact List.mem_map_of_mem (f := asciiToLower) member
  · have lengths := congrArg List.length isBefore
    rw [length_map, length_map] at lengths
    rw [named, length_append, lengths]
    rfl

theorem entities_end : ∀ entity ∈ entities, entity.1 = entity.1.dropLast ++ [59] ∧
    59 ∉ entity.1.dropLast.map asciiToLower ∧ entity.2.length ≤ entity.1.length := by
  decide +kernel

/-! ### References by number -/

theorem isDigit_solid {base : Nat} {byte : UInt8} (digit : isDigit base byte = true) : byte ≠ 59 := by
  rintro rfl
  cases digit

theorem stripSign_suffix (text : Bytes) : ∃ front, text = front ++ (stripSign text).2 ∧ 59 ∉ front := by
  unfold stripSign
  split
  · exact ⟨[45], rfl, by decide⟩
  · exact ⟨[43], rfl, by decide⟩
  · exact ⟨[], rfl, not_mem_nil⟩

theorem stripHexPrefix_suffix (text : Bytes) : ∃ front, text = front ++ stripHexPrefix text ∧ 59 ∉ front := by
  unfold stripHexPrefix
  split
  · exact ⟨[48, 120], rfl, by decide⟩
  · exact ⟨[48, 88], rfl, by decide⟩
  · exact ⟨[], rfl, not_mem_nil⟩

theorem scanReference_split {base pound : Nat} (read : scanReference base text = some pound) :
    ∃ front rest, text = front ++ 59 :: rest ∧ 59 ∉ front := by
  have spaces := takeWhile_append_dropWhile (p := isSpace) (l := text)
  have blank : 59 ∉ text.takeWhile isSpace := fun member =>
    absurd (List.all_eq_true.mp all_takeWhile 59 member) (by decide)
  unfold scanReference at read
  generalize text.dropWhile isSpace = unspaced at read spaces
  obtain ⟨sign, signed, noSign⟩ := stripSign_suffix unspaced
  obtain ⟨mark, marked, noMark⟩ : ∃ mark, (stripSign unspaced).2 = mark ++
      (if base = 16 then stripHexPrefix (stripSign unspaced).2 else (stripSign unspaced).2) ∧
      59 ∉ mark := by
    split
    · exact stripHexPrefix_suffix _
    · exact ⟨[], rfl, not_mem_nil⟩
  dsimp only at read
  generalize (if base = 16 then stripHexPrefix (stripSign unspaced).2 else
    (stripSign unspaced).2) = digits at read marked
  split at read
  · rename_i semicolon
    have run := takeWhile_append_dropWhile (p := isDigit base) (l := digits)
    have solid : 59 ∉ digits.takeWhile (isDigit base) := fun member =>
      isDigit_solid (List.all_eq_true.mp all_takeWhile 59 member) rfl
    obtain ⟨rest, behind⟩ : ∃ rest, digits.dropWhile (isDigit base) = 59 :: rest := by
      cases behind : digits.dropWhile (isDigit base) with
      | nil =>
        rw [behind] at semicolon
        cases semicolon
      | cons byte rest =>
        rw [behind] at semicolon
        rw [Option.some.inj semicolon]
        exact ⟨rest, rfl⟩
    refine ⟨text.takeWhile isSpace ++ (sign ++ (mark ++ digits.takeWhile (isDigit base))), rest,
      spaces.symm.trans ?_, ?_⟩
    · calc text.takeWhile isSpace ++ unspaced
          = text.takeWhile isSpace ++ (sign ++ (mark ++
              (digits.takeWhile (isDigit base) ++ 59 :: rest))) := by
            rw [← behind, run, ← marked, ← signed]
        _ = _ := by simp only [append_assoc]
    · simp only [mem_append, not_or]
      exact ⟨blank, noSign, noMark, solid⟩
  · cases read

theorem referenceNumber_scanned {pound : Nat} (known : referenceNumber text = some pound) :
    ∃ base, (base = 10 ∨ base = 16) ∧
      scanReference base (text.drop (referenceStart text)) = some pound := by
  rw [referenceNumber] at known
  rw [referenceStart]
  cases decimal : scanReference 10 (text.drop 2) with
  | some number =>
    rw [decimal] at known
    have digit : ¬ text[2]? = some 120 := by
      intro hexadecimal
      obtain ⟨within, is_⟩ := List.getElem?_eq_some_iff.mp hexadecimal
      rw [drop_eq_getElem_cons within, is_] at decimal
      cases decimal
    rw [if_neg digit]
    exact ⟨10, Or.inl rfl, decimal.trans known⟩
  | none =>
    rw [decimal] at known
    dsimp only at known
    split at known
    · rename_i hexadecimal
      rw [if_pos hexadecimal]
      exact ⟨16, Or.inr rfl, known⟩
    · cases known

theorem mark_solid (amp : text.head? = some 38) (sharp : text[1]? = some 35)
    (long : 2 < text.length) : 59 ∉ text.take (referenceStart text) ∧
      (text.take (referenceStart text)).length = referenceStart text := by
  match text, amp, sharp, long with
  | first :: second :: third :: rest, amp, sharp, _ =>
    cases amp
    cases sharp
    rw [referenceStart]
    split
    · rename_i hexadecimal
      cases hexadecimal
      exact ⟨show (59 : UInt8) ∉ [38, 35, 120] by decide, rfl⟩
    · exact ⟨show (59 : UInt8) ∉ [38, 35] by decide, rfl⟩

theorem referenceLength_split {front rest : Bytes} (solid : 59 ∉ front)
    (body : text.drop (referenceStart text) = front ++ 59 :: rest) :
    if front.all (isDigit 16) then
      referenceLength text = referenceStart text + front.length + 1
    else referenceLength text < referenceStart text + front.length + 1 := by
  have known : ∀ count, text[referenceStart text + count]? = (front ++ 59 :: rest)[count]? := by
    intro count
    rw [← body, getElem?_drop]
  have unfolded : referenceLength text =
      let run := ((front ++ 59 :: rest).takeWhile (isDigit 16)).length
      if (front ++ 59 :: rest)[run]? = some 59 then referenceStart text + run + 1
      else referenceStart text + run := by
    rw [referenceLength, ← body]
    dsimp only
    rw [← getElem?_drop]
    rfl
  rw [unfolded]
  dsimp only
  split
  · rename_i digits
    rw [takeWhile_append_of_pos (List.all_eq_true.mp digits),
      takeWhile_cons_of_neg (by decide), append_nil,
      getElem?_append_right (Nat.le_refl _), Nat.sub_self, getElem?_cons_zero, if_pos rfl]
  · rename_i mixed
    have short : (front.takeWhile (isDigit 16)).length < front.length := by
      apply Nat.lt_of_le_of_ne (takeWhile_sublist _).length_le
      intro whole
      have same := (takeWhile_sublist (isDigit 16) (l := front)).eq_of_length whole
      apply mixed
      rw [← same]
      exact all_takeWhile
    rw [takeWhile_append, if_neg (Nat.ne_of_lt short), getElem?_append_left short, if_neg]
    · omega
    · exact fun semicolon => solid (mem_of_getElem? semicolon)

theorem gUnicharToUtf8_length (number : Nat) : (gUnicharToUtf8 number).length ≤ 6 ∧
    (number < 0x800 → (gUnicharToUtf8 number).length ≤ 2) := by
  have sized : ∀ first count number, (sequence first count number).length = count + 1 := by
    intro first count number
    have tail : ∀ count number, (continuation count number).length = count := by
      intro count
      induction count with
      | zero => exact fun _ => rfl
      | succ count ih =>
        intro number
        rw [continuation, length_append, ih]
        rfl
    rw [sequence, length_cons, tail]
  have most : ∀ first count, count ≤ 5 → (sequence first count number).length ≤ 6 := by
    intro first count low
    have length := sized first count number
    omega
  unfold gUnicharToUtf8
  split
  · exact ⟨most _ _ (by decide), fun _ => Nat.le_trans (Nat.le_of_eq (sized _ _ _)) (by decide)⟩
  · split
    · exact ⟨most _ _ (by decide), fun _ => Nat.le_of_eq (sized _ _ _)⟩
    · refine ⟨?_, fun small => by omega⟩
      split
      · exact most _ _ (by decide)
      · split
        · exact most _ _ (by decide)
        · split
          · exact most _ _ (by decide)
          · exact most _ _ (by decide)

theorem scanReference_few {base pound : Nat} {front rest : Bytes} (bases : base = 10 ∨ base = 16)
    (digits : ∀ byte ∈ front, isDigit 16 byte = true) (few : front.length ≤ 2)
    (read : scanReference base (front ++ 59 :: rest) = some pound) : pound < 0x800 := by
  simp only [scanReference, ite_none_right_eq_some] at read
  obtain ⟨whole, scanned, isPound⟩ := map_eq_some_iff.mp read.2
  rw [(scanUlong_digits digits (fun _ => by decide) (by decide) rfl).2] at scanned
  obtain ⟨value, number, capped⟩ := map_eq_some_iff.mp scanned
  have small : value < 16 ^ 2 := by
    rcases Decimal.scanDigits_lt number with below | none
    · rw [getD_none, Nat.zero_add, Nat.one_mul] at below
      apply Nat.lt_of_lt_of_le below
      rcases bases with rfl | rfl
      · exact Nat.le_trans (Nat.pow_le_pow_right (by decide) few) (by decide)
      · exact Nat.pow_le_pow_right (by decide) few
    · cases none
  rw [if_neg (by rw [ulongMax]; omega)] at capped
  omega

theorem numeric_exact_iff {pound : Nat} (amp : text.head? = some 38) (sharp : text[1]? = some 35)
    (known : referenceNumber text = some pound) :
    IsReference text (referenceLength text) ∧
        (gUnicharToUtf8 pound).length ≤ referenceLength text ↔ Direct text := by
  obtain ⟨base, bases, read⟩ := referenceNumber_scanned known
  obtain ⟨front, rest, body, solid⟩ := scanReference_split read
  obtain ⟨noSemicolon, markLength⟩ := mark_solid amp sharp (referenceNumber_long known)
  have whole : text = (text.take (referenceStart text) ++ front) ++ 59 :: rest := by
    rw [append_assoc, ← body, take_append_drop]
  have clean : 59 ∉ text.take (referenceStart text) ++ front := by
    rw [mem_append]
    exact not_or.mpr ⟨noSemicolon, solid⟩
  have between : (text.drop (referenceStart text)).takeWhile (· ≠ 59) = front := by
    have others : ∀ byte ∈ front, decide (byte ≠ 59) = true := by
      intro byte member
      apply decide_eq_true
      rintro rfl
      exact solid member
    rw [body, takeWhile_append_of_pos others, takeWhile_cons_of_neg (by decide),
      append_nil]
  have counted := referenceLength_split solid body
  have start : 2 ≤ referenceStart text := by
    unfold referenceStart
    split <;> decide
  rw [Direct, between]
  split at counted
  · rename_i digits
    refine iff_of_true ⟨⟨_, rest, whole, clean, ?_⟩, ?_⟩ (List.all_eq_true.mp digits)
    · rw [counted, length_append, markLength]
    · rw [body] at read
      obtain ⟨most, few⟩ := gUnicharToUtf8_length pound
      by_cases short : front.length ≤ 2
      · have yields := few (scanReference_few bases (List.all_eq_true.mp digits) short read)
        omega
      · omega
  · rename_i mixed
    refine iff_of_false ?_ (mt List.all_eq_true.mpr mixed)
    intro both
    have length := isReference_unique both.1 whole clean
    rw [length_append, markLength] at length
    omega

theorem unescapeEntity_exact_iff (rest : Bytes) :
    Exact (38 :: rest) ↔ (Numeric (38 :: rest) → Direct (38 :: rest)) := by
  have amp : ¬ (38 :: rest).head? ≠ some 38 := not_not.mpr rfl
  unfold Exact purpleMarkupUnescapeEntity Numeric
  rw [if_neg amp]
  split
  · rename_i entity found
    refine iff_of_true ?_ fun numeric => ?_
    · intro ent len same
      cases same
      obtain ⟨ends, solid, shorter⟩ := entities_end entity (mem_of_find?_eq_some found)
      have begun := find?_some (p := fun entity : Bytes × Bytes => begins entity.1 (38 :: rest)) found
      exact ⟨named_isReference ends solid begun, shorter⟩
    · rw [found] at numeric
      cases numeric.1
  · rename_i unnamed
    by_cases sharp : (38 :: rest)[1]? = some 35
    · rw [if_pos sharp]
      cases known : referenceNumber (38 :: rest) with
      | none =>
        refine iff_of_true (fun ent len same => nomatch same) fun numeric => ?_
        obtain ⟨-, -, pound, same, -⟩ := numeric
        cases same
      | some pound =>
        dsimp only
        by_cases zero : pound = 0
        · rw [if_neg (not_not.mpr zero)]
          refine iff_of_true (fun ent len same => nomatch same) fun numeric => ?_
          obtain ⟨-, -, other, same, nonzero⟩ := numeric
          exact absurd ((Option.some.inj same).symm.trans zero) nonzero
        · rw [if_pos zero, ← numeric_exact_iff rfl sharp known]
          constructor
          · exact fun exact_ _ => exact_ _ _ rfl
          · intro direct ent len same
            cases same
            exact direct ⟨unnamed, sharp, pound, rfl, zero⟩
    · rw [if_neg sharp]
      exact iff_of_true (fun ent len same => nomatch same) fun numeric => absurd numeric.2.1 sharp

/-! ### `purple_markup_escape_text` -/

def escapeChar (char : Char) : Bytes :=
  if char.toNat = 38 then ascii "&amp;"
  else if char.toNat = 60 then ascii "&lt;"
  else if char.toNat = 62 then ascii "&gt;"
  else if char.toNat = 34 then ascii "&quot;"
  else if MarkupSlice.isControl char then ascii "&#x" ++ MarkupSlice.hexByte char.toNat ++ [59]
  else String.utf8EncodeChar char

def purpleMarkupEscapeText (text : List Char) : Bytes := text.flatMap escapeChar

theorem unescapeRounds_skip (html : Bool) (front rest : Bytes) :
    unescapeRounds html front.length (front ++ rest) = unescapeRounds html 0 rest := by
  induction front with
  | nil => rfl
  | cons byte front ih => exact ih

theorem unescapeRounds_entity {entity ent : Bytes} (rest : Bytes) (long : entity ≠ [])
    (found : purpleMarkupUnescapeEntity (entity ++ rest) = some (ent, entity.length)) :
    unescapeRounds false 0 (entity ++ rest) = ent ++ unescapeRounds false 0 rest := by
  cases entity with
  | nil => exact absurd rfl long
  | cons first more =>
    rw [cons_append] at found ⊢
    rw [unescapeRounds, found]
    dsimp only
    rw [length_cons, Nat.add_sub_cancel, unescapeRounds_skip]

theorem unescapeRounds_plain {front : Bytes} (plain : 38 ∉ front) (rest : Bytes) :
    unescapeRounds false 0 (front ++ rest) = front ++ unescapeRounds false 0 rest := by
  induction front with
  | nil => rfl
  | cons byte front ih =>
    obtain ⟨other, more⟩ := ne_and_not_mem_of_not_mem_cons plain
    have noEntity : purpleMarkupUnescapeEntity (byte :: (front ++ rest)) = none :=
      if_pos fun same => other (Option.some.inj same).symm
    rw [cons_append, unescapeRounds, noEntity]
    dsimp only
    rw [Bool.false_and, if_neg Bool.false_ne_true, ih more]
    rfl

theorem hexByte_digits : ∀ number < 256, (MarkupSlice.hexByte number).all (isDigit 16) = true ∧
    scanDigits 16 none (MarkupSlice.hexByte number) = some number := by
  decide +kernel

theorem control_bytes : ∀ number < 0x100, 1 ≤ number →
    MarkupSlice.isControl (Char.ofNat number) = true →
      gUnicharToUtf8 number = String.utf8EncodeChar (Char.ofNat number) := by
  decide +kernel

theorem unescapeEntity_control {number : Nat} (small : number < 256) (positive : number ≠ 0)
    (rest : Bytes) :
    purpleMarkupUnescapeEntity ((ascii "&#x" ++ MarkupSlice.hexByte number ++ [59]) ++ rest) =
      some (gUnicharToUtf8 number, (ascii "&#x" ++ MarkupSlice.hexByte number ++ [59]).length) := by
  obtain ⟨all, read⟩ := hexByte_digits number small
  have digits := List.all_eq_true.mp all
  clear all
  generalize MarkupSlice.hexByte number = front at digits read ⊢
  have written : (ascii "&#x" ++ front ++ [59]) ++ rest = 38 :: 35 :: 120 :: (front ++ 59 :: rest) := by
    rw [append_assoc, append_assoc]
    rfl
  have scanned : scanReference 16 (front ++ 59 :: rest) = some number := by
    obtain ⟨stripped, whole⟩ := @scanUlong_digits 16 front rest 59 digits (fun _ => by decide)
      (by decide) rfl
    rw [read, map_some, if_neg (by rw [ulongMax]; omega)] at whole
    rw [scanReference]
    simp only [if_true, stripped]
    rw [dropWhile_append_of_pos digits, dropWhile_cons_of_neg (by decide), if_pos head?_cons,
      whole, map_some, Nat.mod_eq_of_lt (by omega)]
  have known : referenceNumber (38 :: 35 :: 120 :: (front ++ 59 :: rest)) = some number := scanned
  have solid : 59 ∉ front := fun member => isDigit_solid (digits 59 member) rfl
  have length := @referenceLength_split (38 :: 35 :: 120 :: (front ++ 59 :: rest)) front rest solid rfl
  rw [if_pos (List.all_eq_true.mpr digits)] at length
  have unnamed : (entities.find? fun entity =>
      begins entity.1 (38 :: 35 :: 120 :: (front ++ 59 :: rest))) = none := rfl
  have amp : ¬ (38 :: 35 :: 120 :: (front ++ 59 :: rest)).head? ≠ some 38 := not_not.mpr rfl
  have sharp : (38 :: 35 :: 120 :: (front ++ 59 :: rest))[1]? = some 35 := rfl
  rw [written, purpleMarkupUnescapeEntity, if_neg amp, unnamed]
  dsimp only
  rw [if_pos sharp, known]
  dsimp only
  rw [if_pos positive, length, length_append, length_append]
  congr 2

theorem unescapeRounds_escapeChar {char : Char} (notNul : char.toNat ≠ 0) (rest : Bytes) :
    unescapeRounds false 0 (escapeChar char ++ rest) =
      String.utf8EncodeChar char ++ unescapeRounds false 0 rest := by
  have known : Char.ofNat char.toNat = char := Char.ofNat_toNat char
  rw [escapeChar]
  split
  · rename_i amp
    rw [← known, amp]
    exact unescapeRounds_entity rest (by decide) rfl
  · rename_i notAmp
    split
    · rename_i less
      rw [← known, less]
      exact unescapeRounds_entity rest (by decide) rfl
    · split
      · rename_i greater
        rw [← known, greater]
        exact unescapeRounds_entity rest (by decide) rfl
      · split
        · rename_i quote
          rw [← known, quote]
          exact unescapeRounds_entity rest (by decide) rfl
        · split
          · rename_i control
            have small : char.toNat < 256 := by
              simp only [MarkupSlice.isControl, Bool.or_eq_true, Bool.and_eq_true,
                decide_eq_true_eq] at control
              omega
            rw [unescapeRounds_entity rest (by rw [append_assoc]; exact cons_ne_nil _ _)
              (unescapeEntity_control small notNul rest)]
            rw [← known] at control
            rw [control_bytes _ small (Nat.one_le_iff_ne_zero.mpr notNul) control, known]
          · apply unescapeRounds_plain
            intro member
            exact notAmp (Utf8.encodeChar_ascii member (by decide))

theorem purpleUnescapeText_escape (text : List Char) (noNul : ∀ char ∈ text, char.toNat ≠ 0) :
    purpleUnescapeText (purpleMarkupEscapeText text) = Utf8.encode text := by
  have rounds : ∀ text : List Char, (∀ char ∈ text, char.toNat ≠ 0) →
      unescapeRounds false 0 (purpleMarkupEscapeText text) = Utf8.encode text := by
    intro text noNul
    induction text with
    | nil => rfl
    | cons char text ih =>
      rw [purpleMarkupEscapeText, flatMap_cons,
        unescapeRounds_escapeChar (noNul char mem_cons_self), Utf8.encode_cons]
      exact congrArg _ (ih fun other member => noNul other (mem_cons_of_mem _ member))
  exact rounds text noNul

/-- The length that is reported is exact but for the one kind of reference; escaped text is
always unescaped to itself. -/
theorem unescape_faithful_iff (rest : Bytes) (text : List Char) (noNul : ∀ char ∈ text, char.toNat ≠ 0) :
    (Exact (38 :: rest) ∧ purpleUnescapeText (purpleMarkupEscapeText text) = Utf8.encode text) ↔
      (Numeric (38 :: rest) → Direct (38 :: rest)) := by
  rw [unescapeEntity_exact_iff]
  exact and_iff_left (purpleUnescapeText_escape text noNul)

theorem unescape_faithful_letter : Exact (ascii "&#65;") ∧
    purpleUnescapeText (purpleMarkupEscapeText ['a', '<', 'b']) = Utf8.encode ['a', '<', 'b'] :=
  (unescape_faithful_iff (ascii "#65;") ['a', '<', 'b'] (by simp)).mpr fun _ => by decide

/-- A blank is skipped by the scan, and not counted. -/
theorem blank_not_exact :
    purpleMarkupUnescapeEntity (ascii "&# 65;") = some ([65], 2) ∧ ¬ Exact (ascii "&# 65;") := by
  have read : purpleMarkupUnescapeEntity (ascii "&# 65;") = some ([65], 2) := by decide
  refine ⟨read, fun exact_ => ?_⟩
  obtain ⟨front, rest, split, -, length⟩ := (exact_ _ _ read).1
  match front, split, length with
  | [_], split, _ => cases split

end Purple.Markup
