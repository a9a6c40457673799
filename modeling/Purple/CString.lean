/-
The C string functions the library calls, over the bytes before the NUL.

`char` is signed or unsigned only where a function says so; `unsigned long`
and `size_t` have 64 bits.
-/

import Purple.Memory.Block

namespace Purple.CString

open List Memory

/-- The bytes of a literal in the source, which uses ASCII only. -/
def ascii (text : String) : List UInt8 := text.toList.map fun char => UInt8.ofNat char.toNat

/-- The string that starts at these bytes: everything before the first NUL. -/
def cString (bytes : List UInt8) : List UInt8 := bytes.takeWhile (· != 0)

/-- The string at the start of a block.  Reading a cell that was never written,
or the end of the block, is `none`. -/
def blockString : Block UInt8 → Option (List UInt8)
  | [] => none
  | none :: _ => none
  | some byte :: rest => if byte = 0 then some [] else (blockString rest).map (byte :: ·)

/-- Offset of the first occurrence of `needle`. -/
def strstr (needle : List UInt8) : List UInt8 → Option Nat
  | [] => if needle.isEmpty then some 0 else none
  | byte :: rest =>
    if needle.isPrefixOf (byte :: rest) then some 0 else (strstr needle rest).map (· + 1)

def asciiToLower (byte : UInt8) : UInt8 :=
  if 65 ≤ byte ∧ byte ≤ 90 then byte + 32 else byte

/-- `g_ascii_strncasecmp(left, right, count) == 0`. -/
def strncasecmpEq (left right : List UInt8) (count : Nat) : Bool :=
  (left.take count).map asciiToLower == (right.take count).map asciiToLower

def strcasestr (needle haystack : List UInt8) : Option Nat :=
  strstr (needle.map asciiToLower) (haystack.map asciiToLower)

def isSpace (byte : UInt8) : Bool := byte == 32 || (9 ≤ byte && byte ≤ 13)

def digitValue (base : Nat) (byte : UInt8) : Option Nat :=
  let lower := asciiToLower byte
  let value :=
    if 48 ≤ byte ∧ byte ≤ 57 then some (byte.toNat - 48)
    else if 97 ≤ lower ∧ lower ≤ 122 then some (lower.toNat - 87) else none
  value.filter (· < base)

def scanDigits (base : Nat) (value : Option Nat) : List UInt8 → Option Nat
  | [] => value
  | byte :: rest =>
    match digitValue base byte with
    | none => value
    | some digit => scanDigits base (some (value.getD 0 * base + digit)) rest

def stripSign : List UInt8 → Bool × List UInt8
  | 45 :: rest => (true, rest)
  | 43 :: rest => (false, rest)
  | text => (false, text)

def stripHexPrefix : List UInt8 → List UInt8
  | 48 :: 120 :: rest => rest
  | 48 :: 88 :: rest => rest
  | text => text

def ulongMax : Nat := 2 ^ 64 - 1

/-- `sscanf` with `%lu` (base 10) or `%lx` (base 16): white space, a sign and
digits.  An overflow saturates and a minus negates, as `strtoul` does. -/
def scanUlong (base : Nat) (text : List UInt8) : Option Nat :=
  let (negative, text) := stripSign (text.dropWhile isSpace)
  let text := if base = 16 then stripHexPrefix text else text
  (scanDigits base none text).map fun value =>
    if ulongMax < value then ulongMax
    else if negative then (2 ^ 64 - value) % 2 ^ 64 else value

/-- `strtol` in base 10: white space, a sign and digits; 0 where there is no digit.  An
overflow saturates. -/
def strtol (text : List UInt8) : Int :=
  let signed := stripSign (text.dropWhile isSpace)
  let value := (scanDigits 10 none signed.2).getD 0
  if signed.1 then -((min value (2 ^ 63) : Nat) : Int) else (min value (2 ^ 63 - 1) : Nat)

/-- `atoi`: the result of `strtol` is cut to an `int`. -/
def atoi (text : List UInt8) : Int := (strtol text).bmod (2 ^ 32)

variable {needle haystack : List UInt8} {offset : Nat}

theorem stop_unique {α : Type*} {stop : α} {left right moreLeft moreRight : List α}
    (solidLeft : stop ∉ left) (solidRight : stop ∉ right)
    (same : left ++ stop :: moreLeft = right ++ stop :: moreRight) :
    left = right ∧ moreLeft = moreRight := by
  induction left generalizing right with
  | nil =>
    cases right with
    | nil =>
      cases same
      exact ⟨rfl, rfl⟩
    | cons first right =>
      cases same
      exact absurd mem_cons_self solidRight
  | cons first left ih =>
    cases right with
    | nil =>
      cases same
      exact absurd mem_cons_self solidLeft
    | cons other right =>
      rw [cons_append, cons_append, List.cons.injEq] at same
      obtain ⟨rfl, same⟩ := same
      obtain ⟨rfl, rest⟩ := ih (fun member => solidLeft (mem_cons_of_mem _ member))
        (fun member => solidRight (mem_cons_of_mem _ member)) same
      exact ⟨rfl, rest⟩

theorem strstr_decompose (found : strstr needle haystack = some offset) :
    ∃ before after, haystack = before ++ needle ++ after ∧ before.length = offset := by
  induction haystack generalizing offset with
  | nil =>
    rw [strstr] at found
    split at found
    · rename_i empty
      cases found
      exact ⟨[], [], by rw [List.isEmpty_iff.mp empty]; rfl, rfl⟩
    · cases found
  | cons byte rest ih =>
    rw [strstr] at found
    split at found
    · rename_i here
      cases found
      obtain ⟨after, split⟩ := isPrefixOf_iff_prefix.mp here
      exact ⟨[], after, split.symm, rfl⟩
    · obtain ⟨earlier, foundLater, rfl⟩ := Option.map_eq_some_iff.mp found
      obtain ⟨before, after, split, length⟩ := ih foundLater
      exact ⟨byte :: before, after, by rw [split]; rfl, by rw [length_cons, length]⟩

theorem strstr_bound (found : strstr needle haystack = some offset) :
    offset + needle.length ≤ haystack.length := by
  obtain ⟨before, after, rfl, rfl⟩ := strstr_decompose found
  simp only [length_append]
  omega

theorem strstr_append (found : strstr needle haystack = some offset) (more : List UInt8) :
    strstr needle (haystack ++ more) = some offset := by
  induction haystack generalizing offset with
  | nil =>
    rw [strstr] at found
    split at found
    · rename_i empty
      cases found
      rw [List.isEmpty_iff.mp empty]
      cases more <;> rfl
    · cases found
  | cons byte rest ih =>
    rw [strstr] at found
    rw [cons_append, strstr]
    split at found
    · rename_i here
      rw [if_pos]
      · exact found
      · exact isPrefixOf_iff_prefix.mpr
          (( isPrefixOf_iff_prefix.mp here).trans (prefix_append (byte :: rest) more))
    · rename_i elsewhere
      obtain ⟨earlier, foundLater, rfl⟩ := Option.map_eq_some_iff.mp found
      rw [if_neg, ih foundLater]
      · rfl
      · -- the later match keeps `needle` within `byte :: rest`
        intro prefixed
        have bound := strstr_bound foundLater
        apply elsewhere
        apply isPrefixOf_iff_prefix.mpr
        exact prefix_of_prefix_length_le ( isPrefixOf_iff_prefix.mp prefixed)
          (prefix_append (byte :: rest) more) (by rw [length_cons]; omega)

theorem strstr_skip {first : UInt8} {front : List UInt8} (absent : first ∉ front)
    (rest : List UInt8) : strstr (first :: needle) (front ++ rest) =
      (strstr (first :: needle) rest).map (· + front.length) := by
  induction front with
  | nil => exact Option.map_id'.symm
  | cons byte front ih =>
    have elsewhere : ¬(first :: needle).isPrefixOf (byte :: (front ++ rest)) = true := by
      intro prefixed
      have same := (cons_prefix_cons.mp ( isPrefixOf_iff_prefix.mp prefixed)).1
      exact absent (same ▸ mem_cons_self)
    rw [cons_append, strstr, if_neg elsewhere,
      ih fun later => absent (mem_cons_of_mem _ later), Option.map_map]
    rfl

theorem strstr_none_of_front {front whole : List UInt8} (initial : front <+: whole)
    (absent : strstr needle whole = none) : strstr needle front = none := by
  obtain ⟨more, rfl⟩ := initial
  cases found : strstr needle front with
  | none => rfl
  | some offset =>
    rw [strstr_append found more] at absent
    cases absent

theorem strstr_of_infix (needle before after : List UInt8) :
    ∃ offset, strstr needle (before ++ needle ++ after) = some offset := by
  induction before with
  | nil =>
    rw [nil_append]
    cases needle with
    | nil => exact ⟨0, by cases after <;> rfl⟩
    | cons first rest =>
      refine ⟨0, ?_⟩
      rw [cons_append, strstr, if_pos]
      exact isPrefixOf_iff_prefix.mpr (prefix_append (first :: rest) after)
  | cons byte before ih =>
    obtain ⟨offset, found⟩ := ih
    rw [cons_append, cons_append, strstr]
    split
    · exact ⟨0, rfl⟩
    · exact ⟨offset + 1, by rw [found]; rfl⟩

theorem strstr_none_iff (needle haystack : List UInt8) :
    strstr needle haystack = none ↔ ¬needle <:+: haystack := by
  constructor
  · intro absent inside
    obtain ⟨before, after, rfl⟩ := inside
    obtain ⟨offset, found⟩ := strstr_of_infix needle before after
    rw [found] at absent
    cases absent
  · intro absent
    cases found : strstr needle haystack with
    | none => rfl
    | some offset =>
      obtain ⟨before, after, rfl, _⟩ := strstr_decompose found
      exact absurd ⟨before, after, rfl⟩ absent

theorem strstr_line {text : List UInt8} (unbroken : ¬[13, 10] <:+: text) (more : List UInt8) :
    strstr [13, 10] (text ++ [13, 10] ++ more) = some text.length := by
  induction text with
  | nil => rfl
  | cons byte text ih =>
    have later : ¬[13, 10] <:+: text := fun inside =>
      unbroken (inside.trans (suffix_cons byte text).isInfix)
    have elsewhere : ¬[13, 10].isPrefixOf (byte :: (text ++ [13, 10] ++ more)) = true := by
      intro prefixed
      have initial := isPrefixOf_iff_prefix.mp prefixed
      obtain ⟨return', second⟩ := cons_prefix_cons.mp initial
      cases text with
      | nil => exact absurd (cons_prefix_cons.mp second).1 (by decide)
      | cons next text =>
        have feed := (cons_prefix_cons.mp second).1
        apply unbroken
        rw [← return', ← feed]
        exact ⟨[], text, rfl⟩
    rw [cons_append, cons_append, strstr, if_neg elsewhere, ih later]
    rfl

theorem strstr_take_iff (found : strstr needle haystack = some offset) (count : Nat) :
    strstr needle (haystack.take count) =
      if offset + needle.length ≤ count then some offset else none := by
  have bound := strstr_bound found
  have whole : haystack.take count ++ haystack.drop count = haystack := take_append_drop _ _
  have early (earlier : Nat) (foundEarly : strstr needle (haystack.take count) = some earlier) :
      earlier = offset ∧ offset + needle.length ≤ count := by
    have again := strstr_append foundEarly (haystack.drop count)
    rw [whole, found] at again
    cases again
    have inside := strstr_bound foundEarly
    rw [length_take] at inside
    exact ⟨rfl, by omega⟩
  split
  · rename_i inside
    cases result : strstr needle (haystack.take count) with
    | some earlier => rw [(early earlier result).1]
    | none =>
      obtain ⟨before, after, split, length⟩ := strstr_decompose found
      obtain ⟨other, again⟩ :=
        strstr_of_infix needle before (after.take (count - (before ++ needle).length))
      have front : haystack.take count =
          before ++ needle ++ after.take (count - (before ++ needle).length) := by
        rw [split, take_append, take_of_length_le]
        rw [length_append]
        omega
      rw [front, again] at result
      cases result
  · rename_i outside
    cases result : strstr needle (haystack.take count) with
    | some earlier => exact absurd (early earlier result).2 outside
    | none => rfl

theorem cString_take (bytes : List UInt8) (count : Nat) :
    cString (bytes.take count) = (cString bytes).take count := by
  induction bytes generalizing count with
  | nil => simp only [cString, take_nil, takeWhile_nil]
  | cons byte rest ih =>
    cases count with
    | zero => rfl
    | succ count =>
      simp only [cString] at ih
      simp only [cString, take_succ_cons, takeWhile_cons, ih]
      split <;> rfl

theorem cString_append_front (front more : List UInt8) :
    cString front <+: cString (front ++ more) := by
  have taken := cString_take (front ++ more) front.length
  rw [take_left' rfl] at taken
  rw [taken]
  exact take_prefix _ _

theorem cString_initial (bytes : List UInt8) : cString bytes <+: bytes :=
  takeWhile_prefix _

theorem cString_line {text : List UInt8} (noNul : 0 ∉ text) (more : List UInt8) :
    cString (text ++ more) = text ++ cString more := by
  apply takeWhile_append_of_pos
  intro byte member
  exact bne_iff_ne.mpr fun zero => noNul (zero ▸ member)

theorem cString_clean {text : List UInt8} (clean : 0 ∉ text) : cString text = text := by
  have whole := cString_line clean []
  rw [append_nil] at whole
  exact whole.trans (append_nil text)

theorem cString_ended (bytes rest : List UInt8) : cString (bytes ++ 0 :: rest) = cString bytes := by
  induction bytes with
  | nil => rfl
  | cons byte bytes ih =>
    rw [cons_append, cString, cString, takeWhile_cons, takeWhile_cons]
    split
    · exact congrArg (byte :: ·) ih
    · rfl

theorem blockString_of_prefix {block : Block UInt8} {bytes : List UInt8}
    (held : bytes.map some ++ [some 0] <+: block) :
    blockString block = some (cString bytes) := by
  obtain ⟨rest, rfl⟩ := held
  induction bytes with
  | nil => rfl
  | cons byte bytes ih =>
    simp only [map_cons, cons_append, blockString, ih, cString, takeWhile_cons]
    by_cases nul : byte = 0
    · simp only [nul, if_true, bne_self_eq_false, Bool.false_eq_true, if_false]
    · rw [if_neg nul, if_pos (bne_iff_ne.mpr nul)]
      rfl

theorem scanDigits_stop {base : Nat} {stop : UInt8} (stops : digitValue base stop = none)
    (start : Option Nat) (front rest : List UInt8) :
    scanDigits base start (front ++ stop :: rest) = scanDigits base start front := by
  induction front generalizing start with
  | nil => simp only [nil_append, scanDigits, stops]
  | cons byte front ih =>
    rw [cons_append, scanDigits, scanDigits]
    split
    · rfl
    · exact ih _

theorem hexDigit_plain {byte : UInt8} (digit : (digitValue 16 byte).isSome = true) :
    isSpace byte = false ∧ byte ≠ 45 ∧ byte ≠ 43 ∧ byte ≠ 120 ∧ byte ≠ 88 := by
  have apart : ∀ other : UInt8, (digitValue 16 other).isSome = false → byte ≠ other := by
    intro other no same
    rw [same, no] at digit
    cases digit
  refine ⟨?_, apart _ rfl, apart _ rfl, apart _ rfl, apart _ rfl⟩
  cases space : isSpace byte with
  | false => rfl
  | true =>
    rw [isSpace, Bool.or_eq_true, Bool.and_eq_true, decide_eq_true_eq, decide_eq_true_eq,
      UInt8.le_iff_toNat_le, UInt8.le_iff_toNat_le] at space
    rcases space with blank | range
    · exact absurd (eq_of_beq blank) (apart 32 rfl)
    · change 9 ≤ byte.toNat ∧ byte.toNat ≤ 13 at range
      have kinds : byte = 9 ∨ byte = 10 ∨ byte = 11 ∨ byte = 12 ∨ byte = 13 := by
        simp only [← UInt8.toNat_inj, UInt8.reduceToNat]
        omega
      rcases kinds with rfl | rfl | rfl | rfl | rfl <;> cases digit

/-- Nothing is skipped in front of the digits. -/
theorem strip_digits {front : List UInt8} {stop : UInt8} (rest : List UInt8)
    (digits : ∀ byte ∈ front, (digitValue 16 byte).isSome = true)
    (begins : front = [] → isSpace stop = false ∧ stop ≠ 45 ∧ stop ≠ 43 ∧ stop ≠ 48)
    (unmarked : stop ≠ 120 ∧ stop ≠ 88) :
    stripSign ((front ++ stop :: rest).dropWhile isSpace) = (false, front ++ stop :: rest) ∧
      stripHexPrefix (front ++ stop :: rest) = front ++ stop :: rest := by
  obtain ⟨first, more, whole, solid, noMinus, noPlus⟩ : ∃ first more,
      front ++ stop :: rest = first :: more ∧ isSpace first = false ∧ first ≠ 45 ∧ first ≠ 43 := by
    cases front with
    | nil =>
      obtain ⟨solid, noMinus, noPlus, -⟩ := begins rfl
      exact ⟨stop, rest, rfl, solid, noMinus, noPlus⟩
    | cons byte front =>
      obtain ⟨solid, noMinus, noPlus, -⟩ := hexDigit_plain (digits byte mem_cons_self)
      exact ⟨byte, front ++ stop :: rest, rfl, solid, noMinus, noPlus⟩
  have unspaced : (front ++ stop :: rest).dropWhile isSpace = front ++ stop :: rest := by
    rw [whole]
    exact dropWhile_cons_of_neg (ne_true_of_eq_false solid)
  constructor
  · rw [unspaced, whole, stripSign]
    · intro _ same
      exact noMinus (List.cons.inj same).1
    · intro _ same
      exact noPlus (List.cons.inj same).1
  · have second : ∀ mark later, (∀ byte, (digitValue 16 byte).isSome = true → byte ≠ mark) →
        stop ≠ mark → front ++ stop :: rest ≠ 48 :: mark :: later := by
      intro mark later plain apart same
      cases front with
      | nil => exact (begins rfl).2.2.2 (List.cons.inj same).1
      | cons byte front =>
        have tail := (List.cons.inj same).2
        cases front with
        | nil => exact apart (List.cons.inj tail).1
        | cons next front =>
          exact plain next (digits next (mem_cons_of_mem _ mem_cons_self))
            (List.cons.inj tail).1
    rw [stripHexPrefix]
    · intro later
      exact second 120 later (fun _ digit => (hexDigit_plain digit).2.2.2.1) unmarked.1
    · intro later
      exact second 88 later (fun _ digit => (hexDigit_plain digit).2.2.2.2) unmarked.2

theorem scanUlong_digits {base : Nat} {front rest : List UInt8} {stop : UInt8}
    (digits : ∀ byte ∈ front, (digitValue 16 byte).isSome = true)
    (begins : front = [] → isSpace stop = false ∧ stop ≠ 45 ∧ stop ≠ 43 ∧ stop ≠ 48)
    (unmarked : stop ≠ 120 ∧ stop ≠ 88) (stops : digitValue base stop = none) :
    stripHexPrefix (stripSign ((front ++ stop :: rest).dropWhile isSpace)).2 = front ++ stop :: rest ∧
      scanUlong base (front ++ stop :: rest) =
        (scanDigits base none front).map fun value => if ulongMax < value then ulongMax else value := by
  obtain ⟨unsigned, unprefixed⟩ := strip_digits rest digits begins unmarked
  constructor
  · rw [unsigned, unprefixed]
  · rw [scanUlong, unsigned]
    simp only [unprefixed, ite_self, scanDigits_stop stops, Bool.false_eq_true, if_false]

end Purple.CString
