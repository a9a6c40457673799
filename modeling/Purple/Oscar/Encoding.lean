/-
Conversion of messages to UTF-8 in encoding.c.

GLib's conversions are parameters: a conversion that fails is `none`.  The string
of encodings is its parts between commas; `begin` in the source points to a part
and all behind it.
-/

import Purple.CString

namespace Purple.Oscar.Encoding

open List CString

abbrev Str := List UInt8

def comma : UInt8 := 44

/-- `g_convert` and `g_convert_with_fallback` to UTF-8, and `g_utf8_validate`. -/
structure Converters where
  gConvert : Str → Str → Option Str
  gConvertWithFallback : Str → Str → Option Str
  gUtf8Validate : Str → Bool

/-- `!g_ascii_strcasecmp (name, "utf-8")` -/
def isUtf8 (name : Str) : Bool := name.map asciiToLower == [117, 116, 102, 45, 56]

/-- What the code relies on: valid UTF-8 converts to itself, what converts needs
no substitution, and the name of an encoding has no comma. -/
structure Converters.Documented (converters : Converters) : Prop where
  utf8 : ∀ name text, isUtf8 name → converters.gUtf8Validate text →
    converters.gConvert name text = some text
  exact : ∀ name text converted, converters.gConvert name text = some converted →
    converters.gConvertWithFallback name text = some converted
  names : ∀ name text, comma ∈ name → converters.gConvertWithFallback name text = none

section convert

variable (converters : Converters)

/-- The `for` loop: the conversion, and the encodings from the last one tried on. -/
def convertLoop (text : Str) : List Str → Option Str × List Str
  | [] => (none, [])
  | name :: rest =>
    if isUtf8 name && converters.gUtf8Validate text then (none, name :: rest)
    else if rest.isEmpty then (converters.gConvert name text, [name])
    else
      match converters.gConvert name text with
      | some utf8 => (some utf8, name :: rest)
      | none => convertLoop text rest

/-- `encoding_multi_convert_to_utf8` -/
def encodingMultiConvertToUtf8 (text : Str) (encodings : Option Str) (fallback : Bool) :
    Option Str :=
  match encodings with
  | none => none
  | some encodings =>
    let (utf8, start) := convertLoop converters text (encodings.splitOn comma)
    if utf8.isNone && fallback then
      converters.gConvertWithFallback ([comma].intercalate start) text
    else utf8

/-- `oscar_utf8_try_convert`; `charset` is the setting of an ICQ account and
`tryConvert` is `purple_utf8_try_convert`. -/
def oscarUtf8TryConvert (tryConvert : Str → Option Str) (charset : Option Str)
    (msg : Option Str) : Option Str :=
  match msg with
  | none => none
  | some msg =>
    if converters.gUtf8Validate msg then some msg
    else
      let ret :=
        if charset.any (!·.isEmpty) then encodingMultiConvertToUtf8 converters msg charset false
        else none
      ret.orElse fun _ => tryConvert msg

/-- `oscar_convert_to_utf8` -/
def oscarConvertToUtf8 (data : Str) (charsetstr : Option Str) (fallback : Bool) : Option Str :=
  match charsetstr with
  | none => none
  | some charsetstr =>
    if charsetstr.isEmpty then none
    else if isUtf8 charsetstr then
      if converters.gUtf8Validate data then some data else none
    else encodingMultiConvertToUtf8 converters data (some charsetstr) fallback

def utf16be : Str := ascii "UTF-16BE"
def utf8Name : Str := ascii "UTF-8"
def latin1 : Str := ascii "ISO-8859-1"
def asciiName : Str := ascii "ASCII"

/-- The names that `oscar_decode_im` tries; `custom` is the setting of the account. -/
def decodeCharsets (custom : Str) (fromIcq : Bool) (charset : UInt16) : Str × Str × Option Str :=
  if charset = 2 then (utf16be, utf8Name, none)
  else if charset = 3 then (if fromIcq then custom else latin1, utf8Name, none)
  else if charset = 0 then (asciiName, custom, none)
  else if charset = 0xd then (utf8Name, latin1, some custom)
  else (utf8Name, custom, none)

/-- `oscar_decode_im`; `salvage` makes the text about an error. -/
def oscarDecodeIm (salvage : Str → Str) (custom : Str) (fromIcq : Bool) (charset : UInt16)
    (data : Str) : Option Str :=
  if data.isEmpty then none
  else
    let (charsetstr1, charsetstr2, charsetstr3) := decodeCharsets custom fromIcq charset
    let ret := oscarConvertToUtf8 converters data (some charsetstr1) false
    let ret := ret.orElse fun _ =>
      match charsetstr3 with
      | some charsetstr3 =>
        (oscarConvertToUtf8 converters data (some charsetstr2) false).orElse fun _ =>
          oscarConvertToUtf8 converters data (some charsetstr3) true
      | none => oscarConvertToUtf8 converters data (some charsetstr2) true
    some (ret.getD (salvage data))

def firstConversion (text : Str) (names : List Str) : Option Str :=
  names.findSome? fun name => converters.gConvert name text

/-- If a listed encoding takes the text, the result is what the first of them makes of it. -/
def ConvertsByFirst (text encodings : Str) (fallback : Bool) : Prop :=
  ∀ converted, firstConversion converters text (encodings.splitOn comma) = some converted →
    encodingMultiConvertToUtf8 converters text (some encodings) fallback = some converted

/-- The first of the names that takes the text is UTF-8 and the text is valid
there, where the shortcut ends the loop without a conversion. -/
def shortcut (text : Str) : List Str → Option (List Str)
  | [] => none
  | name :: rest =>
    if isUtf8 name && converters.gUtf8Validate text then some rest
    else if (converters.gConvert name text).isSome then none
    else shortcut text rest

/-- The shortcut is not taken, or it is taken at the last name and substitutions are allowed. -/
def ShortcutHarmless (text encodings : Str) (fallback : Bool) : Prop :=
  ∀ behind, shortcut converters text (encodings.splitOn comma) = some behind →
    behind = [] ∧ fallback

end convert

variable {converters : Converters}

theorem loop_converts {text : Str} {names : List Str} {converted : Str}
    (notTaken : shortcut converters text names = none)
    (first : firstConversion converters text names = some converted) :
    (convertLoop converters text names).1 = some converted := by
  induction names with
  | nil => cases first
  | cons name rest ih =>
    rw [shortcut] at notTaken
    rw [convertLoop]
    split at notTaken
    · cases notTaken
    · rename_i other
      rw [if_neg other]
      rw [firstConversion, findSome?_cons] at first
      cases converts : converters.gConvert name text with
      | some own =>
        rw [converts] at first
        split
        · exact first
        · exact first
      | none =>
        rw [converts] at first notTaken
        split
        · rename_i last
          rw [List.isEmpty_iff.mp last] at first
          cases first
        · exact ih notTaken first

theorem loop_shortcut {text : Str} {names behind : List Str}
    (taken : shortcut converters text names = some behind) :
    ∃ name, isUtf8 name ∧ converters.gUtf8Validate text ∧
      convertLoop converters text names = (none, name :: behind) := by
  induction names with
  | nil => cases taken
  | cons name rest ih =>
    rw [shortcut] at taken
    rw [convertLoop]
    split at taken
    · rename_i here
      cases taken
      rw [if_pos here]
      obtain ⟨utf8, valid⟩ := Bool.and_eq_true_iff.mp here
      exact ⟨name, utf8, valid, rfl⟩
    · rename_i other
      rw [if_neg other]
      split at taken
      · cases taken
      · rename_i refused
        rw [Option.not_isSome_iff_eq_none.mp refused]
        split
        · rename_i last
          rw [List.isEmpty_iff.mp last] at taken
          cases taken
        · exact ih taken

theorem first_of_shortcut (documented : converters.Documented) {text : Str}
    {names behind : List Str} (taken : shortcut converters text names = some behind) :
    firstConversion converters text names = some text := by
  induction names with
  | nil => cases taken
  | cons name rest ih =>
    rw [shortcut] at taken
    rw [firstConversion, findSome?_cons]
    split at taken
    · rename_i here
      obtain ⟨utf8, valid⟩ := Bool.and_eq_true_iff.mp here
      rw [documented.utf8 name text utf8 valid]
    · split at taken
      · cases taken
      · rename_i refused
        rw [Option.not_isSome_iff_eq_none.mp refused]
        exact ih taken

theorem comma_mem_intercalate {name next : Str} {rest : List Str} :
    comma ∈ [comma].intercalate (name :: next :: rest) := by
  rw [intercalate_cons_cons]
  exact mem_append_left _ (mem_append_right _ mem_cons_self)

/-- The result is the conversion by the first listed encoding that takes the text
if and only if the shortcut for UTF-8 is not taken, or is taken at the last
encoding with substitutions allowed. -/
theorem convertsByFirst_iff (converters : Converters) (documented : converters.Documented)
    (text encodings : Str) (fallback : Bool) :
    ConvertsByFirst converters text encodings fallback ↔
      ShortcutHarmless converters text encodings fallback := by
  rw [ConvertsByFirst, ShortcutHarmless]
  simp only [encodingMultiConvertToUtf8]
  cases taken : shortcut converters text (encodings.splitOn comma) with
  | none =>
    refine iff_of_true ?_ (fun _ impossible => nomatch impossible)
    intro converted first
    rw [loop_converts taken first]
    rfl
  | some behind =>
    obtain ⟨name, utf8, valid, looped⟩ := loop_shortcut taken
    have first := first_of_shortcut documented taken
    rw [looped, first]
    constructor
    · rintro converts _ ⟨rfl⟩
      have same := converts text rfl
      cases fallback with
      | false => cases same
      | true =>
        cases behind with
        | nil => exact ⟨rfl, rfl⟩
        | cons next rest =>
          simp only [Option.isNone_none, Bool.and_self, if_true] at same
          rw [documented.names _ _ comma_mem_intercalate] at same
          cases same
    · rintro harmless converted ⟨rfl⟩
      obtain ⟨rfl, rfl⟩ := harmless behind rfl
      have last : [comma].intercalate [name] = name := append_nil name
      simp only [Option.isNone_none, Bool.and_self, if_true, last]
      exact documented.exact _ _ _ (documented.utf8 name text utf8 valid)

/-- Two bytes that encode a character from U+0080 to U+07FF. -/
def isPair (first second : UInt8) : Bool := 0xc2 ≤ first && first ≤ 0xdf && second &&& 0xc0 == 0x80

/-- Validation of text with characters up to U+07FF. -/
def validShort : Str → Bool
  | [] => true
  | [only] => 0 < only && only < 0x80
  | first :: second :: rest =>
    if first < 0x80 then 0 < first && validShort (second :: rest)
    else isPair first second && validShort rest

def fromLatin1 (byte : UInt8) : Str :=
  if byte < 0x80 then [byte] else [(0xc0 : UInt8) ||| (byte >>> 6), (0x80 : UInt8) ||| (byte &&& 0x3f)]

def threeConvert (name text : Str) : Option Str :=
  if isUtf8 name then if validShort text then some text else none
  else if name = latin1 then some (text.flatMap fromLatin1)
  else if name = asciiName then if text.all (· < 0x80) then some text else none
  else none

/-- A byte that is not ASCII becomes a question mark. -/
def substituted (text : Str) : Str := text.map fun byte => if byte < 0x80 then byte else 63

def threeEncodings : Converters :=
  { gConvert := threeConvert
    gConvertWithFallback := fun name text =>
      (threeConvert name text).orElse fun _ =>
        if isUtf8 name || name == asciiName then some (substituted text) else none
    gUtf8Validate := validShort }

theorem comma_not_utf8 {name : Str} (inside : comma ∈ name) : isUtf8 name = false := by
  rw [isUtf8, beq_eq_false_iff_ne]
  intro same
  have lowered : asciiToLower comma ∈ name.map asciiToLower := List.mem_map_of_mem inside
  rw [same] at lowered
  exact absurd lowered (by decide)

theorem threeEncodings_documented : threeEncodings.Documented where
  utf8 := by
    intro name text utf8 valid
    change validShort text = true at valid
    change threeConvert name text = some text
    rw [threeConvert, if_pos utf8, if_pos valid]
  exact := by
    intro name text converted converts
    change (threeConvert name text).orElse _ = some converted
    change threeConvert name text = some converted at converts
    rw [converts]
    rfl
  names := by
    intro name text inside
    have notLatin1 : name ≠ latin1 := by
      rintro rfl
      exact absurd inside (by decide)
    have notAscii : name ≠ asciiName := by
      rintro rfl
      exact absurd inside (by decide)
    have notUtf8 := comma_not_utf8 inside
    change (threeConvert name text).orElse _ = none
    rw [threeConvert, notUtf8, if_neg Bool.false_ne_true, if_neg notLatin1, if_neg notAscii,
      Bool.false_or, beq_eq_false_iff_ne.mpr notAscii]
    rfl

/-- `é` in UTF-8. -/
def acute : Str := [0xc3, 0xa9]

def utf8First : Str := ascii "utf-8,ISO-8859-1"

theorem convertsByFirst_acute :
    ConvertsByFirst threeEncodings acute utf8First true ↔
      ShortcutHarmless threeEncodings acute utf8First true :=
  convertsByFirst_iff threeEncodings threeEncodings_documented acute utf8First true

/-- The text is valid in the first encoding of the list and no conversion comes of
it, so `oscar_decode_im` reports an error for a message of that charset. -/
theorem acute_not_converted :
    threeEncodings.Documented ∧
      firstConversion threeEncodings acute (utf8First.splitOn comma) = some acute ∧
      encodingMultiConvertToUtf8 threeEncodings acute (some utf8First) true = none ∧
      ∀ salvage : Str → Str,
        oscarDecodeIm threeEncodings salvage utf8First false 0 acute = some (salvage acute) := by
  have names : utf8First.splitOn comma = [ascii "utf-8", latin1] := by decide
  refine ⟨threeEncodings_documented, ?_, ?_, ?_⟩
  · rw [names]
    decide
  · decide
  · intro salvage
    have ascii : oscarConvertToUtf8 threeEncodings acute (some asciiName) false = none := by decide
    have custom : oscarConvertToUtf8 threeEncodings acute (some utf8First) true = none := by decide
    have charsets : decodeCharsets utf8First false 0 = (asciiName, utf8First, none) := rfl
    rw [oscarDecodeIm, if_neg (by decide), charsets]
    simp only [ascii, custom]
    rfl

end Purple.Oscar.Encoding
