/-
`purple_email_is_valid` of util.c, in which a `char` is signed.

The two loops over the local part are one function of the bytes behind `c` and of the
place in the loops.  Reading behind the terminator is `none`.
-/

import Purple.CString

namespace Purple.EmailIsValid

open List CString

abbrev Bytes := List UInt8

def rfc822Specials : Bytes := ascii "()<>@,;:\\\"[]"

def isPlain (byte : UInt8) : Bool := 32 < byte && byte < 127 && !rfc822Specials.contains byte

/-- A quote opens a quoted part at the start, and behind a period or a quote. -/
inductive Place where
  | name (opens : Bool)
  | quoted
  | escaped
  | closed

/-- The domain behind the `@`, if the local part is accepted. -/
def nameLoop : Place → Bytes → Option (Option Bytes)
  | .name _, [] => some none
  | .name opens, byte :: rest =>
    if byte = 34 ∧ opens = true then nameLoop .quoted rest
    else if byte = 64 then some (some rest)
    else if isPlain byte then nameLoop (.name (byte = 46 ∨ byte = 34)) rest
    else some none
  | .quoted, [] => some none
  | .quoted, byte :: rest =>
    if byte = 92 then nameLoop .escaped rest
    else if byte = 34 then nameLoop .closed rest
    else if byte < 32 ∨ 127 ≤ byte then some none
    else nameLoop .quoted rest
  -- The terminator is passed as an escaped character, and the loop goes on behind it.
  | .escaped, [] => none
  | .escaped, byte :: rest =>
    if byte = 127 ∨ byte = 10 ∨ byte = 13 then some none else nameLoop .quoted rest
  | .closed, [] => some none
  | .closed, byte :: rest =>
    if byte = 64 then some (some rest)
    else if byte = 46 then nameLoop (.name true) rest
    else some none

def domainLoop (first : Bool) (before : UInt8) : Bytes → Bool
  | [] => before != 45
  | byte :: rest =>
    if byte = 46 ∧ (first ∨ before = 46 ∨ before = 45) then false
    else if byte = 45 ∧ (before = 46 ∨ before = 64) then false
    else if byte < 48 ∧ byte ≠ 45 ∧ byte ≠ 46 ∨ 57 < byte ∧ byte < 65 ∨
        90 < byte ∧ byte < 97 ∨ 122 < byte then false
    else domainLoop false byte rest

def purpleEmailIsValid (address : Bytes) : Option Bool :=
  if address.head? = some 46 then some false
  else (nameLoop (.name true) address).map fun found =>
    found.any fun domain => address.head? != some 64 && domain != [] &&
      domainLoop true 64 domain && 3 < domain.length

inductive Quoting where
  | outside
  | inside
  | escaped
deriving DecidableEq

def Quoting.after : Quoting → UInt8 → Quoting
  | .outside, byte => if byte = 34 then .inside else .outside
  | .inside, byte => if byte = 34 then .outside else if byte = 92 then .escaped else .inside
  | .escaped, _ => .inside

/-- The characters outside of quoted parts. -/
def unquoted (quoting : Quoting) : Bytes → Bytes
  | [] => []
  | byte :: rest =>
    if quoting = .outside ∧ byte ≠ 34 then byte :: unquoted .outside rest
    else unquoted (quoting.after byte) rest

/-- Nothing behind the terminator is read, and what is accepted has the form `local@domain`. -/
def ChecksForm (address : Bytes) : Prop :=
  ∃ accepted, purpleEmailIsValid address = some accepted ∧ (accepted = true →
    ∃ name domain, address = name ++ 64 :: domain ∧ name ≠ [] ∧ domain ≠ [] ∧
      ∀ byte ∈ unquoted .outside name, isPlain byte)

inductive QuotedText : Bytes → Prop
  | nil : QuotedText []
  | plain {byte : UInt8} {rest : Bytes} (noQuote : byte ≠ 34) (noEscape : byte ≠ 92)
      (printable : ¬(byte < 32 ∨ 127 ≤ byte)) (text : QuotedText rest) : QuotedText (byte :: rest)
  | escape {byte : UInt8} {rest : Bytes} (escapable : ¬(byte = 127 ∨ byte = 10 ∨ byte = 13))
      (text : QuotedText rest) : QuotedText (92 :: byte :: rest)

/-- A local part up to a quoted part that ends, with the string, in a lone backslash. -/
inductive EndsInEscape : Bool → Bytes → Prop
  | here {text : Bytes} (quoted : QuotedText text) : EndsInEscape true (34 :: (text ++ [92]))
  | plain {opens : Bool} {byte : UInt8} {rest : Bytes} (plain : isPlain byte = true)
      (later : EndsInEscape (byte = 46) rest) : EndsInEscape opens (byte :: rest)
  | quoted {text rest : Bytes} (quoted : QuotedText text) (later : EndsInEscape true rest) :
      EndsInEscape true (34 :: (text ++ 34 :: 46 :: rest))

variable {byte : UInt8} {text rest domain : Bytes} {place : Place} {opens : Bool}

theorem plain_ne (plain : isPlain byte = true) : byte ≠ 34 ∧ byte ≠ 64 := by
  constructor
  · rintro rfl
    cases plain
  · rintro rfl
    cases plain

theorem name_plain (plain : isPlain byte = true) (rest : Bytes) :
    nameLoop (.name opens) (byte :: rest) = nameLoop (.name (byte = 46)) rest := by
  obtain ⟨noQuote, noAt⟩ := plain_ne plain
  rw [nameLoop, if_neg fun quote => noQuote quote.1, if_neg noAt, if_pos plain]
  simp only [noQuote, or_false]

theorem quoted_passed (quoted : QuotedText text) (more : Bytes) :
    nameLoop .quoted (text ++ more) = nameLoop .quoted more := by
  induction quoted with
  | nil => rfl
  | plain noQuote noEscape printable text ih =>
    rw [cons_append, nameLoop, if_neg noEscape, if_neg noQuote, if_neg printable, ih]
  | escape escapable text ih =>
    rw [cons_append, cons_append, nameLoop, if_pos rfl, nameLoop, if_neg escapable, ih]

theorem endsInEscape_passes (ends : EndsInEscape opens text) : nameLoop (.name opens) text = none := by
  induction ends with
  | here quoted =>
    rw [nameLoop, if_pos ⟨rfl, rfl⟩, quoted_passed quoted]
    rfl
  | plain plain later ih => rw [name_plain plain, ih]
  | quoted quoted later ih =>
    rw [nameLoop, if_pos ⟨rfl, rfl⟩, quoted_passed quoted]
    exact ih

/-- How a string goes on that the loop passes the end of. -/
def Passed : Place → Bytes → Prop
  | .name opens, text => EndsInEscape opens text
  | .quoted, text => EndsInEscape true (34 :: text)
  | .escaped, text => EndsInEscape true (34 :: 92 :: text)
  | .closed, text => ∃ rest, text = 46 :: rest ∧ EndsInEscape true rest

theorem quoted_longer {front : Bytes} (longer : ∀ text, QuotedText text → QuotedText (front ++ text))
    (ends : EndsInEscape true (34 :: rest)) : EndsInEscape true (34 :: (front ++ rest)) := by
  generalize whole : (34 : UInt8) :: rest = all at ends
  cases ends with
  | here quoted =>
    rw [(List.cons.inj whole).2, ← append_assoc]
    exact EndsInEscape.here (longer _ quoted)
  | plain plain later =>
    rw [← (List.cons.inj whole).1] at plain
    cases plain
  | quoted quoted later =>
    rw [(List.cons.inj whole).2, ← append_assoc]
    exact EndsInEscape.quoted (longer _ quoted) later

theorem passed_of_none (passes : nameLoop place text = none) : Passed place text := by
  induction text generalizing place with
  | nil =>
    cases place with
    | escaped => exact EndsInEscape.here QuotedText.nil
    | _ => cases passes
  | cons byte rest ih =>
    cases place with
    | name opens =>
      rw [nameLoop] at passes
      split at passes
      · rename_i quote
        rw [quote.1, quote.2]
        exact ih passes
      · split at passes
        · cases passes
        · split at passes
          · rename_i plain
            have later := ih passes
            simp only [(plain_ne plain).1, or_false] at later
            exact EndsInEscape.plain plain later
          · cases passes
    | quoted =>
      rw [nameLoop] at passes
      split at passes
      · rename_i escape
        rw [escape]
        exact ih passes
      · rename_i noEscape
        split at passes
        · rename_i quote
          obtain ⟨more, behind, later⟩ := ih passes
          rw [quote, behind]
          exact EndsInEscape.quoted QuotedText.nil later
        · rename_i noQuote
          split at passes
          · cases passes
          · rename_i printable
            exact @quoted_longer rest [byte]
              (fun _ text => QuotedText.plain noQuote noEscape printable text) (ih passes)
    | escaped =>
      rw [nameLoop] at passes
      split at passes
      · cases passes
      · rename_i escapable
        exact @quoted_longer rest [92, byte]
          (fun _ text => QuotedText.escape escapable text) (ih passes)
    | closed =>
      rw [nameLoop] at passes
      split at passes
      · cases passes
      · split at passes
        · rename_i period
          exact ⟨rest, by rw [period], ih passes⟩
        · cases passes

def Place.quoting : Place → Quoting
  | .name _ => .outside
  | .quoted => .inside
  | .escaped => .escaped
  | .closed => .outside

def Named (quoting : Quoting) (text domain : Bytes) : Prop :=
  ∃ name, text = name ++ 64 :: domain ∧ ∀ byte ∈ unquoted quoting name, isPlain byte

theorem named_plain (plain : isPlain byte = true) (named : Named .outside rest domain) :
    Named .outside (byte :: rest) domain := by
  rcases named with ⟨name, parts, plains⟩
  refine ⟨byte :: name, by rw [parts]; rfl, ?_⟩
  rw [unquoted, if_pos ⟨rfl, (plain_ne plain).1⟩]
  exact forall_mem_cons.mpr ⟨plain, plains⟩

theorem named_quoted {quoting : Quoting} (mark : quoting = .outside → byte = 34)
    (named : Named (quoting.after byte) rest domain) : Named quoting (byte :: rest) domain := by
  rcases named with ⟨name, parts, plains⟩
  refine ⟨byte :: name, by rw [parts]; rfl, ?_⟩
  rw [unquoted, if_neg fun outside => outside.2 (mark outside.1)]
  exact plains

theorem named_end (text : Bytes) : Named .outside (64 :: text) text :=
  ⟨[], rfl, forall_mem_nil _⟩

theorem nameLoop_sound (found : nameLoop place text = some (some domain)) :
    Named place.quoting text domain := by
  induction text generalizing place with
  | nil =>
    cases place with
    | _ => cases found
  | cons byte rest ih =>
    cases place with
    | name opens =>
      rw [nameLoop] at found
      split at found
      · rename_i quote
        rw [quote.1]
        exact named_quoted (fun _ => rfl) (ih found)
      · split at found
        · rename_i at_
          rw [at_, Option.some.inj (Option.some.inj found)]
          exact named_end domain
        · split at found
          · rename_i plain
            exact named_plain plain (ih found)
          · cases found
    | quoted =>
      apply named_quoted (fun outside => by cases outside)
      rw [Place.quoting, Quoting.after]
      rw [nameLoop] at found
      split at found
      · rename_i escape
        rw [escape, if_neg (by decide), if_pos rfl]
        exact ih found
      · rename_i noEscape
        split at found
        · rename_i quote
          rw [if_pos quote]
          exact ih found
        · rename_i noQuote
          rw [if_neg noQuote, if_neg noEscape]
          split at found
          · cases found
          · exact ih found
    | escaped =>
      apply named_quoted (fun outside => by cases outside)
      rw [nameLoop] at found
      split at found
      · cases found
      · exact ih found
    | closed =>
      rw [nameLoop] at found
      split at found
      · rename_i at_
        rw [at_, Option.some.inj (Option.some.inj found)]
        exact named_end domain
      · split at found
        · rename_i period
          rw [period]
          exact named_plain rfl (ih found)
        · cases found

theorem purpleEmailIsValid_checks_iff (address : Bytes) :
    ChecksForm address ↔ ¬(address.head? ≠ some 46 ∧ EndsInEscape true address) := by
  rw [ChecksForm, purpleEmailIsValid]
  split
  · rename_i period
    exact iff_of_true ⟨false, rfl, fun no => absurd no Bool.false_ne_true⟩ fun ends => ends.1 period
  · rename_i noPeriod
    cases ran : nameLoop (.name true) address with
    | none =>
      apply iff_of_false
      · intro checks
        rcases checks with ⟨accepted, value, -⟩
        cases value
      · exact fun whole => whole ⟨noPeriod, passed_of_none ran⟩
    | some found =>
      apply iff_of_true
      · refine ⟨_, rfl, ?_⟩
        intro accepted
        cases found with
        | none => cases accepted
        | some domain =>
          rcases nameLoop_sound ran with ⟨name, parts, plains⟩
          simp only [Option.any_some, Bool.and_eq_true, bne_iff_ne] at accepted
          obtain ⟨⟨⟨noAt, filled⟩, -⟩, -⟩ := accepted
          refine ⟨name, domain, parts, ?_, filled, plains⟩
          rintro rfl
          exact noAt (congrArg List.head? parts)
      · intro ends
        rw [endsInEscape_passes ends.2] at ran
        cases ran

/-- A quote and a backslash. -/
theorem loneEscape_passed : ¬ChecksForm (ascii "\"\\") := by
  intro checks
  obtain ⟨accepted, value, -⟩ := checks
  cases value

end Purple.EmailIsValid
