/-
`purple_url_decode` of util.c, with the `g_utf8_validate` it cuts its result with.

A decoded byte is what `strtol` makes of the two bytes behind a `%`, or of fewer where
the string ends.  The result is the string up to its first NUL or its first byte that is
not UTF-8.
-/

import Mathlib.Data.List.TakeWhile
import Purple.CString
import Purple.Utf8

namespace Purple.UrlDecode

open List CString Utf8

/-- Between two characters, or what the next byte of a character may be. -/
inductive Utf8State where
  | start
  | tail1
  | tail2
  | tail3
  | afterE0
  | afterED
  | afterF0
  | afterF4
deriving DecidableEq, Repr

def leadByte (byte : UInt8) : Option Utf8State :=
  if byte ≤ 0x7F then some .start
  else if 0xC2 ≤ byte ∧ byte ≤ 0xDF then some .tail1
  else if byte = 0xE0 then some .afterE0
  else if byte = 0xED then some .afterED
  else if 0xE1 ≤ byte ∧ byte ≤ 0xEF then some .tail2
  else if byte = 0xF0 then some .afterF0
  else if 0xF1 ≤ byte ∧ byte ≤ 0xF3 then some .tail3
  else if byte = 0xF4 then some .afterF4
  else none

def tailByte (low high : UInt8) (next : Utf8State) (byte : UInt8) : Option Utf8State :=
  if low ≤ byte ∧ byte ≤ high then some next else none

def Utf8State.next : Utf8State → UInt8 → Option Utf8State
  | .start => leadByte
  | .tail1 => tailByte 0x80 0xBF .start
  | .tail2 => tailByte 0x80 0xBF .tail1
  | .tail3 => tailByte 0x80 0xBF .tail2
  | .afterE0 => tailByte 0xA0 0xBF .tail1
  | .afterED => tailByte 0x80 0x9F .tail1
  | .afterF0 => tailByte 0x90 0xBF .tail2
  | .afterF4 => tailByte 0x80 0x8F .tail2

/-- The bytes before the end that is found; `pending` is the part of a character. -/
def validFrom : Utf8State → Bytes → Bytes → Bytes
  | _, _, [] => []
  | state, pending, byte :: rest =>
    match state.next byte with
    | none => []
    | some .start => pending ++ byte :: validFrom .start [] rest
    | some inside => validFrom inside (pending ++ [byte]) rest

def gUtf8Validate (str : Bytes) : Bytes := validFrom .start [] str

def bufLen : Nat := 2048

/-- `(char) strtol(hex, NULL, 16)` -/
def escapedByte (hex : Bytes) : UInt8 :=
  let signed := stripSign (hex.dropWhile isSpace)
  let value := UInt8.ofNat ((scanDigits 16 none (stripHexPrefix signed.2)).getD 0)
  if signed.1 then -value else value

/-- What the loop writes to `buf`. -/
def urlBytes : Bytes → Bytes
  | [] => []
  | byte :: rest =>
    if byte = 37 then escapedByte (rest.take 2) :: urlBytes (rest.drop 2)
    else byte :: urlBytes rest
termination_by str => str.length
decreasing_by
  · rw [length_cons, List.length_drop]
    omega
  · exact Nat.lt_succ_self _

def cutAtFault (buf : Bytes) : Bytes := gUtf8Validate (cString buf)

def purpleUrlDecode (str : Bytes) : Option Bytes :=
  if bufLen ≤ str.length then none else some (cutAtFault (urlBytes str))

def Plain (text : Bytes) : Prop := ∀ byte ∈ text, byte ≠ 0 ∧ byte ≤ 0x7F

variable {byte : UInt8} {text : Bytes}

theorem next_ascii (state : Utf8State) (ascii_ : byte ≤ 0x7F) :
    state.next byte = if state = .start then some .start else none := by
  have below {low high : UInt8} {next : Utf8State} (above : 0x7F < low) :
      tailByte low high next byte = none := by
    rw [tailByte, if_neg]
    intro within
    exact absurd (UInt8.lt_of_le_of_lt ascii_ above) (UInt8.not_lt.mpr within.1)
  cases state with
  | start =>
    change leadByte byte = some .start
    rw [leadByte, if_pos ascii_]
  | tail1 => exact below (by decide)
  | tail2 => exact below (by decide)
  | tail3 => exact below (by decide)
  | afterE0 => exact below (by decide)
  | afterED => exact below (by decide)
  | afterF0 => exact below (by decide)
  | afterF4 => exact below (by decide)

theorem validFrom_ascii (ascii_ : byte ≤ 0x7F) (rest : Bytes) :
    validFrom .start [] (byte :: rest) = byte :: validFrom .start [] rest := by
  rw [validFrom, next_ascii .start ascii_, if_pos rfl]
  rfl

theorem validFrom_border (ascii_ : byte ≤ 0x7F) (rest text : Bytes) {state : Utf8State}
    {pending : Bytes} (between : state = .start ↔ pending = []) :
    validFrom state pending (text ++ byte :: rest) =
      if validFrom state pending text = pending ++ text then
        pending ++ text ++ validFrom .start [] (byte :: rest)
      else validFrom state pending text := by
  induction text generalizing state pending with
  | nil =>
    change validFrom state pending (byte :: rest) =
      if [] = pending ++ [] then pending ++ [] ++ validFrom .start [] (byte :: rest) else []
    rw [append_nil]
    by_cases started : state = .start
    · rw [between.mp started, started, if_pos rfl]
      rfl
    · have pendingSome : ([] : Bytes) ≠ pending := fun empty => started (between.mpr empty.symm)
      rw [if_neg pendingSome, validFrom, next_ascii state ascii_, if_neg started]
  | cons other text ih =>
    rw [cons_append, validFrom, validFrom]
    cases step : state.next other with
    | none =>
      rw [if_neg]
      exact fun same => absurd (congrArg List.length same) (by simp)
    | some after =>
      by_cases ended : after = .start
      · rw [ended]
        dsimp only
        rw [ih ⟨fun _ => rfl, fun _ => rfl⟩]
        by_cases whole : validFrom .start [] text = text
        · rw [nil_append, if_pos whole, if_pos (by rw [whole])]
          simp only [append_assoc, cons_append]
        · rw [nil_append, if_neg whole, if_neg]
          intro same
          exact whole (List.cons.inj (append_cancel_left same)).2
      · have later : after = .start ↔ pending ++ [other] = [] :=
          ⟨fun same => absurd same ended, fun empty => by simp at empty⟩
        have gone := ih later
        rw [append_assoc, singleton_append] at gone
        cases after with
        | start => exact absurd rfl ended
        | _ => exact gone

theorem cutAtFault_plain_append {front : Bytes} (plain : Plain front) (rest : Bytes) :
    cutAtFault (front ++ rest) = front ++ cutAtFault rest := by
  induction front with
  | nil => rfl
  | cons byte front ih =>
    obtain ⟨solid, ascii_⟩ := plain byte mem_cons_self
    have later := ih fun other member => plain other (mem_cons_of_mem _ member)
    rw [cutAtFault, gUtf8Validate, cons_append, cString, takeWhile_cons,
      if_pos (bne_iff_ne.mpr solid), validFrom_ascii ascii_]
    exact congrArg (byte :: ·) later

theorem cutAtFault_nil : cutAtFault [] = [] := rfl

theorem cutAtFault_plain (plain : Plain text) : cutAtFault text = text := by
  have whole := cutAtFault_plain_append plain []
  rw [append_nil, cutAtFault_nil, append_nil] at whole
  exact whole

theorem validFrom_initial (state : Utf8State) (pending text : Bytes) :
    validFrom state pending text <+: pending ++ text := by
  induction text generalizing state pending with
  | nil => exact nil_prefix
  | cons byte rest ih =>
    rw [validFrom]
    cases step : state.next byte with
    | none => exact nil_prefix
    | some after =>
      have inside := ih after (pending ++ [byte])
      rw [append_assoc, singleton_append] at inside
      cases after with
      | start =>
        apply (prefix_append_right_inj pending).mpr
        exact cons_prefix_cons.mpr ⟨rfl, ih .start []⟩
      | _ => exact inside

theorem cutAtFault_initial (buf : Bytes) : cutAtFault buf <+: buf :=
  (validFrom_initial .start [] _).trans (cString_initial buf)

theorem cString_ne_of_nul (nul : 0 ∈ text) : cString text ≠ text := by
  intro same
  have member : (0 : UInt8) ∈ text.takeWhile (· != 0) := by
    rw [cString] at same
    rw [same]
    exact nul
  exact absurd (mem_takeWhile_imp (p := (· != 0)) member) (by decide)

theorem cString_nul_append (nul : 0 ∈ text) (more : Bytes) :
    cString (text ++ more) = cString text := by
  rw [cString, takeWhile_append, if_neg]
  · rfl
  · intro same
    exact cString_ne_of_nul nul ((cString_initial text).eq_of_length same)

theorem cutAtFault_clean (whole : cutAtFault text = text) : 0 ∉ text := by
  intro nul
  have front := validFrom_initial .start [] (cString text)
  have same : validFrom .start [] (cString text) = text := whole
  rw [same, nil_append] at front
  exact cString_ne_of_nul nul
    (List.Sublist.antisymm (cString_initial text).sublist front.sublist)

theorem cutAtFault_border (solid : byte ≠ 0) (ascii_ : byte ≤ 0x7F) (text rest : Bytes) :
    cutAtFault (text ++ byte :: rest) =
      if cutAtFault text = text then text ++ cutAtFault (byte :: rest) else cutAtFault text := by
  by_cases nul : 0 ∈ text
  · rw [if_neg fun same => cutAtFault_clean same nul, cutAtFault, cString_nul_append nul]
    rfl
  · have clean : cString (text ++ byte :: rest) = text ++ byte :: cString rest := by
      have whole := cString_clean nul
      rw [cString] at whole
      rw [cString, takeWhile_append, if_pos (congrArg List.length whole),
        takeWhile_cons, if_pos (bne_iff_ne.mpr solid)]
      rfl
    have here : cString (byte :: rest) = byte :: cString rest := by
      rw [cString, takeWhile_cons, if_pos (bne_iff_ne.mpr solid)]
      rfl
    rw [cutAtFault, cutAtFault, cutAtFault, clean, here, cString_clean nul]
    exact validFrom_border ascii_ (cString rest) text ⟨fun _ => rfl, fun _ => rfl⟩

theorem cutAtFault_append_plain (text : Bytes) {tail : Bytes} (plain : Plain tail) :
    cutAtFault (text ++ tail) = if cutAtFault text = text then text ++ tail else cutAtFault text := by
  cases tail with
  | nil =>
    rw [append_nil]
    split
    · assumption
    · rfl
  | cons byte tail =>
    obtain ⟨solid, ascii_⟩ := plain byte mem_cons_self
    rw [cutAtFault_border solid ascii_, cutAtFault_plain plain]

def escapeLacks : Bytes → Nat
  | [] => 0
  | byte :: rest =>
    if byte = 37 then if rest.length < 2 then 2 - rest.length else escapeLacks (rest.drop 2)
    else escapeLacks rest
termination_by str => str.length
decreasing_by
  · rw [length_cons, List.length_drop]
    omega
  · exact Nat.lt_succ_self _

theorem urlBytes_nil : urlBytes [] = [] := by rw [urlBytes]

theorem urlBytes_plain (unescaped : 37 ∉ text) : urlBytes text = text := by
  induction text with
  | nil => exact urlBytes_nil
  | cons byte rest ih =>
    have other : byte ≠ 37 := fun same => unescaped (same ▸ mem_cons_self)
    rw [urlBytes, if_neg other, ih fun later => unescaped (mem_cons_of_mem _ later)]

theorem urlBytes_plain_append {front : Bytes} (unescaped : 37 ∉ front) (rest : Bytes) :
    urlBytes (front ++ rest) = front ++ urlBytes rest := by
  induction front with
  | nil => rfl
  | cons byte front ih =>
    have other : byte ≠ 37 := fun same => unescaped (same ▸ mem_cons_self)
    rw [cons_append, urlBytes, if_neg other,
      ih fun later => unescaped (mem_cons_of_mem _ later)]
    rfl

theorem escapedByte_quote (digit : UInt8) : escapedByte [digit, 34] = escapedByte [digit] := by
  have all : ∀ number : Fin 256,
      escapedByte [UInt8.ofNat number, 34] = escapedByte [UInt8.ofNat number] := by
    decide +kernel
  have same := all ⟨digit.toNat, digit.toNat_lt⟩
  rwa [UInt8.ofNat_toNat] at same

theorem escapedByte_single (digit : UInt8) : escapedByte [digit] < 16 := by
  have all : ∀ number : Fin 256, escapedByte [UInt8.ofNat number] < 16 := by
    decide +kernel
  have small := all ⟨digit.toNat, digit.toNat_lt⟩
  rwa [UInt8.ofNat_toNat] at small

/-- The decoding of a text with `">` behind it: an escape that is not complete takes one
or both of these bytes. -/
theorem urlBytes_quoted (text more : Bytes) :
    urlBytes (text ++ 34 :: 62 :: more) =
      urlBytes text ++ urlBytes ((34 :: 62 :: more).drop (escapeLacks text)) := by
  induction text using escapeLacks.induct with
  | case1 =>
    rw [escapeLacks, urlBytes_nil]
    rfl
  | case2 rest short =>
    rw [escapeLacks, if_pos rfl, if_pos short, cons_append, urlBytes, if_pos rfl, urlBytes,
      if_pos rfl]
    cases rest with
    | nil =>
      change escapedByte [34, 62] :: urlBytes more = [escapedByte []] ++ urlBytes [] ++ urlBytes more
      rw [urlBytes_nil]
      rfl
    | cons digit rest =>
      cases rest with
      | nil =>
        change escapedByte [digit, 34] :: urlBytes (62 :: more) =
          escapedByte [digit] :: urlBytes [] ++ urlBytes (62 :: more)
        rw [escapedByte_quote, urlBytes_nil]
        rfl
      | cons other rest =>
        simp only [length_cons] at short
        omega
  | case3 rest long ih =>
    rw [escapeLacks, if_pos rfl, if_neg long, cons_append, urlBytes, if_pos rfl,
      take_append_of_le_length (Nat.not_lt.mp long),
      drop_append_of_le_length (Nat.not_lt.mp long), ih]
    conv => rhs; rw [urlBytes, if_pos rfl]
    rfl
  | case4 byte rest other ih =>
    rw [escapeLacks, if_neg other, cons_append, urlBytes, if_neg other, ih]
    conv => rhs; rw [urlBytes, if_neg other]
    rfl

theorem escapeLacks_le (text : Bytes) : escapeLacks text ≤ 2 := by
  induction text using escapeLacks.induct with
  | case1 =>
    rw [escapeLacks]
    decide
  | case2 rest short =>
    rw [escapeLacks, if_pos rfl, if_pos short]
    omega
  | case3 rest long ih =>
    rw [escapeLacks, if_pos rfl, if_neg long]
    exact ih
  | case4 byte rest other ih =>
    rw [escapeLacks, if_neg other]
    exact ih

theorem urlBytes_lacking (lacking : escapeLacks text ≠ 0) :
    ∃ front last, urlBytes text = front ++ [last] ∧ last < 16 ∧
      (escapeLacks text = 2 → last = 0) := by
  induction text using escapeLacks.induct with
  | case1 =>
    rw [escapeLacks] at lacking
    exact absurd rfl lacking
  | case2 rest short =>
    rw [urlBytes, if_pos rfl, escapeLacks, if_pos rfl, if_pos short]
    cases rest with
    | nil =>
      refine ⟨[], 0, ?_, by decide, fun _ => rfl⟩
      rw [drop_nil, urlBytes_nil]
      rfl
    | cons digit rest =>
      cases rest with
      | nil =>
        refine ⟨[], escapedByte [digit], ?_, escapedByte_single digit, ?_⟩
        · change escapedByte [digit] :: urlBytes [] = _
          rw [urlBytes_nil]
          rfl
        · intro alone
          simp at alone
      | cons other rest =>
        simp only [length_cons] at short
        omega
  | case3 rest long ih =>
    rw [escapeLacks, if_pos rfl, if_neg long] at lacking
    obtain ⟨front, last, same, small, nul⟩ := ih lacking
    rw [urlBytes, if_pos rfl, escapeLacks, if_pos rfl, if_neg long, same]
    exact ⟨escapedByte (rest.take 2) :: front, last, rfl, small, nul⟩
  | case4 byte rest other ih =>
    rw [escapeLacks, if_neg other] at lacking
    obtain ⟨front, last, same, small, nul⟩ := ih lacking
    rw [urlBytes, if_neg other, escapeLacks, if_neg other, same]
    exact ⟨byte :: front, last, rfl, small, nul⟩

end Purple.UrlDecode
