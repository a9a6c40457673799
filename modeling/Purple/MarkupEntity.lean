/-
Entities in marked-up text, from util.c: what an entity stands for, and the length that is
reported for it.
-/

import Purple.CString

namespace Purple.Markup

open List CString

abbrev Bytes := List UInt8

def continuation : Nat → Nat → Bytes
  | 0, _ => []
  | count + 1, number => continuation count (number / 64) ++ [UInt8.ofNat (number % 64 + 128)]

def sequence (first count number : Nat) : Bytes :=
  UInt8.ofNat (first + number / 64 ^ count) :: continuation count number

def gUnicharToUtf8 (number : Nat) : Bytes :=
  if number < 0x80 then sequence 0 0 number
  else if number < 0x800 then sequence 0xc0 1 number
  else if number < 0x10000 then sequence 0xe0 2 number
  else if number < 0x200000 then sequence 0xf0 3 number
  else if number < 0x4000000 then sequence 0xf8 4 number
  else sequence 0xfc 5 number

/-- `!g_ascii_strncasecmp(text, literal, strlen(literal))` -/
def begins (literal text : Bytes) : Bool := strncasecmpEq text literal literal.length

def entities : List (Bytes × Bytes) :=
  [(ascii "&amp;", [38]), (ascii "&lt;", [60]), (ascii "&gt;", [62]), (ascii "&nbsp;", [32]),
    (ascii "&copy;", [0xc2, 0xa9]), (ascii "&quot;", [34]), (ascii "&reg;", [0xc2, 0xae]),
    (ascii "&apos;", [39])]

def isDigit (base : Nat) (byte : UInt8) : Bool := (digitValue base byte).isSome

/-- `sscanf` of `%u` (base 10) or `%x` (base 16) and then `%1[;]`. -/
def scanReference (base : Nat) (text : Bytes) : Option Nat :=
  let unsigned := (stripSign (text.dropWhile isSpace)).2
  let digits := if base = 16 then stripHexPrefix unsigned else unsigned
  if (digits.dropWhile (isDigit base)).head? = some 59 then
    (scanUlong base text).map (· % 2 ^ 32)
  else none

def referenceNumber (text : Bytes) : Option Nat :=
  match scanReference 10 (text.drop 2) with
  | some pound => some pound
  | none => if text[2]? = some 120 then scanReference 16 (text.drop 3) else none

def referenceLength (text : Bytes) : Nat :=
  let start := if text[2]? = some 120 then 3 else 2
  let len := start + ((text.drop start).takeWhile (isDigit 16)).length
  if text[len]? = some 59 then len + 1 else len

def purpleMarkupUnescapeEntity (text : Bytes) : Option (Bytes × Nat) :=
  if text.head? ≠ some 38 then none
  else
    match entities.find? fun entity => begins entity.1 text with
    | some entity => some (entity.2, entity.1.length)
    | none =>
      if text[1]? = some 35 then
        match referenceNumber text with
        | some pound =>
          if pound ≠ 0 then some (gUnicharToUtf8 pound, referenceLength text) else none
        | none => none
      else none

/-- `skip` bytes belong to what has been replaced; a `<br>` is replaced in HTML only. -/
def unescapeRounds (html : Bool) : Nat → Bytes → Bytes
  | _, [] => []
  | skip + 1, _ :: rest => unescapeRounds html skip rest
  | 0, byte :: rest =>
    match purpleMarkupUnescapeEntity (byte :: rest) with
    | some (ent, len) => ent ++ unescapeRounds html (len - 1) rest
    | none =>
      if html && (ascii "<br>").isPrefixOf (byte :: rest) then 10 :: unescapeRounds html 3 rest
      else byte :: unescapeRounds html 0 rest

def purpleUnescapeText (text : Bytes) : Bytes := unescapeRounds false 0 text

def purpleUnescapeHtml (html : Bytes) : Bytes := unescapeRounds true 0 html

def EntitiesFit (text : Bytes) : Prop :=
  ∀ part, part <:+: text → ∀ ent len, purpleMarkupUnescapeEntity part = some (ent, len) →
    ent.length ≤ len

theorem EntitiesFit.part {part text : Bytes} (fit : EntitiesFit text) (inside : part <:+: text) :
    EntitiesFit part :=
  fun smaller within => fit smaller (within.trans inside)

theorem begins_length {literal text : Bytes} (found : begins literal text = true) :
    literal.length ≤ text.length := by
  unfold begins strncasecmpEq at found
  have same := congrArg List.length (eq_of_beq found)
  rw [length_map, length_map, length_take, length_take, Nat.min_self] at same
  omega

theorem referenceLength_bounds {text : Bytes} (long : 2 < text.length) :
    2 ≤ referenceLength text ∧ referenceLength text ≤ text.length := by
  have start : (if text[2]? = some 120 then 3 else 2) ≤ text.length ∧
      2 ≤ if text[2]? = some 120 then 3 else 2 := by
    split <;> omega
  unfold referenceLength
  dsimp only
  generalize (if text[2]? = some 120 then 3 else 2) = first at start ⊢
  have digits := ( takeWhile_prefix (isDigit 16) (l := text.drop first)).length_le
  rw [List.length_drop] at digits
  split
  · rename_i semicolon
    obtain ⟨within, _⟩ := List.getElem?_eq_some_iff.mp semicolon
    omega
  · omega

theorem scanReference_nil (base : Nat) : scanReference base [] = none := by
  have nothing : (if base = 16 then stripHexPrefix (stripSign (([] : Bytes).dropWhile isSpace)).2
      else (stripSign (([] : Bytes).dropWhile isSpace)).2) = [] := by split <;> rfl
  unfold scanReference
  dsimp only
  rw [nothing]
  rfl

theorem referenceNumber_long {text : Bytes} {pound : Nat} (known : referenceNumber text = some pound) :
    2 < text.length := by
  unfold referenceNumber at known
  cases decimal : scanReference 10 (text.drop 2) with
  | some number =>
    by_cases long : 2 < text.length
    · exact long
    · rw [drop_of_length_le (Nat.le_of_not_lt long), scanReference_nil] at decimal
      cases decimal
  | none =>
    rw [decimal] at known
    dsimp only at known
    split at known
    · rename_i hexadecimal
      exact (List.getElem?_eq_some_iff.mp hexadecimal).1
    · cases known

theorem entity_cases {text ent : Bytes} {len : Nat}
    (found : purpleMarkupUnescapeEntity text = some (ent, len)) :
    text.head? = some 38 ∧
      ((∃ entity ∈ entities, begins entity.1 text = true ∧ ent = entity.2 ∧ len = entity.1.length) ∨
      ∃ pound, referenceNumber text = some pound ∧ ent = gUnicharToUtf8 pound ∧
        len = referenceLength text) := by
  unfold purpleMarkupUnescapeEntity at found
  by_cases ampersand : text.head? = some 38
  · rw [if_neg (not_not.mpr ampersand)] at found
    refine ⟨ampersand, ?_⟩
    split at found
    · rename_i entity named
      cases found
      have begun : begins entity.1 text = true :=
        find?_some (p := fun entity : Bytes × Bytes => begins entity.1 text) named
      exact Or.inl ⟨entity, mem_of_find?_eq_some named, begun, rfl, rfl⟩
    · split at found
      · split at found
        · rename_i pound known
          split at found
          · cases found
            exact Or.inr ⟨pound, known, rfl, rfl⟩
          · cases found
        · cases found
      · cases found
  · rw [if_pos ampersand] at found
    cases found

theorem entity_length {text ent : Bytes} {len : Nat}
    (found : purpleMarkupUnescapeEntity text = some (ent, len)) : 2 ≤ len ∧ len ≤ text.length := by
  rcases (entity_cases found).2 with ⟨entity, member, named, _, rfl⟩ | ⟨pound, known, _, rfl⟩
  · have lengths : ∀ entity ∈ entities, 2 ≤ entity.1.length := by decide +kernel
    exact ⟨lengths entity member, begins_length named⟩
  · exact referenceLength_bounds (referenceNumber_long known)

theorem unescapeRounds_length {text : Bytes} (fit : EntitiesFit text) (html : Bool) (skip : Nat) :
    (unescapeRounds html skip text).length + skip ≤ max text.length skip := by
  induction text generalizing skip with
  | nil =>
    have nothing : unescapeRounds html skip [] = [] := by cases skip <;> rfl
    rw [nothing, length_nil]
    omega
  | cons byte rest inductionHypothesis =>
    have later := inductionHypothesis (fit.part (suffix_cons byte rest).isInfix)
    cases skip with
    | succ skip =>
      rw [unescapeRounds]
      have fewer := later skip
      rw [length_cons]
      omega
    | zero =>
      rw [unescapeRounds]
      cases found : purpleMarkupUnescapeEntity (byte :: rest) with
      | some entity =>
        obtain ⟨ent, len⟩ := entity
        have bound := fit (byte :: rest) infix_rfl ent len found
        have lengths := entity_length found
        have fewer := later (len - 1)
        rw [length_cons] at lengths ⊢
        dsimp only
        rw [length_append]
        omega
      | none =>
        dsimp only
        split
        · rename_i replaced
          have long := ( isPrefixOf_iff_prefix.mp (Bool.and_eq_true_iff.mp replaced).2).length_le
          have four : (ascii "<br>").length = 4 := rfl
          have fewer := later 3
          rw [four, length_cons] at long
          rw [length_cons, length_cons]
          omega
        · have fewer := later 0
          rw [length_cons, length_cons]
          omega

theorem purpleUnescapeHtml_length {html : Bytes} (fit : EntitiesFit html) :
    (purpleUnescapeHtml html).length ≤ html.length := by
  have bound := unescapeRounds_length fit true 0
  rw [Nat.max_zero] at bound
  exact bound

end Purple.Markup
