/-
`irc_mirc2txt` of parse.c, which deletes the formatting codes in place.

The copy of the string is the list of its bytes with the NUL; an index behind the NUL
is `none`.
-/

import Purple.Irc.Mirc

namespace Purple.Irc

open List Option CString

/-- `if (isdigit(result[i + 1])) i++;` -/
def skipDigit (result : Bytes) (i : Nat) : Option Nat :=
  result[i + 1]?.map fun byte => if isdigit byte then i + 1 else i

def skipNumber (result : Bytes) (i : Nat) : Option Nat :=
  (skipDigit result i).bind (skipDigit result)

def skipBackground (result : Bytes) (i : Nat) : Option Nat :=
  result[i + 1]?.bind fun byte => if byte = 44 then skipNumber result (i + 1) else some i

def skipColour (result : Bytes) (i : Nat) : Option Nat :=
  (skipNumber result i).bind (skipBackground result)

variable {result rest : Bytes} {i next : Nat} {byte : UInt8}

theorem skipDigit_le (skipped : skipDigit result i = some next) : i ≤ next := by
  obtain ⟨byte, _, rfl⟩ := map_eq_some_iff.mp skipped
  split <;> omega

theorem skipNumber_le (skipped : skipNumber result i = some next) : i ≤ next := by
  obtain ⟨middle, first, second⟩ := bind_eq_some_iff.mp skipped
  exact (skipDigit_le first).trans (skipDigit_le second)

theorem skipColour_le (skipped : skipColour result i = some next) : i ≤ next := by
  obtain ⟨middle, first, second⟩ := bind_eq_some_iff.mp skipped
  have taken := skipNumber_le first
  obtain ⟨byte, _, second⟩ := bind_eq_some_iff.mp second
  split at second
  · have more := skipNumber_le second
    omega
  · cases second
    exact taken

/-- A bold code falls through to the case of a colour. -/
def mircTxtLoop (result : Bytes) (i j : Nat) : Option (Bytes × Nat) :=
  match _read : result[i]? with
  | none => none
  | some byte =>
    if byte = 0 then some (result, j)
    else if byte = 2 ∨ byte = 3 then
      match _skip : skipColour result i with
      | none => none
      | some next => mircTxtLoop result (next + 1) j
    else if byte = 7 ∨ byte = 15 ∨ byte = 22 ∨ byte = 31 then mircTxtLoop result (i + 1) j
    else mircTxtLoop (result.set j byte) (i + 1) (j + 1)
termination_by result.length - i
decreasing_by
  all_goals
    have inside := (List.getElem?_eq_some_iff.mp _read).1
    try have later := skipColour_le _skip
    try rw [length_set]
    omega

def ircMirc2txt (string : Bytes) : Option Bytes :=
  (mircTxtLoop (cString string ++ [0]) 0 0).map fun done => cString (done.1.set done.2 0)

/-! ### The loop on the bytes that are left -/

def mircTxt : Bytes → Bytes
  | [] => []
  | byte :: rest =>
    if byte = 2 ∨ byte = 3 then mircTxt (colourCode rest).2
    else if byte = 7 ∨ byte = 15 ∨ byte = 22 ∨ byte = 31 then mircTxt rest
    else byte :: mircTxt rest
termination_by cur => cur.length
decreasing_by
  all_goals
    have taken := colourCode_length rest
    rw [length_cons]
    omega

def colourBytes (cur : Bytes) : Bytes :=
  (colourCode cur).1.fg ++
    if (colourNumber cur).2.head? = some 44 then 44 :: (colourCode cur).1.bg else []

theorem oneDigit_append (cur : Bytes) : (oneDigit cur).1 ++ (oneDigit cur).2 = cur := by
  cases cur with
  | nil => rfl
  | cons byte rest =>
    rw [oneDigit]
    split <;> rfl

theorem colourNumber_append (cur : Bytes) :
    (colourNumber cur).1 ++ (colourNumber cur).2 = cur := by
  change ((oneDigit cur).1 ++ (oneDigit (oneDigit cur).2).1) ++ (oneDigit (oneDigit cur).2).2 = cur
  rw [append_assoc, oneDigit_append, oneDigit_append]

theorem colourCode_comma {cur : Bytes} (comma : (colourNumber cur).2 = 44 :: rest) :
    colourCode cur = ({ fg := (colourNumber cur).1, bg := (colourNumber rest).1 },
      (colourNumber rest).2) := by
  rw [colourCode]
  dsimp only
  rw [comma]
  rfl

theorem colourCode_plain {cur : Bytes} (plain : (colourNumber cur).2.head? ≠ some 44) :
    colourCode cur = ({ fg := (colourNumber cur).1, bg := [] }, (colourNumber cur).2) := by
  rw [colourCode]
  dsimp only
  split
  · rename_i rest found
    rw [found] at plain
    exact absurd rfl plain
  · rfl

theorem colourBytes_append (cur : Bytes) : colourBytes cur ++ (colourCode cur).2 = cur := by
  have whole := colourNumber_append cur
  by_cases comma : (colourNumber cur).2.head? = some 44
  · obtain ⟨rest, split⟩ := head?_eq_some_iff.mp comma
    rw [colourBytes, if_pos comma, colourCode_comma split]
    rw [append_assoc, cons_append, colourNumber_append, ← split]
    exact whole
  · rw [colourBytes, if_neg comma, colourCode_plain comma, append_nil]
    exact whole

theorem skipDigit_drop (behind : result.drop (i + 1) = rest ++ [0]) :
    skipDigit result i = some (i + (oneDigit rest).1.length) ∧
      result.drop (i + (oneDigit rest).1.length + 1) = (oneDigit rest).2 ++ [0] := by
  have front : result[i + 1]? = (rest ++ [0]).head? := by rw [← behind, head?_drop]
  rw [skipDigit, front]
  cases rest with
  | nil => exact ⟨rfl, behind⟩
  | cons byte rest =>
    rw [cons_append, head?_cons, map_some, oneDigit]
    by_cases digit : isdigit byte = true
    · rw [if_pos digit, if_pos digit]
      refine ⟨rfl, ?_⟩
      change result.drop (i + 1 + 1) = rest ++ [0]
      rw [← drop_drop, behind]
      rfl
    · rw [if_neg digit, if_neg digit]
      exact ⟨rfl, behind⟩

theorem skipNumber_drop (behind : result.drop (i + 1) = rest ++ [0]) :
    skipNumber result i = some (i + (colourNumber rest).1.length) ∧
      result.drop (i + (colourNumber rest).1.length + 1) = (colourNumber rest).2 ++ [0] := by
  obtain ⟨first, behindFirst⟩ := skipDigit_drop behind
  obtain ⟨second, behindSecond⟩ := skipDigit_drop behindFirst
  have both : (colourNumber rest).1.length =
      (oneDigit rest).1.length + (oneDigit (oneDigit rest).2).1.length := length_append
  rw [skipNumber, first, bind_some, second, both, ← Nat.add_assoc]
  exact ⟨rfl, behindSecond⟩

theorem skipColour_drop (behind : result.drop (i + 1) = rest ++ [0]) :
    skipColour result i = some (i + (colourBytes rest).length) := by
  obtain ⟨first, behindFirst⟩ := skipNumber_drop behind
  have next : result[i + (colourNumber rest).1.length + 1]? =
      ((colourNumber rest).2 ++ [0]).head? := by
    rw [← behindFirst, head?_drop]
  rw [skipColour, first, bind_some, skipBackground, next, colourBytes]
  by_cases comma : (colourNumber rest).2.head? = some 44
  · obtain ⟨bg, split⟩ := head?_eq_some_iff.mp comma
    rw [split] at behindFirst
    have behindComma : result.drop (i + (colourNumber rest).1.length + 1 + 1) = bg ++ [0] := by
      rw [← drop_drop, behindFirst]
      rfl
    rw [split, cons_append, head?_cons, bind_some, if_pos rfl,
      (skipNumber_drop behindComma).1, head?_cons, if_pos rfl, colourCode_comma split,
      length_append, length_cons]
    change some (_ + _ + 1 + _) = some (_ + ((colourNumber rest).1.length +
      ((colourNumber bg).1.length + 1)))
    congr 1
    omega
  · have other : ((colourNumber rest).2 ++ [0]).head?.bind (fun byte =>
        if byte = 44 then skipNumber result (i + (colourNumber rest).1.length + 1)
        else some (i + (colourNumber rest).1.length)) = some (i + (colourNumber rest).1.length) := by
      cases split : (colourNumber rest).2 with
      | nil => rfl
      | cons byte behind =>
        rw [split, head?_cons] at comma
        exact if_neg fun same => comma (congrArg some same)
    rw [other, if_neg comma, colourCode_plain comma, append_nil]

theorem mircTxtLoop_end (j : Nat) (read : result[i]? = some 0) :
    mircTxtLoop result i j = some (result, j) := by
  rw [mircTxtLoop]
  split
  · simp_all
  · simp_all

theorem mircTxtLoop_colour (j : Nat) (read : result[i]? = some byte)
    (colour : byte = 2 ∨ byte = 3) (skipped : skipColour result i = some next) :
    mircTxtLoop result i j = mircTxtLoop result (next + 1) j := by
  have filled : byte ≠ 0 := by
    rintro rfl
    exact absurd colour (by decide)
  rw [mircTxtLoop]
  split
  · simp_all
  · rename_i found isFound
    rw [read] at isFound
    cases isFound
    rw [if_neg filled, if_pos colour]
    split
    · simp_all
    · simp_all

theorem mircTxtLoop_code (j : Nat) (read : result[i]? = some byte)
    (code : byte = 7 ∨ byte = 15 ∨ byte = 22 ∨ byte = 31) :
    mircTxtLoop result i j = mircTxtLoop result (i + 1) j := by
  have filled : byte ≠ 0 := by
    rintro rfl
    exact absurd code (by decide)
  have other : ¬(byte = 2 ∨ byte = 3) := by
    rintro (rfl | rfl)
    · exact absurd code (by decide)
    · exact absurd code (by decide)
  rw [mircTxtLoop]
  split
  · simp_all
  · rename_i found isFound
    rw [read] at isFound
    cases isFound
    rw [if_neg filled, if_neg other, if_pos code]

theorem mircTxtLoop_kept (j : Nat) (read : result[i]? = some byte) (filled : byte ≠ 0)
    (other : ¬(byte = 2 ∨ byte = 3)) (plain : ¬(byte = 7 ∨ byte = 15 ∨ byte = 22 ∨ byte = 31)) :
    mircTxtLoop result i j = mircTxtLoop (result.set j byte) (i + 1) (j + 1) := by
  rw [mircTxtLoop]
  split
  · simp_all
  · rename_i found isFound
    rw [read] at isFound
    cases isFound
    rw [if_neg filled, if_neg other, if_neg plain]

theorem mircTxtLoop_eq (written gap cur : Bytes) (solid : 0 ∉ cur) :
    ∃ behind, behind ≠ [] ∧
      mircTxtLoop (written ++ (gap ++ (cur ++ [0]))) (written.length + gap.length) written.length =
        some (written ++ mircTxt cur ++ behind, (written ++ mircTxt cur).length) := by
  have read : (written ++ (gap ++ (cur ++ [0])))[written.length + gap.length]? =
      (cur ++ [0]).head? := by
    rw [← head?_drop, ← drop_drop, drop_left, drop_left]
  cases cur with
  | nil =>
    refine ⟨gap ++ [0], by simp, ?_⟩
    rw [mircTxtLoop_end _ read, mircTxt, append_nil]
    rfl
  | cons byte rest =>
    rw [mem_cons, not_or] at solid
    obtain ⟨filled, solidRest⟩ := solid
    have behind : (written ++ (gap ++ (byte :: rest ++ [0]))).drop
        (written.length + gap.length + 1) = rest ++ [0] := by
      rw [← drop_drop, ← drop_drop, drop_left, drop_left]
      rfl
    rw [mircTxt]
    by_cases colour : byte = 2 ∨ byte = 3
    · have taken := colourBytes_append rest
      have shorter := colourCode_length rest
      have solidBehind : 0 ∉ (colourCode rest).2 := by
        intro member
        rw [← taken] at solidRest
        exact solidRest (mem_append_right _ member)
      obtain ⟨other, more, looped⟩ := mircTxtLoop_eq written
        (gap ++ byte :: colourBytes rest) (colourCode rest).2 solidBehind
      have same : (gap ++ byte :: colourBytes rest) ++ ((colourCode rest).2 ++ [0]) =
          gap ++ (byte :: rest ++ [0]) := by
        rw [append_assoc, cons_append, ← append_assoc (colourBytes rest), taken]
        rfl
      rw [same, length_append, length_cons, ← Nat.add_assoc, ← Nat.add_assoc] at looped
      rw [if_pos colour, mircTxtLoop_colour _ read colour (skipColour_drop behind)]
      exact ⟨other, more, looped⟩
    · rw [if_neg colour]
      by_cases code : byte = 7 ∨ byte = 15 ∨ byte = 22 ∨ byte = 31
      · obtain ⟨other, more, looped⟩ := mircTxtLoop_eq written (gap ++ [byte]) rest solidRest
        rw [append_assoc, singleton_append, length_append, length_singleton,
          ← Nat.add_assoc] at looped
        rw [if_pos code, mircTxtLoop_code _ read code]
        exact ⟨other, more, looped⟩
      · rw [if_neg code, mircTxtLoop_kept _ read (Ne.symm filled) colour code]
        -- the byte at `j` is overwritten, and the gap moves on by one
        obtain ⟨first, moved, gapFront⟩ : ∃ first moved, gap ++ [byte] = first :: moved := by
          cases gap with
          | nil => exact ⟨byte, [], rfl⟩
          | cons first gap => exact ⟨first, gap ++ [byte], rfl⟩
        have same : (written ++ (gap ++ (byte :: rest ++ [0]))).set written.length byte =
            (written ++ [byte]) ++ (moved ++ (rest ++ [0])) := by
          rw [cons_append, ← singleton_append (l := rest ++ [0]), ← append_assoc gap,
            gapFront, set_append_right _ _ (Nat.le_refl _), Nat.sub_self, cons_append,
            set_cons_zero, append_assoc]
          rfl
        have far : written.length + gap.length + 1 = (written ++ [byte]).length + moved.length := by
          have lengths := congrArg List.length gapFront
          rw [length_append, length_singleton, length_cons] at lengths
          rw [length_append, length_singleton]
          omega
        obtain ⟨other, more, looped⟩ := mircTxtLoop_eq (written ++ [byte]) moved rest solidRest
        refine ⟨other, more, ?_⟩
        rw [same, far]
        rw [length_append, length_singleton] at looped ⊢
        rw [looped, append_assoc written, singleton_append]
termination_by cur.length
decreasing_by
  all_goals
    simp only [*, length_cons]
    omega

theorem mircTxt_solid {cur : Bytes} (solid : 0 ∉ cur) : 0 ∉ mircTxt cur := by
  induction cur using mircTxt.induct with
  | case1 =>
    rw [mircTxt]
    exact not_mem_nil
  | case2 byte rest colour ih =>
    rw [mircTxt, if_pos colour]
    apply ih
    intro member
    rw [← colourBytes_append rest] at solid
    exact solid (mem_cons_of_mem _ (mem_append_right _ member))
  | case3 byte rest colour code ih =>
    rw [mircTxt, if_neg colour, if_pos code]
    exact ih fun member => solid (mem_cons_of_mem _ member)
  | case4 byte rest colour code ih =>
    rw [mircTxt, if_neg colour, if_neg code, mem_cons, not_or]
    rw [mem_cons, not_or] at solid
    exact ⟨solid.1, ih solid.2⟩

theorem cString_append {text : Bytes} (solid : 0 ∉ text) (behind : Bytes) :
    cString (text ++ 0 :: behind) = text := by
  rw [cString_line solid]
  exact append_nil text

theorem cString_ends (string : Bytes) : 0 ∉ cString string := by
  intro member
  have filled := mem_takeWhile_imp member
  exact absurd filled (by decide)

theorem ircMirc2txt_eq (string : Bytes) :
    ircMirc2txt string = some (mircTxt (cString string)) := by
  obtain ⟨behind, more, looped⟩ := mircTxtLoop_eq [] [] (cString string) (cString_ends string)
  rw [nil_append, nil_append, nil_append] at looped
  obtain ⟨first, rest, rfl⟩ := exists_cons_of_ne_nil more
  change mircTxtLoop (cString string ++ [0]) 0 0 = _ at looped
  rw [ircMirc2txt, looped, map_some, set_append_right _ _ (Nat.le_refl _), Nat.sub_self,
    set_cons_zero, cString_append (mircTxt_solid (cString_ends string))]

/-! ### The two decoders -/

theorem plainText_cons (item : Item) (items : List Item) :
    plainText (item :: items) = plainText [item] ++ plainText items :=
  filterMap_append (l := [item])

theorem deleteTags_eq (string : Bytes) :
    deleteTags (ircMirc2html string) = plainText (mircItems (cString string)) := by
  rw [ircMirc2html, mircLoop_items, finish]
  have kept := items_kept (mircItems (cString string)) MircState.initial
  split
  · exact kept
  · rw [closeTags_kept]
    exact kept

def colourByte (byte : UInt8) : Bool := isdigit byte || byte = 44

theorem oneDigit_digits (cur : Bytes) : ∀ byte ∈ (oneDigit cur).1, isdigit byte = true := by
  cases cur with
  | nil => exact fun _ member => absurd member not_mem_nil
  | cons first rest =>
    rw [oneDigit]
    split
    · rename_i digit
      intro byte member
      rw [mem_singleton.mp member]
      exact digit
    · exact fun _ member => absurd member not_mem_nil

theorem colourNumber_digits (cur : Bytes) : ∀ byte ∈ (colourNumber cur).1, isdigit byte = true := by
  intro byte member
  obtain first | second := mem_append.mp member
  · exact oneDigit_digits cur byte first
  · exact oneDigit_digits _ byte second

theorem colourBytes_all (cur : Bytes) : ∀ byte ∈ colourBytes cur, colourByte byte = true := by
  have digits {cur : Bytes} {byte : UInt8} (member : byte ∈ (colourNumber cur).1) :
      colourByte byte = true := by
    rw [colourByte, colourNumber_digits cur byte member, Bool.true_or]
  intro byte member
  by_cases comma : (colourNumber cur).2.head? = some 44
  · obtain ⟨rest, split⟩ := head?_eq_some_iff.mp comma
    rw [colourBytes, if_pos comma, colourCode_comma split, mem_append, mem_cons] at member
    obtain fg | rfl | bg := member
    · exact digits fg
    · decide
    · exact digits bg
  · rw [colourBytes, if_neg comma, colourCode_plain comma, append_nil] at member
    exact digits member

theorem colourBytes_nil_iff (cur : Bytes) :
    colourBytes cur = [] ↔ ∀ byte, cur.head? = some byte → colourByte byte = false := by
  constructor
  · intro empty byte front
    obtain ⟨rest, rfl⟩ := head?_eq_some_iff.mp front
    cases digit : isdigit byte with
    | true =>
      have first : (oneDigit (byte :: rest)).1 = [byte] := by rw [oneDigit, if_pos digit]
      have filled : (colourNumber (byte :: rest)).1 ≠ [] := by
        change (oneDigit (byte :: rest)).1 ++ _ ≠ []
        rw [first]
        exact cons_ne_nil _ _
      have fg := (append_eq_nil_iff.mp empty).1
      rw [colourCode] at fg
      dsimp only at fg
      split at fg
      · exact absurd fg filled
      · exact absurd fg filled
    | false =>
      have none_ : colourNumber (byte :: rest) = ([], byte :: rest) := by
        have first : oneDigit (byte :: rest) = ([], byte :: rest) := by
          rw [oneDigit, if_neg (by rw [digit]; decide)]
        rw [colourNumber, first]
        dsimp only
        rw [first]
        rfl
      rw [colourByte, digit, Bool.false_or, decide_eq_false_iff_not]
      rintro rfl
      have background := (append_eq_nil_iff.mp empty).2
      rw [none_] at background
      cases background
  · intro other
    cases bytes : colourBytes cur with
    | nil => rfl
    | cons byte more =>
      have whole := colourBytes_append cur
      rw [bytes] at whole
      have front : cur.head? = some byte := by
        rw [← whole]
        rfl
      have colour := colourBytes_all cur byte (by rw [bytes]; exact mem_cons_self)
      rw [other byte front] at colour
      cases colour

def BoldApart (string : Bytes) : Prop :=
  ∀ front byte rest, string = front ++ 2 :: byte :: rest → colourByte byte = false

theorem boldApart_cons (other : byte ≠ 2) : BoldApart (byte :: rest) ↔ BoldApart rest := by
  constructor
  · intro apart front second behind split
    exact apart (byte :: front) second behind (by rw [split]; rfl)
  · intro apart front second behind split
    cases front with
    | nil => exact absurd (List.cons.inj split).1 other
    | cons first front => exact apart front second behind (List.cons.inj split).2

theorem boldApart_colour (rest : Bytes) : BoldApart rest ↔ BoldApart (colourCode rest).2 := by
  have skip (front : Bytes) (colour : ∀ byte ∈ front, colourByte byte = true) (behind : Bytes) :
      BoldApart (front ++ behind) ↔ BoldApart behind := by
    induction front with
    | nil => exact Iff.rfl
    | cons byte front ih =>
      have other : byte ≠ 2 := by
        rintro rfl
        exact absurd (colour 2 mem_cons_self) (by decide)
      rw [cons_append, boldApart_cons other]
      exact ih fun byte member => colour byte (mem_cons_of_mem _ member)
  have split := skip (colourBytes rest) (colourBytes_all rest) (colourCode rest).2
  rw [colourBytes_append] at split
  exact split

theorem boldApart_bold (rest : Bytes) :
    BoldApart (2 :: rest) ↔ colourBytes rest = [] ∧ BoldApart rest := by
  rw [colourBytes_nil_iff]
  constructor
  · intro apart
    refine ⟨fun byte front => ?_, fun front byte behind split =>
      apart (2 :: front) byte behind (by rw [split]; rfl)⟩
    obtain ⟨behind, rfl⟩ := head?_eq_some_iff.mp front
    exact apart [] byte behind rfl
  · intro both front byte behind split
    cases front with
    | nil =>
      apply both.1
      rw [(List.cons.inj split).2]
      rfl
    | cons first front => exact both.2 front byte behind (List.cons.inj split).2

theorem plainText_colour (rest : Bytes) :
    plainText (mircItems rest) = colourBytes rest ++ plainText (mircItems (colourCode rest).2) := by
  have keep (front : Bytes) (colour : ∀ byte ∈ front, colourByte byte = true) (behind : Bytes) :
      plainText (mircItems (front ++ behind)) = front ++ plainText (mircItems behind) := by
    have clean : ∀ byte ∈ front, isMircCode byte = false := by
      intro byte member
      have isColour := colour byte member
      cases code : isMircCode byte with
      | false => rfl
      | true =>
        simp only [isMircCode, mircCodes, mem_cons, not_mem_nil, or_false,
          decide_eq_true_eq] at code
        rcases code with rfl | rfl | rfl | rfl | rfl | rfl <;> exact absurd isColour (by decide)
    have chars : plainText (front.map Item.char) = front := by
      rw [plainText, filterMap_map]
      exact filterMap_some
    rw [mircItems_text clean, plainText, filterMap_append]
    exact congrArg (· ++ _) chars
  have split := keep (colourBytes rest) (colourBytes_all rest) (colourCode rest).2
  rw [colourBytes_append] at split
  exact split

theorem mircItems_ignored (rest : Bytes) (code : byte = 7 ∨ byte = 15 ∨ byte = 22 ∨ byte = 31) :
    plainText (mircItems (byte :: rest)) = plainText (mircItems rest) := by
  obtain rfl | rfl | rfl | rfl := code
  all_goals
    rw [mircItems, plainText_cons]
    rfl

theorem mircItems_kept (rest : Bytes) (colour : ¬(byte = 2 ∨ byte = 3))
    (code : ¬(byte = 7 ∨ byte = 15 ∨ byte = 22 ∨ byte = 31)) :
    plainText (mircItems (byte :: rest)) = byte :: plainText (mircItems rest) := by
  have clean : isMircCode byte = false := by
    simp only [not_or] at colour code
    simp only [isMircCode, mircCodes, mem_cons, not_mem_nil, or_false, not_or,
      decide_eq_false_iff_not]
    exact ⟨colour.1, colour.2, code.1, code.2.1, code.2.2.1, code.2.2.2⟩
  have single : ∀ other ∈ [byte], isMircCode other = false := by
    intro other member
    rw [mem_singleton.mp member]
    exact clean
  have items := mircItems_text single rest
  rw [singleton_append] at items
  rw [items]
  rfl

/-- The second decoder never keeps more, and keeps the same where no bold code is taken for
a colour. -/
theorem mircTxt_agrees (cur : Bytes) :
    (mircTxt cur).length ≤ (plainText (mircItems cur)).length ∧
      (plainText (mircItems cur) = mircTxt cur ↔ BoldApart cur) := by
  induction cur using mircTxt.induct with
  | case1 =>
    rw [mircTxt, mircItems]
    refine ⟨Nat.le_refl _, fun _ front byte rest split => ?_, fun _ => rfl⟩
    cases front <;> cases split
  | case2 byte rest colour ih =>
    obtain ⟨shorter, agrees⟩ := ih
    rw [mircTxt, if_pos colour]
    obtain rfl | rfl := colour
    · have bold : plainText (mircItems (2 :: rest)) =
          colourBytes rest ++ plainText (mircItems (colourCode rest).2) := by
        rw [← plainText_colour, mircItems, plainText_cons]
        rfl
      rw [bold, boldApart_bold, boldApart_colour, ← agrees, length_append]
      refine ⟨by omega, fun same => ?_, fun both => ?_⟩
      · have lengths := congrArg List.length same
        rw [length_append] at lengths
        have empty : colourBytes rest = [] := eq_nil_of_length_eq_zero (by omega)
        rw [empty] at same
        exact ⟨empty, same⟩
      · rw [both.1, ← both.2]
        rfl
    · have colour : plainText (mircItems (3 :: rest)) =
          plainText (mircItems (colourCode rest).2) := by
        rw [mircItems, plainText_cons]
        rfl
      rw [colour, boldApart_cons (by decide), boldApart_colour]
      exact ⟨shorter, agrees⟩
  | case3 byte rest colour code ih =>
    rw [mircTxt, if_neg colour, if_pos code, mircItems_ignored rest code,
      boldApart_cons fun same => colour (.inl same)]
    exact ih
  | case4 byte rest colour code ih =>
    rw [mircTxt, if_neg colour, if_neg code, mircItems_kept rest colour code,
      boldApart_cons fun same => colour (.inl same), length_cons, length_cons,
      cons_eq_cons]
    refine ⟨Nat.succ_le_succ ih.1, ?_⟩
    simp only [true_and]
    exact ih.2

/-- `irc_mirc2txt` stays inside its string, and is what is left of the HTML without its tags
exactly when no bold code has a digit or a comma behind it. -/
theorem ircMirc2txt_agrees_iff (string : Bytes) :
    ∃ text, ircMirc2txt string = some text ∧
      (deleteTags (ircMirc2html string) = text ↔ BoldApart (cString string)) := by
  refine ⟨mircTxt (cString string), ircMirc2txt_eq string, ?_⟩
  rw [deleteTags_eq]
  exact (mircTxt_agrees (cString string)).2

/-- A bold code in front of a number. -/
theorem ircMirc2txt_boldNumber :
    deleteTags (ircMirc2html [2, 55, 33]) = [55, 33] ∧ ircMirc2txt [2, 55, 33] = some [33] := by
  decide +kernel

end Purple.Irc
