/-
Slices of marked-up text in util.c.

The open tags are kept with the last one first.  Characters are counted without
the bound of `guint`.
-/

import Purple.CString
import Purple.Utf8

namespace Purple.MarkupSlice

open List CString Utf8

def entity (name : Bytes) : Bytes := 38 :: name ++ [59]

def hexDigit (digit : Nat) : UInt8 := UInt8.ofNat (if digit < 10 then 48 + digit else 87 + digit)

/-- `%x` of a number below 256. -/
def hexByte (number : Nat) : Bytes :=
  if number < 16 then [hexDigit number] else [hexDigit (number / 16), hexDigit (number % 16)]

/-- Control characters other than tab, line feed, carriage return and NEL. -/
def isControl (char : Char) : Bool :=
  let c := char.toNat
  (1 ≤ c && c ≤ 8) || (0xb ≤ c && c ≤ 0xc) || (0xe ≤ c && c ≤ 0x1f) || (0x7f ≤ c && c ≤ 0x84) ||
    (0x86 ≤ c && c ≤ 0x9f)

def escapeChar (char : Char) : Bytes :=
  if char.toNat = 38 then entity (ascii "amp")
  else if char.toNat = 60 then entity (ascii "lt")
  else if char.toNat = 62 then entity (ascii "gt")
  else if char.toNat = 39 then entity (ascii "#39")
  else if char.toNat = 34 then entity (ascii "quot")
  else if isControl char then entity (ascii "#x" ++ hexByte char.toNat)
  else String.utf8EncodeChar char

def gMarkupEscapeText (text : List Char) : Bytes := text.flatMap escapeChar

structure SliceState where
  ret : Bytes
  q : List Bytes
  z : Nat
  appended : Bool

/-- `!g_ascii_strncasecmp(str, literal, strlen(literal))` -/
def startsWith (literal str : Bytes) : Bool := strncasecmpEq str literal literal.length

def passTag (st : SliceState) (str tag : Bytes) : SliceState :=
  if startsWith (ascii "<img ") str then { st with z := st.z + 7 }
  else if startsWith (ascii "<br") str then { st with z := st.z + 1 }
  else if startsWith (ascii "<hr>") str then { st with z := st.z + 5 }
  else if startsWith (ascii "</") str then { st with q := st.q.tail }
  else { st with q := tag :: st.q }

def appendFrom (x : Nat) (bytes : Bytes) (st : SliceState) : SliceState :=
  if x ≤ st.z then { st with ret := st.ret ++ bytes } else st

def appendOpen (x : Nat) (st : SliceState) : SliceState :=
  if st.z = x && 0 < st.z && !st.appended then
    { st with ret := st.ret ++ st.q.reverse.flatten, appended := true }
  else st

def count (st : SliceState) : SliceState := { st with z := st.z + 1 }

/-- One turn of the loop, and the string behind it.  A tag or an entity that does
not end gives up. -/
def sliceStep (x : Nat) (st : SliceState) (str : Bytes) : Option (SliceState × Bytes) :=
  if str.head? = some 60 then
    if 62 ∈ str then
      let tag := str.takeWhile (· != 62) ++ [62]
      some (appendFrom x tag (passTag st str tag), str.drop tag.length)
    else none
  else if str.head? = some 38 then
    if 59 ∈ str then
      let whole := str.takeWhile (· != 59) ++ [59]
      some (count (appendFrom x whole st), str.drop whole.length)
    else none
  else some (count (appendFrom x (frontChar str) (appendOpen x st)), nextChar str)

def sliceRounds (x y : Nat) : Nat → SliceState → Bytes → Option SliceState
  | 0, _, _ => none
  | rounds + 1, st, str =>
    if str = [] ∨ y ≤ st.z then some st
    else (sliceStep x st str).bind fun next => sliceRounds x y rounds next.1 next.2

def purpleMarkupGetTagName (tag : Bytes) : Bytes :=
  (tag.drop 1).takeWhile fun byte => byte != 62 && byte != 32 && byte != 47

def closing (tag : Bytes) : Bytes := ascii "</" ++ purpleMarkupGetTagName tag ++ [62]

def purpleMarkupSlice (str : Bytes) (x y : Nat) : Option Bytes :=
  if y < x then none
  else if x = y then some []
  else
    (sliceRounds x y (str.length + 1) { ret := [], q := [], z := 0, appended := false } str).map
      fun st => st.ret ++ st.q.flatMap closing

theorem hexDigit_solid {digit : Nat} (small : digit < 16) : hexDigit digit ≠ 59 := by
  revert digit
  decide

theorem hexByte_solid {number : Nat} (small : number < 256) : 59 ∉ hexByte number := by
  rw [hexByte]
  split
  · rename_i single
    exact fun member => hexDigit_solid single (mem_singleton.mp member).symm
  · intro member
    rcases mem_cons.mp member with high | low
    · exact hexDigit_solid (by omega) high.symm
    · exact hexDigit_solid (Nat.mod_lt _ (by decide)) (mem_singleton.mp low).symm

theorem escapeChar_cases (char : Char) :
    (∃ name, 59 ∉ name ∧ escapeChar char = entity name) ∨
      char.toNat ≠ 38 ∧ char.toNat ≠ 60 ∧ escapeChar char = String.utf8EncodeChar char := by
  rw [escapeChar]
  split
  · exact Or.inl ⟨_, by decide, rfl⟩
  · split
    · exact Or.inl ⟨_, by decide, rfl⟩
    · rename_i notAmp notLess
      split
      · exact Or.inl ⟨_, by decide, rfl⟩
      · split
        · exact Or.inl ⟨_, by decide, rfl⟩
        · split
          · exact Or.inl ⟨_, by decide, rfl⟩
          · split
            · rename_i control
              have small : char.toNat < 256 := by
                simp only [isControl, Bool.or_eq_true, Bool.and_eq_true, decide_eq_true_eq] at control
                omega
              refine Or.inl ⟨_, ?_, rfl⟩
              intro member
              rcases mem_append.mp member with sharp | digits
              · exact absurd sharp (by decide)
              · exact hexByte_solid small digits
            · exact Or.inr ⟨notAmp, notLess, rfl⟩

theorem escapeChar_length_pos (char : Char) : 0 < (escapeChar char).length := by
  rcases escapeChar_cases char with ⟨name, _, written⟩ | ⟨_, _, written⟩
  · rw [written]
    exact Nat.succ_pos _
  · rw [written]
    exact encodeChar_length_pos char

@[simp] theorem escape_cons (char : Char) (text : List Char) :
    gMarkupEscapeText (char :: text) = escapeChar char ++ gMarkupEscapeText text :=
  flatMap_cons

@[simp] theorem escape_append (front rest : List Char) :
    gMarkupEscapeText (front ++ rest) = gMarkupEscapeText front ++ gMarkupEscapeText rest :=
  flatMap_append

theorem takeWhile_entity {name : Bytes} (solid : 59 ∉ name) (behind : Bytes) :
    (entity name ++ behind).takeWhile (· != 59) ++ [59] = entity name := by
  have before : ∀ byte ∈ 38 :: name, (byte != 59) = true := by
    intro byte member
    apply bne_iff_ne.mpr
    rintro rfl
    rcases mem_cons.mp member with amp | inName
    · cases amp
    · exact solid inName
  have split : entity name ++ behind = (38 :: name) ++ 59 :: behind := by
    rw [entity, append_assoc]
    rfl
  rw [split, takeWhile_append_of_pos before, takeWhile_cons, if_neg (by decide),
    append_nil]
  rfl

theorem head?_encodeChar {char : Char} {byte : UInt8} (low : byte.toNat < 128)
    (other : char.toNat ≠ byte.toNat) (behind : Bytes) :
    (String.utf8EncodeChar char ++ behind).head? ≠ some byte := by
  obtain ⟨lead, rest, bytes, -⟩ := encodeChar_lead char
  intro same
  apply other
  apply encodeChar_ascii _ low
  rw [bytes] at same ⊢
  cases same
  exact mem_cons_self

theorem appendOpen_closed (x : Nat) {st : SliceState} (closed : st.q = []) :
    ∃ appended, appendOpen x st = { st with appended } := by
  rw [appendOpen]
  split
  · refine ⟨true, ?_⟩
    rw [closed, reverse_nil, flatten_nil, append_nil]
  · exact ⟨st.appended, rfl⟩

theorem sliceStep_escapeChar (x : Nat) {st : SliceState} (closed : st.q = []) (char : Char)
    (behind : Bytes) :
    ∃ appended, sliceStep x st (escapeChar char ++ behind) =
      some (count (appendFrom x (escapeChar char) { st with appended }), behind) := by
  rcases escapeChar_cases char with ⟨name, solid, written⟩ | ⟨notAmp, notLess, written⟩
  · refine ⟨st.appended, ?_⟩
    have member : (59 : UInt8) ∈ entity name ++ behind :=
      mem_append_left _ (mem_append_right _ mem_cons_self)
    have less : (entity name ++ behind).head? ≠ some 60 := by
      intro same
      cases same
    have amp : (entity name ++ behind).head? = some 38 := rfl
    rw [written, sliceStep, if_neg less, if_pos amp, if_pos member]
    dsimp only
    rw [takeWhile_entity solid, drop_left]
  · obtain ⟨appended, opened⟩ := appendOpen_closed x closed
    refine ⟨appended, ?_⟩
    have amp := @head?_encodeChar char 38 (by decide) notAmp behind
    have less := @head?_encodeChar char 60 (by decide) notLess behind
    rw [written, sliceStep, if_neg less, if_neg amp, opened, frontChar_encodeChar,
      nextChar_encodeChar]

theorem sliceRounds_escape {x y : Nat} (text : List Char) {rounds : Nat} {st : SliceState}
    (closed : st.q = []) (enough : (gMarkupEscapeText text).length < rounds) :
    ∃ made, sliceRounds x y rounds st (gMarkupEscapeText text) = some made ∧ made.q = [] ∧
      made.ret = st.ret ++ gMarkupEscapeText ((text.take (y - st.z)).drop (x - st.z)) := by
  induction text generalizing rounds st with
  | nil =>
    obtain _ | rounds := rounds
    · exact absurd enough (Nat.not_lt_zero _)
    refine ⟨st, if_pos (Or.inl rfl), closed, ?_⟩
    rw [take_nil, drop_nil]
    exact (append_nil _).symm
  | cons char text ih =>
    obtain _ | rounds := rounds
    · exact absurd enough (Nat.not_lt_zero _)
    by_cases past : y ≤ st.z
    · refine ⟨st, if_pos (Or.inr past), closed, ?_⟩
      rw [Nat.sub_eq_zero_of_le past, take_zero, drop_nil]
      exact (append_nil _).symm
    · have positive := escapeChar_length_pos char
      rw [escape_cons, length_append] at enough
      have filled : escapeChar char ++ gMarkupEscapeText text ≠ [] := by
        intro empty
        rw [(append_eq_nil_iff.mp empty).1] at positive
        exact absurd positive (Nat.lt_irrefl _)
      obtain ⟨appended, step⟩ := sliceStep_escapeChar x closed char (gMarkupEscapeText text)
      rw [escape_cons, sliceRounds, if_neg (not_or.mpr ⟨filled, past⟩), step, Option.bind_some]
      dsimp only
      have ahead : y - st.z = (y - (st.z + 1)) + 1 := by omega
      by_cases inside : x ≤ st.z
      · rw [appendFrom, if_pos inside]
        obtain ⟨made, ran, closedThen, ret⟩ := @ih rounds
          (count { st with ret := st.ret ++ escapeChar char, appended }) closed (by omega)
        refine ⟨made, ran, closedThen, ?_⟩
        rw [ret]
        change st.ret ++ escapeChar char ++
          gMarkupEscapeText ((text.take (y - (st.z + 1))).drop (x - (st.z + 1))) = _
        rw [ahead, take_succ_cons, Nat.sub_eq_zero_of_le inside,
          Nat.sub_eq_zero_of_le (Nat.le_succ_of_le inside), drop_zero, drop_zero,
          escape_cons, append_assoc]
      · have behind : x - st.z = (x - (st.z + 1)) + 1 := by omega
        rw [appendFrom, if_neg inside]
        obtain ⟨made, ran, closedThen, ret⟩ := @ih rounds (count { st with appended }) closed
          (by omega)
        refine ⟨made, ran, closedThen, ?_⟩
        rw [ret, ahead, take_succ_cons, behind, drop_succ_cons]
        rfl

theorem purpleMarkupSlice_escape (text : List Char) {x y : Nat} (order : x ≤ y) :
    purpleMarkupSlice (gMarkupEscapeText text) x y =
      some (gMarkupEscapeText ((text.take y).drop x)) := by
  rw [purpleMarkupSlice, if_neg (Nat.not_lt.mpr order)]
  split
  · rename_i same
    have none : (text.take y).drop x = [] := by
      apply drop_eq_nil_of_le
      rw [same]
      exact length_take_le _ _
    rw [none]
    rfl
  · obtain ⟨made, ran, closed, ret⟩ := @sliceRounds_escape x y text
      ((gMarkupEscapeText text).length + 1) { ret := [], q := [], z := 0, appended := false } rfl
      (Nat.lt_succ_self _)
    rw [ran, Option.map_some, closed, ret]
    exact congrArg some (append_nil _)

end Purple.MarkupSlice
