/-
Which messages `msn_import_html` reads no further than their terminator.

A message is a row of pieces: a tag it knows with everything it passes for it, another
tag, an entity or a single byte.  The cursor leaves the string only behind a piece that
is cut off, and only `font` and `span` tags can be.
-/

import Mathlib.Data.List.TakeWhile
import Purple.Msn.ImportHtml

namespace Purple.Msn

open List Memory CString Utf8
open MarkupSlice (startsWith)

/-- Bytes before the first place where `stop` is found, or all of them. -/
def untilLength (stop text : Bytes) : Nat := (strcasestr stop text).getD text.length

/-- The same with the `stop` itself. -/
def throughLength (stop text : Bytes) : Nat := min text.length (untilLength stop text + stop.length)

/-- A span tag ends at a `>` that has no blank before it.  One that has no end is cut off
where the last byte of the message is a blank. -/
def spanLength (before : UInt8) : Bytes → Option Nat
  | [] => if before = 32 then none else some 0
  | byte :: rest =>
    if byte = 62 ∧ before ≠ 32 then some 1 else (spanLength byte rest).map (· + 1)

/-- A colour has nine bytes behind its quote, a face has a closing quote and a byte
behind that one. -/
def fontLength (text : Bytes) : Option Nat :=
  if startsWith (ascii "color=\"") text then if 16 ≤ text.length then some 16 else none
  else if startsWith (ascii "face=\"") text then
    ((text.drop 6).idxOf? 34).bind fun quote =>
      if quote + 8 ≤ text.length then some (quote + 8) else none
  else some (throughLength (ascii "\">") text)

def hrefLength (text : Bytes) : Nat :=
  let start := if startsWith (ascii "mailto:") (text.drop 9) then 16 else 9
  let link := start + throughLength (ascii "\">") (text.drop start)
  link + throughLength (ascii "</a>") (text.drop link)

def fontTagLength (text : Bytes) : Option Nat :=
  let blanks := ((text.drop 5).takeWhile (· == 32)).length
  (fontLength (text.drop (5 + blanks))).map (5 + blanks + ·)

def tagLength (text : Bytes) : Option Nat :=
  if startsWith (ascii "<br>") text then some 4
  else if [ascii "<i>", ascii "<b>", ascii "<u>", ascii "<s>"].any (startsWith · text) then some 3
  else if startsWith (ascii "<a href=\"") text then some (hrefLength text)
  else if startsWith (ascii "<span") text then (spanLength 110 (text.drop 5)).map (5 + ·)
  else if startsWith (ascii "<font") text then fontTagLength text
  else some (throughLength (ascii ">") text)

def entityLength (text : Bytes) : Nat :=
  ((entities.find? fun entity => startsWith entity.1 text).map fun entity =>
    entity.1.length).getD 1

def pieceLength (text : Bytes) : Option Nat :=
  if text.head? = some 60 then tagLength text
  else if text.head? = some 38 then some (entityLength text)
  else some 1

inductive TagsComplete : Bytes → Prop
  | done : TagsComplete []
  | piece {text : Bytes} {length : Nat} : text ≠ [] → pieceLength text = some length →
      TagsComplete (text.drop length) → TagsComplete text

variable {literal text rest behind : Bytes} {st : ImportState}

theorem startsWith_cons (byte : UInt8) (literal text : Bytes) :
    startsWith (byte :: literal) (byte :: text) = startsWith literal text := by
  simp only [startsWith, strncasecmpEq, length_cons, take_succ_cons, map_cons,
    cons_beq_cons, beq_self_eq_true, Bool.true_and]

theorem startsWith_eq (literal text : Bytes) :
    startsWith literal text = (literal.map asciiToLower).isPrefixOf (text.map asciiToLower) := by
  rw [Bool.eq_iff_iff, startsWith, strncasecmpEq, beq_iff_eq, isPrefixOf_iff_prefix,
    prefix_iff_eq_take, take_length, length_map, map_take]
  exact eq_comm

theorem startsWith_length (here : startsWith literal text = true) :
    literal.length ≤ text.length := by
  rw [startsWith_eq, isPrefixOf_iff_prefix] at here
  have bound := here.length_le
  rwa [length_map, length_map] at bound

theorem skipUntil_eq (stop text : Bytes) :
    skipUntil stop text = text.drop (untilLength stop text) := by
  induction text with
  | nil => rw [skipUntil, drop_nil]
  | cons byte rest ih =>
    rw [skipUntil, untilLength, strcasestr, map_cons, strstr, ← map_cons,
      ← startsWith_eq]
    by_cases here : startsWith stop (byte :: rest) = true
    · rw [if_pos here, if_pos here]
      rfl
    · rw [if_neg here, if_neg here, ih, untilLength, strcasestr]
      cases strstr (stop.map asciiToLower) (rest.map asciiToLower) <;> rfl

theorem skipUntil_found (stop text : Bytes) :
    skipUntil stop text = [] ∨ startsWith stop (skipUntil stop text) = true := by
  induction text with
  | nil => exact .inl rfl
  | cons byte rest ih =>
    rw [skipUntil]
    by_cases here : startsWith stop (byte :: rest) = true
    · rw [if_pos here]
      exact .inr here
    · rw [if_neg here]
      exact ih

theorem untilLength_le (stop text : Bytes) : untilLength stop text ≤ text.length := by
  rw [untilLength, strcasestr]
  cases found : strstr (stop.map asciiToLower) (text.map asciiToLower) with
  | none => exact Nat.le_refl _
  | some offset =>
    have bound := strstr_bound found
    simp only [length_map] at bound
    exact Nat.le_trans (Nat.le_add_right _ _) bound

theorem advance_inside {count : Nat} (inside : count ≤ rest.length) :
    advance count rest = .ok (rest.drop count) :=
  if_pos inside

theorem advance_outside {count : Nat} (outside : rest.length < count) :
    advance count rest = .error .pastTerminator :=
  if_neg (by omega)

theorem advanceInside_skipUntil (stop rest : Bytes) :
    advanceInside stop.length (skipUntil stop rest) =
      .ok (rest.drop (throughLength stop rest)) := by
  have bound := untilLength_le stop rest
  by_cases absent : skipUntil stop rest = []
  · rw [advanceInside, if_pos absent, absent]
    rw [skipUntil_eq, drop_eq_nil_iff] at absent
    rw [drop_of_length_le]
    rw [throughLength]
    omega
  · have here := (skipUntil_found stop rest).resolve_left absent
    have inside := startsWith_length here
    rw [advanceInside, if_neg absent, advance_inside inside, skipUntil_eq, drop_drop]
    rw [skipUntil_eq, List.length_drop] at inside
    have behind : throughLength stop rest = untilLength stop rest + stop.length := by
      rw [throughLength]
      omega
    rw [behind]

/-- The rest of the message fits into what is left of the output, with a byte to spare. -/
def Room (st : ImportState) (rest : Bytes) : Prop := st.retcount + rest.length < st.msg.length

/-- The turn has come to `rest` and there is room. -/
def Reaches (turn : Import (ImportState × Bytes)) (rest : Bytes) : Prop :=
  ∃ st, turn = .ok (st, rest) ∧ Room st rest

theorem Room.drop (room : Room st rest) (count : Nat) : Room st (rest.drop count) := by
  rw [Room, List.length_drop]
  rw [Room] at room
  omega

theorem put_room {size : Nat} (byte : UInt8) (room : st.retcount + size < st.msg.length)
    (some_left : 0 < size) :
    ∃ next, put byte st = .ok next ∧ next.retcount + (size - 1) < next.msg.length := by
  have inside : st.retcount + [some byte].length ≤ st.msg.length := by
    rw [length_singleton]
    omega
  have stored := st.msg.store_some inside
  refine ⟨_, by rw [put, stored], ?_⟩
  change st.retcount + 1 + (size - 1) < _
  rw [Block.store_length stored]
  omega

theorem copyUntil_reaches (stop : Bytes) (room : Room st rest) :
    Reaches (copyUntil stop st rest) (skipUntil stop rest) := by
  induction rest generalizing st with
  | nil => exact ⟨st, rfl, room⟩
  | cons byte rest ih =>
    rw [copyUntil, skipUntil]
    by_cases here : startsWith stop (byte :: rest) = true
    · rw [if_pos here, if_pos here]
      exact ⟨st, rfl, room⟩
    · obtain ⟨next, written, left⟩ := put_room byte room (Nat.zero_lt_succ _)
      rw [if_neg here, if_neg here, written]
      exact ih left

theorem copyByte_reaches {byte other : UInt8} (room : Room st (byte :: behind)) :
    Reaches (copyByte st other (byte :: behind)) behind := by
  obtain ⟨next, written, left⟩ := put_room other room (Nat.zero_lt_succ _)
  refine ⟨next, ?_, left⟩
  rw [copyByte, written]
  rfl

/-! ### Font tags -/

/-- A turn passes the piece at the front, or leaves the string where it is cut off. -/
def PassesPiece (turn : Import (ImportState × Bytes)) (length : Option Nat) (text : Bytes) : Prop :=
  match length with
  | some length => Reaches turn (text.drop length)
  | none => turn = .error .pastTerminator

theorem drop_blanks (text : Bytes) :
    text.dropWhile (· == 32) = text.drop (text.takeWhile (· == 32)).length := by
  have split := takeWhile_append_dropWhile (p := (· == (32 : UInt8))) (l := text)
  have dropped : (text.takeWhile (· == 32) ++ text.dropWhile (· == 32)).drop
      (text.takeWhile (· == 32)).length = text.dropWhile (· == 32) := drop_left
  rw [split] at dropped
  exact dropped.symm

theorem charAt_mapM (rest : Bytes) (indices : List Nat) :
    (∃ chars, indices.mapM (charAt rest) = .ok chars) ∨
      indices.mapM (charAt rest) = .error .pastTerminator := by
  induction indices with
  | nil => exact .inl ⟨[], rfl⟩
  | cons index indices ih =>
    rw [mapM_cons, charAt]
    split
    · obtain ⟨chars, all⟩ | outside := ih
      · exact .inl ⟨_, by rw [all]; rfl⟩
      · exact .inr (by rw [outside]; rfl)
    · split
      · obtain ⟨chars, all⟩ | outside := ih
        · exact .inl ⟨_, by rw [all]; rfl⟩
        · exact .inr (by rw [outside]; rfl)
      · exact .inr rfl

theorem charAt_mapM_inside {indices : List Nat} (inside : ∀ index ∈ indices, index ≤ rest.length) :
    ∃ chars, indices.mapM (charAt rest) = .ok chars := by
  induction indices with
  | nil => exact ⟨[], rfl⟩
  | cons index indices ih =>
    obtain ⟨chars, all⟩ := ih fun other member => inside other (mem_cons_of_mem _ member)
    have bound := inside index mem_cons_self
    rw [mapM_cons, charAt, all]
    split
    · exact ⟨_, rfl⟩
    · rw [if_pos (by omega)]
      exact ⟨_, rfl⟩

theorem colorTag_follows (room : Room st text) :
    PassesPiece (colorTag st text) (if 16 ≤ text.length then some 16 else none) text := by
  by_cases complete : 16 ≤ text.length
  · rw [if_pos complete, colorTag, advance_inside (by omega)]
    have rest : (text.drop 8).length = text.length - 8 := List.length_drop
    have inside : ∀ index ∈ [4, 5, 2, 3, 0, 1], index ≤ (text.drop 8).length := by
      intro index member
      have small : index ≤ 5 := by
        revert index
        decide
      omega
    obtain ⟨chars, read⟩ := charAt_mapM_inside inside
    refine ⟨{ st with fontcolor := chars }, ?_, room.drop 16⟩
    change ((List.mapM (charAt (text.drop 8)) [4, 5, 2, 3, 0, 1]).bind fun fontcolor =>
      (advance 8 (text.drop 8)).bind _) = _
    rw [read, advance_inside (by omega), drop_drop]
    rfl
  · rw [if_neg complete]
    change colorTag st text = .error .pastTerminator
    rw [colorTag]
    by_cases begun : 8 ≤ text.length
    · rw [advance_inside begun]
      change ((List.mapM (charAt (text.drop 8)) [4, 5, 2, 3, 0, 1]).bind fun fontcolor =>
        (advance 8 (text.drop 8)).bind _) = _
      have outside : (text.drop 8).length < 8 := by
        rw [List.length_drop]
        omega
      obtain ⟨chars, read⟩ | failed := charAt_mapM (text.drop 8) [4, 5, 2, 3, 0, 1]
      · rw [read, advance_outside outside]
        rfl
      · rw [failed]
        rfl
    · rw [advance_outside (by omega)]
      rfl

theorem faceTag_follows (room : Room st text) (begun : 6 ≤ text.length) :
    PassesPiece (faceTag st text)
      (((text.drop 6).idxOf? 34).bind fun quote =>
        if quote + 8 ≤ text.length then some (quote + 8) else none) text := by
  rw [faceTag, advance_inside begun]
  dsimp only [bind, Except.bind]
  cases (text.drop 6).idxOf? 34 with
  | none => rfl
  | some quote =>
    rw [Option.bind_some]
    change PassesPiece ((advance (quote + 2) (text.drop 6)).bind _) _ _
    have rest : (text.drop 6).length = text.length - 6 := List.length_drop
    by_cases complete : quote + 8 ≤ text.length
    · rw [if_pos complete, advance_inside (by omega), drop_drop]
      have passed : 6 + (quote + 2) = quote + 8 := by omega
      rw [passed]
      exact ⟨_, rfl, room.drop (quote + 8)⟩
    · rw [if_neg complete, advance_outside (by omega)]
      rfl

def fontBody (st : ImportState) (rest : Bytes) : Import (ImportState × Bytes) :=
  if strncasecmpEq rest (ascii "color=\"#") 7 then colorTag st rest
  else if strncasecmpEq rest (ascii "face=\"") 6 then faceTag st rest
  else do
    let rest ← advanceInside 2 (skipUntil (ascii "\">") rest)
    .ok (st, rest)

theorem fontBody_follows (room : Room st text) :
    PassesPiece (fontBody st text) (fontLength text) text := by
  have color : strncasecmpEq text (ascii "color=\"#") 7 = startsWith (ascii "color=\"") text := rfl
  have face : strncasecmpEq text (ascii "face=\"") 6 = startsWith (ascii "face=\"") text := rfl
  rw [fontBody, fontLength, color, face]
  by_cases colored : startsWith (ascii "color=\"") text = true
  · rw [if_pos colored, if_pos colored]
    exact colorTag_follows room
  · rw [if_neg colored, if_neg colored]
    by_cases faced : startsWith (ascii "face=\"") text = true
    · rw [if_pos faced, if_pos faced]
      exact faceTag_follows room (startsWith_length faced)
    · rw [if_neg faced, if_neg faced]
      refine ⟨st, ?_, room.drop _⟩
      change (advanceInside (ascii "\">").length (skipUntil (ascii "\">") text)).bind _ = _
      rw [advanceInside_skipUntil]
      rfl

theorem fontTag_follows (room : Room st text) (begun : 5 ≤ text.length) :
    PassesPiece (fontTag st text) (fontTagLength text) text := by
  have blanks := drop_blanks (text.drop 5)
  rw [drop_drop] at blanks
  have turn : fontTag st text =
      fontBody st (text.drop (5 + ((text.drop 5).takeWhile (· == 32)).length)) := by
    rw [fontTag, advance_inside begun, ← blanks]
    rfl
  rw [turn, fontTagLength]
  have body := fontBody_follows
    (room.drop (5 + ((text.drop 5).takeWhile (· == 32)).length))
  cases whole : fontLength (text.drop (5 + ((text.drop 5).takeWhile (· == 32)).length)) with
  | none =>
    rw [whole] at body
    exact body
  | some length =>
    rw [whole, PassesPiece, drop_drop] at body
    exact body

/-! ### Span tags -/

theorem spanLength_front {front : Bytes} (inner : 62 ∉ front) (before : UInt8) (rest : Bytes) :
    spanLength before (front ++ rest) =
      (spanLength (front.getLastD before) rest).map (· + front.length) := by
  induction front generalizing before with
  | nil =>
    rw [nil_append, getLastD_nil, length_nil]
    exact Option.map_id'.symm
  | cons byte front ih =>
    have other : byte ≠ 62 := fun same => inner (same ▸ mem_cons_self)
    rw [cons_append, spanLength, if_neg fun stop => other stop.1,
      ih fun later => inner (mem_cons_of_mem _ later), getLastD_cons, Option.map_map]
    rfl

theorem startsWith_front (here : startsWith literal text = true) :
    ∃ front, text = front ++ text.drop literal.length ∧ front.length = literal.length ∧
      front.map asciiToLower = literal.map asciiToLower := by
  have bound := startsWith_length here
  rw [startsWith, strncasecmpEq, beq_iff_eq, take_length] at here
  refine ⟨text.take literal.length, (take_append_drop _ _).symm, ?_, here⟩
  rw [length_take]
  omega

theorem not_mem_of_lower {front : Bytes}
    (same : front.map asciiToLower = literal.map asciiToLower) {byte : UInt8}
    (absent : asciiToLower byte ∉ literal.map asciiToLower) : byte ∉ front := by
  intro member
  apply absent
  rw [← same]
  exact List.mem_map_of_mem member

theorem spanLength_literal (here : startsWith literal text = true)
    (inner : asciiToLower 62 ∉ literal.map asciiToLower)
    (quoted : (literal.map asciiToLower).getLast? = some 34) (before : UInt8) :
    ∃ last, last ≠ 32 ∧ spanLength before text =
      (spanLength last (text.drop literal.length)).map (· + literal.length) := by
  obtain ⟨front, split, length, same⟩ := startsWith_front here
  have passed := spanLength_front (not_mem_of_lower same inner) before
    (text.drop literal.length)
  rw [← split, length] at passed
  refine ⟨front.getLastD before, ?_, passed⟩
  intro blank
  have lower : (front.map asciiToLower).getLastD (asciiToLower before) = asciiToLower 32 := by
    rw [getLastD_map, blank]
  rw [same, getLastD_eq_getLast?, quoted] at lower
  have wrong : (34 : UInt8) = asciiToLower 32 := lower
  exact absurd wrong (by decide)

theorem blanks_last {blanks : Bytes} (blank : ∀ byte ∈ blanks, byte = 32) (nonempty : blanks ≠ [])
    (before : UInt8) : blanks.getLastD before = 32 := by
  cases blanks with
  | nil => exact absurd rfl nonempty
  | cons first others =>
    rw [getLastD_cons]
    exact blank _ getLastD_mem_cons

theorem blanks_blank (text : Bytes) : ∀ byte ∈ text.takeWhile (· == 32), byte = 32 := by
  intro byte member
  exact beq_iff_eq.mp (mem_takeWhile_imp (p := (· == 32)) member)

theorem spanLength_blanks (before : UInt8) (text : Bytes) :
    spanLength before text =
      (spanLength ((text.takeWhile (· == 32)).getLastD before) (text.dropWhile (· == 32))).map
        (· + (text.takeWhile (· == 32)).length) := by
  have inner : 62 ∉ text.takeWhile (· == 32) :=
    fun member => absurd (blanks_blank text _ member) (by decide)
  have passed := spanLength_front inner before (text.dropWhile (· == 32))
  rw [takeWhile_append_dropWhile] at passed
  exact passed

theorem spanLength_attribute (here : startsWith literal (text.dropWhile (· == 32)) = true)
    (inner : asciiToLower 62 ∉ literal.map asciiToLower)
    (quoted : (literal.map asciiToLower).getLast? = some 34) (before : UInt8) :
    ∃ count last, advance literal.length (text.dropWhile (· == 32)) = .ok (text.drop count) ∧
      literal.length ≤ count ∧ last ≠ 32 ∧
      spanLength before text = (spanLength last (text.drop count)).map (· + count) := by
  obtain ⟨last, inside, same⟩ := spanLength_literal here inner quoted
    ((text.takeWhile (· == 32)).getLastD before)
  refine ⟨(text.takeWhile (· == 32)).length + literal.length, last, ?_, Nat.le_add_left _ _,
    inside, ?_⟩
  · rw [advance_inside (startsWith_length here), drop_blanks, drop_drop]
  · rw [spanLength_blanks, same, Option.map_map, drop_blanks, drop_drop]
    congr 1
    funext length
    simp only [Function.comp_apply]
    omega

theorem spanTurn_follows (unescapeHtml : Bytes → Bytes) (direction before : UInt8)
    (nonempty : text ≠ []) (inTag : text.head? ≠ some 62) :
    (spanLength before text = none ∧
      spanTurn unescapeHtml direction text = .error .pastTerminator) ∨
    ∃ next count last, spanTurn unescapeHtml direction text = .ok (next, text.drop count) ∧
      0 < count ∧ last ≠ 32 ∧
      spanLength before text = (spanLength last (text.drop count)).map (· + count) := by
  rw [spanTurn]
  by_cases rtl : startsWith (ascii "dir=\"rtl\"") (text.dropWhile (· == 32)) = true
  · obtain ⟨count, last, moved, long, inside, same⟩ :=
      spanLength_attribute rtl (by decide) (by decide) before
    have moved : advance 9 (text.dropWhile (· == 32)) = .ok (text.drop count) := moved
    refine .inr ⟨49, count, last, ?_, Nat.lt_of_lt_of_le (by decide) long, inside, same⟩
    rw [if_pos rtl, moved]
    rfl
  · by_cases style : startsWith (ascii "style=\"") (text.dropWhile (· == 32)) = true
    · obtain ⟨count, last, moved, long, inside, same⟩ :=
        spanLength_attribute style (by decide) (by decide) before
      have moved : advance 7 (text.dropWhile (· == 32)) = .ok (text.drop count) := moved
      refine .inr ⟨styleDirection unescapeHtml direction (text.drop count), count, last, ?_,
        Nat.lt_of_lt_of_le (by decide) long, inside, same⟩
      rw [if_neg rtl, if_pos style, moved]
      rfl
    · rw [if_neg rtl, if_neg style, spanLength_blanks]
      have split := takeWhile_append_dropWhile (p := (· == (32 : UInt8))) (l := text)
      cases css : text.dropWhile (· == 32) with
      | nil =>
        rw [css, append_nil] at split
        have last := blanks_last (blanks_blank text) (by rw [split]; exact nonempty) before
        refine .inl ⟨?_, rfl⟩
        rw [last]
        rfl
      | cons byte rest =>
        have solid : byte ≠ 32 := by
          have stopped := head?_dropWhile_not (· == (32 : UInt8)) text
          rw [css] at stopped
          simpa using stopped
        have inner : ¬(byte = 62 ∧ (text.takeWhile (· == 32)).getLastD before ≠ 32) := by
          rintro ⟨closes, afterOther⟩
          by_cases unblanked : text.takeWhile (· == 32) = []
          · rw [unblanked, nil_append, css, closes] at split
            exact inTag (by rw [← split]; rfl)
          · exact afterOther (blanks_last (blanks_blank text) unblanked before)
        have behind : rest = text.drop ((text.takeWhile (· == 32)).length + 1) := by
          rw [← drop_drop, ← drop_blanks, css]
          rfl
        refine .inr ⟨direction, (text.takeWhile (· == 32)).length + 1, byte, ?_,
          Nat.succ_pos _, solid, ?_⟩
        · rw [← behind]
          rfl
        · rw [spanLength, if_neg inner, Option.map_map, ← behind]
          congr 1
          funext length
          simp only [Function.comp_apply]
          omega

/-- The loop inside a span tag stops in front of the `>` that ends it, or at the
terminator. -/
theorem spanRounds_follows (unescapeHtml : Bytes → Bytes) {rounds : Nat}
    (enough : text.length < rounds) (direction : UInt8) {before : UInt8} (solid : before ≠ 32) :
    match spanLength before text with
    | some length => ∃ next stop, spanRounds unescapeHtml rounds direction text = .ok (next, stop) ∧
        passGreater stop = .ok (text.drop length)
    | none => spanRounds unescapeHtml rounds direction text = .error .pastTerminator := by
  induction rounds generalizing text direction before with
  | zero => exact absurd enough (Nat.not_lt_zero _)
  | succ rounds ih =>
    rw [spanRounds]
    by_cases stopped : text = [] ∨ text.head? = some 62
    · rw [if_pos stopped]
      cases text with
      | nil =>
        rw [spanLength, if_neg solid]
        exact ⟨direction, [], rfl, rfl⟩
      | cons byte rest =>
        have closes : byte = 62 := by simpa using stopped
        rw [spanLength, if_pos ⟨closes, solid⟩, closes]
        exact ⟨direction, 62 :: rest, rfl, rfl⟩
    · have nonempty : text ≠ [] := fun empty => stopped (.inl empty)
      rw [if_neg stopped]
      obtain ⟨cut, turn⟩ | ⟨next, count, last, turn, moved, inside, same⟩ :=
        spanTurn_follows unescapeHtml direction before nonempty
          fun closes => stopped (.inr closes)
      · rw [cut, turn]
        rfl
      · have shorter : (text.drop count).length < rounds := by
          have size := length_pos_iff.mpr nonempty
          rw [List.length_drop]
          omega
        have later := ih shorter next inside
        rw [turn, same]
        change match (spanLength last (text.drop count)).map (· + count) with
          | some length => ∃ final stop,
              spanRounds unescapeHtml rounds next (text.drop count) = .ok (final, stop) ∧ _
          | none => spanRounds unescapeHtml rounds next (text.drop count) = _
        cases whole : spanLength last (text.drop count) with
        | none =>
          rw [whole] at later
          exact later
        | some length =>
          rw [whole] at later
          obtain ⟨final, stop, done, closed⟩ := later
          rw [drop_drop, Nat.add_comm] at closed
          exact ⟨final, stop, done, closed⟩

theorem spanTag_follows (unescapeHtml : Bytes → Bytes) (room : Room st text)
    (begun : 5 ≤ text.length) :
    PassesPiece (spanTag unescapeHtml st text) ((spanLength 110 (text.drop 5)).map (5 + ·)) text := by
  have loop := spanRounds_follows unescapeHtml (Nat.lt_succ_self (text.drop 5).length)
    st.direction (show (110 : UInt8) ≠ 32 by decide)
  rw [spanTag, advance_inside begun]
  change PassesPiece ((spanRounds unescapeHtml ((text.drop 5).length + 1) st.direction
    (text.drop 5)).bind _) _ _
  cases whole : spanLength 110 (text.drop 5) with
  | none =>
    rw [whole] at loop
    change (spanRounds unescapeHtml ((text.drop 5).length + 1) st.direction
      (text.drop 5)).bind _ = _
    rw [loop]
    rfl
  | some length =>
    rw [whole] at loop
    obtain ⟨next, stop, done, closed⟩ := loop
    rw [drop_drop] at closed
    refine ⟨{ st with direction := next }, ?_, room.drop (5 + length)⟩
    rw [done]
    change (passGreater stop).bind _ = _
    rw [closed]
    rfl

/-! ### The other tags, and entities -/

theorem hrefTag_follows (room : Room st text) (begun : 9 ≤ text.length) :
    PassesPiece (hrefTag st text) (some (hrefLength text)) text := by
  have start : passMailto (text.drop 9) =
      .ok (text.drop (if startsWith (ascii "mailto:") (text.drop 9) then 16 else 9)) := by
    rw [passMailto]
    by_cases mail : startsWith (ascii "mailto:") (text.drop 9) = true
    · have inside : 7 ≤ (text.drop 9).length := startsWith_length mail
      rw [if_pos mail, if_pos mail, advance_inside inside, drop_drop]
    · rw [if_neg mail, if_neg mail]
  rw [hrefTag, advance_inside begun, hrefLength]
  change PassesPiece ((passMailto (text.drop 9)).bind _) _ _
  rw [start]
  generalize (if startsWith (ascii "mailto:") (text.drop 9) then 16 else 9) = from_
  obtain ⟨next, copied, left⟩ := copyUntil_reaches (ascii "\">") (room.drop from_)
  have link := advanceInside_skipUntil (ascii "\">") (text.drop from_)
  rw [drop_drop] at link
  have description := advanceInside_skipUntil (ascii "</a>")
    (text.drop (from_ + throughLength (ascii "\">") (text.drop from_)))
  rw [drop_drop] at description
  refine ⟨next, ?_, ?_⟩
  · change (copyUntil (ascii "\">") st (text.drop from_)).bind _ = _
    rw [copied]
    change (advanceInside (ascii "\">").length
      (skipUntil (ascii "\">") (text.drop from_))).bind _ = _
    rw [link]
    change (advanceInside (ascii "</a>").length (skipUntil (ascii "</a>")
      (text.drop (from_ + throughLength (ascii "\">") (text.drop from_))))).bind _ = _
    rw [description]
    rfl
  · rw [Room, List.length_drop]
    rw [Room, skipUntil_eq, List.length_drop, List.length_drop] at left
    have bound := untilLength_le (ascii "\">") (text.drop from_)
    rw [List.length_drop] at bound
    have through : throughLength (ascii "\">") (text.drop from_) ≥
        untilLength (ascii "\">") (text.drop from_) := by
      rw [throughLength, List.length_drop]
      omega
    omega

theorem lower_greater (byte : UInt8) : asciiToLower byte = 62 ↔ byte = 62 := by
  rw [asciiToLower]
  grind

theorem skipUntil_greater (text : Bytes) :
    skipUntil (ascii ">") text = text.dropWhile (· != 62) := by
  induction text with
  | nil => rfl
  | cons byte rest ih =>
    have here : startsWith (ascii ">") (byte :: rest) = (byte == 62) := by
      change ([asciiToLower byte] == [62]) = (byte == 62)
      rw [Bool.eq_iff_iff, beq_iff_eq, beq_iff_eq, singleton_inj]
      exact lower_greater byte
    rw [skipUntil, dropWhile_cons, here, ih]
    by_cases closes : byte = 62
    · rw [closes]
      rfl
    · rw [if_neg (by simpa using closes), if_pos (bne_iff_ne.mpr closes)]

theorem effect_follows (room : Room st text) (inside : 3 ≤ text.length) (letter : UInt8) :
    PassesPiece (do .ok (addEffect letter st, ← advance 3 text)) (some 3) text := by
  rw [advance_inside inside]
  refine ⟨addEffect letter st, rfl, ?_⟩
  rw [addEffect]
  split
  · exact room.drop 3
  · exact room.drop 3

theorem breakTag_follows (room : Room st text) (inside : 4 ≤ text.length) :
    PassesPiece (do
      let st ← put 13 st
      let st ← put 10 st
      let rest ← advance 4 text
      .ok (st, rest)) (some 4) text := by
  obtain ⟨first, written, left⟩ := put_room 13 room (by omega)
  obtain ⟨second, again, left⟩ := put_room 10 left (by omega)
  rw [written]
  change PassesPiece ((put 10 first).bind _) _ _
  rw [again]
  change PassesPiece ((advance 4 text).bind _) _ _
  rw [advance_inside inside]
  refine ⟨second, rfl, ?_⟩
  rw [Room, List.length_drop]
  omega

theorem tagLength_cons (behind : Bytes) :
    tagLength (60 :: behind) =
      if startsWith (ascii "br>") behind then some 4
      else if startsWith (ascii "i>") behind then some 3
      else if startsWith (ascii "b>") behind then some 3
      else if startsWith (ascii "u>") behind then some 3
      else if startsWith (ascii "s>") behind then some 3
      else if startsWith (ascii "a href=\"") behind then some (hrefLength (60 :: behind))
      else if startsWith (ascii "span") behind then
        (spanLength 110 ((60 :: behind).drop 5)).map (5 + ·)
      else if startsWith (ascii "font") behind then fontTagLength (60 :: behind)
      else some (throughLength (ascii ">") (60 :: behind)) := by
  have opened (name : Bytes) : startsWith (60 :: name) (60 :: behind) = startsWith name behind :=
    startsWith_cons 60 name behind
  have effects : ([ascii "<i>", ascii "<b>", ascii "<u>", ascii "<s>"].any
      (startsWith · (60 :: behind))) = (startsWith (ascii "i>") behind ||
        (startsWith (ascii "b>") behind || (startsWith (ascii "u>") behind ||
          (startsWith (ascii "s>") behind || false)))) := by
    rw [← opened, ← opened, ← opened, ← opened]
    rfl
  rw [tagLength, effects, ← opened (ascii "br>"), ← opened (ascii "a href=\""),
    ← opened (ascii "span"), ← opened (ascii "font")]
  cases startsWith (ascii "i>") behind <;> cases startsWith (ascii "b>") behind <;>
    cases startsWith (ascii "u>") behind <;> cases startsWith (ascii "s>") behind <;> rfl

theorem tagStep_follows (unescapeHtml : Bytes → Bytes) (room : Room st (60 :: behind)) :
    PassesPiece (tagStep unescapeHtml st (60 :: behind) behind) (tagLength (60 :: behind))
      (60 :: behind) := by
  have long {name : Bytes} (here : startsWith name behind = true) :
      name.length + 1 ≤ (60 :: behind).length := Nat.succ_le_succ (startsWith_length here)
  rw [tagLength_cons, tagStep]
  by_cases breaks : startsWith (ascii "br>") behind = true
  · rw [if_pos breaks, if_pos breaks]
    exact breakTag_follows room (long breaks)
  rw [if_neg breaks, if_neg breaks]
  by_cases italic : startsWith (ascii "i>") behind = true
  · rw [if_pos italic, if_pos italic]
    exact effect_follows room (long italic) 73
  rw [if_neg italic, if_neg italic]
  by_cases bold : startsWith (ascii "b>") behind = true
  · rw [if_pos bold, if_pos bold]
    exact effect_follows room (long bold) 66
  rw [if_neg bold, if_neg bold]
  by_cases underlined : startsWith (ascii "u>") behind = true
  · rw [if_pos underlined, if_pos underlined]
    exact effect_follows room (long underlined) 85
  rw [if_neg underlined, if_neg underlined]
  by_cases struck : startsWith (ascii "s>") behind = true
  · rw [if_pos struck, if_pos struck]
    exact effect_follows room (long struck) 83
  rw [if_neg struck, if_neg struck]
  by_cases linked : startsWith (ascii "a href=\"") behind = true
  · rw [if_pos linked, if_pos linked]
    exact hrefTag_follows room (long linked)
  rw [if_neg linked, if_neg linked]
  by_cases spanned : startsWith (ascii "span") behind = true
  · rw [if_pos spanned, if_pos spanned]
    exact spanTag_follows unescapeHtml room (long spanned)
  rw [if_neg spanned, if_neg spanned]
  by_cases styled : startsWith (ascii "font") behind = true
  · rw [if_pos styled, if_pos styled]
    exact fontTag_follows room (long styled)
  · rw [if_neg styled, if_neg styled, ← skipUntil_greater]
    refine ⟨st, ?_, room.drop _⟩
    change (advanceInside (ascii ">").length (skipUntil (ascii ">") (60 :: behind))).bind _ = _
    rw [advanceInside_skipUntil]
    rfl

theorem entityStep_follows (room : Room st (38 :: behind)) :
    PassesPiece (entityStep st (38 :: behind)) (some (entityLength (38 :: behind)))
      (38 :: behind) := by
  rw [entityStep, entityLength]
  cases found : entities.find? fun entity => startsWith entity.1 (38 :: behind) with
  | none => exact copyByte_reaches room
  | some entity =>
    have here : startsWith entity.1 (38 :: behind) = true :=
      find?_some (p := fun entity : Bytes × UInt8 => startsWith entity.1 (38 :: behind)) found
    have long := startsWith_length here
    have known := mem_of_find?_eq_some found
    have solid : 0 < entity.1.length := by
      revert known
      generalize entity = known
      revert known
      decide
    obtain ⟨next, written, left⟩ := put_room entity.2 room (Nat.succ_pos _)
    refine ⟨next, ?_, ?_⟩
    · change (put entity.2 st).bind _ = _
      rw [written]
      change (advance entity.1.length (38 :: behind)).bind _ = _
      rw [advance_inside long]
      rfl
    · change Room next ((38 :: behind).drop entity.1.length)
      rw [Room, List.length_drop]
      rw [length_cons] at left ⊢
      omega

theorem importStep_follows (unescapeHtml : Bytes → Bytes) {byte : UInt8}
    (room : Room st (byte :: behind)) :
    PassesPiece (importStep unescapeHtml st byte behind) (pieceLength (byte :: behind))
      (byte :: behind) := by
  rw [importStep, pieceLength, head?_cons]
  by_cases tag : byte = 60
  · rw [tag] at room ⊢
    exact tagStep_follows unescapeHtml room
  · rw [if_neg tag, if_neg fun same => tag (Option.some.inj same)]
    by_cases entity : byte = 38
    · rw [entity] at room ⊢
      exact entityStep_follows room
    · rw [if_neg entity, if_neg fun same => entity (Option.some.inj same)]
      exact copyByte_reaches room

/-! ### Whole messages -/

theorem throughLength_pos {stop : Bytes} (solid : stop ≠ []) (nonempty : text ≠ []) :
    0 < throughLength stop text := by
  have stopLength := length_pos_iff.mpr solid
  have textLength := length_pos_iff.mpr nonempty
  rw [throughLength]
  omega

theorem tagLength_pos {length : Nat} (nonempty : text ≠ []) (whole : tagLength text = some length) :
    0 < length := by
  rw [tagLength] at whole
  split at whole
  · cases whole
    decide
  split at whole
  · cases whole
    decide
  split at whole
  · cases whole
    rw [hrefLength]
    split <;> omega
  split at whole
  · obtain ⟨inner, _, rfl⟩ := Option.map_eq_some_iff.mp whole
    omega
  split at whole
  · obtain ⟨inner, _, rfl⟩ := Option.map_eq_some_iff.mp whole
    omega
  · cases whole
    exact throughLength_pos (by decide) nonempty

theorem entityLength_pos (text : Bytes) : 0 < entityLength text := by
  rw [entityLength]
  cases found : entities.find? fun entity => startsWith entity.1 text with
  | none => exact Nat.one_pos
  | some entity =>
    have known := mem_of_find?_eq_some found
    revert known
    generalize entity = known
    revert known
    decide

theorem pieceLength_pos {length : Nat} (nonempty : text ≠ [])
    (whole : pieceLength text = some length) : 0 < length := by
  rw [pieceLength] at whole
  split at whole
  · exact tagLength_pos nonempty whole
  split at whole
  · cases whole
    exact entityLength_pos text
  · cases whole
    exact Nat.one_pos

theorem TagsComplete.inv {length : Nat} (complete : TagsComplete text) (nonempty : text ≠ [])
    (whole : pieceLength text = some length) : TagsComplete (text.drop length) := by
  cases complete with
  | done => exact absurd rfl nonempty
  | piece _ measured later =>
    rw [whole] at measured
    cases measured
    exact later

theorem importRounds_iff (unescapeHtml : Bytes → Bytes) {rounds : Nat} (room : Room st text)
    (enough : text.length < rounds) :
    (∃ final, importRounds unescapeHtml rounds st text = .ok final) ↔ TagsComplete text := by
  induction rounds generalizing st text with
  | zero => exact absurd enough (Nat.not_lt_zero _)
  | succ rounds ih =>
    cases text with
    | nil => exact ⟨fun _ => .done, fun _ => ⟨st, rfl⟩⟩
    | cons byte behind =>
      have turn := importStep_follows unescapeHtml room
      rw [importRounds]
      cases whole : pieceLength (byte :: behind) with
      | none =>
        rw [whole] at turn
        rw [turn]
        constructor
        · intro returned
          obtain ⟨final, returned⟩ := returned
          cases returned
        · intro complete
          cases complete with
          | piece _ measured _ =>
            rw [whole] at measured
            cases measured
      | some length =>
        rw [whole] at turn
        obtain ⟨next, taken, left⟩ := turn
        have positive := pieceLength_pos (cons_ne_nil byte behind) whole
        have shorter : ((byte :: behind).drop length).length < rounds := by
          rw [List.length_drop]
          rw [length_cons] at enough ⊢
          omega
        have later := ih left shorter
        rw [taken]
        exact later.trans ⟨fun complete => .piece (cons_ne_nil _ _) whole complete,
          fun complete => complete.inv (cons_ne_nil _ _) whole⟩

theorem importStart_room (html : Bytes) : Room (importStart html.length) html := by
  rw [Room, importStart]
  simp only [length_replicate]
  omega

/-- The function returns, within its string and its output, exactly where no tag is cut
off. -/
theorem msnImportHtml_returns_iff (unescapeHtml : Bytes → Bytes) (html : Bytes) :
    (∃ attributes msg, msnImportHtml unescapeHtml html = .ok (attributes, msg)) ↔
      TagsComplete (cString html) := by
  rw [← importRounds_iff unescapeHtml (importStart_room (cString html)) (Nat.lt_succ_self _)]
  constructor
  · intro returned
    obtain ⟨attributes, msg, returned⟩ := returned
    rw [msnImportHtml] at returned
    cases rounds : importRounds unescapeHtml ((cString html).length + 1)
        (importStart (cString html).length) (cString html) with
    | ok final => exact ⟨final, rfl⟩
    | error fault =>
      rw [rounds] at returned
      cases returned
  · intro returned
    obtain ⟨final, returned⟩ := returned
    refine ⟨formatAttributes final, final.msg, ?_⟩
    rw [msnImportHtml, returned]
    rfl

/-- A face whose value is not closed: the next cursor is two bytes behind NULL. -/
def unclosedFace : Bytes := ascii "<font face=\"Arial"

theorem unclosedFace_reads_past :
    ¬∃ attributes msg, msnImportHtml id unclosedFace = .ok (attributes, msg) := by
  have failed : msnImportHtml id unclosedFace = .error .pastTerminator := by decide
  rw [failed]
  intro returned
  obtain ⟨attributes, msg, returned⟩ := returned
  cases returned

end Purple.Msn
