/-
Removing the tags of marked-up text in place, from util.c.

The text is changed in the copy that is read: `i` is where it is read and `j` where it is
written.  A read or a write outside the copy makes an operation `none`.  What is written
stays behind what is read, where no entity is shorter than what it stands for.
-/

import Purple.MarkupEntity
import Purple.Mime

namespace Purple.Markup

open CString Mime

structure Strip where
  str2 : Bytes
  i : Nat
  j : Nat
  visible : Bool
  closingTdP : Bool
  cdataCloseTag : Option Bytes
  href : Option Bytes
  hrefSt : Nat
deriving DecidableEq, Repr

def Strip.start (str : Bytes) : Strip where
  str2 := str ++ [0]
  i := 0
  j := 0
  visible := true
  closingTdP := false
  cdataCloseTag := none
  href := none
  hrefSt := 0

def Strip.text (strip : Strip) : Option Bytes :=
  if 0 ∈ strip.str2.drop strip.i then some (cString (strip.str2.drop strip.i)) else none

def Strip.put (strip : Strip) (bytes : Bytes) : Option Strip :=
  if strip.j + bytes.length ≤ strip.str2.length then
    some { strip with
      str2 := strip.str2.take strip.j ++ (bytes ++ strip.str2.drop (strip.j + bytes.length))
      j := strip.j + bytes.length }
  else none

def Strip.label (strip : Strip) (count : Nat) : Bytes := (strip.str2.drop strip.hrefSt).take count

def markTag (strip : Strip) (text : Bytes) : Option Strip :=
  if begins (ascii "<td") text && strip.closingTdP then
    (strip.put [9]).map fun strip => { strip with visible := true }
  else if begins (ascii "</td>") text then
    some { strip with closingTdP := true, visible := false }
  else some { strip with closingTdP := false, visible := true }

/-- The address in a tag; `inside` is the tag behind `<a` and a space. -/
def tagAddress (inside : Bytes) : Option Bytes :=
  (strcasestr (ascii "href=") inside).bind fun offset =>
    let value := inside.drop (offset + 5)
    let quoted := value.head? = some 34 ∨ value.head? = some 39
    let address := if quoted then value.drop 1 else value
    let delim := if quoted then value.headD 0 else 32
    if address = [] then none else some (address.takeWhile (· ≠ delim))

/-- The address is shown unless the text that it belongs to is the same; the bytes that are
    compared were written. -/
def insertHref (strip : Strip) (href : Bytes) : Option Strip :=
  let hrlen := href.length
  let written := strip.j - strip.hrefSt
  if (hrlen ≠ written ∨ strip.label hrlen ≠ href) ∧
      (hrlen ≠ written + 7 ∨ strip.label (hrlen - 7) ≠ href.drop 7) then
    (strip.put ([32, 40] ++ href ++ [41])).map fun strip => { strip with href := none }
  else some strip

def newlineTags : List Bytes := [ascii "<p>", ascii "<tr", ascii "<hr", ascii "<li", ascii "<div"]

def newline (strip : Strip) (text : Bytes) : Bool :=
  (strip.j ≠ 0 && newlineTags.any fun tag => begins tag text) || begins (ascii "<br") text ||
    begins (ascii "</table>") text

def replaceTag (strip : Strip) (text tag : Bytes) : Option Strip :=
  if begins (ascii "<a") text && (text[2]?).any asciiSpace then
    match tagAddress (tag.drop 2) with
    | some address =>
      some { strip with href := some (purpleUnescapeHtml address), hrefSt := strip.j }
    | none => some strip
  else
    match strip.href.filter fun _ => begins (ascii "</a>") text with
    | some href => insertHref strip href
    | none =>
      if newline strip text then strip.put [10]
      else if begins (ascii "<script") text then
        some { strip with cdataCloseTag := some (ascii "</script>") }
      else if begins (ascii "<style") text then
        some { strip with cdataCloseTag := some (ascii "</style>") }
      else some strip

/-- The loop goes on behind the tag, or at the byte that ends it if that is no `>`. -/
def passTag (strip : Strip) (k : Nat) : Option Strip :=
  (strip.str2[k]?).map fun byte : UInt8 => { strip with i := if byte = 60 ∨ byte = 0 then k else k + 1 }

def passChar (strip : Strip) (text : Bytes) : Option Strip :=
  match purpleMarkupUnescapeEntity text with
  | some (ent, entlen) => (strip.put ent).map fun strip => { strip with i := strip.i + entlen }
  | none =>
    let byte := text.headD 0
    let shown := if strip.visible then strip.put [if asciiSpace byte then 32 else byte] else some strip
    shown.map fun strip => { strip with i := strip.i + 1 }

/-- A `<` outside of scripts and styles. -/
def passOpening (strip : Strip) : Option Strip := do
  let text ← strip.text
  match text.drop 1 with
  | [] => passChar strip text
  | byte :: behind =>
    if asciiSpace byte then passChar { strip with visible := true } text
    else
      let tag := (byte :: behind).takeWhile fun byte => byte ≠ 60 && byte ≠ 62
      let strip ← replaceTag strip text tag
      passTag strip (strip.i + 1 + tag.length)

/-- A `<` in a script or a style. -/
def passCdata (strip : Strip) (close text : Bytes) : Strip :=
  if begins close text then { strip with i := strip.i + close.length, cdataCloseTag := none }
  else { strip with i := strip.i + 1 }

/-- A round, or `some none` at the NUL. -/
def stripStep (strip : Strip) : Option (Option Strip) := do
  let text ← strip.text
  match text with
  | [] => return none
  | byte :: _ =>
    if byte = 60 then
      match strip.cdataCloseTag with
      | some close => return some (passCdata strip close text)
      | none => ((markTag strip text).bind passOpening).map some
    else if strip.cdataCloseTag.isSome then return some { strip with i := strip.i + 1 }
    else
      (passChar (if asciiSpace byte then strip else { strip with visible := true }) text).map some

def stripRounds : Nat → Strip → Option Strip
  | 0, _ => none
  | rounds + 1, strip =>
    match stripStep strip with
    | none => none
    | some none => strip.put [0]
    | some (some next) => stripRounds rounds next

/-- `rounds` bounds the rounds of the loop. -/
def purpleMarkupStripHtml (rounds : Nat) (str : Bytes) : Option Bytes :=
  (stripRounds rounds (.start str)).map fun strip => cString strip.str2

open List Option

inductive Stripping (str : Bytes) : Strip → Prop
  | start : Stripping str (.start str)
  | step {strip next : Strip} (before : Stripping str strip)
      (stepped : stripStep strip = some (some next)) : Stripping str next

/-- What is kept between two rounds: the bytes that are not read yet are those of the text,
    and what is written, or may be written of an address, ends before them. -/
structure Kept (str : Bytes) (strip : Strip) : Prop where
  length : strip.str2.length = str.length + 1
  unread : strip.str2.drop strip.i = str.drop strip.i ++ [0]
  inside : strip.i ≤ str.length
  behind : strip.j ≤ strip.i
  cell : strip.closingTdP = true → strip.j + 1 ≤ strip.i
  saved : ∀ href, strip.href = some href → strip.j + href.length + 8 ≤ strip.i
  close : ∀ close, strip.cdataCloseTag = some close → close ≠ []

/-- What is kept within a tag, behind which a tab may have been written. -/
structure Marked (str : Bytes) (strip : Strip) : Prop where
  length : strip.str2.length = str.length + 1
  unread : strip.str2.drop strip.i = str.drop strip.i ++ [0]
  inside : strip.i ≤ str.length
  behind : strip.j ≤ strip.i
  saved : ∀ href, strip.href = some href → strip.j + href.length + 7 ≤ strip.i
  close : ∀ close, strip.cdataCloseTag = some close → close ≠ []
  plain : (∃ byte rest, (str.drop strip.i).drop 1 = byte :: rest ∧ asciiSpace byte = false) ∨
    Kept str strip

theorem put_some {strip : Strip} {bytes : Bytes} {limit : Nat}
    (room : strip.j + bytes.length ≤ limit) (inside : limit ≤ strip.str2.length) :
    ∃ written, strip.put bytes =
        some { strip with str2 := written, j := strip.j + bytes.length } ∧
      written.length = strip.str2.length ∧ ∀ at_, limit ≤ at_ → written.drop at_ = strip.str2.drop at_ := by
  have fits : strip.j + bytes.length ≤ strip.str2.length := Nat.le_trans room inside
  have front : (strip.str2.take strip.j ++ bytes).length = strip.j + bytes.length := by
    rw [length_append, length_take]
    omega
  refine ⟨_, if_pos fits, ?_, ?_⟩
  · rw [← append_assoc, length_append, front, List.length_drop]
    omega
  · intro at_ later
    rw [← append_assoc, drop_append, drop_of_length_le (by omega), nil_append, front,
      drop_drop]
    congr 1
    omega

theorem text_of_unread {str : Bytes} {strip : Strip} (noNul : 0 ∉ str)
    (unread : strip.str2.drop strip.i = str.drop strip.i ++ [0]) :
    strip.text = some (str.drop strip.i) := by
  have clean : 0 ∉ str.drop strip.i := fun member => noNul (mem_of_mem_drop member)
  have whole : cString (str.drop strip.i ++ [0]) = str.drop strip.i := by
    rw [cString_line clean]
    exact append_nil _
  rw [Strip.text, unread, if_pos (mem_append_right _ mem_cons_self), whole]

theorem unread_later {str str2 : Bytes} {i at_ : Nat} (unread : str2.drop i = str.drop i ++ [0])
    (later : i ≤ at_) (inside : at_ ≤ str.length) : str2.drop at_ = str.drop at_ ++ [0] := by
  obtain ⟨more, rfl⟩ := Nat.exists_eq_add_of_le later
  rw [← drop_drop, unread, drop_append_of_le_length, drop_drop]
  rw [List.length_drop]
  omega

theorem begins_getElem {literal text : Bytes} (found : begins literal text = true) {index : Nat}
    {char : UInt8} (known : literal[index]? = some char) :
    ∃ byte, text[index]? = some byte ∧ asciiToLower byte = asciiToLower char := by
  unfold begins strncasecmpEq at found
  have same := congrArg (fun list : Bytes => list[index]?) (eq_of_beq found)
  obtain ⟨within, _⟩ := List.getElem?_eq_some_iff.mp known
  rw [getElem?_map, getElem?_map, getElem?_take_of_lt within,
    getElem?_take_of_lt within, known, map_some] at same
  exact map_eq_some_iff.mp same

theorem space_of_lower {byte : UInt8} (space : asciiSpace byte = true) : asciiToLower byte = byte := by
  have low : byte ≤ 32 := by
    unfold asciiSpace at space
    rcases Bool.or_eq_true_iff.mp space with same | range
    · rw [of_decide_eq_true same]
      decide
    · have upper := of_decide_eq_true (Bool.and_eq_true_iff.mp (Bool.and_eq_true_iff.mp range).1).2
      exact UInt8.le_trans upper (by decide)
  rw [asciiToLower, if_neg]
  intro range
  exact absurd (UInt8.le_trans range.1 low) (by decide)

theorem begins_solid {literal text : Bytes} (char : UInt8) (found : begins literal text = true)
    (known : literal[1]? = some char) (solid : asciiSpace (asciiToLower char) = false) :
    ∃ byte rest, text.drop 1 = byte :: rest ∧ asciiSpace byte = false := by
  obtain ⟨byte, second, same⟩ := begins_getElem found known
  have tail : text.drop 1 = byte :: text.drop 2 := by
    obtain ⟨within, is_⟩ := List.getElem?_eq_some_iff.mp second
    rw [drop_eq_getElem_cons within, is_]
  refine ⟨byte, text.drop 2, tail, ?_⟩
  cases space : asciiSpace byte with
  | false => rfl
  | true =>
    rw [space_of_lower space] at same
    rw [← same, space] at solid
    cases solid

variable {str : Bytes}

theorem Kept.paced {strip next : Strip} (kept : Kept str strip)
    (length : next.str2.length = strip.str2.length)
    (unread : next.str2.drop next.i = strip.str2.drop next.i) (further : strip.i ≤ next.i)
    (inside : next.i ≤ str.length) (pace : next.j + strip.i ≤ strip.j + next.i)
    (cell : next.closingTdP = strip.closingTdP) (href : next.href = strip.href)
    (close : ∀ close, next.cdataCloseTag = some close → close ≠ []) : Kept str next where
  length := length.trans kept.length
  unread := unread.trans (unread_later kept.unread further inside)
  inside := inside
  behind := by
    have behind := kept.behind
    omega
  cell := by
    intro closing
    rw [cell] at closing
    have room := kept.cell closing
    omega
  saved := by
    intro address known
    rw [href] at known
    have room := kept.saved address known
    omega
  close := close

theorem passChar_kept {strip : Strip} (kept : Kept str strip) (fit : EntitiesFit str)
    (more : strip.i < str.length) :
    ∃ next, passChar strip (str.drop strip.i) = some next ∧ Kept str next ∧ strip.i < next.i := by
  have behind := kept.behind
  have length := kept.length
  unfold passChar
  cases found : purpleMarkupUnescapeEntity (str.drop strip.i) with
  | some entity =>
    obtain ⟨ent, entlen⟩ := entity
    have bound := fit _ (drop_suffix strip.i str).isInfix ent entlen found
    have lengths := entity_length found
    rw [List.length_drop] at lengths
    have room : strip.j + ent.length ≤ strip.i + entlen := by omega
    obtain ⟨written, put, size, same⟩ := put_some room (by omega)
    dsimp only
    rw [put, map_some]
    refine ⟨_, rfl, ?_, by dsimp only; omega⟩
    exact kept.paced size (same _ (Nat.le_refl _)) (by dsimp only; omega) (by dsimp only; omega)
      (by dsimp only; omega) rfl rfl kept.close
  | none =>
    dsimp only
    by_cases visible : strip.visible
    · generalize (if asciiSpace ((str.drop strip.i).headD 0) then 32
        else (str.drop strip.i).headD 0) = byte
      have room : strip.j + [byte].length ≤ strip.i + 1 := by
        rw [length_singleton]
        omega
      obtain ⟨written, put, size, same⟩ := put_some room (by omega)
      rw [if_pos visible, put, map_some]
      refine ⟨_, rfl, ?_, by dsimp only; omega⟩
      exact kept.paced size (same _ (Nat.le_refl _)) (by dsimp only; omega) (by dsimp only; omega)
        (by dsimp only; rw [length_singleton]; omega) rfl rfl kept.close
    · rw [if_neg visible, map_some]
      refine ⟨_, rfl, ?_, by dsimp only; omega⟩
      exact kept.paced rfl rfl (by dsimp only; omega) (by dsimp only; omega) (by dsimp only; omega)
        rfl rfl kept.close

/-! ### Tags -/

theorem markTag_marked {strip : Strip} (kept : Kept str strip) :
    ∃ next, markTag strip (str.drop strip.i) = some next ∧ Marked str next ∧ next.i = strip.i := by
  have behind := kept.behind
  have length := kept.length
  have inside := kept.inside
  unfold markTag
  by_cases cell : (begins (ascii "<td") (str.drop strip.i) && strip.closingTdP) = true
  · obtain ⟨opens, closing⟩ := Bool.and_eq_true_iff.mp cell
    have room : strip.j + [(9 : UInt8)].length ≤ strip.i := kept.cell closing
    obtain ⟨written, put, size, same⟩ := put_some room (by omega)
    rw [if_pos cell, put, map_some]
    refine ⟨_, rfl, ⟨size.trans length, (same _ (Nat.le_refl _)).trans kept.unread, inside, room, ?_,
      kept.close, Or.inl (begins_solid 116 opens rfl rfl)⟩, rfl⟩
    intro href known
    have saved := kept.saved href known
    dsimp only
    rw [length_singleton]
    omega
  · rw [if_neg cell]
    have saved : ∀ href, strip.href = some href → strip.j + href.length + 7 ≤ strip.i :=
      fun href known => Nat.le_of_succ_le (kept.saved href known)
    split
    · rename_i closes
      exact ⟨_, rfl, ⟨length, kept.unread, inside, behind, saved, kept.close,
        Or.inl (begins_solid 47 closes rfl rfl)⟩, rfl⟩
    · exact ⟨_, rfl, ⟨length, kept.unread, inside, behind, saved, kept.close,
        Or.inr ⟨length, kept.unread, inside, behind, (fun closing => nomatch closing), kept.saved,
          kept.close⟩⟩, rfl⟩

theorem tagAddress_length {tag address : Bytes} (found : tagAddress (tag.drop 2) = some address) :
    address.length + 7 ≤ tag.length ∧ address <:+: tag := by
  obtain ⟨offset, -, found⟩ := bind_eq_some_iff.mp found
  dsimp only at found
  generalize quoted : (if ((tag.drop 2).drop (offset + 5)).head? = some 34 ∨
    ((tag.drop 2).drop (offset + 5)).head? = some 39 then
      ((tag.drop 2).drop (offset + 5)).drop 1 else (tag.drop 2).drop (offset + 5)) = value at found
  have ends : value <:+ (tag.drop 2).drop (offset + 5) := by
    rw [← quoted]
    split
    · exact drop_suffix 1 _
    · exact suffix_rfl
  split at found
  · cases found
  · rename_i some_
    have front := takeWhile_prefix (fun byte => decide (byte ≠ if
      ((tag.drop 2).drop (offset + 5)).head? = some 34 ∨
        ((tag.drop 2).drop (offset + 5)).head? = some 39 then
          ((tag.drop 2).drop (offset + 5)).headD 0 else 32)) (l := value)
    rw [Option.some.inj found] at front
    have size := ends.length_le
    have positive := length_pos_iff.mpr some_
    have shorter := front.length_le
    simp only [List.length_drop] at size
    refine ⟨by omega, front.isInfix.trans (ends.isInfix.trans ?_)⟩
    rw [drop_drop]
    exact (drop_suffix _ _).isInfix

structure Replaced (str : Bytes) (strip next : Strip) (k : Nat) : Prop where
  place : next.i = strip.i
  length : next.str2.length = str.length + 1
  unread : next.str2.drop k = str.drop k ++ [0]
  behind : next.j + 1 ≤ k
  saved : ∀ href, next.href = some href → next.j + href.length + 8 ≤ k
  close : ∀ close, next.cdataCloseTag = some close → close ≠ []

theorem insertHref_replaced {strip : Strip} {href : Bytes} {k : Nat} (marked : Marked str strip)
    (known : strip.href = some href) (beyond : strip.i + 1 ≤ k) (inside : k ≤ str.length) :
    ∃ next, insertHref strip href = some next ∧ Replaced str strip next k := by
  have saved := marked.saved href known
  have length := marked.length
  have unread := unread_later marked.unread (Nat.le_of_succ_le beyond) inside
  unfold insertHref
  dsimp only
  split
  · have size : ([32, 40] ++ href ++ [41] : Bytes).length = href.length + 3 := by
      rw [length_append, length_append]
      change 2 + href.length + 1 = href.length + 3
      omega
    obtain ⟨written, put, sized, same⟩ := @put_some strip ([32, 40] ++ href ++ [41]) strip.i
      (by omega) (by have inside := marked.inside; omega)
    rw [put, map_some]
    refine ⟨_, rfl, rfl, sized.trans length, (same _ (Nat.le_of_succ_le beyond)).trans unread, ?_,
      (fun _ none => nomatch none), marked.close⟩
    dsimp only
    omega
  · refine ⟨strip, rfl, rfl, length, unread, ?_, ?_, marked.close⟩
    · have behind := marked.behind
      omega
    · intro other same
      rw [known] at same
      rw [← Option.some.inj same]
      omega

theorem newline_second {strip : Strip} {text : Bytes} (starts : newline strip text = true) :
    ∃ byte rest, text.drop 1 = byte :: rest ∧ byte ≠ 60 ∧ byte ≠ 62 := by
  have second : ∀ literal : Bytes, begins literal text = true →
      (∃ char, literal[1]? = some char ∧ asciiToLower char ≠ 60 ∧ asciiToLower char ≠ 62) →
      ∃ byte rest, text.drop 1 = byte :: rest ∧ byte ≠ 60 ∧ byte ≠ 62 := by
    intro literal found known
    obtain ⟨char, known, notOpen, notClose⟩ := known
    obtain ⟨byte, is_, same⟩ := begins_getElem found known
    obtain ⟨within, value⟩ := List.getElem?_eq_some_iff.mp is_
    refine ⟨byte, text.drop 2, ?_, ?_, ?_⟩
    · rw [drop_eq_getElem_cons within, value]
    · rintro rfl
      exact notOpen same.symm
    · rintro rfl
      exact notClose same.symm
  simp only [newline, newlineTags, Bool.or_eq_true, Bool.and_eq_true, List.any_eq_true] at starts
  rcases starts with (⟨-, literal, member, found⟩ | found) | found
  · apply second literal found
    simp only [mem_cons, not_mem_nil, or_false] at member
    rcases member with rfl | rfl | rfl | rfl | rfl
    · exact ⟨112, rfl, by decide, by decide⟩
    · exact ⟨116, rfl, by decide, by decide⟩
    · exact ⟨104, rfl, by decide, by decide⟩
    · exact ⟨108, rfl, by decide, by decide⟩
    · exact ⟨100, rfl, by decide, by decide⟩
  · exact second _ found ⟨98, rfl, by decide, by decide⟩
  · exact second _ found ⟨47, rfl, by decide, by decide⟩

theorem replaceTag_replaced {strip : Strip} {tag : Bytes} (marked : Marked str strip)
    (fit : EntitiesFit str)
    (isTag : tag = ((str.drop strip.i).drop 1).takeWhile fun byte => byte ≠ 60 && byte ≠ 62)
    (inside : strip.i + 1 + tag.length ≤ str.length) :
    ∃ next, replaceTag strip (str.drop strip.i) tag = some next ∧
      Replaced str strip next (strip.i + 1 + tag.length) := by
  have behind := marked.behind
  have unread := unread_later marked.unread (show strip.i ≤ strip.i + 1 + tag.length by omega) inside
  have kept : Replaced str strip strip (strip.i + 1 + tag.length) := by
    refine ⟨rfl, marked.length, unread, by omega, ?_, marked.close⟩
    intro href known
    have saved := marked.saved href known
    omega
  have closes : ∀ close, close ≠ [] → Replaced str strip { strip with cdataCloseTag := some close }
      (strip.i + 1 + tag.length) := by
    intro close some_
    refine ⟨rfl, marked.length, unread, by dsimp only; omega, kept.saved, ?_⟩
    intro other same
    rw [← Option.some.inj same]
    exact some_
  unfold replaceTag
  split
  · cases found : tagAddress (tag.drop 2) with
    | none => exact ⟨strip, rfl, kept⟩
    | some address =>
      obtain ⟨shorter, part⟩ := tagAddress_length found
      have within : tag <:+: str := by
        rw [isTag]
        exact ( takeWhile_prefix _).isInfix.trans ((drop_suffix _ _).isInfix.trans
          (drop_suffix _ _).isInfix)
      have unescaped := purpleUnescapeHtml_length (fit.part (part.trans within))
      refine ⟨_, rfl, rfl, marked.length, unread, by dsimp only; omega, ?_, marked.close⟩
      intro href same
      rw [← Option.some.inj same]
      dsimp only
      omega
  · cases found : strip.href.filter fun _ => begins (ascii "</a>") (str.drop strip.i) with
    | some href =>
      exact insertHref_replaced marked (filter_eq_some_iff.mp found).1 (by omega) inside
    | none =>
      dsimp only
      split
      · rename_i starts
        obtain ⟨byte, rest, second, notOpen, notClose⟩ := newline_second starts
        have positive : 1 ≤ tag.length := by
          have solid : (decide (byte ≠ 60) && decide (byte ≠ 62)) = true := by
            rw [Bool.and_eq_true]
            exact ⟨decide_eq_true notOpen, decide_eq_true notClose⟩
          rw [isTag, second, takeWhile_cons, if_pos solid]
          exact Nat.succ_pos _
        obtain ⟨written, put, size, same⟩ := @put_some strip [10] (strip.i + 1 + tag.length)
          (by rw [length_singleton]; omega)
          (by rw [marked.length]; omega)
        rw [put]
        refine ⟨_, rfl, rfl, size.trans marked.length, (same _ (Nat.le_refl _)).trans unread, ?_, ?_,
          marked.close⟩
        · dsimp only
          rw [length_singleton]
          omega
        · intro href known
          have saved := marked.saved href known
          dsimp only
          rw [length_singleton]
          omega
      · split
        · exact ⟨_, rfl, closes _ (by decide)⟩
        · split
          · exact ⟨_, rfl, closes _ (by decide)⟩
          · exact ⟨strip, rfl, kept⟩

/-! ### A round -/

theorem passTag_kept {strip next : Strip} {k : Nat} (replaced : Replaced str strip next k)
    (beyond : strip.i + 1 ≤ k) (inside : k ≤ str.length) :
    ∃ passed, passTag next k = some passed ∧ Kept str passed ∧ strip.i < passed.i := by
  have within : k < next.str2.length := by
    rw [replaced.length]
    exact Nat.lt_succ_of_le inside
  have kept : ∀ at_, k ≤ at_ → at_ ≤ str.length → Kept str { next with i := at_ } := by
    intro at_ later most
    have behind := replaced.behind
    refine ⟨replaced.length, unread_later replaced.unread later most, most, by dsimp only; omega,
      fun _ => by dsimp only; omega, ?_, replaced.close⟩
    intro href known
    have saved := replaced.saved href known
    dsimp only
    omega
  rw [passTag, getElem?_eq_getElem within, map_some]
  refine ⟨_, rfl, ?_⟩
  split
  · exact ⟨kept k (Nat.le_refl _) inside, beyond⟩
  · rename_i going
    have more : k < str.length := by
      apply Nat.lt_of_le_of_ne inside
      intro last
      have head := congrArg List.head? replaced.unread
      have nothing : str.drop k = [] := drop_of_length_le (Nat.le_of_eq last.symm)
      rw [head?_drop, getElem?_eq_getElem within, nothing] at head
      exact going (Or.inr (Option.some.inj head))
    exact ⟨kept (k + 1) (Nat.le_succ _) more, Nat.lt_succ_of_lt beyond⟩

theorem passOpening_kept {strip : Strip} (marked : Marked str strip) (noNul : 0 ∉ str)
    (fit : EntitiesFit str) (more : strip.i < str.length) :
    ∃ next, passOpening strip = some next ∧ Kept str next ∧ strip.i < next.i := by
  unfold passOpening
  rw [text_of_unread noNul marked.unread]
  simp only [bind_eq_bind, bind_some]
  cases second : (str.drop strip.i).drop 1 with
  | nil =>
    rcases marked.plain with ⟨byte, rest, same, -⟩ | kept
    · rw [second] at same
      cases same
    · exact passChar_kept kept fit more
  | cons byte rest =>
    dsimp only
    by_cases space : asciiSpace byte = true
    · rw [if_pos space]
      rcases marked.plain with ⟨other, later, same, solid⟩ | kept
      · rw [second] at same
        cases same
        rw [space] at solid
        cases solid
      · have shown : Kept str { strip with visible := true } :=
          ⟨kept.length, kept.unread, kept.inside, kept.behind, kept.cell, kept.saved, kept.close⟩
        exact passChar_kept shown fit more
    · rw [if_neg space]
      generalize isTag : (byte :: rest).takeWhile (fun byte => byte ≠ 60 && byte ≠ 62) = tag
      have length := congrArg List.length second
      have shorter := (@takeWhile_sublist _ (byte :: rest) fun byte =>
        byte ≠ 60 && byte ≠ 62).length_le
      rw [isTag] at shorter
      rw [List.length_drop, List.length_drop] at length
      have inside : strip.i + 1 + tag.length ≤ str.length := by omega
      rw [← second] at isTag
      obtain ⟨next, replaced, ends⟩ := replaceTag_replaced marked fit isTag.symm inside
      rw [replaced, bind_some, ends.place]
      exact passTag_kept ends (by omega) inside

theorem passCdata_kept {strip : Strip} {close : Bytes} (kept : Kept str strip)
    (inScript : strip.cdataCloseTag = some close) (more : strip.i < str.length) :
    Kept str (passCdata strip close (str.drop strip.i)) ∧
      strip.i < (passCdata strip close (str.drop strip.i)).i := by
  have positive := length_pos_iff.mpr (kept.close close inScript)
  unfold passCdata
  split
  · rename_i closes
    have inside := begins_length closes
    rw [List.length_drop] at inside
    exact ⟨kept.paced rfl rfl (by dsimp only; omega) (by dsimp only; omega) (by dsimp only; omega) rfl rfl
      (fun _ none => nomatch none), by dsimp only; omega⟩
  · exact ⟨kept.paced rfl rfl (by dsimp only; omega) (by dsimp only; omega) (by dsimp only; omega) rfl rfl
      kept.close, by dsimp only; omega⟩

theorem stripStep_kept {strip : Strip} (kept : Kept str strip) (noNul : 0 ∉ str)
    (fit : EntitiesFit str) :
    stripStep strip = some none ∨
      ∃ next, stripStep strip = some (some next) ∧ Kept str next ∧ strip.i < next.i := by
  unfold stripStep
  rw [text_of_unread noNul kept.unread]
  simp only [bind_eq_bind, bind_some]
  cases text : str.drop strip.i with
  | nil => exact Or.inl rfl
  | cons byte rest =>
    have more : strip.i < str.length := by
      have length := congrArg List.length text
      rw [List.length_drop, length_cons] at length
      omega
    refine Or.inr ?_
    dsimp only
    rw [← text]
    by_cases opens : byte = 60
    · rw [if_pos opens]
      cases inScript : strip.cdataCloseTag with
      | some close => exact ⟨_, rfl, passCdata_kept kept inScript more⟩
      | none =>
        obtain ⟨marked, done, isMarked, place⟩ := markTag_marked kept
        obtain ⟨next, passed, keeps, further⟩ :=
          passOpening_kept isMarked noNul fit (by rw [place]; exact more)
        dsimp only
        rw [done, bind_some, passed, map_some]
        exact ⟨next, rfl, keeps, place ▸ further⟩
    · rw [if_neg opens]
      split
      · exact ⟨_, rfl, kept.paced rfl rfl (by dsimp only; omega) (by dsimp only; omega)
          (by dsimp only; omega) rfl rfl kept.close, by dsimp only; omega⟩
      · obtain ⟨shown, isShown, place, keeps⟩ : ∃ shown, (if asciiSpace byte then strip
            else { strip with visible := true }) = shown ∧ shown.i = strip.i ∧ Kept str shown := by
          split
          · exact ⟨strip, rfl, rfl, kept⟩
          · exact ⟨_, rfl, rfl, kept.length, kept.unread, kept.inside, kept.behind, kept.cell,
              kept.saved, kept.close⟩
        obtain ⟨next, passed, after, further⟩ := passChar_kept keeps fit (by rw [place]; exact more)
        rw [place] at passed further
        rw [isShown, passed, map_some]
        exact ⟨next, rfl, after, further⟩

theorem stripping_kept {strip : Strip} (noNul : 0 ∉ str) (fit : EntitiesFit str)
    (reached : Stripping str strip) : Kept str strip := by
  induction reached with
  | start =>
    exact ⟨length_append, rfl, Nat.zero_le _, Nat.le_refl _, (fun closing => nomatch closing),
      (fun _ none => nomatch none), fun _ none => nomatch none⟩
  | step before stepped ih =>
    rcases stripStep_kept ih noNul fit with ended | ⟨other, same, keeps, -⟩
    · rw [ended] at stepped
      cases stepped
    · rw [stepped] at same
      cases same
      exact keeps

theorem stripRounds_ends (noNul : 0 ∉ str) (fit : EntitiesFit str) (rounds : Nat) {strip : Strip}
    (kept : Kept str strip) (enough : str.length < rounds + strip.i) :
    ∃ ended, stripRounds rounds strip = some ended := by
  induction rounds generalizing strip with
  | zero =>
    have inside := kept.inside
    omega
  | succ rounds ih =>
    rw [stripRounds]
    rcases stripStep_kept kept noNul fit with ended | ⟨next, stepped, keeps, further⟩
    · have room : strip.j + [(0 : UInt8)].length ≤ strip.str2.length := by
        have behind := kept.behind
        have inside := kept.inside
        rw [kept.length, length_singleton]
        omega
      obtain ⟨written, put, -⟩ := put_some room (Nat.le_refl _)
      rw [ended]
      exact ⟨_, put⟩
    · rw [stepped]
      exact ih keeps (by omega)

end Purple.Markup
