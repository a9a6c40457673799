/-
When the markup of a header cannot leave the tags it is put into.

Closing tags are a prefix code, so the decoded text behind the message tells which tags
there are, and with them how many quotes and brackets the text before it has.
-/

import Mathlib.Algebra.BigOperators.Group.List.Basic
import Mathlib.Algebra.GroupWithZero.Nat
import Purple.Msn.Format

namespace Purple.Msn

open List CString Utf8 UrlDecode
open MarkupSlice (hexDigit)

variable {text mime : Bytes} {tags : List FormatTag} {tag : FormatTag}

theorem openings_append (front back : List FormatTag) :
    openings (front ++ back) = openings front ++ openings back := flatMap_append

theorem closings_append (front back : List FormatTag) :
    closings (front ++ back) = closings back ++ closings front := by
  rw [closings, reverse_append, flatMap_append]
  rfl

theorem closings_cons (tag : FormatTag) (tags : List FormatTag) :
    closings (tag :: tags) = closings tags ++ tag.closing := by
  have split := closings_append [tag] tags
  rw [singleton_append] at split
  rw [split]
  exact congrArg (closings tags ++ ·) (append_nil _)

def markupOf (tags : List FormatTag) : FormatMarkup where
  pre := openings tags
  post := closings tags

theorem wrap_tag (tags : List FormatTag) (tag : FormatTag) :
    (markupOf tags).wrap tag.opening tag.closing = markupOf (tags ++ [tag]) := by
  rw [markupOf, markupOf, openings_append, closings_append]
  change FormatMarkup.mk (openings tags ++ tag.opening) (tag.closing ++ closings tags) =
    FormatMarkup.mk (openings tags ++ (tag.opening ++ [])) (tag.closing ++ [] ++ closings tags)
  rw [append_nil, append_nil]

theorem effects_wrap (letters : Bytes) (tags : List FormatTag) :
    letters.foldl appendEffect (markupOf tags) = markupOf (tags ++ letters.map .effect) := by
  induction letters generalizing tags with
  | nil => rw [map_nil, append_nil]; rfl
  | cons letter letters ih =>
    rw [foldl_cons, map_cons]
    have first : appendEffect (markupOf tags) letter = markupOf (tags ++ [.effect letter]) :=
      wrap_tag tags (.effect letter)
    rw [first, ih, append_assoc]
    rfl

theorem appendFace_tags (mime : Bytes) :
    appendFace mime { pre := [], post := [] } =
      markupOf ((faceText mime).map FormatTag.face).toList := by
  rw [appendFace, faceText]
  cases formatField (ascii "FN=") mime with
  | none => rfl
  | some cur => exact wrap_tag [] (.face (upToSemicolon cur))

theorem appendEffects_tags (mime : Bytes) (tags : List FormatTag) :
    appendEffects mime (markupOf tags) = markupOf (tags ++ (effectText mime).map .effect) := by
  rw [appendEffects, effectText]
  cases formatField (ascii "EF=") mime with
  | none => exact congrArg markupOf (append_nil tags).symm
  | some cur => exact effects_wrap (upToSemicolon cur) tags

theorem appendColor_tags (mime : Bytes) (tags : List FormatTag) :
    appendColor mime (markupOf tags) =
      markupOf (tags ++ ((colorValue mime).map FormatTag.color).toList) := by
  rw [appendColor]
  cases colorValue mime with
  | none => exact congrArg markupOf (append_nil tags).symm
  | some color => exact wrap_tag tags (.color color)

theorem appendDirection_tags (mime : Bytes) (tags : List FormatTag) :
    appendDirection mime (markupOf tags) = markupOf (tags ++
      if isRtl mime then [.span (ascii "direction:rtl;text-align:right;")] else []) := by
  rw [appendDirection]
  by_cases rtl : isRtl mime = true
  · rw [if_pos rtl, if_pos rtl]
    exact wrap_tag tags (.span (ascii "direction:rtl;text-align:right;"))
  · rw [if_neg rtl, if_neg rtl, append_nil]

theorem formatMarkup_eq (mime : Bytes) : formatMarkup mime = markupOf (formatTags mime) := by
  rw [formatMarkup, appendFace_tags, appendEffects_tags, appendColor_tags, appendDirection_tags,
    formatTags, innerTags, append_assoc, append_assoc, append_assoc]

/-! ### Texts that the decoder leaves as they are -/

def Literal (text : Bytes) : Prop := ∀ byte ∈ text, byte ≠ 0 ∧ byte ≤ 0x7F ∧ byte ≠ 37

theorem Literal.plain (kept : Literal text) : Plain text :=
  fun byte member => ⟨(kept byte member).1, (kept byte member).2.1⟩

theorem Literal.unescaped (kept : Literal text) : 37 ∉ text :=
  fun member => (kept 37 member).2.2 rfl

theorem Literal.append {front back : Bytes} (first : Literal front) (second : Literal back) :
    Literal (front ++ back) := by
  intro byte member
  exact (mem_append.mp member).elim (first byte) (second byte)

theorem literal_flatMap {text : FormatTag → Bytes} (kept : ∀ tag ∈ tags, Literal (text tag)) :
    Literal (tags.flatMap text) := by
  intro byte member
  obtain ⟨tag, inside, at_⟩ := mem_flatMap.mp member
  exact kept tag inside byte at_

instance (text : Bytes) : Decidable (Literal text) := List.decidableBAll _ text

theorem decode_literal_append {front : Bytes} (kept : Literal front) (rest : Bytes) :
    cutAtFault (urlBytes (front ++ rest)) = front ++ cutAtFault (urlBytes rest) := by
  rw [urlBytes_plain_append kept.unescaped, cutAtFault_plain_append kept.plain]

theorem decode_literal (kept : Literal text) : cutAtFault (urlBytes text) = text := by
  rw [urlBytes_plain kept.unescaped, cutAtFault_plain kept.plain]

theorem letter_literal {letter : UInt8} (good : isLetter letter = true) :
    Literal [letter] ∧ Inert [letter] := by
  have all : ∀ number : Fin 256, isLetter (UInt8.ofNat number) = true →
      Literal [UInt8.ofNat number] ∧ Inert [UInt8.ofNat number] := by
    decide +kernel
  have here := all ⟨letter.toNat, letter.toNat_lt⟩
  rw [UInt8.ofNat_toNat] at here
  exact here good

theorem hexDigit_literal {digit : Nat} (small : digit < 16) :
    Literal [hexDigit digit] ∧ Inert [hexDigit digit] := by
  have all : ∀ digit < 16, Literal [hexDigit digit] ∧ Inert [hexDigit digit] := by decide
  exact all digit small

theorem Inert.append {front back : Bytes} (first : Inert front) (second : Inert back) :
    Inert (front ++ back) := by
  rw [Inert, mem_append, mem_append, mem_append]
  exact ⟨fun member => member.elim first.1 second.1,
    fun member => member.elim first.2.1 second.2.1,
    fun member => member.elim first.2.2 second.2.2⟩

theorem hex2_literal (number : Nat) : Literal (hex2 number) ∧ Inert (hex2 number) := by
  have high := hexDigit_literal (show number % 256 / 16 < 16 by omega)
  have low := hexDigit_literal (show number % 16 < 16 by omega)
  exact ⟨high.1.append low.1, high.2.append low.2⟩

theorem colorValue_literal {color : Bytes} (present : colorValue mime = some color) :
    Literal color ∧ Inert color := by
  rw [colorValue] at present
  obtain ⟨cur, _, mapped⟩ := Option.bind_eq_some_iff.mp present
  obtain ⟨colors, _, rfl⟩ := Option.map_eq_some_iff.mp mapped
  have sharp : Literal (ascii "#") ∧ Inert (ascii "#") := by decide
  have red := hex2_literal colors.1
  have green := hex2_literal colors.2.1
  have blue := hex2_literal colors.2.2
  exact ⟨((sharp.1.append red.1).append green.1).append blue.1,
    ((sharp.2.append red.2).append green.2).append blue.2⟩

/-- Where the effects are letters, what follows the font's name is clean and is kept by
the decoder. -/
theorem innerTags_clean (letters : ∀ letter ∈ effectText mime, isLetter letter = true) :
    ∀ tag ∈ innerTags mime, tag.Clean ∧ Literal tag.opening ∧ Literal tag.closing := by
  intro tag member
  rw [innerTags, mem_append, mem_append] at member
  obtain (effect | color) | direction := member
  · obtain ⟨letter, inside, rfl⟩ := List.mem_map.mp effect
    have good := letters letter inside
    have kept := (letter_literal good).1
    have less : Literal [60] := by decide
    have slash : Literal [60, 47] := by decide
    have greater : Literal [62] := by decide
    exact ⟨good, (less.append kept).append greater, (slash.append kept).append greater⟩
  · obtain ⟨value, present, rfl⟩ := List.mem_map.mp (by
      rw [Option.toList_map] at color
      exact color)
    have kept := colorValue_literal (Option.mem_toList.mp present)
    have head : Literal (ascii "<FONT COLOR=\"") := by decide
    have tail : Literal (ascii "\">") := by decide
    have closed : Literal (60 :: 47 :: ascii "FONT" ++ [62]) := by decide
    exact ⟨kept.2, (head.append kept.1).append tail, closed⟩
  · by_cases rtl : isRtl mime = true
    · rw [if_pos rtl, mem_singleton] at direction
      rw [direction]
      have inert : Inert (ascii "direction:rtl;text-align:right;") := by decide
      exact ⟨inert, by decide, by decide⟩
    · rw [if_neg rtl] at direction
      cases direction

theorem openings_literal (kept : ∀ tag ∈ tags, Literal tag.opening) :
    Literal (openings tags) := literal_flatMap kept

theorem closings_literal (kept : ∀ tag ∈ tags, Literal tag.closing) : Literal (closings tags) :=
  literal_flatMap fun tag member => kept tag (mem_reverse.mp member)

/-! ### Closing tags are a prefix code -/

theorem element_solid (clean : tag.Clean) : 62 ∉ tag.element := by
  have font : 62 ∉ ascii "FONT" := by decide
  have span : 62 ∉ ascii "SPAN" := by decide
  cases tag with
  | face name => exact font
  | color value => exact font
  | effect letter => exact (letter_literal clean).2.2.2
  | span style => exact span

theorem closing_prefix_free {first second : FormatTag} (cleanFirst : first.Clean)
    (cleanSecond : second.Clean) {behind other : Bytes}
    (same : first.closing ++ behind = second.closing ++ other) :
    first.element = second.element ∧ behind = other := by
  rw [FormatTag.closing, FormatTag.closing, append_assoc, append_assoc] at same
  exact stop_unique (element_solid cleanFirst) (element_solid cleanSecond)
    (@append_cancel_left _ [60, 47] _ _ same)

theorem elements_of_closings {others : List FormatTag} (clean : ∀ tag ∈ tags, tag.Clean)
    (cleanOthers : ∀ tag ∈ others, tag.Clean)
    (same : tags.flatMap FormatTag.closing = others.flatMap FormatTag.closing) :
    tags.map FormatTag.element = others.map FormatTag.element := by
  induction tags generalizing others with
  | nil =>
    cases others with
    | nil => rfl
    | cons other others => cases same
  | cons tag tags ih =>
    cases others with
    | nil => cases same
    | cons other others =>
      rw [flatMap_cons, flatMap_cons] at same
      obtain ⟨element, rest⟩ := closing_prefix_free (clean tag mem_cons_self)
        (cleanOthers other mem_cons_self) same
      rw [map_cons, map_cons, element,
        ih (fun tag member => clean tag (mem_cons_of_mem _ member))
          (fun tag member => cleanOthers tag (mem_cons_of_mem _ member)) rest]

theorem element_letter (clean : tag.Clean) :
    ∃ letter rest, tag.element = letter :: rest ∧ isLetter letter = true := by
  cases tag with
  | face name => exact ⟨70, ascii "ONT", rfl, rfl⟩
  | color value => exact ⟨70, ascii "ONT", rfl, rfl⟩
  | effect letter => exact ⟨letter, [], rfl, clean⟩
  | span style => exact ⟨83, ascii "PAN", rfl, rfl⟩

theorem decode_percent (behind : Bytes) : cutAtFault (urlBytes (37 :: 62 :: behind)) = [] := by
  rw [urlBytes, if_pos rfl]
  cases behind with
  | nil => rfl
  | cons next behind => rfl

theorem letter_of_decoded {letter : UInt8} {behind name : Bytes} {shown : UInt8}
    (same : cutAtFault (urlBytes (letter :: 62 :: behind)) = shown :: name)
    (good : isLetter shown = true) : isLetter letter = true := by
  by_cases percent : letter = 37
  · rw [percent, decode_percent] at same
    cases same
  · have initial := cutAtFault_initial (urlBytes (letter :: 62 :: behind))
    rw [same, urlBytes, if_neg percent, cons_prefix_cons] at initial
    rw [← initial.1]
    exact good

theorem letters_of_closings {shown : List FormatTag} (clean : ∀ tag ∈ shown, tag.Clean)
    (others : ∀ tag ∈ tags, tag.Clean ∨ ∃ letter, tag = .effect letter)
    (literal : ∀ tag ∈ tags, tag.Clean → Literal tag.closing)
    (same : cutAtFault (urlBytes (tags.flatMap FormatTag.closing)) =
      shown.flatMap FormatTag.closing) : ∀ tag ∈ tags, tag.Clean := by
  induction tags generalizing shown with
  | nil => exact fun tag member => absurd member not_mem_nil
  | cons tag tags ih =>
    have here : tag.Clean := by
      obtain clean_ | ⟨letter, rfl⟩ := others tag mem_cons_self
      · exact clean_
      · have opened : Literal [60, 47] := by decide
        have split : (FormatTag.effect letter :: tags).flatMap FormatTag.closing =
            [60, 47] ++ letter :: 62 :: tags.flatMap FormatTag.closing := rfl
        rw [split, decode_literal_append opened] at same
        cases shown with
        | nil => cases same
        | cons first shown =>
          obtain ⟨initial, name, element, good⟩ := element_letter (clean first mem_cons_self)
          rw [flatMap_cons, FormatTag.closing, element] at same
          exact letter_of_decoded (@append_cancel_left _ [60, 47] _ _ same) good
    have kept := literal tag mem_cons_self here
    rw [flatMap_cons, decode_literal_append kept] at same
    cases shown with
    | nil => cases same
    | cons first shown =>
      rw [flatMap_cons] at same
      have rest := (closing_prefix_free here (clean first mem_cons_self) same).2
      have later := ih (fun tag member => clean tag (mem_cons_of_mem _ member))
        (fun tag member => others tag (mem_cons_of_mem _ member))
        (fun tag member => literal tag (mem_cons_of_mem _ member)) rest
      exact forall_mem_cons.mpr ⟨here, later⟩

def quotes (element : Bytes) : Nat := if element.length = 1 then 0 else 2

theorem valued_counts {head value element : Bytes} (inert : Inert value)
    (around : head.count 34 + 1 = quotes element ∧ head.count 60 = 1 ∧ head.count 62 = 0) :
    (head ++ value ++ ascii "\">").count 34 = quotes element ∧
      (head ++ value ++ ascii "\">").count 60 = 1 ∧
      (head ++ value ++ ascii "\">").count 62 = 1 := by
  obtain ⟨quote, less, greater⟩ := around
  have tail : (ascii "\">").count 34 = 1 ∧ (ascii "\">").count 60 = 0 ∧
      (ascii "\">").count 62 = 1 := by decide
  simp only [count_append, count_eq_zero_of_not_mem inert.1,
    count_eq_zero_of_not_mem inert.2.1, count_eq_zero_of_not_mem inert.2.2]
  omega

theorem opening_counts (clean : tag.Clean) :
    tag.opening.count 34 = quotes tag.element ∧ tag.opening.count 60 = 1 ∧
      tag.opening.count 62 = 1 := by
  cases tag with
  | face name =>
    have around : (ascii "<FONT FACE=\"").count 34 + 1 = quotes (ascii "FONT") ∧
        (ascii "<FONT FACE=\"").count 60 = 1 ∧ (ascii "<FONT FACE=\"").count 62 = 0 := by decide
    exact valued_counts clean around
  | color value =>
    have around : (ascii "<FONT COLOR=\"").count 34 + 1 = quotes (ascii "FONT") ∧
        (ascii "<FONT COLOR=\"").count 60 = 1 ∧ (ascii "<FONT COLOR=\"").count 62 = 0 := by decide
    exact valued_counts clean around
  | effect letter =>
    have inert := (letter_literal clean).2
    have shape : (FormatTag.effect letter).opening = [60] ++ ([letter] ++ [62]) := rfl
    rw [shape, count_append, count_append, count_append, count_append,
      count_append, count_append, count_eq_zero_of_not_mem inert.1,
      count_eq_zero_of_not_mem inert.2.1, count_eq_zero_of_not_mem inert.2.2]
    exact ⟨rfl, rfl, rfl⟩
  | span style =>
    have around : (ascii "<SPAN style=\"").count 34 + 1 = quotes (ascii "SPAN") ∧
        (ascii "<SPAN style=\"").count 60 = 1 ∧ (ascii "<SPAN style=\"").count 62 = 0 := by decide
    exact valued_counts clean around

theorem openings_counts (clean : ∀ tag ∈ tags, tag.Clean) :
    (openings tags).count 34 = ((tags.map FormatTag.element).map quotes).sum ∧
      (openings tags).count 60 = (tags.map FormatTag.element).length ∧
      (openings tags).count 62 = (tags.map FormatTag.element).length := by
  induction tags with
  | nil => exact ⟨rfl, rfl, rfl⟩
  | cons tag tags ih =>
    obtain ⟨quote, less, greater⟩ := opening_counts (clean tag mem_cons_self)
    obtain ⟨quotesLater, lessLater, greaterLater⟩ :=
      ih fun tag member => clean tag (mem_cons_of_mem _ member)
    have split : openings (tag :: tags) = tag.opening ++ openings tags := rfl
    rw [split, count_append, count_append, count_append, quote, less, greater,
      quotesLater, lessLater, greaterLater, map_cons, map_cons, sum_cons,
      length_cons]
    omega

/-! ### The decoded texts -/

def faceHead : Bytes := ascii "<FONT FACE=\""

theorem faceHead_literal : Literal faceHead := by decide

theorem msnParseFormat_eq (mime : Bytes) :
    msnParseFormat mime = (purpleUrlDecode (openings (formatTags (cString mime))),
      purpleUrlDecode (closings (formatTags (cString mime)))) := by
  rw [msnParseFormat, formatMarkup_eq]
  rfl

theorem purpleUrlDecode_short (short : text.length < UrlDecode.bufLen) :
    (purpleUrlDecode text).getD [] = cutAtFault (urlBytes text) := by
  rw [purpleUrlDecode, if_neg (Nat.not_le.mpr short)]
  rfl

theorem purpleUrlDecode_long (long : UrlDecode.bufLen ≤ text.length) :
    (purpleUrlDecode text).getD [] = [] := by
  rw [purpleUrlDecode, if_pos long]
  rfl

def shapeTags (mime : Bytes) : List FormatTag :=
  ((faceText mime).map fun _ => FormatTag.face []).toList ++ innerTags mime

theorem closings_shape (mime : Bytes) : closings (formatTags mime) = closings (shapeTags mime) := by
  rw [formatTags, shapeTags, closings_append, closings_append]
  cases faceText mime <;> rfl

theorem shapeTags_clean (mime : Bytes) :
    ∀ tag ∈ shapeTags mime, tag.Clean ∨ ∃ letter, tag = .effect letter := by
  intro tag member
  rw [shapeTags, innerTags, mem_append, mem_append, mem_append] at member
  obtain face | (effect | color) | direction := member
  · have empty : Inert [] := by decide
    cases present : faceText mime with
    | none =>
      rw [present] at face
      cases face
    | some name =>
      rw [present] at face
      rw [mem_singleton.mp face]
      exact .inl empty
  · obtain ⟨letter, _, rfl⟩ := List.mem_map.mp effect
    exact .inr ⟨letter, rfl⟩
  · cases present : colorValue mime with
    | none =>
      rw [present] at color
      cases color
    | some value =>
      rw [present] at color
      rw [mem_singleton.mp color]
      exact .inl (colorValue_literal present).2
  · have inert : Inert (ascii "direction:rtl;text-align:right;") := by decide
    by_cases rtl : isRtl mime = true
    · rw [if_pos rtl, mem_singleton] at direction
      rw [direction]
      exact .inl inert
    · rw [if_neg rtl] at direction
      cases direction

theorem closing_literal (clean : tag.Clean) : Literal tag.closing := by
  have font : Literal (60 :: 47 :: ascii "FONT" ++ [62]) := by decide
  have span : Literal (60 :: 47 :: ascii "SPAN" ++ [62]) := by decide
  have slash : Literal [60, 47] := by decide
  have greater : Literal [62] := by decide
  cases tag with
  | face name => exact font
  | color value => exact font
  | effect letter => exact (slash.append (letter_literal clean).1).append greater
  | span style => exact span

theorem shapeTags_letters (letters : ∀ letter ∈ effectText mime, isLetter letter = true) :
    ∀ tag ∈ shapeTags mime, tag.Clean := by
  intro tag member
  obtain clean | ⟨letter, rfl⟩ := shapeTags_clean mime tag member
  · exact clean
  · rw [shapeTags, mem_append] at member
    obtain face | inner := member
    · cases present : faceText mime with
      | none =>
        rw [present] at face
        cases face
      | some name =>
        rw [present] at face
        cases mem_singleton.mp face
    · exact (innerTags_clean letters _ inner).1

theorem decode_closings (letters : ∀ letter ∈ effectText mime, isLetter letter = true) :
    cutAtFault (urlBytes (closings (formatTags mime))) = closings (shapeTags mime) := by
  rw [closings_shape]
  exact decode_literal (closings_literal fun tag member =>
    closing_literal (shapeTags_letters letters tag member))

theorem decode_openings {face : Bytes} (present : faceText mime = some face)
    (letters : ∀ letter ∈ effectText mime, isLetter letter = true) :
    cutAtFault (urlBytes (openings (formatTags mime))) = faceHead ++
      if cutAtFault (urlBytes face) = urlBytes face then
        urlBytes face ++ (34 :: 62 :: openings (innerTags mime)).drop (escapeLacks face)
      else cutAtFault (urlBytes face) := by
  have inner : Literal (openings (innerTags mime)) :=
    openings_literal fun tag member => (innerTags_clean letters tag member).2.1
  have quoted : Literal [34, 62] := by decide
  have tail : Literal ((34 :: 62 :: openings (innerTags mime)).drop (escapeLacks face)) :=
    fun byte member => (quoted.append inner) byte (mem_of_mem_drop member)
  have split : openings (formatTags mime) =
      faceHead ++ (face ++ 34 :: 62 :: openings (innerTags mime)) := by
    rw [formatTags, present, openings_append]
    change ascii "<FONT FACE=\"" ++ face ++ ascii "\">" ++ [] ++ openings (innerTags mime) = _
    rw [append_nil, append_assoc, append_assoc]
    rfl
  rw [split, decode_literal_append faceHead_literal, urlBytes_quoted, urlBytes_plain tail.unescaped,
    cutAtFault_append_plain _ tail.plain]

theorem decode_openings_plain (absent : faceText mime = none)
    (letters : ∀ letter ∈ effectText mime, isLetter letter = true) :
    cutAtFault (urlBytes (openings (formatTags mime))) = openings (shapeTags mime) := by
  have shape : formatTags mime = shapeTags mime := by
    rw [formatTags, shapeTags, absent]
    rfl
  rw [shape]
  apply decode_literal
  apply openings_literal
  intro tag member
  rw [shapeTags, absent] at member
  exact (innerTags_clean letters tag member).2.1

/-! ### Markup that is matched -/

theorem openings_nonempty (some_ : tags ≠ []) : ∃ rest, openings tags = 60 :: rest := by
  cases tags with
  | nil => exact absurd rfl some_
  | cons tag tags => cases tag <;> exact ⟨_, rfl⟩

theorem closings_nonempty (some_ : tags ≠ []) : ∃ rest, closings tags = 60 :: rest := by
  obtain ⟨front, last, rfl⟩ := eq_nil_or_concat tags |>.resolve_left some_
  rw [concat_eq_append, closings_append]
  exact ⟨_, rfl⟩

theorem decode_nonempty (rest : Bytes) : cutAtFault (urlBytes (60 :: rest)) ≠ [] := by
  have less : Literal [60] := by decide
  have kept := decode_literal_append less rest
  rw [singleton_append] at kept
  rw [kept]
  exact cons_ne_nil _ _

theorem face_front (clean : ∀ tag ∈ tags, tag.Clean) (shown : faceHead ++ text = openings tags) :
    ∃ name rest, Inert name ∧ (∀ tag ∈ rest, FormatTag.Clean tag) ∧
      tags = .face name :: rest ∧ text = name ++ ascii "\">" ++ openings rest := by
  cases tags with
  | nil => cases shown
  | cons tag rest =>
    have later : ∀ tag ∈ rest, FormatTag.Clean tag :=
      fun tag member => clean tag (mem_cons_of_mem _ member)
    have split : openings (tag :: rest) = tag.opening ++ openings rest := rfl
    rw [split] at shown
    cases tag with
    | face name =>
      rw [FormatTag.opening, append_assoc, append_assoc] at shown
      refine ⟨name, rest, clean _ mem_cons_self, later, rfl, ?_⟩
      rw [append_assoc]
      exact append_cancel_left shown
    | color value =>
      have seventh := congrArg (·[6]?) shown
      exact absurd seventh (by simp [faceHead, ascii, FormatTag.opening])
    | effect letter =>
      have third := congrArg (·[2]?) shown
      exact absurd third (by simp [faceHead, ascii, FormatTag.opening])
    | span style =>
      have second := congrArg (·[1]?) shown
      exact absurd second (by simp [faceHead, ascii, FormatTag.opening])

theorem count_eq {others : List FormatTag} (clean : ∀ tag ∈ tags, tag.Clean)
    (cleanOthers : ∀ tag ∈ others, tag.Clean)
    (same : tags.map FormatTag.element = others.map FormatTag.element) :
    (openings tags).count 34 = (openings others).count 34 ∧
      (openings tags).count 60 = (openings others).count 60 ∧
      (openings tags).count 62 = (openings others).count 62 := by
  obtain ⟨quote, less, greater⟩ := openings_counts clean
  obtain ⟨quoteOther, lessOther, greaterOther⟩ := openings_counts cleanOthers
  rw [quote, less, greater, quoteOther, lessOther, greaterOther, same]
  exact ⟨rfl, rfl, rfl⟩

theorem closings_face (name : Bytes) (tags : List FormatTag) :
    closings (.face name :: tags) = closings tags ++ ascii "</FONT>" := closings_cons _ _

theorem faceInside_of_matched {face : Bytes} (present : faceText mime = some face)
    (letters : ∀ letter ∈ effectText mime, isLetter letter = true)
    (clean : ∀ tag ∈ tags, tag.Clean)
    (pre : cutAtFault (urlBytes (openings (formatTags mime))) = openings tags)
    (post : closings (shapeTags mime) = closings tags) : FaceInside face (innerTags mime) := by
  have shape : shapeTags mime = .face [] :: innerTags mime := by
    rw [shapeTags, present]
    rfl
  have shapeClean := shapeTags_letters letters
  rw [decode_openings present letters] at pre
  rw [FaceInside]
  by_cases whole : cutAtFault (urlBytes face) = urlBytes face
  · rw [if_pos whole] at pre ⊢
    have elements : (shapeTags mime).map FormatTag.element = tags.map FormatTag.element := by
      have reversed := elements_of_closings
        (fun tag member => shapeClean tag (mem_reverse.mp member))
        (fun tag member => clean tag (mem_reverse.mp member)) post
      rw [map_reverse, map_reverse, reverse_inj] at reversed
      exact reversed
    obtain ⟨quote, less, greater⟩ := count_eq shapeClean clean elements
    have written : openings (shapeTags mime) = faceHead ++ 34 :: 62 :: openings (innerTags mime) := by
      rw [shape]
      rfl
    have head : faceHead.count 60 = 1 ∧ faceHead.count 62 = 0 := by decide
    rw [← pre, written] at quote less greater
    simp only [count_append] at quote less greater
    by_cases complete : escapeLacks face = 0
    · refine ⟨complete, ?_⟩
      rw [complete, drop_zero] at quote less greater
      exact ⟨count_eq_zero.mp (by omega), count_eq_zero.mp (by omega),
        count_eq_zero.mp (by omega)⟩
    · exfalso
      obtain ⟨front, last, decoded, small, nul⟩ := urlBytes_lacking complete
      have bound := escapeLacks_le face
      by_cases alone : escapeLacks face = 2
      · apply cutAtFault_clean whole
        rw [decoded, nul alone]
        exact mem_append_right _ mem_cons_self
      · have single : escapeLacks face = 1 := by omega
        rw [single] at pre greater
        change faceHead ++ (urlBytes face ++ 62 :: openings (innerTags mime)) = _ at pre
        change _ = _ + (_ + (62 :: openings (innerTags mime)).count 62) at greater
        obtain ⟨name, rest, inert, _, _, spelled⟩ := face_front clean pre
        have unclosed : 62 ∉ urlBytes face := by
          apply count_eq_zero.mp
          simp only [count_cons] at greater
          simp at greater
          omega
        have value : 62 ∉ name ++ [34] := by
          rw [mem_append, mem_singleton]
          exact fun member => member.elim inert.2.2 (by decide)
        have closes : name ++ ascii "\">" ++ openings rest =
            (name ++ [34]) ++ 62 :: openings rest := by
          rw [append_assoc, append_assoc]
          rfl
        rw [closes] at spelled
        have same := (stop_unique unclosed value spelled).1
        rw [decoded] at same
        have lastQuote : last = 34 := (concat_inj.mp (by simpa using same)).2
        rw [lastQuote] at small
        exact absurd small (by decide)
  · rw [if_neg whole] at pre ⊢
    obtain ⟨name, rest, inert, restClean, rfl, spelled⟩ := face_front clean pre
    refine ⟨name, rest, inert, restClean, spelled, ?_⟩
    rw [shape, closings_face, closings_face] at post
    exact (append_cancel_right post).symm

theorem matched_of_faceInside {face : Bytes} (present : faceText mime = some face)
    (letters : ∀ letter ∈ effectText mime, isLetter letter = true)
    (inside : FaceInside face (innerTags mime)) :
    ∃ tags : List FormatTag, (∀ tag ∈ tags, tag.Clean) ∧
      cutAtFault (urlBytes (openings (formatTags mime))) = openings tags ∧
      closings (shapeTags mime) = closings tags := by
  have inner : ∀ tag ∈ innerTags mime, tag.Clean :=
    fun tag member => (innerTags_clean letters tag member).1
  have shape : shapeTags mime = .face [] :: innerTags mime := by
    rw [shapeTags, present]
    rfl
  rw [decode_openings present letters, shape, closings_face]
  rw [FaceInside] at inside
  by_cases whole : cutAtFault (urlBytes face) = urlBytes face
  · rw [if_pos whole] at inside ⊢
    obtain ⟨complete, inert⟩ := inside
    refine ⟨.face (urlBytes face) :: innerTags mime, forall_mem_cons.mpr ⟨inert, inner⟩, ?_,
      (closings_face _ _).symm⟩
    rw [complete]
    change faceHead ++ (urlBytes face ++ (ascii "\">" ++ openings (innerTags mime))) =
      faceHead ++ urlBytes face ++ ascii "\">" ++ openings (innerTags mime)
    rw [append_assoc, append_assoc]
  · rw [if_neg whole] at inside ⊢
    obtain ⟨name, tags, inert, clean, spelled, closed⟩ := inside
    refine ⟨.face name :: tags, forall_mem_cons.mpr ⟨inert, clean⟩, ?_, ?_⟩
    · rw [spelled]
      change faceHead ++ (name ++ ascii "\">" ++ openings tags) =
        faceHead ++ name ++ ascii "\">" ++ openings tags
      rw [append_assoc, append_assoc, append_assoc]
    · rw [closings_face, closed]

theorem letters_of_matched (clean : ∀ tag ∈ tags, tag.Clean)
    (post : cutAtFault (urlBytes (closings (formatTags mime))) = closings tags) :
    ∀ letter ∈ effectText mime, isLetter letter = true := by
  rw [closings_shape] at post
  have all := letters_of_closings (fun tag member => clean tag (mem_reverse.mp member))
    (fun tag member => shapeTags_clean mime tag (mem_reverse.mp member))
    (fun _ _ good => closing_literal good) post
  intro letter member
  apply all (.effect letter)
  rw [mem_reverse, shapeTags, innerTags, mem_append, mem_append, mem_append]
  exact .inr (.inl (.inl (List.mem_map_of_mem member)))

theorem matched_short_iff (mime : Bytes) :
    (∃ tags : List FormatTag, (∀ tag ∈ tags, tag.Clean) ∧
      cutAtFault (urlBytes (openings (formatTags mime))) = openings tags ∧
      cutAtFault (urlBytes (closings (formatTags mime))) = closings tags) ↔
    (∀ letter ∈ effectText mime, isLetter letter = true) ∧
      ∀ face, faceText mime = some face → FaceInside face (innerTags mime) := by
  constructor
  · intro matched
    obtain ⟨tags, clean, pre, post⟩ := matched
    have letters := letters_of_matched clean post
    rw [decode_closings letters] at post
    exact ⟨letters, fun face present => faceInside_of_matched present letters clean pre post⟩
  · intro inside
    obtain ⟨letters, faces⟩ := inside
    rw [decode_closings letters]
    cases present : faceText mime with
    | some face => exact matched_of_faceInside present letters (faces face present)
    | none => exact ⟨shapeTags mime, shapeTags_letters letters,
        decode_openings_plain present letters, rfl⟩

theorem eq_nil_of_openings (empty : openings tags = []) : tags = [] := by
  by_contra nonempty
  obtain ⟨rest, shown⟩ := openings_nonempty nonempty
  rw [empty] at shown
  cases shown

theorem eq_nil_of_closings (empty : closings tags = []) : tags = [] := by
  by_contra nonempty
  obtain ⟨rest, shown⟩ := closings_nonempty nonempty
  rw [empty] at shown
  cases shown

theorem msnParseFormat_matched_iff (mime : Bytes) :
    Matched (msnParseFormat mime) ↔ FormatInside (cString mime) := by
  rw [msnParseFormat_eq, Matched, FormatInside]
  generalize cString mime = mime
  dsimp only
  have filled {text : Bytes} (long : UrlDecode.bufLen ≤ text.length) : text ≠ [] := by
    intro empty
    rw [empty] at long
    exact absurd long (by decide)
  by_cases preLong : bufLen ≤ (openings (formatTags mime)).length
  · rw [purpleUrlDecode_long preLong]
    by_cases postLong : bufLen ≤ (closings (formatTags mime)).length
    · rw [purpleUrlDecode_long postLong]
      exact ⟨fun _ => .inl ⟨preLong, postLong⟩,
        fun _ => ⟨[], fun _ member => absurd member not_mem_nil, rfl, rfl⟩⟩
    · rw [purpleUrlDecode_short (Nat.not_le.mp postLong)]
      constructor
      · intro matched
        obtain ⟨tags, _, pre, post⟩ := matched
        have some_ : formatTags mime ≠ [] := fun empty => filled preLong (by rw [empty]; rfl)
        obtain ⟨rest, shown⟩ := closings_nonempty some_
        rw [eq_nil_of_openings pre.symm, shown] at post
        exact absurd post (decode_nonempty rest)
      · rintro (⟨_, postToo⟩ | ⟨short, _⟩)
        · exact absurd postToo postLong
        · exact absurd preLong (Nat.not_le.mpr short)
  · rw [purpleUrlDecode_short (Nat.not_le.mp preLong)]
    by_cases postLong : bufLen ≤ (closings (formatTags mime)).length
    · rw [purpleUrlDecode_long postLong]
      constructor
      · intro matched
        obtain ⟨tags, _, pre, post⟩ := matched
        have some_ : formatTags mime ≠ [] := fun empty => filled postLong (by rw [empty]; rfl)
        obtain ⟨rest, shown⟩ := openings_nonempty some_
        rw [eq_nil_of_closings post.symm, shown] at pre
        exact absurd pre (decode_nonempty rest)
      · rintro (⟨preToo, _⟩ | ⟨_, short, _⟩)
        · exact absurd preToo preLong
        · exact absurd postLong (Nat.not_le.mpr short)
    · rw [purpleUrlDecode_short (Nat.not_le.mp postLong), matched_short_iff]
      constructor
      · intro inside
        exact .inr ⟨Nat.not_le.mp preLong, Nat.not_le.mp postLong, inside⟩
      · rintro (⟨preToo, _⟩ | ⟨_, _, inside⟩)
        · exact absurd preToo preLong
        · exact inside

theorem quotes_even (elements : List Bytes) : 2 ∣ (elements.map quotes).sum := by
  induction elements with
  | nil => exact Nat.dvd_zero 2
  | cons element elements ih =>
    rw [map_cons, sum_cons]
    apply Nat.dvd_add _ ih
    rw [quotes]
    split <;> decide

def injectingFormat : Bytes := ascii "FN=A%22%3E%3Cscript%3E; EF=; CO=0; PF=0; RL=0"

theorem injectingFormat_injects : ¬Matched (msnParseFormat injectingFormat) := by
  intro matched
  obtain ⟨tags, clean, pre, _⟩ := matched
  have five : ((msnParseFormat injectingFormat).1.getD []).count 34 = 5 := by decide +kernel
  have even : 2 ∣ (openings tags).count 34 := by
    rw [(openings_counts clean).1]
    exact quotes_even _
  rw [← pre, five] at even
  exact absurd even (by decide)

end Purple.Msn
