/-
The arguments of a command, from cmds.c.

The markup of a command is its escaped text.  A letter of the argument format
takes one word or all that is left.
-/

import Mathlib.Data.List.TakeWhile
import Purple.MarkupSlice

namespace Purple.Cmds

open List Utf8 MarkupSlice

inductive ArgLetter where
  | w
  | W
  | s
  | S
deriving DecidableEq

structure PurpleCmd where
  args : List ArgLetter
  allowWrongArgs : Bool

def wordEnd (s : Bytes) (cur : Nat) : Nat := cur + ((s.drop cur).takeWhile (· != 32)).length

def parseArg (s m : Bytes) (letter : ArgLetter) (cur : Nat) : Option Bytes :=
  match letter with
  | .w => some ((s.drop cur).takeWhile (· != 32))
  | .W =>
    purpleMarkupSlice m (gUtf8PointerToOffset s cur) (gUtf8PointerToOffset s (wordEnd s cur))
  | .s => some (s.drop cur)
  | .S => purpleMarkupSlice m (gUtf8PointerToOffset s cur) (gUtf8Strlen (s.drop cur) + 1)

def behindArg (s : Bytes) (letter : ArgLetter) (cur : Nat) : Nat :=
  match letter with
  | .w | .W => if 32 ∈ s.drop cur then wordEnd s cur + 1 else wordEnd s cur
  | .s | .S => s.length

/-- What is returned, and the arguments that were set; NULL is `none`. -/
def parseArgsFrom (cmd : PurpleCmd) (s m : Bytes) : List ArgLetter → Nat → Bool × List (Option Bytes)
  | [], cur => (if s.drop cur = [] then true else cmd.allowWrongArgs, [])
  | letter :: letters, cur =>
    if s.drop cur = [] then (cmd.allowWrongArgs, [])
    else
      let parsed := parseArgsFrom cmd s m letters (behindArg s letter cur)
      (parsed.1, parseArg s m letter cur :: parsed.2)

def purpleCmdParseArgs (cmd : PurpleCmd) (s m : Bytes) : Bool × List (Option Bytes) :=
  parseArgsFrom cmd s m cmd.args 0

def ArgLetter.isWord : ArgLetter → Bool
  | .w | .W => true
  | .s | .S => false

def ArgLetter.shows : ArgLetter → List Char → Bytes
  | .w, text | .s, text => encode text
  | .W, text | .S, text => gMarkupEscapeText text

inductive Shown : List ArgLetter → List (Option Bytes) → List (List Char) → Prop where
  | nil : Shown [] [] []
  | cons {letter : ArgLetter} {arg : Option Bytes} {text : List Char} {letters : List ArgLetter}
      {args : List (Option Bytes)} {texts : List (List Char)}
      (shows : arg = some (letter.shows text)) (word : letter.isWord → ' ' ∉ text)
      (rest : Shown letters args texts) :
      Shown (letter :: letters) (arg :: args) (text :: texts)

/-- The texts that the arguments show are joined by single blanks to `rest`. -/
def Rejoin (letters : List ArgLetter) (args : List (Option Bytes)) (rest : List Char) : Prop :=
  ∃ texts, Shown letters args texts ∧ [' '].intercalate texts = rest

def ArgsRejoin (args : List ArgLetter) (text : List Char) : Prop :=
  ∀ parsed, purpleCmdParseArgs ⟨args, false⟩ (encode text) (gMarkupEscapeText text) = (true, parsed) →
    Rejoin args parsed text

structure WordsPassed (words : List ArgLetter) (front : List Char) : Prop where
  all : ∀ letter ∈ words, letter.isWord = true
  blanks : front.count ' ' = words.length
  last : front = [] ∨ front.getLast? = some ' '

/-- With `before` characters in front of the text: the words do not take its last
blank, and an `S` starts at the first or the second character. -/
structure ArgsFit (before : Nat) (args : List ArgLetter) (text : List Char) : Prop where
  words : args ≠ [] → ¬ WordsPassed args text
  rest : ∀ words front rest, args = words ++ [.S] → text = front ++ rest → rest ≠ [] →
    WordsPassed words front → before + front.length ≤ 1

variable {text rest more front : List Char} {letters : List ArgLetter}

theorem encode_blank : encode [' '] = [32] := by decide

theorem blank_mem_encode : 32 ∈ encode text ↔ ' ' ∈ text := by
  constructor
  · intro member
    obtain ⟨char, inText, byte⟩ := mem_flatMap.mp member
    have same := encodeChar_ascii byte (by decide)
    have blank : char = ' ' := Char.toNat_inj.mp same
    rw [← blank]
    exact inText
  · intro member
    exact mem_flatMap.mpr ⟨' ', member, by decide⟩

theorem takeWhile_encode {word : List Char} (solid : ' ' ∉ word) (more : List Char) :
    (encode (word ++ ' ' :: more)).takeWhile (· != 32) = encode word := by
  have before : ∀ byte ∈ encode word, (byte != 32) = true := by
    intro byte member
    apply bne_iff_ne.mpr
    rintro rfl
    exact solid (blank_mem_encode.mp member)
  have split : encode (word ++ ' ' :: more) = encode word ++ 32 :: encode more := by
    rw [encode_append, encode_cons]
    rfl
  rw [split, takeWhile_append_of_pos before, takeWhile_cons, if_neg (by decide),
    append_nil]

theorem takeWhile_encode_all {word : List Char} (solid : ' ' ∉ word) :
    (encode word).takeWhile (· != 32) = encode word := by
  apply takeWhile_eq_self_iff.mpr
  intro byte member
  apply bne_iff_ne.mpr
  rintro rfl
  exact solid (blank_mem_encode.mp member)

theorem drop_front (front rest : List Char) :
    (encode (front ++ rest)).drop (encode front).length = encode rest := by
  rw [encode_append, drop_left]

/-- The arguments parsed behind `front` rejoin to what is left. -/
def RejoinFrom (front : List Char) (args : List ArgLetter) (rest : List Char) : Prop :=
  ∀ parsed,
    parseArgsFrom ⟨args, false⟩ (encode (front ++ rest)) (gMarkupEscapeText (front ++ rest)) args
      (encode front).length = (true, parsed) → Rejoin args parsed rest

theorem parseArgsFrom_args (args other : List ArgLetter) (s m : Bytes) (letters : List ArgLetter)
    (cur : Nat) :
    parseArgsFrom ⟨args, false⟩ s m letters cur = parseArgsFrom ⟨other, false⟩ s m letters cur := by
  induction letters generalizing cur with
  | nil => rfl
  | cons letter letters ih =>
    rw [parseArgsFrom, parseArgsFrom, ih]

section word

variable {letter : ArgLetter} (word : letter.isWord = true)
include word

variable {front text : List Char}

theorem parseArg_word {rest : List Char} {m : Bytes}
    (bytes : (encode rest).takeWhile (· != 32) = encode text) (inside : text <+: rest)
    (markup : m = gMarkupEscapeText (front ++ rest)) :
    parseArg (encode (front ++ rest)) m letter (encode front).length = some (letter.shows text) := by
  obtain ⟨behind, rfl⟩ := inside
  cases letter with
  | w => rw [parseArg, drop_front, bytes]; rfl
  | W =>
    have stop : wordEnd (encode (front ++ (text ++ behind))) (encode front).length =
        (encode (front ++ text)).length := by
      rw [wordEnd, drop_front, bytes, encode_append, length_append]
    have offset := gUtf8PointerToOffset_encode (front ++ text) behind
    rw [append_assoc] at offset
    rw [parseArg, stop, offset, gUtf8PointerToOffset_encode, markup,
      purpleMarkupSlice_escape _ (by rw [length_append]; omega), ← append_assoc,
      take_left, drop_left]
    rfl
  | s => cases word
  | S => cases word

theorem behindArg_blank {more : List Char} (solid : ' ' ∉ text) :
    behindArg (encode (front ++ (text ++ ' ' :: more))) letter (encode front).length =
      (encode (front ++ text ++ [' '])).length := by
  have blank : 32 ∈ encode (text ++ ' ' :: more) :=
    blank_mem_encode.mpr (mem_append_right _ mem_cons_self)
  have stop : wordEnd (encode (front ++ (text ++ ' ' :: more))) (encode front).length + 1 =
      (encode (front ++ text ++ [' '])).length := by
    rw [wordEnd, drop_front, takeWhile_encode solid, encode_append, encode_append, encode_blank]
    simp only [length_append, length_singleton]
  cases letter with
  | w => rw [behindArg, drop_front, if_pos blank, stop]
  | W => rw [behindArg, drop_front, if_pos blank, stop]
  | s => cases word
  | S => cases word

theorem behindArg_last (solid : ' ' ∉ text) :
    behindArg (encode (front ++ text)) letter (encode front).length =
      (encode (front ++ text)).length := by
  have noBlank : 32 ∉ encode text := fun member => solid (blank_mem_encode.mp member)
  have stop : wordEnd (encode (front ++ text)) (encode front).length =
      (encode (front ++ text)).length := by
    rw [wordEnd, drop_front, takeWhile_encode_all solid, encode_append, length_append]
  cases letter with
  | w => rw [behindArg, drop_front, if_neg noBlank, stop]
  | W => rw [behindArg, drop_front, if_neg noBlank, stop]
  | s => cases word
  | S => cases word

end word

/-! ### A word that is followed by more -/

theorem shows_append (letter : ArgLetter) (front rest : List Char) :
    letter.shows (front ++ rest) = letter.shows front ++ letter.shows rest := by
  cases letter with
  | w => exact encode_append front rest
  | W => exact escape_append front rest
  | s => exact encode_append front rest
  | S => exact escape_append front rest

theorem shows_length_pos (letter : ArgLetter) (filled : text ≠ []) :
    0 < (letter.shows text).length := by
  obtain ⟨char, rest, rfl⟩ := exists_cons_of_ne_nil filled
  have plain : 0 < (encode (char :: rest)).length := by
    rw [encode_cons, length_append]
    exact Nat.lt_of_lt_of_le (encodeChar_length_pos char) (Nat.le_add_right _ _)
  have markup : 0 < (gMarkupEscapeText (char :: rest)).length := by
    rw [escape_cons, length_append]
    exact Nat.lt_of_lt_of_le (escapeChar_length_pos char) (Nat.le_add_right _ _)
  cases letter with
  | w => exact plain
  | W => exact markup
  | s => exact plain
  | S => exact markup

theorem shows_front_ne (letter : ArgLetter) (front : List Char) (filled : rest ≠ []) :
    letter.shows (front ++ rest) ≠ letter.shows front := by
  intro same
  have positive := shows_length_pos letter filled
  have lengths := congrArg List.length same
  rw [shows_append, length_append] at lengths
  omega

theorem Rejoin.single {letter : ArgLetter} {arg : Option Bytes}
    (rejoin : Rejoin [letter] [arg] rest) : arg = some (letter.shows rest) := by
  obtain ⟨texts, shown, joined⟩ := rejoin
  cases shown with
  | cons shows _ more =>
    cases more
    rw [intercalate_singleton] at joined
    rw [shows, joined]

theorem Rejoin.of_single {letter : ArgLetter} (word : letter.isWord → ' ' ∉ rest) :
    Rejoin [letter] [some (letter.shows rest)] rest :=
  ⟨[rest], .cons rfl word .nil, intercalate_singleton⟩

theorem rejoin_cons_iff {letter : ArgLetter} {args : List (Option Bytes)}
    (word : letter.isWord = true) (filled : letters ≠ []) (solid : ' ' ∉ text) :
    Rejoin (letter :: letters) (some (letter.shows text) :: args) (text ++ ' ' :: more) ↔
      Rejoin letters args more := by
  constructor
  · rintro ⟨texts, shown, joined⟩
    cases shown with
    | @cons _ _ there _ _ texts _ solidThere rest =>
      refine ⟨texts, rest, ?_⟩
      cases rest with
      | nil => exact absurd rfl filled
      | cons _ _ _ =>
        rw [intercalate_cons_cons, append_assoc] at joined
        exact (CString.stop_unique (solidThere word) solid joined).2
  · rintro ⟨texts, shown, joined⟩
    refine ⟨text :: texts, .cons rfl (fun _ => solid) shown, ?_⟩
    cases shown with
    | nil => exact absurd rfl filled
    | cons _ _ _ =>
      rw [intercalate_cons_cons, joined, append_assoc]
      rfl

theorem rejoinFrom_word_iff {letter : ArgLetter} (word : letter.isWord = true)
    (filled : letters ≠ []) (solid : ' ' ∉ text) :
    RejoinFrom front (letter :: letters) (text ++ ' ' :: more) ↔
      RejoinFrom (front ++ text ++ [' ']) letters more := by
  have whole : front ++ (text ++ ' ' :: more) = (front ++ text ++ [' ']) ++ more := by
    simp only [append_assoc, cons_append, nil_append]
  have left : encode (text ++ ' ' :: more) ≠ [] := fun empty =>
    absurd (encode_eq_nil.mp empty) (append_ne_nil_of_right_ne_nil _ (cons_ne_nil _ _))
  rw [RejoinFrom, RejoinFrom, parseArgsFrom, drop_front, if_neg left, behindArg_blank word solid,
    parseArg_word word (takeWhile_encode solid more) (prefix_append _ _) rfl,
    parseArgsFrom_args _ letters, ← whole]
  constructor
  · intro rejoin parsed ran
    rw [ran] at rejoin
    exact (rejoin_cons_iff word filled solid).mp (rejoin _ rfl)
  · intro rejoin parsed ran
    obtain ⟨done, same⟩ := Prod.mk.inj ran
    rw [← same]
    exact (rejoin_cons_iff word filled solid).mpr (rejoin _ (Prod.ext done rfl))

theorem wordsPassed_cons_iff {letter : ArgLetter} {words : List ArgLetter}
    (word : letter.isWord = true) (solid : ' ' ∉ text) :
    WordsPassed (letter :: words) (text ++ ' ' :: more) ↔ WordsPassed words more := by
  have blanks : (text ++ ' ' :: more).count ' ' = more.count ' ' + 1 := by
    rw [count_append, count_eq_zero_of_not_mem solid, count_cons_self, Nat.zero_add]
  have filled : text ++ ' ' :: more ≠ [] :=
    append_ne_nil_of_right_ne_nil _ (cons_ne_nil _ _)
  have last : (text ++ ' ' :: more).getLast? = some ' ' ↔ more = [] ∨ more.getLast? = some ' ' := by
    rw [getLast?_append_of_ne_nil _ (cons_ne_nil _ _)]
    cases more with
    | nil => exact ⟨fun _ => Or.inl rfl, fun _ => rfl⟩
    | cons char more =>
      rw [getLast?_cons_cons]
      refine ⟨Or.inr, ?_⟩
      rintro (impossible | same)
      · cases impossible
      · exact same
  constructor
  · rintro ⟨all, counted, ends⟩
    rw [blanks, length_cons] at counted
    refine ⟨fun letter member => all letter (mem_cons_of_mem _ member), by omega, ?_⟩
    exact last.mp (ends.resolve_left filled)
  · rintro ⟨all, counted, ends⟩
    refine ⟨forall_mem_cons.mpr ⟨word, all⟩, ?_, Or.inr (last.mpr ends)⟩
    rw [blanks, counted, length_cons]

theorem wordsPassed_nil_iff : WordsPassed [] front ↔ front = [] := by
  constructor
  · rintro ⟨-, counted, empty | last⟩
    · exact empty
    · have blank : ' ' ∈ front := mem_of_getLast? last
      have positive := count_pos_iff.mpr blank
      rw [counted] at positive
      exact absurd positive (Nat.lt_irrefl _)
  · rintro rfl
    exact ⟨(fun _ impossible => nomatch impossible), rfl, Or.inl rfl⟩

theorem argsFit_word_iff {before : Nat} {letter : ArgLetter} (word : letter.isWord = true)
    (filled : letters ≠ []) (solid : ' ' ∉ text) :
    ArgsFit before (letter :: letters) (text ++ ' ' :: more) ↔
      ArgsFit (before + text.length + 1) letters more := by
  constructor
  · intro fit
    constructor
    · intro _ passed
      exact fit.words (cons_ne_nil _ _) ((wordsPassed_cons_iff word solid).mpr passed)
    · intro words front rest same split left passed
      have here := fit.rest (letter :: words) (text ++ ' ' :: front) rest (by rw [same]; rfl)
        (by rw [split, append_assoc]; rfl) left ((wordsPassed_cons_iff word solid).mpr passed)
      rw [length_append, length_cons] at here
      omega
  · intro fit
    constructor
    · intro _ passed
      exact fit.words filled ((wordsPassed_cons_iff word solid).mp passed)
    · intro words front rest same split left passed
      cases words with
      | nil =>
        cases same
        cases word
      | cons first words =>
        cases same
        -- the words in front hold a blank, and the first one is behind the first word
        have blank : ' ' ∈ front := by
          apply count_pos_iff.mp
          rw [passed.blanks]
          exact Nat.succ_pos _
        obtain ⟨start, behind, rfl, solidStart⟩ := eq_append_cons_of_mem blank
        rw [append_assoc] at split
        obtain ⟨rfl, rfl⟩ := CString.stop_unique solid solidStart split
        have later := fit.rest words behind rest rfl rfl left
          ((wordsPassed_cons_iff word solid).mp passed)
        rw [length_append, length_cons]
        omega

/-! ### A letter that takes all that is left -/

theorem parseArgsFrom_end (args letters : List ArgLetter) (text : List Char) (m : Bytes) :
    parseArgsFrom ⟨args, false⟩ (encode text) m letters (encode text).length =
      (letters.isEmpty, []) := by
  have none : (encode text).drop (encode text).length = [] := drop_length
  cases letters with
  | nil => rw [parseArgsFrom, if_pos none]; rfl
  | cons letter letters => rw [parseArgsFrom, if_pos none]; rfl

theorem rejoinFrom_all_iff {letter : ArgLetter} (filled : rest ≠ [])
    (all : behindArg (encode (front ++ rest)) letter (encode front).length =
      (encode (front ++ rest)).length) :
    RejoinFrom front (letter :: letters) rest ↔
      letters = [] → Rejoin [letter] [parseArg (encode (front ++ rest))
        (gMarkupEscapeText (front ++ rest)) letter (encode front).length] rest := by
  have left : encode rest ≠ [] := fun empty => filled (encode_eq_nil.mp empty)
  rw [RejoinFrom, parseArgsFrom, drop_front, if_neg left, all, parseArgsFrom_end]
  constructor
  · rintro rejoin rfl
    exact rejoin _ rfl
  · intro rejoin parsed ran
    obtain ⟨done, rfl⟩ := Prod.mk.inj ran
    obtain rfl := List.isEmpty_iff.mp done
    exact rejoin rfl

theorem argsFit_noBlank {before : Nat} {letter : ArgLetter} {letters : List ArgLetter}
    {rest : List Char} (word : letter.isWord = true) (solid : ' ' ∉ rest) :
    ArgsFit before (letter :: letters) rest := by
  constructor
  · intro _ passed
    have counted := passed.blanks
    rw [count_eq_zero_of_not_mem solid] at counted
    cases counted
  · rintro words front behind same rfl _ passed
    have inFront : ' ' ∉ front := fun member => solid (mem_append_left _ member)
    have counted := passed.blanks
    rw [count_eq_zero_of_not_mem inFront] at counted
    obtain rfl := length_eq_zero_iff.mp counted.symm
    cases same
    cases word

theorem argsFit_all_iff {before : Nat} {letter : ArgLetter} (whole : letter.isWord = false)
    (filled : rest ≠ []) :
    ArgsFit before (letter :: letters) rest ↔ (letter = .S → letters = [] → before ≤ 1) := by
  constructor
  · rintro fit rfl rfl
    exact fit.rest [] [] rest rfl rfl filled (wordsPassed_nil_iff.mpr rfl)
  · intro early
    have notWord (words : List ArgLetter) : ¬ ∀ other ∈ letter :: words, other.isWord = true := by
      intro all
      rw [all letter mem_cons_self] at whole
      cases whole
    constructor
    · intro _ passed
      exact notWord letters passed.all
    · rintro words front behind same rfl _ passed
      cases words with
      | nil =>
        cases same
        rw [wordsPassed_nil_iff.mp passed]
        exact early rfl rfl
      | cons first words =>
        cases same
        exact absurd passed.all (notWord words)

/-- The slice for `S` is the rest exactly where it starts at the first or the second
character. -/
theorem parseArg_S_iff (filled : rest ≠ []) :
    parseArg (encode (front ++ rest)) (gMarkupEscapeText (front ++ rest)) .S (encode front).length =
        some (gMarkupEscapeText rest) ↔ front.length ≤ 1 := by
  rw [parseArg, gUtf8PointerToOffset_encode, drop_front, gUtf8Strlen_encode]
  by_cases order : front.length ≤ rest.length + 1
  · rw [purpleMarkupSlice_escape _ order]
    constructor
    · intro same
      by_contra late
      have taken : ((front ++ rest).take (rest.length + 1)).drop front.length =
          rest.take (rest.length + 1 - front.length) := by
        rw [take_append, take_of_length_le order, drop_left]
      rw [taken] at same
      have behind : rest.drop (rest.length + 1 - front.length) ≠ [] := by
        intro none
        rw [drop_eq_nil_iff] at none
        have positive := length_pos_of_ne_nil filled
        omega
      have shorter := shows_front_ne .S (rest.take (rest.length + 1 - front.length)) behind
      rw [take_append_drop] at shorter
      exact shorter (Option.some.inj same).symm
    · intro early
      rw [take_of_length_le, drop_left]
      rw [length_append]
      omega
  · rw [purpleMarkupSlice, if_pos (Nat.lt_of_not_le order)]
    constructor
    · intro impossible
      cases impossible
    · omega

theorem rejoinFrom_blank_iff {letter : ArgLetter} (word : letter.isWord = true)
    (solid : ' ' ∉ text) : RejoinFrom front [letter] (text ++ ' ' :: more) ↔ more ≠ [] := by
  have whole : front ++ (text ++ ' ' :: more) = (front ++ text ++ [' ']) ++ more := by
    simp only [append_assoc, cons_append, nil_append]
  have left : encode (text ++ ' ' :: more) ≠ [] := fun empty =>
    absurd (encode_eq_nil.mp empty) (append_ne_nil_of_right_ne_nil _ (cons_ne_nil _ _))
  rw [RejoinFrom, parseArgsFrom, drop_front, if_neg left, behindArg_blank word solid,
    parseArg_word word (takeWhile_encode solid more) (prefix_append _ _) rfl, parseArgsFrom,
    whole, drop_front]
  constructor
  · rintro rejoin rfl
    have shown := (rejoin _ rfl).single
    exact shows_front_ne letter text (cons_ne_nil ' ' []) (Option.some.inj shown).symm
  · intro filled parsed ran
    have behind : encode more ≠ [] := fun empty => filled (encode_eq_nil.mp empty)
    rw [if_neg behind] at ran
    cases ran

theorem argsFit_blank_iff {before : Nat} {letter : ArgLetter} (word : letter.isWord = true)
    (solid : ' ' ∉ text) : ArgsFit before [letter] (text ++ ' ' :: more) ↔ more ≠ [] := by
  constructor
  · intro fit empty
    exact fit.words (cons_ne_nil _ _)
      ((wordsPassed_cons_iff word solid).mpr (wordsPassed_nil_iff.mpr empty))
  · intro filled
    constructor
    · intro _ passed
      exact filled (wordsPassed_nil_iff.mp ((wordsPassed_cons_iff word solid).mp passed))
    · intro words _ _ same
      cases words with
      | nil =>
        cases same
        cases word
      | cons first words =>
        cases words <;> cases same

theorem argsFit_nil (before : Nat) (letter : ArgLetter) (letters : List ArgLetter) :
    ArgsFit before (letter :: letters) [] := by
  constructor
  · intro _ passed
    have counted := passed.blanks
    cases counted
  · intro words front rest _ split filled
    exact absurd (append_eq_nil_iff.mp split.symm).2 filled

theorem rejoinFrom_iff (args : List ArgLetter) :
    ∀ front rest, RejoinFrom front args rest ↔ ArgsFit front.length args rest := by
  induction args with
  | nil =>
    intro front rest
    have fit : ArgsFit front.length [] rest := by
      constructor
      · intro impossible
        exact absurd rfl impossible
      · intro words _ _ same
        exact absurd same.symm (append_ne_nil_of_right_ne_nil _ (cons_ne_nil _ _))
    refine ⟨fun _ => fit, fun _ parsed ran => ?_⟩
    rw [parseArgsFrom, drop_front] at ran
    split at ran
    · rename_i empty
      cases ran
      exact ⟨[], .nil, (encode_eq_nil.mp empty).symm⟩
    · cases ran
  | cons letter letters ih =>
    intro front rest
    by_cases filled : rest = []
    · subst filled
      refine ⟨fun _ => argsFit_nil _ _ _, fun _ parsed ran => ?_⟩
      rw [append_nil, parseArgsFrom_end] at ran
      cases ran
    · cases word : letter.isWord with
      | true =>
        by_cases blank : ' ' ∈ rest
        · obtain ⟨text, more, rfl, solid⟩ := eq_append_cons_of_mem blank
          by_cases last : letters = []
          · rw [last, rejoinFrom_blank_iff word solid, argsFit_blank_iff word solid]
          · have length : (front ++ text ++ [' ']).length = front.length + text.length + 1 := by
              simp only [length_append, length_singleton]
            rw [rejoinFrom_word_iff word last solid, argsFit_word_iff word last solid, ih, length]
        · have fit := @argsFit_noBlank front.length letter letters rest word blank
          rw [rejoinFrom_all_iff filled (behindArg_last word blank)]
          refine ⟨fun _ => fit, fun _ _ => ?_⟩
          rw [parseArg_word word (takeWhile_encode_all blank) (prefix_refl _) rfl]
          exact Rejoin.of_single fun _ => blank
      | false =>
        have noWord : letter.isWord → ' ' ∉ rest := by
          rw [word]
          intro impossible
          cases impossible
        cases letter with
        | w => cases word
        | W => cases word
        | s =>
          rw [rejoinFrom_all_iff filled rfl, argsFit_all_iff word filled, parseArg, drop_front]
          exact ⟨(fun _ impossible => nomatch impossible), fun _ _ => Rejoin.of_single noWord⟩
        | S =>
          rw [rejoinFrom_all_iff filled rfl, argsFit_all_iff word filled,
            ← parseArg_S_iff filled]
          constructor
          · intro rejoin _ last
            exact (rejoin last).single
          · intro early last
            rw [early rfl last]
            exact Rejoin.of_single noWord

/-- The arguments rejoin to the text exactly where they fit it. -/
theorem argsRejoin_iff (args : List ArgLetter) (text : List Char) :
    ArgsRejoin args text ↔ ArgsFit 0 args text := rejoinFrom_iff args [] text

/-- The rest of the text starts at the third character and loses its last one. -/
def wordAndRest : List Char := "a bcd".toList

example : purpleCmdParseArgs ⟨[.w, .S], false⟩ (encode wordAndRest) (gMarkupEscapeText wordAndRest) =
    (true, [some (encode "a".toList), some (encode "bc".toList)]) := by decide

theorem wordAndRest_cut : ¬ ArgsRejoin [.w, .S] wordAndRest := by
  intro rejoin
  have fit := (rejoinFrom_iff [.w, .S] [] wordAndRest).mp rejoin
  have passed : WordsPassed [.w] "a ".toList := ⟨by decide, by decide, by decide⟩
  have early := fit.rest [.w] "a ".toList "bcd".toList rfl rfl (by decide) passed
  exact absurd early (by decide)

end Purple.Cmds
