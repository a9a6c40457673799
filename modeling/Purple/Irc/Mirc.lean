/-
mIRC formatting codes as HTML tags, `irc_mirc2html` of parse.c.

The result is kept as the list of its pieces, which records the tags that were
inserted; the string is what they are rendered to.
-/

import Mathlib.Data.List.Induction
import Mathlib.Data.List.TakeWhile
import Purple.Irc.Input

namespace Purple.Irc

open List CString

inductive TagKind where
  | b | i | u | font
deriving DecidableEq, Repr

inductive Piece where
  | char (byte : UInt8)
  | start (kind : TagKind) (attributes : Bytes)
  | close (kind : TagKind)
deriving DecidableEq, Repr

def TagKind.name : TagKind → Bytes
  | .b => ascii "B"
  | .i => ascii "I"
  | .u => ascii "U"
  | .font => ascii "FONT"

def Piece.render : Piece → Bytes
  | .char byte => [byte]
  | .start kind attributes => ascii "<" ++ kind.name ++ attributes ++ ascii ">"
  | .close kind => ascii "</" ++ kind.name ++ ascii ">"

def ircMircColors : List Bytes :=
  ["white", "black", "blue", "dark green", "red", "brown", "purple", "orange", "yellow", "green",
    "teal", "cyan", "light blue", "pink", "grey", "light grey"].map ascii

/-- The variables `bold`, `italic`, `underline` and `font`, and the result so far. -/
structure MircState where
  style : TagKind → Bool
  decoded : List Piece

def MircState.initial : MircState := { style := fun _ => false, decoded := [] }

def MircState.append (state : MircState) (pieces : List Piece) : MircState :=
  { state with decoded := state.decoded ++ pieces }

def MircState.set (state : MircState) (kind : TagKind) (value : Bool) : MircState :=
  { state with style := fun other => if other = kind then value else state.style other }

/-- The set that `strpbrk` looks for; a tab is not in it. -/
def mircCodes : Bytes := [2, 3, 7, 15, 22, 31]

def isMircCode (byte : UInt8) : Bool := byte ∈ mircCodes

def isdigit (byte : UInt8) : Bool := 48 ≤ byte && byte ≤ 57

def oneDigit : Bytes → Bytes × Bytes
  | [] => ([], [])
  | byte :: rest => if isdigit byte then ([byte], rest) else ([], byte :: rest)

def colourNumber (cur : Bytes) : Bytes × Bytes :=
  let first := oneDigit cur
  let second := oneDigit first.2
  (first.1 ++ second.1, second.2)

structure ColourCode where
  fg : Bytes
  bg : Bytes
deriving DecidableEq, Repr

def colourCode (cur : Bytes) : ColourCode × Bytes :=
  let fg := colourNumber cur
  match fg.2 with
  | 44 :: cur =>
    let bg := colourNumber cur
    ({ fg := fg.1, bg := bg.1 }, bg.2)
  | cur => ({ fg := fg.1, bg := [] }, cur)

/-- `fg[0]` is set and the number names a colour. -/
def ColourCode.shown (colour : ColourCode) : Bool :=
  !colour.fg.isEmpty && 0 ≤ atoi colour.fg && atoi colour.fg ≤ 15

def colourName (number : Bytes) : Bytes := ircMircColors.getD (atoi number).toNat []

def ColourCode.attributes (colour : ColourCode) : Bytes :=
  ascii " COLOR=\"" ++ colourName colour.fg ++ ascii "\"" ++
    if !colour.bg.isEmpty && 0 ≤ atoi colour.bg && atoi colour.bg < 16 then
      ascii " BACK=\"" ++ colourName colour.bg ++ ascii "\""
    else []

def toggle (kind : TagKind) (state : MircState) : MircState :=
  if !state.style kind then (state.append [.start kind []]).set kind true
  else (state.append [.close kind]).set kind false

def toggleBold : MircState → MircState := toggle .b

def toggleItalic : MircState → MircState := toggle .i

def toggleUnderline : MircState → MircState := toggle .u

def endFont (state : MircState) : MircState :=
  if state.style .font then (state.append [.close .font]).set .font false else state

/-- A number above 15 goes on with the loop before the font starts. -/
def setColour (colour : ColourCode) (state : MircState) : MircState :=
  let state := endFont state
  if colour.shown then (state.append [.start .font colour.attributes]).set .font true else state

/-- The end tags at `^O` and at the end of the string. -/
def closeTags (state : MircState) : MircState :=
  { style := fun _ => false
    decoded := state.decoded ++
      (([.b, .i, .u, .font] : List TagKind).filter state.style).map Piece.close }

/-- The body of the loop: the new `cur` and the new state. -/
def mircStep (cur : Bytes) (state : MircState) : Bytes × MircState :=
  let text := cur.takeWhile fun byte => !isMircCode byte
  let state := state.append (text.map .char)
  match cur.dropWhile fun byte => !isMircCode byte with
  | [] => ([], closeTags state)
  | 2 :: cur => (cur, toggleBold state)
  | 3 :: cur =>
    let colour := colourCode cur
    (colour.2, setColour colour.1 state)
  | 9 :: cur => (cur, toggleItalic state)
  | 31 :: cur => (cur, toggleUnderline state)
  | 7 :: cur => (cur, state)
  | 22 :: cur => (cur, state)
  | 15 :: cur => (cur, closeTags state)
  | cur => (cur, state)

variable {cur : Bytes} {state : MircState}

theorem oneDigit_length (cur : Bytes) : (oneDigit cur).2.length ≤ cur.length := by
  cases cur with
  | nil => exact Nat.le_refl _
  | cons byte rest =>
    rw [oneDigit]
    split
    · exact Nat.le_succ _
    · exact Nat.le_refl _

theorem colourNumber_length (cur : Bytes) : (colourNumber cur).2.length ≤ cur.length :=
  (oneDigit_length _).trans (oneDigit_length cur)

theorem colourCode_length (cur : Bytes) : (colourCode cur).2.length ≤ cur.length := by
  have fgTaken := colourNumber_length cur
  rw [colourCode]
  dsimp only
  split
  · rename_i rest found
    have bgTaken := colourNumber_length rest
    rw [found, length_cons] at fgTaken
    change (colourNumber rest).2.length ≤ cur.length
    omega
  · exact fgTaken

theorem dropWhile_code {rest : Bytes} {byte : UInt8}
    (found : cur.dropWhile (fun byte => !isMircCode byte) = byte :: rest) :
    isMircCode byte = true ∧ rest.length < cur.length := by
  constructor
  · have stopped := head?_dropWhile_not (fun byte => !isMircCode byte) cur
    rw [found] at stopped
    exact Bool.not_eq_false' .. ▸ stopped
  · have shorter := length_dropWhile_le (fun byte => !isMircCode byte) cur
    rw [found, length_cons] at shorter
    exact shorter

inductive Item where
  | char (byte : UInt8)
  | bold
  | colour (code : ColourCode)
  | underline
  | ignored
  | plain
deriving DecidableEq, Repr

def nextItem (byte : UInt8) (rest : Bytes) : Item × Bytes :=
  match byte with
  | 2 => (.bold, rest)
  | 3 => (.colour (colourCode rest).1, (colourCode rest).2)
  | 31 => (.underline, rest)
  | 7 => (.ignored, rest)
  | 22 => (.ignored, rest)
  | 15 => (.plain, rest)
  | byte => (.char byte, rest)

theorem nextItem_length (byte : UInt8) (rest : Bytes) :
    (nextItem byte rest).2.length ≤ rest.length := by
  unfold nextItem
  split
  case h_2 => exact colourCode_length rest
  all_goals exact Nat.le_refl _

def mircItems : Bytes → List Item
  | [] => []
  | byte :: rest => (nextItem byte rest).1 :: mircItems (nextItem byte rest).2
termination_by cur => cur.length
decreasing_by
  have taken := nextItem_length byte rest
  rw [length_cons]
  omega

def applyItem (state : MircState) : Item → MircState
  | .char byte => state.append [.char byte]
  | .bold => toggleBold state
  | .colour code => setColour code state
  | .underline => toggleUnderline state
  | .ignored => state
  | .plain => closeTags state

theorem mircStep_code {rest : Bytes} {byte : UInt8} (state : MircState)
    (found : cur.dropWhile (fun byte => !isMircCode byte) = byte :: rest) :
    mircStep cur state = ((nextItem byte rest).2, applyItem
      (state.append ((cur.takeWhile fun byte => !isMircCode byte).map .char))
      (nextItem byte rest).1) := by
  have code := (dropWhile_code found).1
  rw [mircStep, found]
  simp only [isMircCode, mircCodes, mem_cons, not_mem_nil, or_false,
    decide_eq_true_eq] at code
  rcases code with rfl | rfl | rfl | rfl | rfl | rfl <;> rfl

theorem mircStep_end (state : MircState)
    (found : cur.dropWhile (fun byte => !isMircCode byte) = []) :
    mircStep cur state = ([], closeTags (state.append (cur.map .char))) := by
  have whole := takeWhile_append_dropWhile (p := fun byte => !isMircCode byte) (l := cur)
  rw [found, append_nil] at whole
  rw [mircStep, found, whole]

theorem mircStep_shorter (more : (mircStep cur state).1 ≠ []) :
    (mircStep cur state).1.length < cur.length := by
  cases found : cur.dropWhile (fun byte => !isMircCode byte) with
  | nil =>
    rw [mircStep_end state found] at more
    exact absurd rfl more
  | cons byte rest =>
    rw [mircStep_code state found]
    exact (nextItem_length byte rest).trans_lt (dropWhile_code found).2

/-- `do ... while (*cur)` -/
def mircLoop (cur : Bytes) (state : MircState) : MircState :=
  if _again : (mircStep cur state).1 = [] then (mircStep cur state).2
  else mircLoop (mircStep cur state).1 (mircStep cur state).2
termination_by cur.length
decreasing_by exact mircStep_shorter _again

def ircMirc2html (string : Bytes) : List Piece :=
  (mircLoop (cString string) MircState.initial).decoded

def ircMirc2htmlText (string : Bytes) : Bytes := (ircMirc2html string).flatMap Piece.render

/-! ### The loop as a fold over the items -/

theorem mircItems_text {text : Bytes} (clean : ∀ byte ∈ text, isMircCode byte = false)
    (rest : Bytes) : mircItems (text ++ rest) = text.map .char ++ mircItems rest := by
  induction text with
  | nil => rfl
  | cons byte text ih =>
    have plain : nextItem byte (text ++ rest) = (.char byte, text ++ rest) := by
      have solid := clean byte mem_cons_self
      unfold nextItem
      split
      all_goals first | rfl | exact absurd solid (by decide)
    rw [cons_append, mircItems, plain, map_cons, cons_append]
    exact congrArg (_ :: ·) (ih fun byte member => clean byte (mem_cons_of_mem _ member))

theorem text_clean (cur : Bytes) :
    ∀ byte ∈ cur.takeWhile (fun byte => !isMircCode byte), isMircCode byte = false := by
  intro byte member
  have kept := mem_takeWhile_imp member
  exact Bool.not_eq_true' _ |>.mp kept

theorem applyItem_chars (text : Bytes) (state : MircState) :
    (text.map Item.char).foldl applyItem state = state.append (text.map .char) := by
  induction text generalizing state with
  | nil =>
    rw [map_nil, map_nil, MircState.append, append_nil]
    rfl
  | cons byte text ih =>
    rw [map_cons, foldl_cons, ih]
    simp only [applyItem, MircState.append, map_cons, append_assoc,
      singleton_append]

def behindCode (items : List Item) : Bool :=
  match items.getLast? with
  | none => false
  | some (.char _) => false
  | some _ => true

def finish (items : List Item) (state : MircState) : MircState :=
  if behindCode items then state else closeTags state

theorem nextItem_code {byte : UInt8} (rest : Bytes) (code : isMircCode byte = true) :
    behindCode [(nextItem byte rest).1] = true := by
  simp only [isMircCode, mircCodes, mem_cons, not_mem_nil, or_false,
    decide_eq_true_eq] at code
  rcases code with rfl | rfl | rfl | rfl | rfl | rfl <;> rfl

theorem behindCode_append (front : List Item) {items : List Item} (more : items ≠ []) :
    behindCode (front ++ items) = behindCode items := by
  rw [behindCode, behindCode, getLast?_append_of_ne_nil front more]

theorem behindCode_chars (text : Bytes) : behindCode (text.map Item.char) = false := by
  rw [behindCode, getLast?_map]
  cases text.getLast? with
  | none => rfl
  | some byte => rfl

theorem mircItems_ne_nil (more : cur ≠ []) : mircItems cur ≠ [] := by
  cases cur with
  | nil => exact absurd rfl more
  | cons byte rest =>
    rw [mircItems]
    exact cons_ne_nil _ _

theorem mircLoop_items (cur : Bytes) (state : MircState) :
    mircLoop cur state = finish (mircItems cur) ((mircItems cur).foldl applyItem state) := by
  have whole := takeWhile_append_dropWhile (p := fun byte => !isMircCode byte) (l := cur)
  have clean := text_clean cur
  cases found : cur.dropWhile (fun byte => !isMircCode byte) with
  | nil =>
    rw [found, append_nil] at whole
    rw [whole] at clean
    have items := mircItems_text clean []
    rw [append_nil, mircItems, append_nil] at items
    rw [mircLoop, mircStep_end state found, dif_pos rfl, items, applyItem_chars, finish,
      behindCode_chars]
    rfl
  | cons byte rest =>
    obtain ⟨code, shorter⟩ := dropWhile_code found
    have items := mircItems_text clean (byte :: rest)
    rw [found] at whole
    rw [whole, mircItems] at items
    have folded : (mircItems cur).foldl applyItem state =
        (mircItems (nextItem byte rest).2).foldl applyItem
          (applyItem (state.append ((cur.takeWhile fun byte => !isMircCode byte).map .char))
            (nextItem byte rest).1) := by
      rw [items, foldl_append, applyItem_chars, foldl_cons]
    rw [mircLoop, mircStep_code state found]
    by_cases last : (nextItem byte rest).2 = []
    · have ended : behindCode (mircItems cur) = true := by
        rw [items, last, mircItems, behindCode_append _ (cons_ne_nil _ _)]
        exact nextItem_code rest code
      rw [dif_pos last, finish, ended, folded, last, mircItems]
      rfl
    · have same : behindCode (mircItems cur) = behindCode (mircItems (nextItem byte rest).2) := by
        rw [items, append_cons, behindCode_append _ (mircItems_ne_nil last)]
      rw [dif_neg last, mircLoop_items, finish, finish, same, folded]
termination_by cur.length
decreasing_by exact (nextItem_length byte rest).trans_lt shorter

/-! ### What is inserted -/

def deleteTags (pieces : List Piece) : Bytes :=
  pieces.filterMap fun piece => match piece with
    | .char byte => some byte
    | _ => none

def plainText (items : List Item) : Bytes :=
  items.filterMap fun item => match item with
    | .char byte => some byte
    | _ => none

/-- How many tags of a kind are open behind a piece; an end tag without a start tag is
`none`. -/
def Piece.depth (kind : TagKind) (depth : Nat) : Piece → Option Nat
  | .char _ => some depth
  | .start other _ => some (if other = kind then depth + 1 else depth)
  | .close other =>
    if other = kind then if depth = 0 then none else some (depth - 1) else some depth

def openTags (kind : TagKind) (pieces : List Piece) : Option Nat :=
  pieces.foldlM (Piece.depth kind) 0

/-- Every start tag is closed later, and every end tag has its start tag. -/
def Balanced (pieces : List Piece) : Prop := ∀ kind, openTags kind pieces = some 0

/-- The flags say which tags are open, and no kind is open twice. -/
def MircState.Tracked (state : MircState) : Prop :=
  ∀ kind, openTags kind state.decoded = some (if state.style kind then 1 else 0)

theorem openTags_append (kind : TagKind) {front : List Piece} {depth : Nat}
    (opened : openTags kind front = some depth) (back : List Piece) :
    openTags kind (front ++ back) = back.foldlM (Piece.depth kind) depth := by
  rw [openTags, foldlM_append]
  change (openTags kind front).bind _ = _
  rw [opened, Option.bind_some]

theorem append_char_tracked (tracked : state.Tracked) (byte : UInt8) :
    (state.append [.char byte]).Tracked := by
  intro kind
  exact openTags_append kind (tracked kind) _

theorem set_style_same (state : MircState) (kind : TagKind) (value : Bool) :
    (state.set kind value).style kind = value :=
  if_pos rfl

theorem set_style_other (state : MircState) {kind other : TagKind} (value : Bool)
    (differs : other ≠ kind) : (state.set kind value).style other = state.style other :=
  if_neg differs

theorem start_tracked {kind : TagKind} (tracked : state.Tracked) (off : state.style kind = false)
    (attributes : Bytes) : ((state.append [.start kind attributes]).set kind true).Tracked := by
  intro other
  have opened := openTags_append other (tracked other) [.start kind attributes]
  refine opened.trans ?_
  change (some (if kind = other then _ else _) : Option Nat).bind _ = _
  by_cases same : other = kind
  · subst same
    rw [set_style_same, if_pos rfl, off]
    rfl
  · rw [if_neg (Ne.symm same), set_style_other _ _ same]
    rfl

theorem close_tracked {kind : TagKind} (tracked : state.Tracked) (on : state.style kind = true) :
    ((state.append [.close kind]).set kind false).Tracked := by
  intro other
  have opened := openTags_append other (tracked other) [.close kind]
  refine opened.trans ?_
  change (if kind = other then _ else _ : Option Nat).bind _ = _
  by_cases same : other = kind
  · subst same
    rw [set_style_same, if_pos rfl, on]
    rfl
  · rw [if_neg (Ne.symm same), set_style_other _ _ same]
    rfl

theorem toggle_tracked (kind : TagKind) (tracked : state.Tracked) :
    (toggle kind state).Tracked := by
  rw [toggle]
  cases on : state.style kind with
  | false => exact start_tracked tracked on []
  | true => exact close_tracked tracked on

theorem endFont_tracked (tracked : state.Tracked) : (endFont state).Tracked := by
  rw [endFont]
  cases on : state.style .font with
  | false => exact tracked
  | true => exact close_tracked tracked on

theorem endFont_off (state : MircState) : (endFont state).style .font = false := by
  rw [endFont]
  cases on : state.style .font with
  | false => exact on
  | true => rfl

theorem setColour_tracked (colour : ColourCode) (tracked : state.Tracked) :
    (setColour colour state).Tracked := by
  rw [setColour]
  split
  · exact start_tracked (endFont_tracked tracked) (endFont_off state) _
  · exact endFont_tracked tracked

theorem closeTags_tracked (tracked : state.Tracked) : (closeTags state).Tracked := by
  intro kind
  refine (openTags_append kind (tracked kind) _).trans ?_
  change _ = some 0
  cases bold : state.style .b <;> cases italic : state.style .i <;>
    cases underline : state.style .u <;> cases font : state.style .font <;> cases kind <;>
    simp only [List.filter, bold, italic, underline, font] <;> rfl

theorem applyItem_tracked (item : Item) (tracked : state.Tracked) :
    (applyItem state item).Tracked := by
  cases item with
  | char byte => exact append_char_tracked tracked byte
  | bold => exact toggle_tracked .b tracked
  | colour code => exact setColour_tracked code tracked
  | underline => exact toggle_tracked .u tracked
  | ignored => exact tracked
  | plain => exact closeTags_tracked tracked

theorem items_tracked (items : List Item) (tracked : state.Tracked) :
    (items.foldl applyItem state).Tracked := by
  induction items generalizing state with
  | nil => exact tracked
  | cons item items ih => exact ih (applyItem_tracked item tracked)

theorem initial_tracked : MircState.initial.Tracked := fun _ => rfl

theorem deleteTags_append (front back : List Piece) :
    deleteTags (front ++ back) = deleteTags front ++ deleteTags back :=
  filterMap_append

theorem closeTags_kept (state : MircState) :
    deleteTags (closeTags state).decoded = deleteTags state.decoded := by
  have tags (kinds : List TagKind) : deleteTags (kinds.map Piece.close) = [] := by
    induction kinds with
    | nil => rfl
    | cons kind kinds ih => exact ih
  rw [closeTags, deleteTags_append, tags, append_nil]

theorem toggle_kept (kind : TagKind) (state : MircState) :
    deleteTags (toggle kind state).decoded = deleteTags state.decoded := by
  rw [toggle]
  split <;> exact (deleteTags_append _ _).trans (append_nil _)

theorem endFont_kept (state : MircState) :
    deleteTags (endFont state).decoded = deleteTags state.decoded := by
  rw [endFont]
  split
  · exact (deleteTags_append _ _).trans (append_nil _)
  · rfl

theorem setColour_kept (colour : ColourCode) (state : MircState) :
    deleteTags (setColour colour state).decoded = deleteTags state.decoded := by
  rw [setColour]
  split
  · refine (deleteTags_append _ _).trans ?_
    exact (append_nil _).trans (endFont_kept state)
  · exact endFont_kept state

theorem applyItem_kept (item : Item) (state : MircState) :
    deleteTags (applyItem state item).decoded = deleteTags state.decoded ++ plainText [item] := by
  cases item with
  | char byte => exact deleteTags_append state.decoded [.char byte]
  | bold => exact (toggle_kept .b state).trans (append_nil _).symm
  | colour code => exact (setColour_kept code state).trans (append_nil _).symm
  | underline => exact (toggle_kept .u state).trans (append_nil _).symm
  | ignored => exact (append_nil _).symm
  | plain => exact (closeTags_kept state).trans (append_nil _).symm

theorem items_kept (items : List Item) (state : MircState) :
    deleteTags (items.foldl applyItem state).decoded =
      deleteTags state.decoded ++ plainText items := by
  induction items generalizing state with
  | nil => exact (append_nil _).symm
  | cons item items ih =>
    have split : plainText (item :: items) = plainText [item] ++ plainText items :=
      filterMap_append (l := [item])
    rw [foldl_cons, ih, applyItem_kept, split, append_assoc]

/-! ### Which styles are on at the end -/

/-- The items behind the last `^O`, the last one first. -/
def recentItems (items : List Item) : List Item := items.reverse.takeWhile (· != .plain)

def Item.colour? : Item → Option ColourCode
  | .colour code => some code
  | _ => none

/-- Bold and underline are on behind an odd number of codes, the font when the last
colour code has a number up to 15. -/
def styleOn (recent : List Item) : TagKind → Bool
  | .b => recent.count .bold % 2 == 1
  | .i => false
  | .u => recent.count .underline % 2 == 1
  | .font => (recent.findSome? Item.colour?).any ColourCode.shown

theorem recentItems_append (items : List Item) (item : Item) :
    recentItems (items ++ [item]) = if item = .plain then [] else item :: recentItems items := by
  rw [recentItems, reverse_append, reverse_singleton, singleton_append,
    takeWhile_cons]
  by_cases reset : item = .plain
  · rw [if_pos reset, reset]
    rfl
  · rw [if_neg reset, if_pos (bne_iff_ne.mpr reset)]
    rfl

theorem toggle_style (kind other : TagKind) (state : MircState) :
    (toggle kind state).style other =
      if other = kind then !state.style kind else state.style other := by
  rw [toggle]
  by_cases same : other = kind
  · rw [if_pos same, same]
    cases on : state.style kind with
    | false => exact set_style_same _ _ _
    | true => exact set_style_same _ _ _
  · rw [if_neg same]
    split <;> exact set_style_other _ _ same

theorem setColour_style (colour : ColourCode) (kind : TagKind) (state : MircState) :
    (setColour colour state).style kind =
      if kind = .font then colour.shown else state.style kind := by
  have other (differs : kind ≠ .font) : (endFont state).style kind = state.style kind := by
    rw [endFont]
    split
    · exact set_style_other _ _ differs
    · rfl
  rw [setColour]
  by_cases font : kind = .font
  · rw [if_pos font, font]
    split
    · rename_i shown
      exact (set_style_same _ _ _).trans shown.symm
    · rename_i hidden
      exact (endFont_off state).trans (Bool.eq_false_iff.mpr hidden).symm
  · rw [if_neg font]
    split
    · exact (set_style_other _ _ font).trans (other font)
    · exact other font

theorem odd_succ (count : Nat) : ((count + 1) % 2 == 1) = !(count % 2 == 1) := by
  rcases Nat.mod_two_eq_zero_or_one count with even | odd
  · rw [Nat.add_mod, even]
    rfl
  · rw [Nat.add_mod, odd]
    rfl

theorem styleOn_cons (item : Item) (recent : List Item) (kind : TagKind) (keeps : item ≠ .plain)
    (style : ∀ kind, state.style kind = styleOn recent kind) :
    (applyItem state item).style kind = styleOn (item :: recent) kind := by
  cases item with
  | char byte =>
    refine (style kind).trans ?_
    cases kind <;> rfl
  | bold =>
    refine (toggle_style .b kind state).trans ?_
    rw [style, style]
    cases kind with
    | b => rw [if_pos rfl, styleOn, styleOn, count_cons_self, odd_succ]
    | i => rfl
    | u => rfl
    | font => rfl
  | colour code =>
    refine (setColour_style code kind state).trans ?_
    rw [style]
    cases kind <;> rfl
  | underline =>
    refine (toggle_style .u kind state).trans ?_
    rw [style, style]
    cases kind with
    | u => rw [if_pos rfl, styleOn, styleOn, count_cons_self, odd_succ]
    | i => rfl
    | b => rfl
    | font => rfl
  | ignored =>
    refine (style kind).trans ?_
    cases kind <;> rfl
  | plain => exact absurd rfl keeps

theorem items_style (items : List Item) (kind : TagKind) :
    (items.foldl applyItem MircState.initial).style kind = styleOn (recentItems items) kind := by
  induction items using List.reverseRecOn generalizing kind with
  | nil => cases kind <;> rfl
  | append_singleton items item ih =>
    rw [foldl_append, recentItems_append]
    by_cases reset : item = .plain
    · rw [if_pos reset, reset]
      cases kind <;> rfl
    · rw [if_neg reset]
      exact styleOn_cons item _ kind reset ih

/-- Tags are left open exactly by a string that ends behind a code where a style is on. -/
theorem ircMirc2html_balanced_iff (string : Bytes) :
    (Balanced (ircMirc2html string) ∧
      deleteTags (ircMirc2html string) = plainText (mircItems (cString string))) ↔
      (behindCode (mircItems (cString string)) = true →
        ∀ kind, styleOn (recentItems (mircItems (cString string))) kind = false) := by
  rw [ircMirc2html, mircLoop_items]
  have tracked := items_tracked (mircItems (cString string)) initial_tracked
  have kept := items_kept (mircItems (cString string)) MircState.initial
  rw [finish]
  constructor
  · rintro ⟨balanced, _⟩ ended kind
    rw [if_pos ended] at balanced
    have opened := (tracked kind).symm.trans (balanced kind)
    rw [items_style] at opened
    cases on : styleOn (recentItems (mircItems (cString string))) kind with
    | false => rfl
    | true =>
      rw [on] at opened
      cases opened
  · intro closed
    by_cases ended : behindCode (mircItems (cString string)) = true
    · rw [if_pos ended]
      refine ⟨fun kind => ?_, kept⟩
      rw [tracked kind, items_style, closed ended kind]
      rfl
    · rw [if_neg ended]
      exact ⟨closeTags_tracked tracked, (closeTags_kept _).trans kept⟩

/-- A colour whose number ends the string. -/
theorem ircMirc2html_colourAtEnd :
    ¬ (Balanced (ircMirc2html [104, 105, 3, 52]) ∧
      deleteTags (ircMirc2html [104, 105, 3, 52]) =
        plainText (mircItems (cString [104, 105, 3, 52]))) := by
  rintro ⟨balanced, _⟩
  have result : ircMirc2html [104, 105, 3, 52] =
      [.char 104, .char 105, .start .font (ascii " COLOR=\"red\"")] := by
    decide +kernel
  have font := balanced .font
  rw [result] at font
  exact absurd font (by decide)

example : ircMirc2htmlText [2, 104, 105, 3, 52, 44, 49, 33, 2, 15] =
    ascii "<B>hi<FONT COLOR=\"red\" BACK=\"black\">!</B></FONT>" := by
  decide +kernel

end Purple.Irc
