/-
SIP messages as they are sent, and that their header blocks are read back, from
sipmsg.c.

The vector that `g_strsplit` gives for the empty string has only its NULL; what is
read behind that NULL makes the operation `none`.
-/

import Purple.Msn.Httpconn

namespace Purple.Simple

open List CString

abbrev Bytes := List UInt8

def crlf : Bytes := [13, 10]

def maxContentLength : Int := 30000000

structure SipHdr where
  name : Bytes
  value : Bytes
deriving DecidableEq

structure SipMsg where
  response : Int
  method : Option Bytes
  target : Option Bytes
  headers : List SipHdr
  bodylen : Int
  body : Bytes
deriving DecidableEq

def blank (byte : UInt8) : Bool := byte = 32 || byte = 9

/-- Whether the line goes on with the header of the line before it. -/
def continues : Bytes → Bool
  | [] => false
  | byte :: _ => blank byte

/-- `g_strdup_printf("%s %s",dummy2, dummy)`. -/
def appendFold (value fold : Bytes) : Bytes := value ++ 32 :: fold.dropWhile blank

/-- The loop over the lines behind the first.  Every round takes a line. -/
def headerRounds : Nat → List SipHdr → List Bytes → Option (List SipHdr)
  | _, done, [] => some done
  | 0, done, _ => some done
  | rounds + 1, done, line :: rest =>
    if line.length ≤ 2 then some done
    else
      match Msn.strsplit [58] 2 line with
      | [name, text] =>
        let value := (rest.takeWhile continues).foldl appendFold (text.dropWhile blank)
        headerRounds rounds (done ++ [{ name, value }]) (rest.dropWhile continues)
      | _ => none

def findHeader (headers : List SipHdr) (name : Bytes) : Option Bytes :=
  (headers.find? fun elem => elem.name.map asciiToLower == name.map asciiToLower).map SipHdr.value

def startMsg (first second third : Bytes) (headers : List SipHdr) : SipMsg :=
  if (strstr (ascii "SIP") first).isSome then
    { response := atoi second, method := some third, target := none, headers, bodylen := 0
      body := [] }
  else
    { response := 0, method := some first, target := some second, headers, bodylen := 0
      body := [] }

/-- Where there is no `Content-Length`, the length stays 0. -/
def contentLength (headers : List SipHdr) : Int :=
  match findHeader headers (ascii "Content-Length") with
  | some text =>
    if atoi text < 0 then 0 else if maxContentLength < atoi text then 0 else atoi text
  | none => 0

/-- The method of a response is in its `CSeq`. -/
def methodOfResponse (msg : SipMsg) : Option SipMsg :=
  if msg.response = 0 then some msg
  else
    match findHeader msg.headers (ascii "CSeq") with
    | none => some { msg with method := none }
    | some text =>
      if text = [] then none else some { msg with method := (Msn.strsplit [32] 2 text)[1]? }

/-- Nothing inside `some` is a NULL. -/
def sipmsgParseHeader (header : Bytes) : Option (Option SipMsg) :=
  match Msn.strsplit crlf 0 header with
  | [] => some none
  | line :: lines =>
    match Msn.strsplit [32] 3 line with
    | [first, second, third] =>
      match headerRounds lines.length [] lines with
      | none => some none
      | some headers =>
        let msg := startMsg first second third headers
        (methodOfResponse { msg with bodylen := contentLength headers }).map some
    | _ => some none

def blankLine : Bytes := crlf ++ crlf

structure HeaderText where
  name : Bytes
  text : Bytes
  folds : List Bytes
deriving DecidableEq

def HeaderText.first (header : HeaderText) : Bytes := header.name ++ 58 :: header.text

def HeaderText.lines (header : HeaderText) : List Bytes := header.first :: header.folds

def HeaderText.hdr (header : HeaderText) : SipHdr :=
  { name := header.name
    value := header.folds.foldl appendFold (header.text.dropWhile blank) }

structure SipText where
  /-- The line breaks in front of it. -/
  breaks : Nat
  first : Bytes
  second : Bytes
  third : Bytes
  headers : List HeaderText
  body : Bytes

def SipText.startLine (sip : SipText) : Bytes := sip.first ++ 32 :: (sip.second ++ 32 :: sip.third)

def SipText.lines (sip : SipText) : List Bytes :=
  sip.startLine :: sip.headers.flatMap HeaderText.lines

def ended (lines : List Bytes) : Bytes := lines.flatMap fun line => line ++ crlf

def SipText.head (sip : SipText) : Bytes := ended sip.lines

def SipText.text (sip : SipText) : Bytes := sip.head ++ crlf ++ sip.body

def SipText.encode (sip : SipText) : Bytes := (List.replicate sip.breaks crlf).flatten ++ sip.text

def SipText.hdrs (sip : SipText) : List SipHdr := sip.headers.map HeaderText.hdr

/-- The method of a response is the second part of its `CSeq`. -/
def SipText.method (sip : SipText) : Option Bytes :=
  (findHeader sip.hdrs (ascii "CSeq")).bind fun text => (Msn.strsplit [32] 2 text)[1]?

def SipText.message (sip : SipText) : SipMsg :=
  let msg := startMsg sip.first sip.second sip.third sip.hdrs
  { msg with
    method := if msg.response = 0 then msg.method else sip.method
    bodylen := sip.body.length
    body := sip.body }

def Clean (line : Bytes) : Prop := 13 ∉ line ∧ 10 ∉ line ∧ 0 ∉ line

structure HeaderText.WellFormed (header : HeaderText) : Prop where
  named : header.name ≠ []
  solid : continues header.name = false
  noColon : 58 ∉ header.name
  clean : ∀ line ∈ header.lines, Clean line
  folded : ∀ fold ∈ header.folds, continues fold = true

structure SipText.WellFormed (sip : SipText) : Prop where
  firstSolid : 32 ∉ sip.first
  secondSolid : 32 ∉ sip.second
  startClean : Clean sip.startLine
  headers : ∀ header ∈ sip.headers, header.WellFormed
  noNul : 0 ∉ sip.body
  /-- The `Content-Length` is optional, and otherwise the length of the body. -/
  length : match findHeader sip.hdrs (ascii "Content-Length") with
    | some text => strtol text = sip.body.length
    | none => sip.body = []

structure SipText.Readable (sip : SipText) : Prop where
  long : ∀ header ∈ sip.headers, 2 < header.first.length
  body : sip.body.length ≤ 30000000
  cseq : (startMsg sip.first sip.second sip.third sip.hdrs).response ≠ 0 →
    ∀ text, findHeader sip.hdrs (ascii "CSeq") = some text → text ≠ []

theorem strsplitRounds_found {first : UInt8} {delimiter piece : Bytes} (absent : first ∉ piece)
    (rounds : Nat) (rest : Bytes) :
    Msn.strsplitRounds (first :: delimiter) (rounds + 1) (piece ++ first :: (delimiter ++ rest)) =
      piece :: Msn.strsplitRounds (first :: delimiter) rounds rest := by
  have here : strstr (first :: delimiter) (first :: (delimiter ++ rest)) = some 0 := by
    rw [strstr, if_pos]
    exact isPrefixOf_iff_prefix.mpr (prefix_append (first :: delimiter) rest)
  rw [Msn.strsplitRounds, strstr_skip absent, here, Option.map_some, Nat.zero_add]
  have behind : (piece ++ first :: (delimiter ++ rest)).drop
      (piece.length + (first :: delimiter).length) = rest := by
    rw [← drop_drop, drop_left' rfl]
    exact drop_left' rfl
  dsimp only
  rw [take_left' rfl, behind]

theorem strsplitRounds_lines {lines : List Bytes} (clean : ∀ line ∈ lines, Clean line)
    {rounds : Nat} (enough : lines.length ≤ rounds) :
    Msn.strsplitRounds crlf rounds (ended lines) = lines ++ [[]] := by
  induction lines generalizing rounds with
  | nil => cases rounds <;> rfl
  | cons line lines ih =>
    rw [length_cons] at enough
    obtain ⟨rounds, rfl⟩ := Nat.exists_eq_succ_of_ne_zero (Nat.ne_zero_of_lt enough)
    obtain ⟨here, later⟩ := forall_mem_cons.mp clean
    have shape : ended (line :: lines) = line ++ 13 :: ([10] ++ ended lines) := by
      rw [ended, flatMap_cons, append_assoc]
      rfl
    rw [shape]
    exact (strsplitRounds_found here.1 rounds (ended lines)).trans
      (congrArg (line :: ·) (ih later (Nat.le_of_succ_le_succ enough)))

theorem ended_length (lines : List Bytes) : lines.length ≤ (ended lines).length := by
  induction lines with
  | nil => exact Nat.le_refl 0
  | cons line lines ih =>
    rw [ended, flatMap_cons, length_append, length_append]
    change _ ≤ line.length + 2 + (ended lines).length
    rw [length_cons]
    omega

theorem strsplit_lines {lines : List Bytes} (some' : lines ≠ [])
    (clean : ∀ line ∈ lines, Clean line) : Msn.strsplit crlf 0 (ended lines) = lines ++ [[]] := by
  have filled : ended lines ≠ [] := by
    intro empty
    have length := ended_length lines
    rw [empty] at length
    exact some' (length_eq_zero_iff.mp (Nat.le_zero.mp length))
  rw [Msn.strsplit, if_neg filled, if_pos rfl]
  exact strsplitRounds_lines clean (ended_length lines)

theorem strsplit_start {sip : SipText} (formed : sip.WellFormed) :
    Msn.strsplit [32] 3 sip.startLine = [sip.first, sip.second, sip.third] := by
  have filled : sip.startLine ≠ [] := append_ne_nil_of_right_ne_nil _ (cons_ne_nil _ _)
  rw [Msn.strsplit, if_neg filled, if_neg (by decide)]
  exact (strsplitRounds_found formed.firstSolid 1 _).trans
    (congrArg (sip.first :: ·) (strsplitRounds_found formed.secondSolid 0 sip.third))

theorem strsplit_header {header : HeaderText} (formed : header.WellFormed) :
    Msn.strsplit [58] 2 header.first = [header.name, header.text] := by
  have filled : header.first ≠ [] := append_ne_nil_of_right_ne_nil _ (cons_ne_nil _ _)
  rw [Msn.strsplit, if_neg filled, if_neg (by decide)]
  exact strsplitRounds_found formed.noColon 0 header.text

theorem continues_first {header : HeaderText} (formed : header.WellFormed) :
    continues header.first = false := by
  have solid := formed.solid
  rw [HeaderText.first]
  cases name : header.name with
  | nil => exact absurd name formed.named
  | cons byte rest =>
    rw [name] at solid
    exact solid

/-- The lines of the headers, and the empty line that `g_strsplit` gives behind them. -/
def headerLines (headers : List HeaderText) : List Bytes := headers.flatMap HeaderText.lines ++ [[]]

theorem headerLines_solid {headers : List HeaderText}
    (formed : ∀ header ∈ headers, header.WellFormed) :
    ∃ line rest, headerLines headers = line :: rest ∧ continues line = false := by
  cases headers with
  | nil => exact ⟨[], [], rfl, rfl⟩
  | cons header headers =>
    exact ⟨header.first, _, rfl, continues_first (formed header mem_cons_self)⟩

theorem headerRounds_read {headers : List HeaderText}
    (formed : ∀ header ∈ headers, header.WellFormed)
    (long : ∀ header ∈ headers, 2 < header.first.length) (done : List SipHdr) {rounds : Nat}
    (enough : headers.length < rounds) :
    headerRounds rounds done (headerLines headers) = some (done ++ headers.map HeaderText.hdr) := by
  induction headers generalizing done rounds with
  | nil =>
    obtain ⟨rounds, rfl⟩ := Nat.exists_eq_succ_of_ne_zero (Nat.ne_zero_of_lt enough)
    rw [map_nil, append_nil]
    exact if_pos (Nat.zero_le 2)
  | cons header headers ih =>
    obtain ⟨rounds, rfl⟩ := Nat.exists_eq_succ_of_ne_zero (Nat.ne_zero_of_lt enough)
    obtain ⟨here, later⟩ := forall_mem_cons.mp formed
    obtain ⟨longHere, longLater⟩ := forall_mem_cons.mp long
    obtain ⟨next, behind, starts, solid⟩ := headerLines_solid later
    have shape : headerLines (header :: headers) =
        header.first :: (header.folds ++ headerLines headers) := by
      rw [headerLines, flatMap_cons, HeaderText.lines, append_assoc]
      rfl
    have folds : (header.folds ++ headerLines headers).takeWhile continues = header.folds := by
      rw [takeWhile_append_of_pos here.folded, starts, takeWhile_cons, solid,
        if_neg Bool.false_ne_true, append_nil]
    have rest : (header.folds ++ headerLines headers).dropWhile continues =
        headerLines headers := by
      rw [dropWhile_append_of_pos here.folded, starts, dropWhile_cons, solid,
        if_neg Bool.false_ne_true]
    rw [shape, headerRounds, if_neg (Nat.not_le_of_lt longHere), strsplit_header here]
    dsimp only
    rw [folds, rest, ih later longLater _ (Nat.lt_of_succ_lt_succ enough), append_assoc]
    rfl

theorem headers_length (headers : List HeaderText) :
    headers.length < (headerLines headers).length := by
  rw [headerLines, length_append, length_singleton]
  apply Nat.lt_succ_of_le
  induction headers with
  | nil => exact Nat.le_refl 0
  | cons header headers ih =>
    rw [flatMap_cons, length_append, length_cons, HeaderText.lines, length_cons]
    omega

theorem contentLength_body {sip : SipText} (formed : sip.WellFormed) (readable : sip.Readable) :
    contentLength sip.hdrs = sip.body.length := by
  have given := formed.length
  have short := readable.body
  rw [contentLength]
  cases found : findHeader sip.hdrs (ascii "Content-Length") with
  | none =>
    rw [found] at given
    dsimp only at given ⊢
    rw [given]
    rfl
  | some text =>
    rw [found] at given
    dsimp only at given ⊢
    have read : atoi text = sip.body.length := by
      rw [atoi, given]
      exact Int.bmod_eq_of_le (by omega) (by omega)
    rw [read, if_neg (by omega), if_neg]
    rw [maxContentLength]
    omega

theorem methodOfResponse_message {sip : SipText} (readable : sip.Readable) (bodylen : Int) :
    methodOfResponse { startMsg sip.first sip.second sip.third sip.hdrs with bodylen } =
      some { sip.message with bodylen, body := [] } := by
  have headers : (startMsg sip.first sip.second sip.third sip.hdrs).headers = sip.hdrs := by
    rw [startMsg]
    split <;> rfl
  have body : (startMsg sip.first sip.second sip.third sip.hdrs).body = [] := by
    rw [startMsg]
    split <;> rfl
  have named := readable.cseq
  rw [methodOfResponse, SipText.message]
  dsimp only
  generalize startMsg sip.first sip.second sip.third sip.hdrs = msg at headers body named ⊢
  rw [headers, body]
  by_cases request : msg.response = 0
  · rw [if_pos request, if_pos request]
  rw [if_neg request, if_neg request, SipText.method]
  cases found : findHeader sip.hdrs (ascii "CSeq") with
  | none => rfl
  | some text => exact if_neg (named request text found)

theorem sipmsgParseHeader_head {sip : SipText} (formed : sip.WellFormed) (readable : sip.Readable) :
    sipmsgParseHeader sip.head = some (some { sip.message with body := [] }) := by
  have clean : ∀ line ∈ sip.lines, Clean line := by
    apply forall_mem_cons.mpr ⟨formed.startClean, _⟩
    intro line member
    obtain ⟨header, among, inside⟩ := mem_flatMap.mp member
    exact (formed.headers header among).clean line inside
  have split : Msn.strsplit crlf 0 sip.head = sip.startLine :: headerLines sip.headers :=
    strsplit_lines (cons_ne_nil _ _) clean
  rw [sipmsgParseHeader, split]
  dsimp only
  rw [strsplit_start formed]
  dsimp only
  rw [headerRounds_read formed.headers readable.long [] (headers_length sip.headers),
    nil_append]
  dsimp only
  rw [← SipText.hdrs, methodOfResponse_message readable, contentLength_body formed readable]
  rfl

theorem strstr_behind_line {line : Bytes} (clean : 13 ∉ line) (rest : Bytes) :
    strstr blankLine (line ++ rest) = (strstr blankLine rest).map (· + line.length) :=
  strstr_skip clean rest

theorem strstr_behind_break {byte : UInt8} (solid : byte ≠ 13) (rest : Bytes) :
    strstr blankLine (crlf ++ byte :: rest) = (strstr blankLine (byte :: rest)).map (· + 2) := by
  have apart : ¬ blankLine.isPrefixOf (13 :: 10 :: byte :: rest) = true := by
    intro prefixed
    have initial := isPrefixOf_iff_prefix.mp prefixed
    have second := (cons_prefix_cons.mp (cons_prefix_cons.mp initial).2).2
    exact solid (cons_prefix_cons.mp second).1.symm
  have feed : ¬ blankLine.isPrefixOf (10 :: byte :: rest) = true := by
    intro prefixed
    exact absurd (cons_prefix_cons.mp ( isPrefixOf_iff_prefix.mp prefixed)).1 (by decide)
  change strstr blankLine (13 :: 10 :: byte :: rest) = _
  rw [strstr, if_neg apart, strstr, if_neg feed, Option.map_map]
  rfl

theorem strstr_ended {lines : List Bytes} {line : Bytes}
    (clean : ∀ line ∈ lines, 13 ∉ line ∧ line ≠ []) (first : 13 ∉ line) (rest : Bytes) :
    strstr blankLine (ended (line :: lines) ++ crlf ++ rest) =
      some ((ended (line :: lines)).length - 2) := by
  induction lines generalizing line with
  | nil =>
    have shape : ended [line] ++ crlf ++ rest = line ++ (blankLine ++ rest) := by
      simp only [ended, blankLine, flatMap_cons, flatMap_nil, append_nil,
        append_assoc]
    have here : strstr blankLine (blankLine ++ rest) = some 0 := rfl
    rw [shape, strstr_behind_line first, here]
    simp only [ended, flatMap_cons, flatMap_nil, append_nil, length_append]
    change some (0 + line.length) = some (line.length + 2 - 2)
    congr 1
    omega
  | cons next lines ih =>
    obtain ⟨here, later⟩ := forall_mem_cons.mp clean
    obtain ⟨byte, front, filled⟩ := exists_cons_of_ne_nil here.2
    have solid : byte ≠ 13 := fun return' => here.1 (by
      rw [filled, return']
      exact mem_cons_self)
    have shape : ended (line :: next :: lines) ++ crlf ++ rest =
        line ++ (crlf ++ (ended (next :: lines) ++ crlf ++ rest)) := by
      rw [ended, flatMap_cons]
      simp only [append_assoc]
      rfl
    have begins : ∃ behind, ended (next :: lines) ++ crlf ++ rest = byte :: behind := by
      rw [ended, flatMap_cons, filled]
      exact ⟨_, rfl⟩
    have more := ended_length (next :: lines)
    have long : 2 ≤ (ended (next :: lines)).length := by
      rw [ended, flatMap_cons, length_append, length_append]
      change 2 ≤ next.length + 2 + _
      omega
    have found := ih later here.1
    obtain ⟨behind, starts⟩ := begins
    rw [starts] at found
    rw [shape, strstr_behind_line first, starts, strstr_behind_break solid, found,
      Option.map_some, Option.map_some]
    have whole : (ended (line :: next :: lines)).length =
        line.length + 2 + (ended (next :: lines)).length := by
      rw [ended, flatMap_cons, length_append, length_append]
      rfl
    rw [whole]
    congr 1
    omega

end Purple.Simple
