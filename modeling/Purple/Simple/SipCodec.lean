/-
SIP messages as sipmsg.c writes them, and what it reads of them.

The writer takes any method and target, and the reader takes a message for a response
where "SIP" is in the first word, so what is read back is the message for some only.
-/

import Purple.Simple.SipSplit
import Purple.Decimal

namespace Purple.Simple

open List Option CString Decimal

/-- `%s` prints NULL as `(null)`. -/
def printed (text : Option Bytes) : Bytes := text.getD (ascii "(null)")

def SipHdr.line (elem : SipHdr) : Bytes := elem.name ++ ascii ": " ++ elem.value

def sipmsgToString (msg : SipMsg) : Bytes :=
  let start :=
    if msg.response ≠ 0 then ascii "SIP/2.0 " ++ printInt msg.response ++ ascii " Unknown"
    else printed msg.method ++ ascii " " ++ printed msg.target ++ ascii " SIP/2.0"
  start ++ crlf ++ (msg.headers.flatMap fun elem => elem.line ++ crlf) ++ crlf ++
    if msg.bodylen ≠ 0 then msg.body else []

def sipmsgParseMsg (msg : Bytes) : Option (Option SipMsg) :=
  match strstr blankLine msg with
  | none => some none
  | some offset =>
    (sipmsgParseHeader (msg.take offset)).map fun parsed =>
      parsed.map fun smsg => { smsg with body := msg.drop (offset + 4) }

structure SipHdr.Sound (elem : SipHdr) : Prop where
  named : elem.name ≠ []
  solid : ∀ byte ∈ elem.name, byte ≠ 0 ∧ byte ≠ 58 ∧ isSpace byte = false
  clean : Clean elem.value
  begins : continues elem.value = false

/-- A request, or a response with a CSeq header; its Content-Length is that of the body. -/
structure SipMsg.Sendable (msg : SipMsg) : Prop where
  code : -2 ^ 31 ≤ msg.response ∧ msg.response < 2 ^ 31
  headers : ∀ elem ∈ msg.headers, elem.Sound
  body : 0 ∉ msg.body
  sized : msg.bodylen = msg.body.length
  length : ∃ text, findHeader msg.headers (ascii "Content-Length") = some text ∧
    strtol text = msg.body.length
  request : msg.response = 0 → ∃ method target, msg.method = some method ∧
    msg.target = some target ∧ 0 ∉ method ∧ 0 ∉ target
  response : msg.response ≠ 0 → (findHeader msg.headers (ascii "CSeq")).isSome

structure RequestKept (method target : Bytes) : Prop where
  request : strstr (ascii "SIP") method = none
  methodSolid : 32 ∉ method
  targetSolid : 32 ∉ target
  methodUnbroken : strstr crlf method = none
  targetUnbroken : strstr crlf target = none

structure ResponseKept (msg : SipMsg) : Prop where
  target : msg.target = none
  method : ∀ text, findHeader msg.headers (ascii "CSeq") = some text →
    msg.method = (Msn.strsplit [32] 2 text)[1]?

structure SipMsg.Kept (msg : SipMsg) : Prop where
  body : msg.body.length ≤ 30000000
  request : msg.response = 0 → ∀ method target, msg.method = some method →
    msg.target = some target → RequestKept method target
  response : msg.response ≠ 0 → ResponseKept msg

def SipMsg.Numbered (msg : SipMsg) : Prop :=
  msg.response ≠ 0 → findHeader msg.headers (ascii "CSeq") ≠ some []

def BlankCseq (header : Bytes) : Prop :=
  ∃ line lines first second third headers cseq,
    Msn.strsplit crlf 0 header = line :: lines ∧
    Msn.strsplit [32] 3 line = [first, second, third] ∧
    (strstr (ascii "SIP") first).isSome ∧ atoi second ≠ 0 ∧ Headed lines headers ∧
    (headers.find? fun header => header.name.map asciiToLower == (ascii "CSeq").map asciiToLower) =
      some cseq ∧
    (∀ byte ∈ cseq.text, blank byte = true) ∧ cseq.folds = []

/-! ### Lines that are sent -/

def joined (line : Bytes) (lines : List Bytes) : Bytes := line ++ lines.flatMap (crlf ++ ·)

variable {elem : SipHdr} {headers : List SipHdr} {msg : SipMsg}

theorem joined_cons (line next : Bytes) (lines : List Bytes) :
    joined line (next :: lines) = line ++ 13 :: 10 :: joined next lines := by
  rw [joined, joined, flatMap_cons, append_assoc]
  rfl

theorem joined_ended (line : Bytes) (lines : List Bytes) :
    line ++ crlf ++ ended lines = joined line lines ++ crlf := by
  induction lines generalizing line with
  | nil => rw [joined, ended, flatMap_nil, flatMap_nil, append_nil, append_nil]
  | cons next lines inductionHypothesis =>
    have later := inductionHypothesis next
    have shape : line ++ crlf ++ ended (next :: lines) = line ++ crlf ++ (next ++ crlf ++ ended lines) := rfl
    rw [shape, later, joined_cons, append_assoc, append_assoc]
    rfl

theorem joined_length (line : Bytes) (lines : List Bytes) :
    lines.length ≤ (joined line lines).length := by
  induction lines generalizing line with
  | nil => exact Nat.zero_le _
  | cons next lines inductionHypothesis =>
    have later := inductionHypothesis next
    rw [joined_cons, length_append, length_cons, length_cons, length_cons]
    omega

theorem strstr_crlf_clean {line : Bytes} (clean : 13 ∉ line) : strstr crlf line = none := by
  have skipped : strstr (13 :: [10]) (line ++ []) = none := strstr_skip clean []
  rw [append_nil] at skipped
  exact skipped

theorem strstr_joined {line : Bytes} {lines : List Bytes} (unbroken : strstr crlf line = none)
    (clean : ∀ next ∈ lines, 13 ∉ next ∧ next ≠ []) (rest : Bytes) :
    strstr blankLine (joined line lines ++ (blankLine ++ rest)) = some (joined line lines).length := by
  induction lines generalizing line with
  | nil =>
    have whole : joined line [] = line := append_nil line
    have here : strstr blankLine (blankLine ++ rest) = some 0 := rfl
    have skipped := strstr_crlf_skip unbroken [13, 10] (13 :: 10 :: rest)
    rw [whole]
    apply skipped.trans
    change (strstr blankLine (blankLine ++ rest)).map _ = _
    rw [here, map_some, Nat.zero_add]
  | cons next lines inductionHypothesis =>
    obtain ⟨here, later⟩ := forall_mem_cons.mp clean
    obtain ⟨byte, front, filled⟩ := exists_cons_of_ne_nil here.2
    have solid : byte ≠ 13 := fun return' => here.1 (by
      rw [filled, return']
      exact mem_cons_self)
    have found := inductionHypothesis (strstr_crlf_clean here.1) later
    have starts : joined next lines ++ (blankLine ++ rest) =
        byte :: (front ++ lines.flatMap (crlf ++ ·) ++ (blankLine ++ rest)) := by
      rw [joined, filled]
      rfl
    rw [starts] at found
    have behind := strstr_behind_break solid (front ++ lines.flatMap (crlf ++ ·) ++ (blankLine ++ rest))
    rw [found, map_some] at behind
    have skipped := strstr_crlf_skip unbroken [13, 10] (joined next lines ++ (blankLine ++ rest))
    have shape : joined line (next :: lines) ++ (blankLine ++ rest) =
        line ++ 13 :: 10 :: (joined next lines ++ (blankLine ++ rest)) := by
      rw [joined_cons, append_assoc]
      rfl
    rw [shape]
    apply skipped.trans
    rw [starts]
    change (strstr blankLine (crlf ++ byte :: _)).map _ = _
    rw [behind, map_some, joined_cons]
    congr 1
    rw [length_append, length_cons, length_cons]
    omega

theorem strsplitRounds_joined {line : Bytes} {lines : List Bytes} (unbroken : strstr crlf line = none)
    (clean : ∀ next ∈ lines, 13 ∉ next) {rounds : Nat} (enough : lines.length ≤ rounds) :
    Msn.strsplitRounds crlf rounds (joined line lines) = line :: lines := by
  induction lines generalizing line rounds with
  | nil =>
    have whole : joined line [] = line := append_nil line
    rw [whole]
    cases rounds with
    | zero => rfl
    | succ rounds => rw [Msn.strsplitRounds, unbroken]
  | cons next lines inductionHypothesis =>
    rw [length_cons] at enough
    obtain ⟨rounds, rfl⟩ := Nat.exists_eq_succ_of_ne_zero (Nat.ne_zero_of_lt enough)
    obtain ⟨here, later⟩ := forall_mem_cons.mp clean
    have found : strstr crlf (line ++ 13 :: 10 :: joined next lines) = some line.length := by
      have first : strstr crlf (13 :: 10 :: joined next lines) = some 0 := rfl
      apply (strstr_crlf_skip unbroken [] (joined next lines)).trans
      change (strstr crlf (13 :: 10 :: joined next lines)).map _ = _
      rw [first, map_some, Nat.zero_add]
    have behind : (line ++ 13 :: 10 :: joined next lines).drop (line.length + crlf.length) =
        joined next lines := by
      rw [← drop_drop, drop_left' rfl]
      rfl
    rw [joined_cons, Msn.strsplitRounds, found]
    dsimp only
    rw [take_left' rfl, behind,
      inductionHypothesis (strstr_crlf_clean here) later (Nat.le_of_succ_le_succ enough)]

def SipHdr.text (elem : SipHdr) : HeaderText := { name := elem.name, text := 32 :: elem.value, folds := [] }

theorem SipHdr.text_hdr (begins : continues elem.value = false) : elem.text.hdr = elem := by
  have value : (32 :: elem.value).dropWhile blank = elem.value := by
    rw [dropWhile_cons, if_pos (by decide)]
    cases shape : elem.value with
    | nil => rfl
    | cons byte rest =>
      rw [shape] at begins
      exact dropWhile_cons_of_neg (Bool.eq_false_iff.mp begins)
  change ({ name := elem.name, value := (32 :: elem.value).dropWhile blank } : SipHdr) = elem
  rw [value]

theorem SipHdr.text_first (elem : SipHdr) : elem.text.first = elem.line := by
  unfold SipHdr.line HeaderText.first SipHdr.text
  rw [append_assoc]
  rfl

theorem blank_of_space {byte : UInt8} (solid : isSpace byte = false) : blank byte = false := by
  unfold isSpace at solid
  obtain ⟨space, range⟩ := Bool.or_eq_false_iff.mp solid
  unfold blank
  apply Bool.or_eq_false_iff.mpr
  constructor
  · exact decide_eq_false (beq_eq_false_iff_ne.mp space)
  · apply decide_eq_false
    intro tab
    rw [tab] at range
    exact absurd range (by decide)

theorem SipHdr.Sound.continues (sound : elem.Sound) : Simple.continues elem.line = false := by
  obtain ⟨byte, rest, shape⟩ := exists_cons_of_ne_nil sound.named
  have solid := (sound.solid byte (by rw [shape]; exact mem_cons_self)).2.2
  rw [SipHdr.line, shape]
  exact blank_of_space solid

theorem SipHdr.Sound.noReturn (sound : elem.Sound) : 13 ∉ elem.line := by
  rw [SipHdr.line]
  intro member
  rcases mem_append.mp member with member | inValue
  · rcases mem_append.mp member with inName | between
    · exact absurd (sound.solid 13 inName).2.2 (by decide)
    · exact absurd between (by decide)
  · exact sound.clean.1 inValue

theorem SipHdr.line_long (named : elem.name ≠ []) : 2 < elem.line.length := by
  have some_ := length_pos_of_ne_nil named
  have between : (ascii ": ").length = 2 := rfl
  rw [SipHdr.line, length_append, length_append, between]
  omega

theorem headed_sent (sound : ∀ elem ∈ headers, elem.Sound) :
    Headed (headers.map SipHdr.line) (headers.map SipHdr.text) := by
  induction headers with
  | nil => exact Headed.ends nofun
  | cons elem headers inductionHypothesis =>
    obtain ⟨here, later⟩ := forall_mem_cons.mp sound
    rw [map_cons, map_cons, ← SipHdr.text_first]
    have long := SipHdr.line_long here.named
    rw [← SipHdr.text_first] at long
    have noColon : 58 ∉ elem.text.name := fun member => (here.solid 58 member).2.1 rfl
    have solid : ∀ line ∈ (headers.map SipHdr.line).head?, Simple.continues line = false := by
      intro line first
      cases headers with
      | nil => cases first
      | cons next headers =>
        cases first
        exact (later next mem_cons_self).continues
    exact Headed.header noColon long nofun solid (inductionHypothesis later)

theorem map_text_hdr (sound : ∀ elem ∈ headers, elem.Sound) :
    (headers.map SipHdr.text).map HeaderText.hdr = headers := by
  induction headers with
  | nil => rfl
  | cons elem headers inductionHypothesis =>
    obtain ⟨here, later⟩ := forall_mem_cons.mp sound
    rw [map_cons, map_cons, SipHdr.text_hdr here.begins, inductionHypothesis later]

def startLine (first second third : Bytes) : Bytes := first ++ 32 :: (second ++ 32 :: third)

theorem sipmsgParseHeader_sent {first second third : Bytes} (firstSolid : 32 ∉ first)
    (secondSolid : 32 ∉ second) (unbroken : strstr crlf (startLine first second third) = none)
    (sound : ∀ elem ∈ headers, elem.Sound) :
    sipmsgParseHeader (joined (startLine first second third) (headers.map SipHdr.line)) =
      (methodOfResponse { startMsg first second third headers with
        bodylen := contentLength headers }).map some := by
  have clean : ∀ line ∈ headers.map SipHdr.line, 13 ∉ line := by
    intro line member
    obtain ⟨elem, among, rfl⟩ := List.mem_map.mp member
    exact (sound elem among).noReturn
  have filled : joined (startLine first second third) (headers.map SipHdr.line) ≠ [] :=
    append_ne_nil_of_left_ne_nil
      (append_ne_nil_of_right_ne_nil _ (cons_ne_nil _ _)) _
  have lines : Msn.strsplit crlf 0 (joined (startLine first second third) (headers.map SipHdr.line)) =
      startLine first second third :: headers.map SipHdr.line := by
    rw [Msn.strsplit, if_neg filled, if_pos rfl]
    exact strsplitRounds_joined unbroken clean (joined_length _ _)
  have words : Msn.strsplit [32] 3 (startLine first second third) = [first, second, third] :=
    strsplit_three.mpr ⟨rfl, firstSolid, secondSolid⟩
  have read : headerRounds (headers.map SipHdr.line).length [] (headers.map SipHdr.line) = some headers := by
    apply (headerRounds_iff [] (Nat.le_refl _) headers).mpr
    refine ⟨headers.map SipHdr.text, headed_sent sound, ?_⟩
    rw [map_text_hdr sound, nil_append]
  rw [sipmsgParseHeader, lines]
  dsimp only
  rw [words]
  dsimp only
  rw [read]

theorem sipmsgParseMsg_sent {first second third body : Bytes} (firstSolid : 32 ∉ first)
    (secondSolid : 32 ∉ second) (unbroken : strstr crlf (startLine first second third) = none)
    (sound : ∀ elem ∈ headers, elem.Sound) :
    sipmsgParseMsg (startLine first second third ++ crlf ++
        (headers.flatMap fun elem => elem.line ++ crlf) ++ crlf ++ body) =
      (methodOfResponse { startMsg first second third headers with
        bodylen := contentLength headers }).map fun msg => some { msg with body } := by
  have filled : ∀ line ∈ headers.map SipHdr.line, 13 ∉ line ∧ line ≠ [] := by
    intro line member
    obtain ⟨elem, among, rfl⟩ := List.mem_map.mp member
    refine ⟨(sound elem among).noReturn, ?_⟩
    intro empty
    have long := SipHdr.line_long (sound elem among).named
    rw [empty] at long
    exact absurd long (by decide)
  have shape : startLine first second third ++ crlf ++
      (headers.flatMap fun elem => elem.line ++ crlf) ++ crlf ++ body =
      joined (startLine first second third) (headers.map SipHdr.line) ++ (blankLine ++ body) := by
    have ends := joined_ended (startLine first second third) (headers.map SipHdr.line)
    rw [ended, flatMap_map] at ends
    rw [ends, blankLine]
    simp only [append_assoc]
  have found := strstr_joined unbroken filled body
  have behind : (joined (startLine first second third) (headers.map SipHdr.line) ++
      (blankLine ++ body)).drop
        ((joined (startLine first second third) (headers.map SipHdr.line)).length + 4) = body := by
    rw [← drop_drop, drop_left' rfl]
    rfl
  rw [shape, sipmsgParseMsg, found]
  dsimp only
  rw [take_left' rfl, behind, sipmsgParseHeader_sent firstSolid secondSolid unbroken sound,
    Option.map_map]
  rfl

theorem strstr_crlf_words {left right : Bytes} (first : strstr crlf left = none)
    (second : strstr crlf right = none) : strstr crlf (left ++ 32 :: right) = none := by
  induction left with
  | nil =>
    have apart : ¬ crlf.isPrefixOf (32 :: right) = true := by
      intro prefixed
      exact absurd (cons_prefix_cons.mp ( isPrefixOf_iff_prefix.mp prefixed)).1 (by decide)
    rw [nil_append, strstr, if_neg apart, second]
    rfl
  | cons byte left inductionHypothesis =>
    rw [strstr] at first
    split at first
    · cases first
    · rename_i apart
      have later := inductionHypothesis (map_eq_none_iff.mp first)
      have still : ¬ crlf.isPrefixOf (byte :: (left ++ 32 :: right)) = true := by
        intro prefixed
        obtain ⟨return', tail⟩ := cons_prefix_cons.mp ( isPrefixOf_iff_prefix.mp prefixed)
        cases left with
        | nil => exact absurd (cons_prefix_cons.mp tail).1 (by decide)
        | cons feed left =>
          have feed' := (cons_prefix_cons.mp tail).1
          apply apart
          subst return' feed'
          exact isPrefixOf_iff_prefix.mpr (prefix_append crlf left)
      rw [cons_append, strstr, if_neg still, later]
      rfl

/-! ### Messages that are read back -/

theorem contentLength_range (headers : List SipHdr) :
    0 ≤ contentLength headers ∧ contentLength headers ≤ 30000000 := by
  unfold contentLength maxContentLength
  split
  · split
    · omega
    · split <;> omega
  · omega

theorem contentLength_iff (sendable : msg.Sendable) :
    contentLength msg.headers = msg.bodylen ↔ msg.body.length ≤ 30000000 := by
  rw [sendable.sized]
  constructor
  · intro read
    have range := contentLength_range msg.headers
    omega
  · intro short
    obtain ⟨text, found, length⟩ := sendable.length
    have read : atoi text = msg.body.length := by
      rw [atoi, length]
      exact Int.bmod_eq_of_le (by omega) (by omega)
    rw [contentLength, found]
    dsimp only
    rw [read, if_neg (by omega), if_neg]
    rw [maxContentLength]
    omega

theorem body_sent (sendable : msg.Sendable) :
    (if msg.bodylen ≠ 0 then msg.body else []) = msg.body := by
  split
  · rfl
  · rename_i empty
    have none_ : msg.body.length = 0 := by
      rw [sendable.sized] at empty
      omega
    exact (length_eq_zero_iff.mp none_).symm

theorem sipmsgParseHeader_request {header target : Bytes}
    (parsed : sipmsgParseHeader header = some (some msg)) (known : msg.target = some target) :
    ∃ method, msg.method = some method ∧ RequestKept method target := by
  unfold sipmsgParseHeader at parsed
  split at parsed
  · cases parsed
  · rename_i line lines parted
    split at parsed
    · rename_i first second third words
      split at parsed
      · cases parsed
      · rename_i headers read
        dsimp only at parsed
        obtain ⟨result, methods, same⟩ := map_eq_some_iff.mp parsed
        cases same
        obtain ⟨rfl, firstSolid, secondSolid⟩ := strsplit_three.mp words
        have unbroken := strsplit_line parted
        by_cases response : (strstr (ascii "SIP") first).isSome
        · -- a response has no target
          have none_ : (startMsg first second third headers).target = none := by
            rw [startMsg, if_pos response]
          unfold methodOfResponse at methods
          dsimp only at methods
          split at methods
          · cases methods
            rw [none_] at known
            cases known
          · split at methods
            · cases methods
              rw [none_] at known
              cases known
            · split at methods
              · cases methods
              · cases methods
                rw [none_] at known
                cases known
        · rw [startMsg, if_neg response, methodOfResponse, if_pos rfl] at methods
          cases methods
          cases known
          refine ⟨first, rfl, ?_, firstSolid, secondSolid, ?_, ?_⟩
          · exact not_isSome_iff_eq_none.mp response
          · exact strstr_none_infix (prefix_append first _).isInfix unbroken
          · refine strstr_none_infix ⟨first ++ [32], 32 :: third, ?_⟩ unbroken
            simp only [append_assoc, cons_append]
            rfl
    · cases parsed

theorem sipmsgParseHeader_bodylen {header : Bytes}
    (parsed : sipmsgParseHeader header = some (some msg)) :
    0 ≤ msg.bodylen ∧ msg.bodylen ≤ 30000000 := by
  unfold sipmsgParseHeader at parsed
  split at parsed
  · cases parsed
  · split at parsed
    · split at parsed
      · cases parsed
      · rename_i headers _
        dsimp only at parsed
        obtain ⟨result, methods, same⟩ := map_eq_some_iff.mp parsed
        cases same
        have range := contentLength_range headers
        unfold methodOfResponse at methods
        split at methods
        · cases methods
          exact range
        · split at methods
          · cases methods
            exact range
          · split at methods
            · cases methods
            · cases methods
              exact range
    · cases parsed

theorem sipmsgParseMsg_inner {text : Bytes} (parsed : sipmsgParseMsg text = some (some msg)) :
    ∃ header read, sipmsgParseHeader header = some (some read) ∧ read.target = msg.target ∧
      read.method = msg.method ∧ read.bodylen = msg.bodylen := by
  unfold sipmsgParseMsg at parsed
  split at parsed
  · cases parsed
  · obtain ⟨inner, read, result⟩ := map_eq_some_iff.mp parsed
    obtain ⟨smsg, rfl, same⟩ := map_eq_some_iff.mp result
    exact ⟨_, smsg, read, by rw [← same], by rw [← same], by rw [← same]⟩

theorem body_short (sendable : msg.Sendable) {text : Bytes}
    (parsed : sipmsgParseMsg text = some (some msg)) : msg.body.length ≤ 30000000 := by
  obtain ⟨header, read, inner, _, _, length⟩ := sipmsgParseMsg_inner parsed
  have range := sipmsgParseHeader_bodylen inner
  rw [length, sendable.sized] at range
  omega

theorem request_iff (sendable : msg.Sendable) (request : msg.response = 0) :
    sipmsgParseMsg (sipmsgToString msg) = some (some msg) ↔ msg.Kept := by
  obtain ⟨method, target, methodIs, targetIs, _, _⟩ := sendable.request request
  constructor
  · intro parsed
    obtain ⟨header, read, inner, sameTarget, sameMethod, _⟩ := sipmsgParseMsg_inner parsed
    obtain ⟨other, is_, kept⟩ := sipmsgParseHeader_request inner (sameTarget.trans targetIs)
    rw [sameMethod, methodIs] at is_
    cases is_
    refine ⟨body_short sendable parsed, ?_, fun response => absurd request response⟩
    intro _ method' target' methodIs' targetIs'
    rw [methodIs] at methodIs'
    rw [targetIs] at targetIs'
    cases methodIs'
    cases targetIs'
    exact kept
  · intro kept
    have words := kept.request request method target methodIs targetIs
    have version : strstr crlf (ascii "SIP/2.0") = none := by decide +kernel
    have unbroken : strstr crlf (startLine method target (ascii "SIP/2.0")) = none :=
      strstr_crlf_words words.methodUnbroken (strstr_crlf_words words.targetUnbroken version)
    have shape : sipmsgToString msg = startLine method target (ascii "SIP/2.0") ++ crlf ++
        (msg.headers.flatMap fun elem => elem.line ++ crlf) ++ crlf ++ msg.body := by
      have space : ascii " " = [32] := by decide +kernel
      have behind : ascii " SIP/2.0" = 32 :: ascii "SIP/2.0" := by decide +kernel
      rw [sipmsgToString, if_neg (not_not.mpr request), body_sent sendable, methodIs, targetIs, space,
        behind, startLine]
      simp only [printed, getD_some, append_assoc, cons_append, nil_append]
    have started : startMsg method target (ascii "SIP/2.0") msg.headers =
        { response := 0, method := some method, target := some target, headers := msg.headers
          bodylen := 0, body := [] } := by
      rw [startMsg, words.request]
      rfl
    have length := (contentLength_iff sendable).mpr kept.body
    rw [shape, sipmsgParseMsg_sent words.methodSolid words.targetSolid unbroken sendable.headers,
      started, methodOfResponse, if_pos rfl, map_some, length, ← methodIs, ← targetIs, ← request]

theorem response_iff (sendable : msg.Sendable) (response : msg.response ≠ 0)
    (numbered : msg.Numbered) :
    sipmsgParseMsg (sipmsgToString msg) = some (some msg) ↔ msg.Kept := by
  obtain ⟨cseq, found⟩ := isSome_iff_exists.mp (sendable.response response)
  have version : 32 ∉ ascii "SIP/2.0" ∧ strstr crlf (ascii "SIP/2.0") = none := by decide +kernel
  have phrase : strstr crlf (ascii "Unknown") = none := by decide +kernel
  have code : 32 ∉ printInt msg.response := not_mem_printInt (by decide) (by decide) _
  have codeClean : strstr crlf (printInt msg.response) = none :=
    strstr_crlf_clean (not_mem_printInt (by decide) (by decide) _)
  have unbroken : strstr crlf (startLine (ascii "SIP/2.0") (printInt msg.response) (ascii "Unknown")) = none :=
    strstr_crlf_words version.2 (strstr_crlf_words codeClean phrase)
  have shape : sipmsgToString msg =
      startLine (ascii "SIP/2.0") (printInt msg.response) (ascii "Unknown") ++ crlf ++
        (msg.headers.flatMap fun elem => elem.line ++ crlf) ++ crlf ++ msg.body := by
    have space : ascii " Unknown" = 32 :: ascii "Unknown" := by decide +kernel
    have front : ascii "SIP/2.0 " = ascii "SIP/2.0" ++ [32] := by decide +kernel
    rw [sipmsgToString, if_pos response, body_sent sendable, space, front, startLine]
    simp only [append_assoc, cons_append, nil_append]
  have numeric : (strstr (ascii "SIP") (ascii "SIP/2.0")).isSome = true := by decide +kernel
  have started : startMsg (ascii "SIP/2.0") (printInt msg.response) (ascii "Unknown") msg.headers =
      { response := msg.response, method := some (ascii "Unknown"), target := none
        headers := msg.headers, bodylen := 0, body := [] } := by
    rw [startMsg, if_pos numeric, atoi_printInt sendable.code.1 sendable.code.2]
  have filled : cseq ≠ [] := by
    intro empty
    apply numbered response
    rw [found, empty]
  rw [shape, sipmsgParseMsg_sent version.1 code unbroken sendable.headers, started, methodOfResponse,
    if_neg response, found]
  dsimp only
  rw [if_neg filled, map_some]
  constructor
  · intro parsed
    have same := Option.some.inj (Option.some.inj parsed)
    have target : msg.target = none := by rw [← same]
    have length : contentLength msg.headers = msg.bodylen := congrArg SipMsg.bodylen same
    have method : (Msn.strsplit [32] 2 cseq)[1]? = msg.method := congrArg SipMsg.method same
    refine ⟨(contentLength_iff sendable).mp length, fun request => absurd request response, ?_⟩
    intro _
    refine ⟨target, ?_⟩
    intro text again
    rw [found] at again
    cases again
    exact method.symm
  · intro kept
    obtain ⟨target, cseqs⟩ := kept.response response
    have method := cseqs cseq found
    have length := (contentLength_iff sendable).mpr kept.body
    rw [length, ← method, ← target]

/-! ### Reads behind a vector -/

theorem foldl_appendFold_nil {value : Bytes} {folds : List Bytes} :
    folds.foldl appendFold value = [] ↔ value = [] ∧ folds = [] := by
  induction folds generalizing value with
  | nil => exact ⟨fun empty => ⟨empty, rfl⟩, fun both => both.1⟩
  | cons fold folds inductionHypothesis =>
    rw [foldl_cons, inductionHypothesis]
    constructor
    · intro both
      have empty := (append_eq_nil_iff.mp both.1).2
      cases empty
    · intro both
      cases both.2

theorem hdr_blank (header : HeaderText) :
    header.hdr.value = [] ↔ (∀ byte ∈ header.text, blank byte = true) ∧ header.folds = [] := by
  change header.folds.foldl appendFold (header.text.dropWhile blank) = [] ↔ _
  rw [foldl_appendFold_nil, dropWhile_eq_nil_iff]

theorem findHeader_hdrs (headers : List HeaderText) (name : Bytes) :
    findHeader (headers.map HeaderText.hdr) name =
      (headers.find? fun header => header.name.map asciiToLower == name.map asciiToLower).map
        fun header => header.hdr.value := by
  rw [findHeader, find?_map, Option.map_map]
  rfl

theorem methodOfResponse_none (msg : SipMsg) :
    methodOfResponse msg = none ↔
      msg.response ≠ 0 ∧ findHeader msg.headers (ascii "CSeq") = some [] := by
  unfold methodOfResponse
  by_cases request : msg.response = 0
  · rw [if_pos request]
    exact iff_of_false nofun fun both => both.1 request
  · rw [if_neg request]
    split
    · rename_i absent
      exact iff_of_false nofun fun both => by rw [absent] at both; cases both.2
    · rename_i text found
      by_cases empty : text = []
      · rw [if_pos empty, found, empty]
        exact iff_of_true rfl ⟨request, rfl⟩
      · rw [if_neg empty, found]
        exact iff_of_false nofun fun both => empty (Option.some.inj both.2)

theorem startMsg_response (first second third : Bytes) (headers : List SipHdr) :
    (startMsg first second third headers).response ≠ 0 ↔
      (strstr (ascii "SIP") first).isSome ∧ atoi second ≠ 0 := by
  unfold startMsg
  by_cases numeric : (strstr (ascii "SIP") first).isSome
  · rw [if_pos numeric]
    exact ⟨fun code => ⟨numeric, code⟩, fun both => both.2⟩
  · rw [if_neg numeric]
    exact iff_of_false (fun code => code rfl) fun both => numeric both.1

theorem startMsg_headers (first second third : Bytes) (headers : List SipHdr) :
    (startMsg first second third headers).headers = headers := by
  unfold startMsg
  split <;> rfl

theorem sipmsgParseHeader_none (header : Bytes) :
    sipmsgParseHeader header = none ↔ BlankCseq header := by
  unfold sipmsgParseHeader BlankCseq
  cases parted : Msn.strsplit crlf 0 header with
  | nil =>
    refine iff_of_false nofun ?_
    intro shape
    obtain ⟨line, lines, _, _, _, _, _, same, _⟩ := shape
    cases same
  | cons line lines =>
    dsimp only
    split
    · rename_i first second third words
      have read := fun headers => headerRounds_iff [] (Nat.le_refl lines.length) headers
      cases rounds : headerRounds lines.length [] lines with
      | none =>
        refine iff_of_false nofun ?_
        intro shape
        obtain ⟨_, _, _, _, _, headers, _, same, _, _, _, headed, _⟩ := shape
        cases same
        have some_ := (read (headers.map HeaderText.hdr)).mpr ⟨headers, headed, rfl⟩
        rw [rounds] at some_
        cases some_
      | some done =>
        dsimp only
        rw [map_eq_none_iff, methodOfResponse_none]
        dsimp only
        rw [startMsg_response, startMsg_headers]
        obtain ⟨headers, headed, same⟩ := (read done).mp rounds
        rw [nil_append] at same
        rw [same, findHeader_hdrs, map_eq_some_iff]
        constructor
        · intro both
          obtain ⟨⟨numeric, code⟩, cseq, found, empty⟩ := both
          obtain ⟨blanks, unfolded⟩ := (hdr_blank cseq).mp empty
          exact ⟨line, lines, first, second, third, headers, cseq, rfl, words, numeric, code,
            headed, found, blanks, unfolded⟩
        · intro shape
          obtain ⟨_, _, first', second', third', others, cseq, sameLines, words', numeric, code,
            headed', found, blanks, unfolded⟩ := shape
          cases sameLines
          rw [words] at words'
          cases words'
          have some_ := (read (others.map HeaderText.hdr)).mpr ⟨others, headed', rfl⟩
          rw [rounds, same] at some_
          have values := congrArg (findHeader · (ascii "CSeq")) (Option.some.inj some_)
          rw [findHeader_hdrs, findHeader_hdrs, found, map_some,
            (hdr_blank cseq).mpr ⟨blanks, unfolded⟩, map_eq_some_iff] at values
          exact ⟨⟨numeric, code⟩, values⟩
    · rename_i other
      refine iff_of_false nofun ?_
      intro shape
      obtain ⟨_, _, first, second, third, _, _, same, words, _⟩ := shape
      cases same
      exact other first second third words

/-- A message comes back exactly when it is kept; a header text is read within its vectors
    unless a response in it has a blank CSeq, and its length is never negative. -/
theorem sipmsg_codec :
    (∀ msg : SipMsg, msg.Sendable → msg.Numbered →
      (sipmsgParseMsg (sipmsgToString msg) = some (some msg) ↔ msg.Kept)) ∧
    ∀ header : Bytes, (¬ BlankCseq header → sipmsgParseHeader header ≠ none) ∧
      ∀ msg, sipmsgParseHeader header = some (some msg) → 0 ≤ msg.bodylen := by
  constructor
  · intro msg sendable numbered
    by_cases request : msg.response = 0
    · exact request_iff sendable request
    · exact response_iff sendable request numbered
  · intro header
    exact ⟨mt (sipmsgParseHeader_none header).mp, fun _ parsed => (sipmsgParseHeader_bodylen parsed).1⟩

def sentMessage (method : Bytes) : SipMsg where
  response := 0
  method := some method
  target := some (ascii "sip:romeo")
  headers := [{ name := ascii "Content-Length", value := ascii "2" }]
  bodylen := 2
  body := ascii "hi"

theorem sentMessage_sendable {method : Bytes} (noNul : 0 ∉ method) : (sentMessage method).Sendable := by
  have solid : ∀ byte ∈ ascii "Content-Length", byte ≠ 0 ∧ byte ≠ 58 ∧ isSpace byte = false := by
    decide +kernel
  have named : ascii "Content-Length" ≠ [] := by decide +kernel
  have value : ascii "2" = [50] := by decide +kernel
  have found : findHeader [{ name := ascii "Content-Length", value := ascii "2" }]
      (ascii "Content-Length") = some (ascii "2") := by decide +kernel
  have number : strtol (ascii "2") = ((ascii "hi").length : Nat) := by decide +kernel
  have body : 0 ∉ ascii "hi" := by decide +kernel
  have target : 0 ∉ ascii "sip:romeo" := by decide +kernel
  refine
    { code := ⟨by change -2 ^ 31 ≤ (0 : Int); decide, by change (0 : Int) < 2 ^ 31; decide⟩
      headers := ?_
      body := body
      sized := rfl
      length := ⟨ascii "2", found, number⟩
      request := fun _ => ⟨method, ascii "sip:romeo", rfl, rfl, noNul, target⟩
      response := fun response => absurd rfl response }
  intro elem member
  rw [mem_singleton.mp member]
  refine ⟨named, solid, ?_, ?_⟩
  · rw [value, Clean]
    decide
  · rw [value]
    rfl

theorem sipmsg_codec_message :
    sipmsgParseMsg (sipmsgToString (sentMessage (ascii "MESSAGE"))) =
      some (some (sentMessage (ascii "MESSAGE"))) := by
  have sendable : (sentMessage (ascii "MESSAGE")).Sendable := sentMessage_sendable (by decide +kernel)
  have kept : (sentMessage (ascii "MESSAGE")).Kept := by
    refine ⟨by decide +kernel, ?_, fun response => absurd rfl response⟩
    intro _ method target methodIs targetIs
    cases methodIs
    cases targetIs
    exact ⟨by decide +kernel, by decide +kernel, by decide +kernel, by decide +kernel, by decide +kernel⟩
  have numbered : (sentMessage (ascii "MESSAGE")).Numbered := fun response => absurd rfl response
  exact (sipmsg_codec.1 (sentMessage (ascii "MESSAGE")) sendable numbered).mpr kept

/-- A method with a space, and one that is taken for the version of a response. -/
theorem sipmsg_codec_fails :
    ((sentMessage (ascii "NEW MESSAGE")).Sendable ∧
      sipmsgParseMsg (sipmsgToString (sentMessage (ascii "NEW MESSAGE"))) ≠
        some (some (sentMessage (ascii "NEW MESSAGE")))) ∧
    (sentMessage (ascii "SIPPING")).Sendable ∧
      sipmsgParseMsg (sipmsgToString (sentMessage (ascii "SIPPING"))) ≠
        some (some (sentMessage (ascii "SIPPING"))) := by
  refine ⟨⟨sentMessage_sendable (by decide +kernel), ?_⟩, sentMessage_sendable (by decide +kernel), ?_⟩
  · decide +kernel
  · decide +kernel

end Purple.Simple
