/-
Which tokens of a server message are read, and what a message has that is accepted.

The vector of tokens ends with a NULL: reading the first byte of the token behind the
last one goes through it.
-/

import Purple.Jabber.ScramExchange

namespace Purple.Jabber.Scram

open List Option CString

variable (prims : Primitives)

def HasAttributes (data : JabberScramData) (input : Bytes) : Prop :=
  (data.step = 1 ∧ ∃ nonce encSalt digits rest, strsplitCommas input =
      (ascii "r=" ++ nonce) :: (ascii "s=" ++ encSalt) :: (ascii "i=" ++ digits) :: rest ∧
    digits ≠ [] ∧ digits.all isDigit) ∨
  (data.step = 2 ∧ ∃ verifier rest, strsplitCommas input = (ascii "v=" ++ verifier) :: rest ∧
    verifier ≠ [])

structure TokensThere (data : JabberScramData) (input : Bytes) : Prop where
  first : data.step = 1 ∨ data.step = 2 → input ≠ []
  second : data.step = 1 → ∀ nonce, data.cnonce <+: nonce →
    strsplitCommas input ≠ [ascii "r=" ++ nonce]
  third : data.step = 1 → ∀ nonce encSalt salt, data.cnonce <+: nonce →
    prims.base64Decode encSalt = some salt → salt.headD 0 ≠ 0 →
      strsplitCommas input ≠ [ascii "r=" ++ nonce, ascii "s=" ++ encSalt]

theorem strsplitCommas_eq_nil {text : Bytes} : strsplitCommas text = [] ↔ text = [] := by
  rw [strsplitCommas]
  by_cases empty : text = []
  · rw [if_pos empty]
    exact iff_of_true rfl empty
  · rw [if_neg empty]
    exact iff_of_false (splitOn_ne_nil 44 text) empty

theorem fieldOf_field (letter : UInt8) (value : Bytes) :
    fieldOf letter (letter :: 61 :: value) = some value := if_pos rfl

section Step1

variable {prims} {data : JabberScramData} {challenge : Bytes}

/-- The parser goes on to the second token behind a nonce that extends the client's, and to
the third one behind a salt. -/
theorem parseServerStep1_reads (nonempty : challenge ≠ [])
    (second : ∀ nonce, data.cnonce <+: nonce → strsplitCommas challenge ≠ [ascii "r=" ++ nonce])
    (third : ∀ nonce encSalt salt, data.cnonce <+: nonce →
      prims.base64Decode encSalt = some salt → salt.headD 0 ≠ 0 →
        strsplitCommas challenge ≠ [ascii "r=" ++ nonce, ascii "s=" ++ encSalt]) :
    ∃ parsed, parseServerStep1 prims data challenge = some parsed := by
  rw [parseServerStep1]
  cases tokens : strsplitCommas challenge with
  | nil => exact absurd (strsplitCommas_eq_nil.mp tokens) nonempty
  | cons token0 rest =>
    rw [getElem?_cons_zero, bind_some]
    cases read0 : fieldOf 114 token0 with
    | none => exact ⟨none, rfl⟩
    | some nonce =>
      rw [fieldOf_eq read0] at tokens
      dsimp only
      by_cases refused : (!data.cnonce.isPrefixOf nonce) = true
      · rw [if_pos refused]
        exact ⟨none, rfl⟩
      rw [if_neg refused]
      rw [Bool.not_eq_true, Bool.not_eq_false'] at refused
      have extends' := isPrefixOf_iff_prefix.mp refused
      cases rest with
      | nil => exact absurd tokens (second nonce extends')
      | cons token1 rest =>
        rw [getElem?_cons_succ, getElem?_cons_zero, bind_some]
        cases read1 : (fieldOf 115 token1).bind prims.base64Decode with
        | none => exact ⟨none, rfl⟩
        | some salt =>
          obtain ⟨encSalt, readSalt, decodes⟩ := bind_eq_some_iff.mp read1
          rw [fieldOf_eq readSalt] at tokens
          dsimp only
          by_cases void : salt.headD 0 = 0
          · rw [if_pos void]
            exact ⟨none, rfl⟩
          rw [if_neg void]
          cases rest with
          | nil => exact absurd tokens (third nonce encSalt salt extends' decodes void)
          | cons token2 rest =>
            rw [getElem?_cons_succ, getElem?_cons_succ,
              getElem?_cons_zero, bind_some]
            cases read2 : fieldOf 105 token2 with
            | none => exact ⟨none, rfl⟩
            | some count =>
              dsimp only
              split
              · exact ⟨none, rfl⟩
              · exact ⟨_, rfl⟩

theorem parseServerStep1_nonce_only {nonce : Bytes} (extends' : data.cnonce <+: nonce)
    (tokens : strsplitCommas challenge = [ascii "r=" ++ nonce]) :
    parseServerStep1 prims data challenge = none := by
  have isPrefix : (!data.cnonce.isPrefixOf nonce) = false := by
    rw [Bool.not_eq_false', isPrefixOf_iff_prefix]
    exact extends'
  have read : fieldOf 114 (ascii "r=" ++ nonce) = some nonce := fieldOf_field 114 nonce
  rw [parseServerStep1, tokens]
  rw [getElem?_cons_zero, bind_some, read]
  dsimp only
  rw [isPrefix]
  rfl

theorem parseServerStep1_salt_only {nonce encSalt salt : Bytes} (extends' : data.cnonce <+: nonce)
    (decodes : prims.base64Decode encSalt = some salt) (present : salt.headD 0 ≠ 0)
    (tokens : strsplitCommas challenge = [ascii "r=" ++ nonce, ascii "s=" ++ encSalt]) :
    parseServerStep1 prims data challenge = none := by
  have isPrefix : (!data.cnonce.isPrefixOf nonce) = false := by
    rw [Bool.not_eq_false', isPrefixOf_iff_prefix]
    exact extends'
  have read0 : fieldOf 114 (ascii "r=" ++ nonce) = some nonce := fieldOf_field 114 nonce
  have read1 : fieldOf 115 (ascii "s=" ++ encSalt) = some encSalt := fieldOf_field 115 encSalt
  rw [parseServerStep1, tokens]
  rw [getElem?_cons_zero, bind_some, read0]
  dsimp only
  rw [isPrefix, if_neg Bool.false_ne_true, getElem?_cons_succ, getElem?_cons_zero,
    bind_some, read1, bind_some, decodes]
  dsimp only
  rw [if_neg present]
  rfl

end Step1

theorem parseServerStep2_reads {challenge : Bytes} (nonempty : challenge ≠ []) :
    ∃ parsed, parseServerStep2 challenge = some parsed := by
  rw [parseServerStep2]
  cases tokens : strsplitCommas challenge with
  | nil => exact absurd (strsplitCommas_eq_nil.mp tokens) nonempty
  | cons token rest =>
    rw [getElem?_cons_zero, bind_some]
    cases read : fieldOf 118 token with
    | none => exact ⟨none, rfl⟩
    | some verifier => exact ⟨_, rfl⟩

theorem parse_attributes {data : JabberScramData} {challenge : Bytes} (first : data.step = 1)
    {parsed : ServerStep1} (accepted : parseServerStep1 prims data challenge = some (some parsed)) :
    HasAttributes data challenge := by
  obtain ⟨digits, at2, some', valid, -, stated, -⟩ := parseServerStep1_stated accepted
  obtain ⟨encSalt, again, rest, tokens, -, nonempty, digit, -⟩ := stated
  exact Or.inl ⟨first, parsed.nonce, encSalt, again, rest, tokens, nonempty, digit⟩

theorem verifier_attributes {data : JabberScramData} {challenge : Bytes} (second : data.step = 2)
    {verifier : Bytes} (accepted : parseServerStep2 challenge = some (some verifier)) :
    HasAttributes data challenge := by
  have at0 := parseServerStep2_stated accepted
  cases tokens : strsplitCommas challenge with
  | nil =>
    rw [tokens] at at0
    cases at0
  | cons token rest =>
    rw [tokens, getElem?_cons_zero] at at0
    cases at0
    refine Or.inr ⟨second, verifier, rest, tokens, ?_⟩
    rintro rfl
    rw [parseServerStep2, tokens] at accepted
    cases accepted

theorem feed_reads (data : JabberScramData) {input : Bytes}
    (signed : data.step = 2 → data.serverSignature ≠ none) (there : TokensThere prims data input) :
    ∃ after fed out, jabberScramFeedParser prims data input = some (after, fed, out) ∧
      (fed = true → HasAttributes data input) := by
  rw [jabberScramFeedParser]
  dsimp only
  by_cases first : data.step = 1
  · rw [if_pos first]
    obtain ⟨parsed, reads⟩ := @parseServerStep1_reads prims
      { data with authMessage := data.authMessage ++ ascii "," ++ input } input
      (there.first (Or.inl first)) (there.second first) (there.third first)
    rw [reads, bind_some]
    cases parsed with
    | none => exact ⟨_, false, none, rfl, fun fed => absurd fed Bool.false_ne_true⟩
    | some parsed =>
      have attributes : HasAttributes data input := @parse_attributes prims
        { data with authMessage := data.authMessage ++ ascii "," ++ input } input first parsed reads
      dsimp only
      split
      · exact ⟨_, true, _, rfl, fun _ => attributes⟩
      · exact ⟨_, false, none, rfl, fun fed => absurd fed Bool.false_ne_true⟩
  rw [if_neg first]
  by_cases second : data.step = 2
  · rw [if_pos second]
    obtain ⟨parsed, reads⟩ := parseServerStep2_reads (there.first (Or.inr second))
    obtain ⟨signature, isSignature⟩ := ne_none_iff_exists'.mp (signed second)
    rw [reads, bind_some]
    cases parsed with
    | none => exact ⟨_, false, none, rfl, fun fed => absurd fed Bool.false_ne_true⟩
    | some verifier =>
      dsimp only
      cases prims.base64Decode verifier with
      | none => exact ⟨_, false, none, rfl, fun fed => absurd fed Bool.false_ne_true⟩
      | some serverSig =>
        dsimp only
        rw [isSignature]
        exact ⟨_, serverSig == signature, none, rfl, fun _ => verifier_attributes second reads⟩
  · rw [if_neg second]
    exact ⟨_, false, none, rfl, fun fed => absurd fed Bool.false_ne_true⟩

theorem feed_empty {data : JabberScramData} (either : data.step = 1 ∨ data.step = 2) :
    jabberScramFeedParser prims data [] = none := by
  rw [jabberScramFeedParser]
  dsimp only
  obtain first | second := either
  · rw [if_pos first]
    rfl
  · rw [if_neg (by rw [second]; decide), if_pos second]
    rfl

theorem feed_nonce_only {data : JabberScramData} {input nonce : Bytes} (first : data.step = 1)
    (extends' : data.cnonce <+: nonce) (tokens : strsplitCommas input = [ascii "r=" ++ nonce]) :
    jabberScramFeedParser prims data input = none := by
  rw [jabberScramFeedParser]
  dsimp only
  rw [if_pos first]
  apply bind_eq_none_iff.mpr
  intro parsed reads
  have missing : some parsed = none :=
    reads.symm.trans (parseServerStep1_nonce_only extends' tokens)
  cases missing

theorem feed_salt_only {data : JabberScramData} {input nonce encSalt salt : Bytes}
    (first : data.step = 1) (extends' : data.cnonce <+: nonce)
    (decodes : prims.base64Decode encSalt = some salt) (present : salt.headD 0 ≠ 0)
    (tokens : strsplitCommas input = [ascii "r=" ++ nonce, ascii "s=" ++ encSalt]) :
    jabberScramFeedParser prims data input = none := by
  rw [jabberScramFeedParser]
  dsimp only
  rw [if_pos first]
  apply bind_eq_none_iff.mpr
  intro parsed reads
  have missing : some parsed = none :=
    reads.symm.trans (parseServerStep1_salt_only extends' decodes present tokens)
  cases missing

/-- The parser reads tokens that are there, and accepts no message without its attributes,
where the message does not end too early.  The signature is there from the first step on. -/
theorem jabberScramFeedParser_iff (data : JabberScramData) (input : Bytes)
    (signed : data.step = 2 → data.serverSignature ≠ none) :
    (∃ after fed out, jabberScramFeedParser prims data input = some (after, fed, out) ∧
      (¬ HasAttributes data input → fed = false)) ↔ TokensThere prims data input := by
  constructor
  · rintro ⟨after, fed, out, parsed, -⟩
    constructor
    · rintro either rfl
      rw [feed_empty prims either] at parsed
      cases parsed
    · intro first nonce extends' tokens
      rw [feed_nonce_only prims first extends' tokens] at parsed
      cases parsed
    · intro first nonce encSalt salt extends' decodes present tokens
      rw [feed_salt_only prims first extends' decodes present tokens] at parsed
      cases parsed
  · intro there
    obtain ⟨after, fed, out, parsed, attributes⟩ := feed_reads prims data signed there
    refine ⟨after, fed, out, parsed, fun lacks => ?_⟩
    rw [← Bool.not_eq_true]
    exact fun isFed => lacks (attributes isFed)

theorem pencil_feeds :
    (∃ after fed out, jabberScramFeedParser pencilPrimitives pencilData
        (ascii "r=AQIDBAUGBwg=XYZ,s=c2FsdA==,i=2") = some (after, fed, out) ∧
      (¬ HasAttributes pencilData (ascii "r=AQIDBAUGBwg=XYZ,s=c2FsdA==,i=2") → fed = false)) ↔
      TokensThere pencilPrimitives pencilData (ascii "r=AQIDBAUGBwg=XYZ,s=c2FsdA==,i=2") :=
  jabberScramFeedParser_iff pencilPrimitives pencilData _ (by decide)

/-- A message of a nonce only. -/
theorem nonceOnly_reads_null :
    ¬ ∃ after fed out, jabberScramFeedParser pencilPrimitives pencilData
        (ascii "r=AQIDBAUGBwg=XYZ") = some (after, fed, out) ∧
      (¬ HasAttributes pencilData (ascii "r=AQIDBAUGBwg=XYZ") → fed = false) := by
  rintro ⟨after, fed, out, parsed, -⟩
  have tokens : strsplitCommas (ascii "r=AQIDBAUGBwg=XYZ") =
      [ascii "r=" ++ ascii "AQIDBAUGBwg=XYZ"] := by decide
  have extends' : pencilData.cnonce <+: ascii "AQIDBAUGBwg=XYZ" := by decide
  rw [feed_nonce_only pencilPrimitives (by decide) extends' tokens] at parsed
  cases parsed

end Purple.Jabber.Scram
