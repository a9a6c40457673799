/-
The challenge of DIGEST-MD5, `jabber_auth_digest_md5_parse` of auth_digest_md5.c, and
the tokens that the offsets of the parser cut out of it.

The pointers of the source are offsets into the challenge.  A read before its first
byte or behind its NUL is `none`.  What is stored is read from the text alone.
-/

import Mathlib.Data.List.DropRight
import Purple.CString
import Purple.HashTable

namespace Purple.Jabber.DigestMd5

abbrev Bytes := List UInt8

abbrev Directives := HashTable Bytes (Option Bytes)

section Source

variable (challenge : Bytes)

def byteAt (offset : Int) : Option UInt8 :=
  if offset < 0 then none else (challenge ++ [0])[offset.toNat]?

theorem byteAt_bound {offset : Nat} {byte : UInt8} (read : byteAt challenge offset = some byte) :
    offset < challenge.length + 1 := by
  rw [byteAt, if_neg (by omega)] at read
  have inside := (List.getElem?_eq_some_iff.mp read).1
  rw [List.length_append, List.length_singleton, Int.toNat_natCast] at inside
  exact inside

/-- `while(*cur != '\0' && (in_quotes || (!in_quotes && *cur != ',')))` -/
def tokenEnd (cur : Nat) (inQuotes : Bool) : Option Nat :=
  match read : byteAt challenge cur with
  | none => none
  | some byte =>
    if byte ≠ 0 ∧ (inQuotes ∨ ¬ inQuotes ∧ byte ≠ 44) then
      tokenEnd (cur + 1) (if byte = 34 then !inQuotes else inQuotes)
    else some cur
termination_by challenge.length + 1 - cur
decreasing_by
  have inside := byteAt_bound challenge read
  omega

/-- `strchr`; the inner `none` is NULL. -/
def strchr (cur : Nat) (wanted : UInt8) : Option (Option Nat) :=
  match read : byteAt challenge cur with
  | none => none
  | some byte =>
    if byte = wanted then some (some cur)
    else if byte = 0 then some none
    else strchr (cur + 1) wanted
termination_by challenge.length + 1 - cur
decreasing_by
  have inside := byteAt_bound challenge read
  omega

/-- A blank, a tab, a carriage return or a line feed. -/
def isWhite (byte : UInt8) : Bool := byte == 32 || byte == 9 || byte == 13 || byte == 10

def isLead (byte : UInt8) : Bool := isWhite byte || byte == 34

def isTrail (byte : UInt8) : Bool := isWhite byte || byte == 44 || byte == 34 || byte == 0

def isSeparator (byte : UInt8) : Bool := isWhite byte || byte == 44

def skipLead (stop valStart : Nat) : Option Nat :=
  if valStart = stop then some valStart
  else
    match read : byteAt challenge valStart with
    | none => none
    | some byte => if isLead byte then skipLead stop (valStart + 1) else some valStart
termination_by challenge.length + 1 - valStart
decreasing_by
  have inside := byteAt_bound challenge read
  omega

/-- `val_end` ends in front of `val_start` where the whole value is trimmed. -/
def trimEnd (valStart : Nat) (valEnd : Int) : Option Int :=
  if valStart ≤ valEnd then
    (byteAt challenge valEnd).bind fun byte =>
      if isTrail byte then trimEnd valStart (valEnd - 1) else some valEnd
  else some valEnd
termination_by (valEnd + 1 - valStart).toNat
decreasing_by omega

def skipSeparators (cur : Nat) : Option Nat :=
  match read : byteAt challenge cur with
  | none => none
  | some byte => if isSeparator byte then skipSeparators (cur + 1) else some cur
termination_by challenge.length + 1 - cur
decreasing_by
  have inside := byteAt_bound challenge read
  omega

/-- `g_strndup`: reads so many bytes, or up to the NUL. -/
def strndup (start count : Nat) : Option Bytes :=
  if start + count ≤ challenge.length + 1 then
    some (((challenge.drop start).take count).takeWhile (· != 0))
  else none

/-- The value between `val_start`, at the equals sign, and the end of the token. -/
def tokenValue (valStart cur : Nat) : Option (Option Bytes) :=
  (skipLead challenge cur (valStart + 1)).bind fun valStart =>
    (trimEnd challenge valStart cur).bind fun valEnd =>
      if 0 ≤ valEnd - valStart + 1 then
        (strndup challenge valStart (valEnd - valStart + 1).toNat).map some
      else some none

/-- The token from `token_start` to `cur` is added, if it has a name. -/
def addToken (tokenStart cur : Nat) (table : Directives) : Option Directives :=
  (strchr challenge tokenStart 61).bind fun found =>
    let valStart := (found.filter (· ≤ cur)).getD cur
    if tokenStart ≠ valStart then
      (strndup challenge tokenStart (valStart - tokenStart)).bind fun name =>
        (if valStart ≠ cur then tokenValue challenge valStart cur else some none).map fun value =>
          table.insert name value
    else some table

def parseToken (cur : Nat) (table : Directives) : Option (Nat × Directives) :=
  (tokenEnd challenge cur false).bind fun stop =>
    (addToken challenge cur stop table).bind fun table =>
      (byteAt challenge stop).bind fun byte =>
        if byte ≠ 0 then
          (skipSeparators challenge (stop + 1)).map fun next => (next, table)
        else some (stop, table)

variable {challenge}

theorem tokenEnd_ge {cur stop : Nat} {inQuotes : Bool}
    (found : tokenEnd challenge cur inQuotes = some stop) : cur ≤ stop := by
  fun_induction tokenEnd challenge cur inQuotes with
  | case1 => cases found
  | case2 cur inQuotes byte read more ih => exact Nat.le_of_succ_le (ih found)
  | case3 => exact Nat.le_of_eq (Option.some.inj found)

theorem skipSeparators_ge {cur next : Nat}
    (found : skipSeparators challenge cur = some next) : cur ≤ next := by
  fun_induction skipSeparators challenge cur with
  | case1 => cases found
  | case2 cur byte read separator ih => exact Nat.le_of_succ_le (ih found)
  | case3 => exact Nat.le_of_eq (Option.some.inj found)

theorem parseToken_progress {cur next : Nat} {byte : UInt8} {table after : Directives}
    (read : byteAt challenge cur = some byte) (more : byte ≠ 0)
    (done : parseToken challenge cur table = some (next, after)) : cur < next := by
  obtain ⟨stop, found, done⟩ := Option.bind_eq_some_iff.mp done
  obtain ⟨_, _, done⟩ := Option.bind_eq_some_iff.mp done
  obtain ⟨last, lastRead, done⟩ := Option.bind_eq_some_iff.mp done
  have start := tokenEnd_ge found
  by_cases further : last ≠ 0
  · rw [if_pos further] at done
    obtain ⟨_, skipped, same⟩ := Option.map_eq_some_iff.mp done
    cases same
    exact Nat.lt_of_le_of_lt start (skipSeparators_ge skipped)
  · rw [if_neg further] at done
    cases done
    apply Nat.lt_of_le_of_ne start
    rintro rfl
    rw [read] at lastRead
    exact further (Option.some.inj lastRead ▸ more)

variable (challenge)

def parseLoop (cur : Nat) (table : Directives) : Option Directives :=
  match _read : byteAt challenge cur with
  | none => none
  | some byte =>
    if _more : byte = 0 then some table
    else
      match _done : parseToken challenge cur table with
      | none => none
      | some (next, table) => parseLoop next table
termination_by challenge.length + 1 - cur
decreasing_by
  have inside := byteAt_bound challenge _read
  have progress := parseToken_progress _read _more _done
  omega

end Source

def jabberAuthDigestMd5Parse (challenge : Bytes) : Option Directives :=
  parseLoop (CString.cString challenge) 0 HashTable.empty

open List Option CString

def tokenSplit : Bool → Bytes → Bytes × Bytes
  | _, [] => ([], [])
  | inQuotes, byte :: rest =>
    if inQuotes ∨ byte ≠ 44 then
      let split := tokenSplit (if byte = 34 then !inQuotes else inQuotes) rest
      (byte :: split.1, split.2)
    else ([], byte :: rest)

def trimValue (value : Bytes) : Bytes := (value.dropWhile isLead).rdropWhile isTrail

/-- The name and the value of a token; without an equals sign the value is NULL. -/
def tokenEntry (token : Bytes) : Option (Bytes × Option Bytes) :=
  let name := token.takeWhile (· != 61)
  if name = [] then none
  else some (name, ((token.dropWhile (· != 61)).tail?).map trimValue)

def addEntry (table : Directives) : Option (Bytes × Option Bytes) → Directives
  | none => table
  | some entry => table.insert entry.1 entry.2

theorem tokenSplit_append (inQuotes : Bool) (text : Bytes) :
    (tokenSplit inQuotes text).1 ++ (tokenSplit inQuotes text).2 = text := by
  induction text generalizing inQuotes with
  | nil => rfl
  | cons byte rest ih =>
    rw [tokenSplit]
    split
    · exact congrArg (byte :: ·) (ih _)
    · rfl

theorem tokenSplit_rest (inQuotes : Bool) (text : Bytes) :
    (tokenSplit inQuotes text).2 = [] ∨ ∃ rest, (tokenSplit inQuotes text).2 = 44 :: rest := by
  induction text generalizing inQuotes with
  | nil => exact .inl rfl
  | cons byte rest ih =>
    rw [tokenSplit]
    split
    · exact ih _
    · rename_i stopped
      rw [not_or, not_not] at stopped
      rw [stopped.2]
      exact .inr ⟨rest, rfl⟩

/-- What is behind a token, its comma and the separators behind it. -/
def nextText (text : Bytes) : Bytes := ((tokenSplit false text).2.drop 1).dropWhile isSeparator

theorem nextText_shorter {text : Bytes} (more : text ≠ []) : (nextText text).length < text.length := by
  have whole := congrArg List.length (tokenSplit_append false text)
  have skipped := length_dropWhile_le isSeparator ((tokenSplit false text).2.drop 1)
  have positive := length_pos_iff.mpr more
  rw [length_append] at whole
  rw [List.length_drop] at skipped
  rw [nextText]
  omega

def parseText (text : Bytes) (table : Directives) : Directives :=
  if _more : text ≠ [] then
    parseText (nextText text) (addEntry table (tokenEntry (tokenSplit false text).1))
  else table
termination_by text.length
decreasing_by exact nextText_shorter _more

/-! ### The offsets -/

section Offsets

variable {challenge : Bytes}

variable {cur : Nat} {byte : UInt8}

theorem byteAt_here (before rest : Bytes) (byte : UInt8)
    (split : challenge = before ++ byte :: rest) :
    byteAt challenge before.length = some byte := by
  rw [byteAt, if_neg (by omega), Int.toNat_natCast, split, append_assoc,
    getElem?_append_right (Nat.le_refl _), Nat.sub_self]
  rfl

theorem byteAt_end (challenge : Bytes) : byteAt challenge challenge.length = some 0 := by
  rw [byteAt, if_neg (by omega), Int.toNat_natCast,
    getElem?_append_right (Nat.le_refl _), Nat.sub_self]
  rfl

theorem tokenEnd_step (read : byteAt challenge cur = some byte) (inQuotes : Bool) :
    tokenEnd challenge cur inQuotes =
      if byte ≠ 0 ∧ (inQuotes ∨ ¬ inQuotes ∧ byte ≠ 44) then
        tokenEnd challenge (cur + 1) (if byte = 34 then !inQuotes else inQuotes)
      else some cur := by
  rw [tokenEnd.eq_def]
  split
  · rename_i missing
    rw [read] at missing
    cases missing
  · rename_i found
    rw [read] at found
    cases found
    rfl

theorem strchr_step (read : byteAt challenge cur = some byte) (wanted : UInt8) :
    strchr challenge cur wanted =
      if byte = wanted then some (some cur)
      else if byte = 0 then some none
      else strchr challenge (cur + 1) wanted := by
  rw [strchr.eq_def]
  split
  · rename_i missing
    rw [read] at missing
    cases missing
  · rename_i found
    rw [read] at found
    cases found
    rfl

theorem skipLead_step {stop : Nat} (read : byteAt challenge cur = some byte) (before : cur ≠ stop) :
    skipLead challenge stop cur =
      if isLead byte then skipLead challenge stop (cur + 1) else some cur := by
  rw [skipLead.eq_def, if_neg before]
  split
  · rename_i missing
    rw [read] at missing
    cases missing
  · rename_i found
    rw [read] at found
    cases found
    rfl

theorem skipSeparators_step (read : byteAt challenge cur = some byte) :
    skipSeparators challenge cur =
      if isSeparator byte then skipSeparators challenge (cur + 1) else some cur := by
  rw [skipSeparators.eq_def]
  split
  · rename_i missing
    rw [read] at missing
    cases missing
  · rename_i found
    rw [read] at found
    cases found
    rfl

theorem solid_here {before rest : Bytes} (clean : 0 ∉ challenge)
    (split : challenge = before ++ byte :: rest) : byte ≠ 0 := by
  rintro rfl
  apply clean
  rw [split]
  exact mem_append_right _ mem_cons_self

theorem tokenEnd_split (clean : 0 ∉ challenge) (before text : Bytes)
    (split : challenge = before ++ text) (inQuotes : Bool) :
    tokenEnd challenge before.length inQuotes =
      some (before.length + (tokenSplit inQuotes text).1.length) := by
  induction text generalizing before inQuotes with
  | nil =>
    rw [append_nil] at split
    rw [← split, tokenEnd_step (byteAt_end challenge), if_neg (fun more => more.1 rfl)]
    rfl
  | cons byte rest ih =>
    rw [tokenEnd_step (byteAt_here before rest byte split), tokenSplit]
    have solid := solid_here clean split
    by_cases inside : inQuotes = true ∨ byte ≠ 44
    · have goesOn : byte ≠ 0 ∧ (inQuotes = true ∨ ¬ inQuotes = true ∧ byte ≠ 44) := by
        refine ⟨solid, ?_⟩
        by_cases quoted : inQuotes = true
        · exact .inl quoted
        · exact .inr ⟨quoted, inside.resolve_left quoted⟩
      have later := ih (before ++ [byte]) (by rw [split, append_assoc]; rfl)
        (if byte = 34 then !inQuotes else inQuotes)
      rw [length_append, length_singleton] at later
      rw [if_pos goesOn, if_pos inside, later, length_cons, Nat.add_assoc, Nat.add_comm 1]
    · rw [if_neg (fun more => inside (more.2.imp id And.right)), if_neg inside]
      rfl

theorem strchr_found (clean : 0 ∉ challenge) {wanted : UInt8} (before name rest : Bytes)
    (split : challenge = before ++ (name ++ wanted :: rest)) (absent : wanted ∉ name) :
    strchr challenge before.length wanted = some (some (before.length + name.length)) := by
  induction name generalizing before with
  | nil => rw [strchr_step (byteAt_here before rest wanted split), if_pos rfl]; rfl
  | cons byte name ih =>
    obtain ⟨differs, absent⟩ := not_or.mp (mem_cons.not.mp absent)
    have later := ih (before ++ [byte]) (by rw [split, append_assoc]; rfl) absent
    rw [length_append, length_singleton] at later
    rw [strchr_step (byteAt_here before _ byte split), if_neg (Ne.symm differs),
      if_neg (solid_here clean split), later, length_cons, Nat.add_assoc, Nat.add_comm 1]

theorem strchr_missing (clean : 0 ∉ challenge) {wanted : UInt8} (nonzero : wanted ≠ 0)
    (before text : Bytes) (split : challenge = before ++ text) (absent : wanted ∉ text) :
    strchr challenge before.length wanted = some none := by
  induction text generalizing before with
  | nil =>
    rw [append_nil] at split
    rw [← split, strchr_step (byteAt_end challenge), if_neg (Ne.symm nonzero), if_pos rfl]
  | cons byte rest ih =>
    obtain ⟨differs, absent⟩ := not_or.mp (mem_cons.not.mp absent)
    have later := ih (before ++ [byte]) (by rw [split, append_assoc]; rfl) absent
    rw [length_append, length_singleton] at later
    rw [strchr_step (byteAt_here before _ byte split), if_neg (Ne.symm differs),
      if_neg (solid_here clean split), later]

theorem skipLead_split (before text after : Bytes) (split : challenge = before ++ (text ++ after)) :
    skipLead challenge (before.length + text.length) before.length =
      some (before.length + (text.takeWhile isLead).length) := by
  induction text generalizing before with
  | nil =>
    rw [length_nil, Nat.add_zero, skipLead.eq_def, if_pos rfl]
    rfl
  | cons byte text ih =>
    have further : before.length ≠ before.length + (byte :: text).length := by
      rw [length_cons]
      omega
    rw [skipLead_step (byteAt_here before _ byte split) further, takeWhile_cons]
    by_cases lead : isLead byte = true
    · have later := ih (before ++ [byte]) (by rw [split, append_assoc]; rfl)
      rw [length_append, length_singleton, Nat.add_assoc, Nat.add_comm 1,
        ← length_cons (a := byte)] at later
      rw [if_pos lead, if_pos lead, later, length_cons, Nat.add_assoc, Nat.add_comm 1]
    · rw [if_neg lead, if_neg lead]
      rfl

theorem skipSeparators_split (before text : Bytes)
    (split : challenge = before ++ text) :
    skipSeparators challenge before.length =
      some (before.length + (text.takeWhile isSeparator).length) := by
  induction text generalizing before with
  | nil =>
    rw [append_nil] at split
    rw [← split, skipSeparators_step (byteAt_end challenge), if_neg (by decide)]
    rfl
  | cons byte text ih =>
    rw [skipSeparators_step (byteAt_here before _ byte split), takeWhile_cons]
    by_cases separator : isSeparator byte = true
    · have later := ih (before ++ [byte]) (by rw [split, append_assoc]; rfl)
      rw [length_append, length_singleton] at later
      rw [if_pos separator, if_pos separator, later, length_cons, Nat.add_assoc,
        Nat.add_comm 1]
    · rw [if_neg separator, if_neg separator]
      rfl

theorem trimEnd_value (before text after : Bytes) (split : challenge = before ++ (text ++ after)) :
    trimEnd challenge before.length (((before.length + text.length : Nat) : Int) - 1) =
      some (((before.length + (text.rdropWhile isTrail).length : Nat) : Int) - 1) := by
  induction text using List.reverseRecOn generalizing after with
  | nil =>
    rw [trimEnd, if_neg (by rw [length_nil]; omega)]
    rfl
  | append_singleton text byte ih =>
    have here : ((before.length + (text ++ [byte]).length : Nat) : Int) - 1 =
        ((before ++ text).length : Nat) := by
      rw [length_append, length_append, length_singleton]
      omega
    have read := @byteAt_here challenge (before ++ text) after byte
      (by rw [split, append_assoc, append_assoc]; rfl)
    have kept : (before.length : Int) ≤ ((before ++ text).length : Nat) := by
      rw [length_append]
      omega
    rw [here, trimEnd, if_pos kept, read, bind_some, rdropWhile_concat]
    by_cases trail : isTrail byte = true
    · have shorter := ih (byte :: after) (by rw [split, append_assoc]; rfl)
      rw [if_pos trail, if_pos trail, length_append]
      exact shorter
    · rw [if_neg trail, if_neg trail, ← here]

theorem trimEnd_split {last : UInt8} (before text after : Bytes)
    (split : challenge = before ++ (text ++ after))
    (read : byteAt challenge ((before.length + text.length : Nat) : Int) = some last)
    (trail : isTrail last = true) :
    trimEnd challenge before.length ((before.length + text.length : Nat) : Int) =
      some (((before.length + (text.rdropWhile isTrail).length : Nat) : Int) - 1) := by
  rw [trimEnd, if_pos (by omega), read, bind_some, if_pos trail]
  exact trimEnd_value before text after split

theorem strndup_split (clean : 0 ∉ challenge) (before text after : Bytes)
    (split : challenge = before ++ (text ++ after)) :
    strndup challenge before.length text.length = some text := by
  have whole : before.length + text.length ≤ challenge.length + 1 := by
    rw [split, length_append, length_append]
    omega
  have solid : 0 ∉ text := fun nul => clean (by
    rw [split]
    exact mem_append_right _ (mem_append_left _ nul))
  rw [strndup, if_pos whole, split, drop_left' rfl, take_left' rfl]
  exact congrArg some (cString_clean solid)

theorem tokenValue_split (clean : 0 ∉ challenge) {last : UInt8} (before value after : Bytes)
    (split : challenge = before ++ (61 :: value ++ after))
    (read : byteAt challenge ((before.length + 1 + value.length : Nat) : Int) = some last)
    (trail : isTrail last = true) :
    tokenValue challenge before.length (before.length + 1 + value.length) =
      some (some (trimValue value)) := by
  have behind : (before ++ [61]).length = before.length + 1 := length_append
  have lead := @skipLead_split challenge (before ++ [61]) value after
    (by rw [split, append_assoc]; rfl)
  rw [behind] at lead
  have halves := takeWhile_append_dropWhile (p := isLead) (l := value)
  have start : (before ++ [61] ++ value.takeWhile isLead).length =
      before.length + 1 + (value.takeWhile isLead).length := by
    rw [length_append, behind]
  have stop : (before ++ [61] ++ value.takeWhile isLead).length +
      (value.dropWhile isLead).length = before.length + 1 + value.length := by
    have whole := congrArg List.length halves
    rw [length_append] at whole
    omega
  have parts : challenge = (before ++ [61] ++ value.takeWhile isLead) ++
      (value.dropWhile isLead ++ after) := by
    rw [← append_assoc, append_assoc _ (value.takeWhile isLead), halves, split,
      append_assoc, append_assoc]
    rfl
  have trimmed := trimEnd_split _ _ _ parts (by rw [stop]; exact read) trail
  have cut := rdropWhile_append_rtakeWhile (p := isTrail) (l := value.dropWhile isLead)
  have copied := @strndup_split challenge clean (before ++ [61] ++ value.takeWhile isLead)
    ((value.dropWhile isLead).rdropWhile isTrail)
    ((value.dropWhile isLead).rtakeWhile isTrail ++ after) (by
      rw [← append_assoc _ _ after, cut]
      exact parts)
  have count : (((before ++ [61] ++ value.takeWhile isLead).length +
      ((value.dropWhile isLead).rdropWhile isTrail).length : Nat) : Int) - 1 -
        ((before ++ [61] ++ value.takeWhile isLead).length : Nat) + 1 =
          (((value.dropWhile isLead).rdropWhile isTrail).length : Nat) := by
    omega
  rw [stop] at trimmed
  rw [tokenValue, lead, bind_some, ← start, trimmed, bind_some, count,
    if_pos (Int.natCast_nonneg _), Int.toNat_natCast, copied]
  rfl

theorem strchr_behind (clean : 0 ∉ challenge) (before token after : Bytes)
    (split : challenge = before ++ (token ++ after)) (absent : 61 ∉ token) :
    ∃ found, strchr challenge before.length 61 = some found ∧
      (found.filter (· ≤ before.length + token.length)).getD (before.length + token.length) =
        before.length + token.length := by
  by_cases later : 61 ∈ after
  · obtain ⟨front, back, rfl, first⟩ := eq_append_cons_of_mem later
    refine ⟨_, strchr_found clean before (token ++ front) back (by rw [split, append_assoc])
      (fun member => (mem_append.mp member).elim absent first), ?_⟩
    rw [length_append, filter_some]
    split
    · rename_i inside
      have empty : front.length = 0 := by
        have bound := of_decide_eq_true inside
        omega
      rw [getD_some, empty, Nat.add_zero]
    · rfl
  · refine ⟨none, strchr_missing clean (by decide) before (token ++ after) split
      (fun member => (mem_append.mp member).elim absent later), rfl⟩

theorem addToken_split (clean : 0 ∉ challenge) {last : UInt8} (before token after : Bytes)
    (split : challenge = before ++ (token ++ after))
    (read : byteAt challenge ((before.length + token.length : Nat) : Int) = some last)
    (trail : isTrail last = true) (table : Directives) :
    addToken challenge before.length (before.length + token.length) table =
      some (addEntry table (tokenEntry token)) := by
  have halves := takeWhile_append_dropWhile (p := (· != 61)) (l := token)
  have absent : 61 ∉ token.takeWhile (· != 61) := fun member =>
    absurd (mem_takeWhile_imp member) (by decide)
  cases found : token.dropWhile (· != 61) with
  | nil =>
    rw [found, append_nil] at halves
    rw [halves] at absent
    obtain ⟨place, placed, isCur⟩ := strchr_behind clean before token after split absent
    rw [addToken, placed, bind_some]
    dsimp only
    rw [isCur, tokenEntry, halves, found]
    by_cases empty : token = []
    · rw [if_neg (by rw [empty, length_nil]; omega), if_pos empty]
      rfl
    · have positive := length_pos_iff.mpr empty
      have copied := strndup_split clean before token after split
      rw [if_pos (by omega), if_neg empty, Nat.add_sub_cancel_left, copied, bind_some,
        if_neg (not_not_intro rfl)]
      rfl
  | cons equals value =>
    have isEquals : equals = 61 := by
      have stopped := head?_dropWhile_not (· != 61) token
      rw [found] at stopped
      exact bne_eq_false_iff_eq.mp stopped
    subst isEquals
    rw [found] at halves
    have placed := strchr_found clean before (token.takeWhile (· != 61)) (value ++ after)
      (by rw [split, ← halves, append_assoc, halves]; rfl) absent
    have size := congrArg List.length halves
    rw [length_append, length_cons] at size
    have inside : decide (before.length + (token.takeWhile (· != 61)).length ≤
        before.length + token.length) = true := decide_eq_true (by omega)
    rw [addToken, placed, bind_some]
    dsimp only
    rw [filter_some, if_pos inside, getD_some, tokenEntry, found]
    by_cases empty : token.takeWhile (· != 61) = []
    · rw [if_neg (by rw [empty, length_nil]; omega), if_pos empty]
      rfl
    · have positive := length_pos_iff.mpr empty
      have copied := strndup_split clean before (token.takeWhile (· != 61))
        (61 :: value ++ after) (by rw [split, ← halves, append_assoc, halves])
      have cur : before.length + token.length =
          (before ++ token.takeWhile (· != 61)).length + 1 + value.length := by
        rw [length_append]
        omega
      have valued := tokenValue_split clean (before ++ token.takeWhile (· != 61)) value after
        (by rw [split, ← halves, append_assoc, append_assoc, halves])
        (by rw [← cur]; exact read) trail
      rw [← cur, length_append] at valued
      rw [if_pos (by omega), if_neg empty, Nat.add_sub_cancel_left, copied, bind_some,
        if_pos (by omega), valued]
      rfl

theorem parseToken_split (clean : 0 ∉ challenge) (before text : Bytes)
    (split : challenge = before ++ text) (table : Directives) :
    ∃ front, challenge = front ++ nextText text ∧
      parseToken challenge before.length table =
        some (front.length, addEntry table (tokenEntry (tokenSplit false text).1)) := by
  have halves := tokenSplit_append false text
  have stop := tokenEnd_split clean before text split false
  have parts : challenge = before ++ ((tokenSplit false text).1 ++ (tokenSplit false text).2) := by
    rw [halves]
    exact split
  have cursor : (before ++ (tokenSplit false text).1).length =
      before.length + (tokenSplit false text).1.length := length_append
  rcases tokenSplit_rest false text with ended | ⟨more, ended⟩
  · rw [ended, append_nil] at parts
    have read := byteAt_end challenge
    rw [congrArg List.length parts, cursor] at read
    have added := addToken_split clean before (tokenSplit false text).1 []
      (by rw [append_nil]; exact parts) read (by decide) table
    refine ⟨challenge, by rw [nextText, ended]; exact (append_nil _).symm, ?_⟩
    rw [parseToken, stop, bind_some, added, bind_some, read, bind_some,
      if_neg (not_not_intro rfl), congrArg List.length parts, cursor]
  · rw [ended] at parts
    have read := @byteAt_here challenge (before ++ (tokenSplit false text).1) more 44
      (by rw [parts, append_assoc])
    rw [cursor] at read
    have added := addToken_split clean before (tokenSplit false text).1 (44 :: more) parts read
      (by decide) table
    have skipped := @skipSeparators_split challenge (before ++ (tokenSplit false text).1 ++ [44])
      more (by rw [parts, append_assoc, append_assoc]; rfl)
    have separators := takeWhile_append_dropWhile (p := isSeparator) (l := more)
    refine ⟨before ++ (tokenSplit false text).1 ++ [44] ++ more.takeWhile isSeparator, ?_, ?_⟩
    · rw [nextText, ended, parts, append_assoc, append_assoc, append_assoc]
      exact congrArg (fun left => before ++ ((tokenSplit false text).1 ++ 44 :: left))
        separators.symm
    · rw [length_append, length_singleton, cursor] at skipped
      rw [parseToken, stop, bind_some, added, bind_some, read, bind_some,
        if_pos (by decide), skipped, length_append, length_append, cursor]
      rfl

theorem parseLoop_end (before : Bytes) (split : challenge = before) (table : Directives) :
    parseLoop challenge before.length table = some table := by
  have read := byteAt_end challenge
  rw [split] at read ⊢
  rw [parseLoop.eq_def]
  split
  · rename_i missing
    rw [read] at missing
    cases missing
  · rename_i found
    rw [read] at found
    cases found
    exact dif_pos rfl

theorem parseLoop_step {next : Nat} {table after : Directives}
    (read : byteAt challenge cur = some byte) (solid : byte ≠ 0)
    (done : parseToken challenge cur table = some (next, after)) :
    parseLoop challenge cur table = parseLoop challenge next after := by
  conv_lhs => rw [parseLoop.eq_def]
  split
  · rename_i missing
    rw [read] at missing
    cases missing
  · rename_i found
    rw [read] at found
    cases found
    rw [dif_neg solid]
    split
    · rename_i failed
      rw [done] at failed
      cases failed
    · rename_i parsed
      rw [done] at parsed
      cases parsed
      rfl

theorem parseLoop_split (clean : 0 ∉ challenge) : ∀ (before text : Bytes),
    challenge = before ++ text → ∀ table,
      parseLoop challenge before.length table = some (parseText text table)
  | before, [], split, table => by
    rw [append_nil] at split
    rw [parseText, dif_neg (not_not_intro rfl)]
    exact parseLoop_end before split table
  | before, byte :: rest, split, table => by
    have more : byte :: rest ≠ [] := cons_ne_nil byte rest
    obtain ⟨front, later, done⟩ := parseToken_split clean before _ split table
    rw [parseLoop_step (byteAt_here before rest byte split) (solid_here clean split) done,
      parseText, dif_pos more]
    exact parseLoop_split clean front _ later _
termination_by _ text => text.length
decreasing_by exact nextText_shorter (cons_ne_nil byte rest)

end Offsets

theorem parse_text (challenge : Bytes) :
    jabberAuthDigestMd5Parse challenge = some (parseText (cString challenge) HashTable.empty) := by
  have clean : 0 ∉ cString challenge := fun nul =>
    absurd (mem_takeWhile_imp nul) (by decide)
  exact parseLoop_split clean [] (cString challenge) rfl HashTable.empty

end Purple.Jabber.DigestMd5
