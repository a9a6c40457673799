/-
The lines of a stream, however it is cut into reads.

A line ends at a line feed, and a carriage return right before it belongs to its end.
The loop looks for the two together first, over all that was received: a read that
brings a line feed of its own and the two together behind it makes one line of what
are two.
-/

import Purple.Irc.Input
import Purple.PartialRun

namespace Purple.Irc

open List Memory CString PartialRun

def chomp (line : Bytes) : Bytes := if line.getLast? = some 13 then line.dropLast else line

def lines : Bytes → Bytes → List Bytes
  | _, [] => []
  | pending, byte :: rest =>
    if byte = 10 then chomp pending :: lines [] rest else lines (pending ++ [byte]) rest

def unfinished : Bytes → Bytes → Bytes
  | pending, [] => pending
  | pending, byte :: rest =>
    if byte = 10 then unfinished [] rest else unfinished (pending ++ [byte]) rest

theorem lines_append (pending first second : Bytes) :
    lines pending (first ++ second) =
      lines pending first ++ lines (unfinished pending first) second := by
  induction first generalizing pending with
  | nil => rfl
  | cons byte rest ih =>
    rw [cons_append, lines, lines, unfinished]
    split
    · rw [ih, cons_append]
    · rw [ih]

theorem unfinished_append (pending first second : Bytes) :
    unfinished pending (first ++ second) = unfinished (unfinished pending first) second := by
  induction first generalizing pending with
  | nil => rfl
  | cons byte rest ih =>
    rw [cons_append, unfinished, unfinished]
    split
    · rw [ih]
    · rw [ih]

theorem lines_inside (pending : Bytes) {body : Bytes} (inside : 10 ∉ body) :
    lines pending body = [] ∧ unfinished pending body = pending ++ body := by
  induction body generalizing pending with
  | nil => exact ⟨rfl, (append_nil pending).symm⟩
  | cons byte rest ih =>
    have notEnd : byte ≠ 10 := fun feed => inside (feed ▸ mem_cons_self)
    obtain ⟨noLine, open'⟩ := ih (pending ++ [byte]) fun member =>
      inside (mem_cons_of_mem byte member)
    rw [lines, unfinished, if_neg notEnd, if_neg notEnd, noLine, open', append_assoc]
    exact ⟨rfl, rfl⟩

theorem lines_ended {body : Bytes} (inside : 10 ∉ body) (behind : Bytes) :
    lines [] (body ++ 10 :: behind) = chomp body :: lines [] behind ∧
      unfinished [] (body ++ 10 :: behind) = unfinished [] behind := by
  obtain ⟨noLine, begun⟩ := lines_inside [] inside
  rw [lines_append, unfinished_append, noLine, begun]
  exact ⟨rfl, rfl⟩

theorem chomp_sub {byte : UInt8} {line : Bytes} (member : byte ∈ chomp line) : byte ∈ line := by
  rw [chomp] at member
  split at member
  · exact mem_of_mem_dropLast member
  · exact member

theorem chomp_return (line : Bytes) : chomp (line ++ [13]) = line := by
  rw [chomp, getLast?_concat, if_pos rfl, dropLast_concat]

theorem lines_clean {pending : Bytes} (inside : 10 ∉ pending) (bytes : Bytes) :
    (∀ line ∈ lines pending bytes, 10 ∉ line) ∧ 10 ∉ unfinished pending bytes := by
  induction bytes generalizing pending with
  | nil => exact ⟨forall_mem_nil _, inside⟩
  | cons byte rest ih =>
    rw [lines, unfinished]
    by_cases feed : byte = 10
    · rw [if_pos feed, if_pos feed]
      obtain ⟨clean, open'⟩ := ih (not_mem_nil)
      exact ⟨forall_mem_cons.mpr ⟨fun member => inside (chomp_sub member), clean⟩, open'⟩
    · rw [if_neg feed, if_neg feed]
      apply ih
      intro member
      rcases mem_append.mp member with before | last
      · exact inside before
      · exact feed (mem_singleton.mp last).symm

theorem unfinished_suffix (bytes : Bytes) :
    ∃ ended, bytes = ended ++ unfinished [] bytes ∧ (ended = [] ∨ ended.getLast? = some 10) := by
  induction bytes using List.reverseRecOn with
  | nil => exact ⟨[], rfl, Or.inl rfl⟩
  | append_singleton bytes byte ih =>
    rw [unfinished_append, unfinished]
    by_cases feed : byte = 10
    · rw [if_pos feed, unfinished, feed]
      exact ⟨bytes ++ [10], (append_nil _).symm, Or.inr getLast?_concat⟩
    · rw [if_neg feed, unfinished]
      obtain ⟨ended, split, last⟩ := ih
      refine ⟨ended, ?_, last⟩
      rw [← append_assoc, ← split]

theorem unfinished_sub {bytes : Bytes} {byte : UInt8} (member : byte ∈ unfinished [] bytes) :
    byte ∈ bytes := by
  obtain ⟨ended, split, _⟩ := unfinished_suffix bytes
  rw [split]
  exact mem_append_right ended member

/-- A line feed of its own, and behind it one with a carriage return. -/
def Mixes (bytes : Bytes) : Prop :=
  ∃ front middle behind,
    bytes = front ++ 10 :: (middle ++ crlf ++ behind) ∧ front.getLast? ≠ some 13

theorem mixes_crlf {bytes : Bytes} (mixes : Mixes bytes) : crlf <:+: bytes := by
  obtain ⟨front, middle, behind, rfl, _⟩ := mixes
  exact ⟨front ++ 10 :: middle, behind, by simp⟩

theorem getLast?_behind (front : Bytes) {rest : Bytes} (some' : rest ≠ []) :
    (front ++ rest).getLast? = rest.getLast? := by
  rw [getLast?_append_of_ne_nil front some']

theorem mixes_behind {text behind : Bytes} (inside : 10 ∉ text) :
    Mixes (text ++ crlf ++ behind) ↔ Mixes behind := by
  constructor
  · rintro ⟨front, middle, more, same, alone⟩
    have split : (text ++ [13]) ++ 10 :: behind = front ++ 10 :: (middle ++ crlf ++ more) := by
      rw [← same, append_assoc, append_assoc]
      rfl
    rcases append_eq_append_iff.mp split with ⟨between, longer, rest⟩ | ⟨between, shorter, rest⟩
    · cases between with
      | nil =>
        rw [longer, append_nil, getLast?_concat] at alone
        exact absurd rfl alone
      | cons byte between =>
        obtain ⟨feed, rest⟩ := List.cons.inj rest
        refine ⟨between, middle, more, rest, fun last => alone ?_⟩
        cases between with
        | nil => cases last
        | cons next between =>
          rw [longer, ← feed, append_cons, getLast?_behind _ (cons_ne_nil _ _)]
          exact last
    · cases between with
      | nil =>
        rw [append_nil] at shorter
        rw [← shorter, getLast?_concat] at alone
        exact absurd rfl alone
      | cons byte between =>
        obtain ⟨feed, rest⟩ := List.cons.inj rest
        have member : (10 : UInt8) ∈ text ++ [13] := by
          rw [shorter, ← feed]
          exact mem_append_right front mem_cons_self
        rcases mem_append.mp member with before | last
        · exact absurd before inside
        · exact absurd (mem_singleton.mp last) (by decide)
  · rintro ⟨front, middle, more, rfl, alone⟩
    refine ⟨text ++ crlf ++ front, middle, more, by simp, fun last => ?_⟩
    cases front with
    | nil =>
      rw [append_nil] at last
      change (text ++ [13, 10]).getLast? = some 13 at last
      rw [getLast?_behind text (cons_ne_nil _ _)] at last
      exact absurd last (by decide)
    | cons byte front =>
      rw [getLast?_behind _ (cons_ne_nil _ _)] at last
      exact alone last

theorem mixes_of_early {text behind : Bytes} (first : ¬crlf <:+: text) (early : 10 ∈ text) :
    Mixes (text ++ crlf ++ behind) := by
  obtain ⟨front, middle, rfl⟩ := append_of_mem early
  refine ⟨front, middle, behind, by simp, fun last => first ?_⟩
  obtain ⟨before, rfl⟩ := getLast?_eq_some_iff.mp last
  exact ⟨before, middle, by simp [crlf]⟩

theorem strstr_first {needle before after : Bytes} (positive : needle ≠ [])
    (found : strstr needle (before ++ needle ++ after) = some before.length) :
    ¬needle <:+: before := by
  have taken := strstr_take_iff found before.length
  have short : ¬before.length + needle.length ≤ before.length := by
    have := length_pos_of_ne_nil positive
    omega
  rw [append_assoc, take_left' rfl, if_neg short] at taken
  exact (strstr_none_iff needle before).mp taken

theorem lf_infix_iff (bytes : Bytes) : lf <:+: bytes ↔ 10 ∈ bytes := by
  rw [lf, singleton_infix_iff]

/-- The end of line that a search finds, and what it means for the lines. -/
inductive Found (string : Bytes) : Prop where
  | nothing (absent : lineEnd string = none) (inside : 10 ∉ string)
  | both (text behind : Bytes) (split : string = text ++ crlf ++ behind)
      (found : lineEnd string = some (text.length, 2)) (first : ¬crlf <:+: text)
  | alone (text behind : Bytes) (split : string = text ++ 10 :: behind)
      (found : lineEnd string = some (text.length, 1)) (inside : 10 ∉ text)
      (never : ¬crlf <:+: string)

theorem lineEnd_found (string : Bytes) : Found string := by
  cases search : strstr crlf string with
  | some offset =>
    obtain ⟨text, behind, split, length⟩ := strstr_decompose search
    refine .both text behind split ?_ (@strstr_first crlf text behind (cons_ne_nil _ _) ?_)
    · rw [lineEnd, search, length]
      rfl
    · rw [← split, search, length]
  | none =>
    have never := (strstr_none_iff _ string).mp search
    cases second : strstr lf string with
    | some offset =>
      obtain ⟨text, behind, split, length⟩ := strstr_decompose second
      have first : ¬lf <:+: text := by
        refine @strstr_first lf text behind (cons_ne_nil _ _) ?_
        rw [← split, second, length]
      refine .alone text behind (by rw [split, append_assoc]; rfl) ?_
        (fun member => first ((lf_infix_iff text).mpr member)) never
      rw [lineEnd, search, second, length]
      rfl
    | none =>
      refine .nothing ?_ fun member => ?_
      · rw [lineEnd, search, second]
        rfl
      · exact (strstr_none_iff _ string).mp second
          ((lf_infix_iff string).mpr member)

/-- What the searches make of the bytes: their lines unless two ends of line mix, else
a line with a line feed in it. -/
structure Splits (bytes : Bytes) (passed : List Bytes) (left : Bytes) : Prop where
  behind : left <:+ bytes
  faithful : ¬Mixes bytes → passed = lines [] bytes ∧ left = unfinished [] bytes
  mixed : Mixes bytes → ∃ line ∈ passed, 10 ∈ line

theorem splits_nothing {string : Bytes} (inside : 10 ∉ string) : Splits string [] string := by
  obtain ⟨noLine, open'⟩ := lines_inside [] inside
  refine ⟨suffix_refl _, fun _ => ⟨noLine.symm, open'.symm⟩, ?_⟩
  rintro ⟨front, middle, behind, rfl, _⟩
  exact absurd (mem_append_right front mem_cons_self) inside

theorem splits_both {text behind left : Bytes} {passed : List Bytes}
    (first : ¬crlf <:+: text) (splits : Splits behind passed left) :
    Splits (text ++ crlf ++ behind) (text :: passed) left := by
  have kept : left <:+ text ++ crlf ++ behind := splits.behind.trans (suffix_append _ _)
  by_cases early : 10 ∈ text
  · have mixes : Mixes (text ++ crlf ++ behind) := mixes_of_early first early
    exact ⟨kept, fun unmixed => absurd mixes unmixed, fun _ => ⟨text, mem_cons_self, early⟩⟩
  · have inside : 10 ∉ text ++ [13] := by
      intro member
      rcases mem_append.mp member with before | last
      · exact early before
      · exact absurd (mem_singleton.mp last) (by decide)
    obtain ⟨line, open'⟩ := lines_ended inside behind
    have shape : text ++ crlf ++ behind = (text ++ [13]) ++ 10 :: behind := by
      rw [append_assoc, append_assoc]
      rfl
    refine ⟨kept, ?_, ?_⟩
    · intro unmixed
      obtain ⟨same, rest⟩ := splits.faithful fun mixes => unmixed ((mixes_behind early).mpr mixes)
      rw [shape, line, open', chomp_return, same, rest]
      exact ⟨rfl, rfl⟩
    · intro mixes
      obtain ⟨wrong, member, feed⟩ := splits.mixed ((mixes_behind early).mp mixes)
      exact ⟨wrong, mem_cons_of_mem text member, feed⟩

theorem splits_alone {text behind left : Bytes} {passed : List Bytes} (inside : 10 ∉ text)
    (never : ¬crlf <:+: text ++ 10 :: behind) (splits : Splits behind passed left) :
    Splits (text ++ 10 :: behind) (text :: passed) left := by
  have later : ¬Mixes behind := fun mixes =>
    never ((mixes_crlf mixes).trans (List.IsSuffix.isInfix ⟨text ++ [10], by simp⟩))
  have noReturn : text.getLast? ≠ some 13 := by
    intro last
    obtain ⟨before, rfl⟩ := getLast?_eq_some_iff.mp last
    exact never ⟨before, behind, by simp [crlf]⟩
  obtain ⟨line, open'⟩ := lines_ended inside behind
  obtain ⟨same, rest⟩ := splits.faithful later
  refine ⟨splits.behind.trans ⟨text ++ [10], by simp⟩, fun _ => ?_,
    fun mixes => absurd (mixes_crlf mixes) never⟩
  rw [line, open', chomp, if_neg noReturn, same, rest]
  exact ⟨rfl, rfl⟩

end Purple.Irc
