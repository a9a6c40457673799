/-
`purple_uri_list_extract_uris` of util.c, against the lines of its text.

A line ends with a line feed; a carriage return in front of it is white space of the
line.  The white space that is skipped in front of an entry may hold line feeds.
-/

import Mathlib.Data.List.Chain
import Mathlib.Data.List.DropRight
import Purple.CString
import Purple.Separated

namespace Purple.UriList

open List CString

abbrev Bytes := List UInt8

/-- The entry at `p`, which is no white space, up to the end of the line. -/
def entry (p : Bytes) : List Bytes :=
  let q := p.takeWhile fun byte => byte != 10 && byte != 13
  if q = [] then [] else [q.rdropWhile isSpace]

def entryStart (p : Bytes) : Bytes := if p.head? = some 35 then p else p.dropWhile isSpace

theorem entryStart_length (p : Bytes) : (entryStart p).length ≤ p.length := by
  rw [entryStart]
  split
  · exact Nat.le_refl _
  · exact length_dropWhile_le _ _

def extractLoop (p : Bytes) : List Bytes :=
  let uris := if p.head? = some 35 then [] else entry (entryStart p)
  if _ended : (entryStart p).dropWhile (· != 10) = [] then uris
  else uris ++ extractLoop ((entryStart p).dropWhile (· != 10)).tail
termination_by p.length
decreasing_by
  have positive := length_pos_iff.mpr _ended
  have rest := length_dropWhile_le (· != 10) (entryStart p)
  have start := entryStart_length p
  rw [length_tail]
  omega

def purpleUriListExtractUris (uriList : Bytes) : List Bytes := extractLoop (cString uriList)

def trim (line : Bytes) : Bytes := (line.dropWhile isSpace).rdropWhile isSpace

def IsBlank (line : Bytes) : Prop := line.all isSpace = true

instance : DecidablePred IsBlank := fun _ => inferInstanceAs (Decidable (_ = true))

/-- The first character that is no line break is the mark of a comment. -/
def IsComment (line : Bytes) : Prop := (line.dropWhile (· == 13)).head? = some 35

instance : DecidablePred IsComment := fun _ => inferInstanceAs (Decidable (_ = _))

/-- The contents of the lines that are neither blank nor a comment. -/
def contents (lines : List Bytes) : List Bytes :=
  (lines.filter fun line => ¬IsBlank line ∧ ¬IsComment line).map trim

/-- What the loop makes of lines, if the white space in front of an entry was or was not begun. -/
def collected : Bool → List Bytes → List Bytes
  | _, [] => []
  | skipping, line :: rest =>
    if skipping = false ∧ line.head? = some 35 then collected false rest
    else if IsBlank line then collected true rest
    else entry (line.dropWhile isSpace) ++ collected false rest

def following (start : Bytes) : List Bytes :=
  if start.dropWhile (· != 10) = [] then [] else extractLoop (start.dropWhile (· != 10)).tail

theorem extractLoop_eq (p : Bytes) :
    extractLoop p = if p.head? = some 35 then following p
      else entry (p.dropWhile isSpace) ++ following (p.dropWhile isSpace) := by
  rw [extractLoop, entryStart]
  split
  · rw [following]
    rfl
  · rw [following]
    split
    · rw [append_nil]
    · rfl

variable {line start : Bytes}

theorem toBreak (clean : 10 ∉ start) (more : Bytes) :
    (start ++ more).dropWhile (· != 10) = more.dropWhile (· != 10) := by
  apply dropWhile_append_of_pos
  intro byte member
  exact bne_iff_ne.mpr (ne_of_mem_of_not_mem member clean)

theorem following_line (clean : 10 ∉ start) (more : Bytes) :
    following (start ++ 10 :: more) = extractLoop more := by
  rw [following, toBreak clean]
  rfl

theorem following_end (clean : 10 ∉ start) : following start = [] := by
  have rest := toBreak clean []
  rw [append_nil] at rest
  rw [following, rest]
  rfl

theorem entry_line (more : Bytes) : entry (start ++ 10 :: more) = entry start := by
  have same : (start ++ 10 :: more).takeWhile (fun byte => byte != 10 && byte != 13) =
      start.takeWhile fun byte => byte != 10 && byte != 13 := by
    rw [takeWhile_append]
    split
    · rename_i whole
      rw [takeWhile_cons_of_neg Bool.false_ne_true, append_nil]
      exact (( takeWhile_prefix _).eq_of_length whole).symm
    · rfl
  rw [entry, entry, same]

theorem skip_blank (blank : IsBlank line) (more : Bytes) :
    (line ++ 10 :: more).dropWhile isSpace = more.dropWhile isSpace := by
  rw [dropWhile_append_of_pos (List.all_eq_true.mp blank)]
  rfl

theorem skip_filled (filled : ¬IsBlank line) (more : Bytes) :
    (line ++ more).dropWhile isSpace = line.dropWhile isSpace ++ more := by
  rw [dropWhile_append, if_neg]
  rw [List.isEmpty_iff, dropWhile_eq_nil_iff, ← List.all_eq_true]
  exact filled

theorem start_clean (clean : 10 ∉ line) : 10 ∉ line.dropWhile isSpace := fun member =>
  clean ((dropWhile_suffix _).mem member)

theorem collected_unmarked (other : line.head? ≠ some 35) (rest : List Bytes) :
    collected false (line :: rest) = collected true (line :: rest) := by
  rw [collected, collected]
  exact (if_neg fun mark => other mark.2).trans (if_neg fun mark => other mark.2).symm

/-- Where the loop is at the start of a line, and where it skips white space. -/
theorem extractLoop_lines (text : Bytes) :
    extractLoop text = collected false (text.splitOn 10) ∧
      entry (text.dropWhile isSpace) ++ following (text.dropWhile isSpace) =
        collected true (text.splitOn 10) := by
  induction length : text.length using Nat.strongRecOn generalizing text with
  | _ size ih =>
    have skips : entry (text.dropWhile isSpace) ++ following (text.dropWhile isSpace) =
        collected true (text.splitOn 10) := by
      by_cases breaks : 10 ∈ text
      · rcases eq_append_cons_of_mem breaks with ⟨line, more, rfl, clean⟩
        have shorter : more.length < size := by
          rw [← length, length_append, length_cons]
          omega
        have later := ih more.length shorter more rfl
        rw [splitOn_append_cons_self_of_not_mem clean, collected,
          if_neg fun mark => Bool.noConfusion mark.1]
        split
        · rename_i blank
          rw [skip_blank blank]
          exact later.2
        · rename_i filled
          rw [skip_filled filled, entry_line, following_line (start_clean clean), later.1]
      · rw [splitOn_eq_singleton breaks, collected,
          if_neg fun mark => Bool.noConfusion mark.1, following_end (start_clean breaks),
          collected, collected]
        split
        · rename_i blank
          rw [dropWhile_eq_nil_iff.mpr (List.all_eq_true.mp blank)]
          rfl
        · rfl
    refine ⟨?_, skips⟩
    rw [extractLoop_eq]
    by_cases breaks : 10 ∈ text
    · rcases eq_append_cons_of_mem breaks with ⟨line, more, rfl, clean⟩
      have shorter : more.length < size := by
        rw [← length, length_append, length_cons]
        omega
      have later := ih more.length shorter more rfl
      have front : (line ++ 10 :: more).head? = some 35 ↔ line.head? = some 35 := by
        cases line with
        | nil => exact iff_of_false (by simp) (by simp)
        | cons byte line => exact Iff.rfl
      rw [splitOn_append_cons_self_of_not_mem clean] at skips ⊢
      split
      · rename_i mark
        rw [collected, if_pos ⟨rfl, front.mp mark⟩, following_line clean, later.1]
      · rename_i other
        rw [skips, collected_unmarked fun mark => other (front.mpr mark)]
    · rw [splitOn_eq_singleton breaks] at skips ⊢
      split
      · rename_i mark
        rw [collected, if_pos ⟨rfl, mark⟩, following_end breaks, collected]
      · rename_i other
        rw [skips, collected_unmarked other]

theorem entry_filled (filled : ¬IsBlank line) :
    entry (line.dropWhile isSpace) =
      [((line.dropWhile isSpace).takeWhile fun byte => byte != 10 && byte != 13).rdropWhile isSpace] := by
  have first := head?_dropWhile_not isSpace line
  rw [entry, if_neg]
  cases start : line.dropWhile isSpace with
  | nil => exact absurd (List.all_eq_true.mpr (dropWhile_eq_nil_iff.mp start)) filled
  | cons byte rest =>
    rw [start] at first
    have solid : isSpace byte = false := by simpa using first
    rw [takeWhile_cons, if_pos]
    · exact cons_ne_nil _ _
    · rw [Bool.and_eq_true, bne_iff_ne, bne_iff_ne]
      constructor
      · rintro rfl
        cases solid
      · rintro rfl
        cases solid

/-- An entry is cut at a carriage return that trimming would keep. -/
theorem cut_eq_trim_iff (clean : 10 ∉ start) :
    (start.takeWhile fun byte => byte != 10 && byte != 13).rdropWhile isSpace =
      start.rdropWhile isSpace ↔ 13 ∉ start.rdropWhile isSpace := by
  constructor
  · intro same member
    rw [← same] at member
    have kept := mem_takeWhile_imp (( rdropWhile_prefix _ _).mem member)
    cases kept
  · intro noReturn
    have parts := @rdropWhile_append_rtakeWhile _ isSpace start
    have trimmed := @rdropWhile_idempotent _ isSpace start
    have spaces : ∀ byte ∈ start.rtakeWhile isSpace, isSpace byte = true :=
      rtakeWhile_eq_self_iff.mp (rtakeWhile_idempotent _ _)
    generalize start.rdropWhile isSpace = text at parts trimmed noReturn ⊢
    generalize start.rtakeWhile isSpace = tail at parts spaces
    have kept : ∀ byte ∈ text, (byte != 10 && byte != 13) = true := by
      intro byte member
      have inside : byte ∈ start := by
        rw [← parts]
        exact mem_append_left _ member
      rw [Bool.and_eq_true, bne_iff_ne, bne_iff_ne]
      exact ⟨ne_of_mem_of_not_mem inside clean, ne_of_mem_of_not_mem member noReturn⟩
    rw [← parts, takeWhile_append_of_pos kept, List.rdropWhile, reverse_append,
      dropWhile_append_of_pos]
    · exact trimmed
    · intro byte member
      exact spaces byte (( takeWhile_prefix _).mem (mem_reverse.mp member))

structure Plain (lines : List Bytes) : Prop where
  apart : lines.IsChain fun previous line => IsBlank previous → line.head? ≠ some 35
  marked : ∀ line ∈ lines, IsComment line → line.head? = some 35
  whole : ∀ line ∈ lines, ¬IsBlank line → ¬IsComment line → 13 ∉ trim line

def Begun (skipping : Bool) (lines : List Bytes) : Prop :=
  skipping = true → ∀ line ∈ lines.head?, line.head? ≠ some 35

theorem plain_cons (skipping : Bool) (line : Bytes) (rest : List Bytes) :
    Begun skipping (line :: rest) ∧ Plain (line :: rest) ↔
      (skipping = true → line.head? ≠ some 35) ∧ (IsComment line → line.head? = some 35) ∧
        (¬IsBlank line → ¬IsComment line → 13 ∉ trim line) ∧
        Begun (IsBlank line) rest ∧ Plain rest := by
  constructor
  · intro plain
    obtain ⟨begun, apart, marked, whole⟩ := plain
    obtain ⟨next, later⟩ := isChain_cons.mp apart
    exact ⟨fun skips => begun skips line rfl, marked line mem_cons_self,
      whole line mem_cons_self, fun blank other head => next other head (of_decide_eq_true blank),
      later, fun other member => marked other (mem_cons_of_mem _ member),
      fun other member => whole other (mem_cons_of_mem _ member)⟩
  · intro parts
    obtain ⟨begun, mark, kept, next, later⟩ := parts
    refine ⟨fun skips other head => Option.some.inj head ▸ begun skips,
      isChain_cons.mpr ⟨fun other head blank => next (decide_eq_true blank) other head,
        later.apart⟩, forall_mem_cons.mpr ⟨mark, later.marked⟩,
      forall_mem_cons.mpr ⟨kept, later.whole⟩⟩

theorem contents_cons (line : Bytes) (rest : List Bytes) :
    contents (line :: rest) =
      if IsBlank line ∨ IsComment line then contents rest else trim line :: contents rest := by
  rw [contents, filter_cons]
  split
  · rename_i taken
    rw [decide_eq_true_iff, ← not_or] at taken
    rw [if_neg taken]
    rfl
  · rename_i passed
    rw [decide_eq_true_iff, ← not_or, not_not] at passed
    rw [if_pos passed]
    rfl

theorem blank_unmarked (blank : IsBlank line) : line.head? ≠ some 35 := by
  intro mark
  cases List.all_eq_true.mp blank 35 (mem_of_mem_head? mark)

theorem marked_comment (mark : line.head? = some 35) : IsComment line := by
  cases line with
  | nil => cases mark
  | cons byte rest =>
    rw [Option.some.inj mark]
    rfl

theorem blank_no_comment (blank : IsBlank line) : ¬IsComment line := fun comment =>
  absurd comment (blank_unmarked (List.all_eq_true.mpr fun byte member =>
    List.all_eq_true.mp blank byte ((dropWhile_suffix _).mem member)))

theorem contents_length (skipping : Bool) (lines : List Bytes) :
    (contents lines).length ≤ (collected skipping lines).length := by
  induction lines generalizing skipping with
  | nil => exact Nat.zero_le _
  | cons line rest ih =>
    rw [contents_cons, collected]
    split
    · rename_i passed
      split
      · exact ih false
      · split
        · exact ih true
        · rw [length_append]
          exact Nat.le_add_left_of_le (ih false)
    · rename_i taken
      rw [not_or] at taken
      rw [if_neg fun mark => taken.2 (marked_comment mark.2), if_neg taken.1,
        entry_filled taken.1]
      exact Nat.succ_le_succ (ih false)

theorem collected_contents_iff (skipping : Bool) (lines : List Bytes)
    (clean : ∀ line ∈ lines, 10 ∉ line) :
    collected skipping lines = contents lines ↔ Begun skipping lines ∧ Plain lines := by
  induction lines generalizing skipping with
  | nil =>
    refine iff_of_true rfl ⟨fun _ line head => ?_, isChain_nil, ?_, ?_⟩
    · cases head
    · exact forall_mem_nil _
    · exact forall_mem_nil _
  | cons line rest ih =>
    have later (skipping : Bool) := ih skipping fun other member =>
      clean other (mem_cons_of_mem _ member)
    rw [collected, contents_cons, plain_cons]
    by_cases blank : IsBlank line
    · have unmarked := blank_unmarked blank
      rw [if_neg fun mark => unmarked mark.2, if_pos blank, if_pos (Or.inl blank), later,
        decide_eq_true blank]
      simp only [unmarked, blank_no_comment blank, blank, ne_eq, not_false_eq_true, implies_true,
        not_true_eq_false, false_implies, true_and]
    · rw [if_neg blank, decide_eq_false blank]
      by_cases comment : IsComment line
      · rw [if_pos (Or.inr comment)]
        split
        · rename_i mark
          rw [later, mark.1]
          simp only [mark.2, comment, Bool.false_eq_true, false_implies, implies_true,
            not_true_eq_false, true_and]
        · rename_i entered
          apply iff_of_false
          · intro same
            have longer := contents_length false rest
            rw [← same, entry_filled blank] at longer
            exact absurd longer (Nat.not_succ_le_self _)
          · intro plain
            have mark := plain.2.1 comment
            cases skipping with
            | false => exact entered ⟨rfl, mark⟩
            | true => exact plain.1 rfl mark
      · have other := mt marked_comment comment
        rw [if_neg fun mark => other mark.2, if_neg (not_or.mpr ⟨blank, comment⟩),
          entry_filled blank, singleton_append, List.cons.injEq, later, trim,
          cut_eq_trim_iff (start_clean (clean line mem_cons_self))]
        simp only [other, comment, blank, ne_eq, not_false_eq_true, implies_true, false_implies,
          true_implies, true_and]

theorem purpleUriListExtractUris_exact_iff (uriList : Bytes) :
    purpleUriListExtractUris uriList = contents ((cString uriList).splitOn 10) ↔
      Plain ((cString uriList).splitOn 10) := by
  rw [purpleUriListExtractUris, (extractLoop_lines _).1, collected_contents_iff]
  · exact and_iff_right fun skips => absurd skips Bool.false_ne_true
  · intro line
    exact Separated.mem_splitOn

/-- A comment behind a blank line. -/
theorem comment_extracted :
    purpleUriListExtractUris (ascii "\n#c\n") ≠
      contents ((cString (ascii "\n#c\n")).splitOn 10) := by
  rw [purpleUriListExtractUris, (extractLoop_lines _).1]
  decide

end Purple.UriList
