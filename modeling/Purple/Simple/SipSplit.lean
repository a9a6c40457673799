/-
What the header reader of sipmsg.c makes of any text: its parts are the text between the
first delimiters, and a read behind a vector happens for one kind of response only.
-/

import Purple.Simple.SipText
import Mathlib.Data.List.TakeWhile

namespace Purple.Simple

open List CString

theorem strstr_crlf_skip {piece : Bytes} (unbroken : strstr crlf piece = none) (more rest : Bytes) :
    strstr (13 :: 10 :: more) (piece ++ 13 :: 10 :: rest) =
      (strstr (13 :: 10 :: more) (13 :: 10 :: rest)).map (· + piece.length) := by
  induction piece with
  | nil => exact Option.map_id'.symm
  | cons byte piece inductionHypothesis =>
    have elsewhere : ¬ (13 :: 10 :: more).isPrefixOf (byte :: (piece ++ 13 :: 10 :: rest)) = true := by
      intro prefixed
      obtain ⟨first, tail⟩ := cons_prefix_cons.mp ( isPrefixOf_iff_prefix.mp prefixed)
      cases piece with
      | nil => exact absurd (cons_prefix_cons.mp tail).1 (by decide)
      | cons second piece =>
        have second := (cons_prefix_cons.mp tail).1
        subst first second
        cases unbroken
    have later : strstr crlf piece = none := by
      rw [strstr] at unbroken
      split at unbroken
      · cases unbroken
      · exact Option.map_eq_none_iff.mp unbroken
    rw [cons_append, strstr, if_neg elsewhere, inductionHypothesis later, Option.map_map]
    rfl

theorem strstr_none_infix {needle part whole : Bytes} (inside : part <:+: whole)
    (absent : strstr needle whole = none) : strstr needle part = none := by
  cases found : strstr needle part with
  | none => rfl
  | some offset =>
    obtain ⟨before, after, rfl⟩ := inside
    obtain ⟨front, back, rfl, _⟩ := strstr_decompose found
    have shape : before ++ (front ++ needle ++ back) ++ after =
        (before ++ front) ++ needle ++ (back ++ after) := by
      simp only [append_assoc]
    obtain ⟨other, again⟩ := strstr_of_infix needle (before ++ front) (back ++ after)
    rw [shape, again] at absent
    cases absent

theorem strstr_singleton {byte : UInt8} {text : Bytes} :
    strstr [byte] text = none ↔ byte ∉ text := by
  constructor
  · intro absent member
    obtain ⟨before, after, rfl⟩ := append_of_mem member
    obtain ⟨offset, found⟩ := strstr_of_infix [byte] before after
    rw [append_assoc, singleton_append, absent] at found
    cases found
  · intro absent
    have skipped : strstr [byte] (text ++ []) = none := strstr_skip absent []
    rw [append_nil] at skipped
    exact skipped

theorem strstr_before {needle text : Bytes} {offset : Nat} (some_ : needle ≠ [])
    (found : strstr needle text = some offset) : strstr needle (text.take offset) = none := by
  have size := length_pos_of_ne_nil some_
  rw [strstr_take_iff found, if_neg (by omega)]

theorem strstr_split {needle text : Bytes} {offset : Nat} (found : strstr needle text = some offset) :
    text = text.take offset ++ (needle ++ text.drop (offset + needle.length)) := by
  obtain ⟨before, after, rfl, rfl⟩ := strstr_decompose found
  rw [← drop_drop, append_assoc, take_left' rfl, drop_left' rfl, drop_left' rfl]

theorem strsplitRounds_first {delimiter text piece next : Bytes} {pieces : List Bytes} {rounds : Nat}
    (some_ : delimiter ≠ [])
    (parted : Msn.strsplitRounds delimiter rounds text = piece :: next :: pieces) :
    ∃ rest rounds', rounds = rounds' + 1 ∧ text = piece ++ (delimiter ++ rest) ∧
      strstr delimiter piece = none ∧
      Msn.strsplitRounds delimiter rounds' rest = next :: pieces := by
  cases rounds with
  | zero => cases parted
  | succ rounds =>
    rw [Msn.strsplitRounds] at parted
    cases found : strstr delimiter text with
    | none =>
      rw [found] at parted
      cases parted
    | some offset =>
      rw [found] at parted
      obtain ⟨rfl, later⟩ := List.cons.inj parted
      exact ⟨_, rounds, rfl, strstr_split found, strstr_before some_ found, later⟩

theorem strsplitRounds_last {delimiter text piece : Bytes} {rounds : Nat}
    (parted : Msn.strsplitRounds delimiter rounds text = [piece]) : text = piece := by
  cases rounds with
  | zero => exact List.cons.inj parted |>.1
  | succ rounds =>
    rw [Msn.strsplitRounds] at parted
    cases found : strstr delimiter text with
    | none =>
      rw [found] at parted
      exact (List.cons.inj parted).1
    | some offset =>
      rw [found] at parted
      obtain ⟨_, later⟩ := List.cons.inj parted
      cases rounds with
      | zero => cases later
      | succ rounds =>
        rw [Msn.strsplitRounds] at later
        split at later <;> cases later

theorem strsplit_three {line first second third : Bytes} :
    Msn.strsplit [32] 3 line = [first, second, third] ↔
      line = first ++ 32 :: (second ++ 32 :: third) ∧ 32 ∉ first ∧ 32 ∉ second := by
  constructor
  · intro parted
    rw [Msn.strsplit] at parted
    split at parted
    · cases parted
    · rw [if_neg (by decide)] at parted
      obtain ⟨rest, rounds, counted, rfl, firstSolid, later⟩ :=
        strsplitRounds_first (cons_ne_nil 32 []) parted
      obtain ⟨rest, rounds, counted, rfl, secondSolid, last⟩ :=
        strsplitRounds_first (cons_ne_nil 32 []) later
      rw [strsplitRounds_last last]
      exact ⟨rfl, strstr_singleton.mp firstSolid, strstr_singleton.mp secondSolid⟩
  · intro shape
    obtain ⟨rfl, firstSolid, secondSolid⟩ := shape
    have filled : first ++ 32 :: (second ++ 32 :: third) ≠ [] :=
      append_ne_nil_of_right_ne_nil _ (cons_ne_nil _ _)
    rw [Msn.strsplit, if_neg filled, if_neg (by decide)]
    exact (strsplitRounds_found firstSolid 1 _).trans
      (congrArg (first :: ·) (strsplitRounds_found secondSolid 0 third))

theorem strsplit_two {line name text : Bytes} :
    Msn.strsplit [58] 2 line = [name, text] ↔ line = name ++ 58 :: text ∧ 58 ∉ name := by
  constructor
  · intro parted
    rw [Msn.strsplit] at parted
    split at parted
    · cases parted
    · rw [if_neg (by decide)] at parted
      obtain ⟨rest, rounds, counted, rfl, solid, last⟩ :=
        strsplitRounds_first (cons_ne_nil 58 []) parted
      rw [strsplitRounds_last last]
      exact ⟨rfl, strstr_singleton.mp solid⟩
  · intro shape
    obtain ⟨rfl, solid⟩ := shape
    have filled : name ++ 58 :: text ≠ [] :=
      append_ne_nil_of_right_ne_nil _ (cons_ne_nil _ _)
    rw [Msn.strsplit, if_neg filled, if_neg (by decide)]
    exact strsplitRounds_found solid 0 text

theorem strsplit_line {header line : Bytes} {lines : List Bytes}
    (parted : Msn.strsplit crlf 0 header = line :: lines) : strstr crlf line = none := by
  rw [Msn.strsplit] at parted
  split at parted
  · cases parted
  · rename_i filled
    rw [if_pos rfl] at parted
    obtain ⟨rounds, counted⟩ := Nat.exists_eq_succ_of_ne_zero (mt length_eq_zero_iff.mp filled)
    rw [counted, Msn.strsplitRounds] at parted
    cases found : strstr crlf header with
    | none =>
      rw [found] at parted
      obtain ⟨rfl, _⟩ := List.cons.inj parted
      exact found
    | some offset =>
      rw [found] at parted
      obtain ⟨rfl, _⟩ := List.cons.inj parted
      exact strstr_before (cons_ne_nil _ _) found

/-- Lines that begin with these headers, up to a line of two bytes at most. -/
inductive Headed : List Bytes → List HeaderText → Prop
  | ends {lines : List Bytes} (short : ∀ line ∈ lines.head?, line.length ≤ 2) : Headed lines []
  | header {header : HeaderText} {rest : List Bytes} {headers : List HeaderText}
      (noColon : 58 ∉ header.name) (long : 2 < header.first.length)
      (folded : ∀ fold ∈ header.folds, continues fold = true)
      (next : ∀ line ∈ rest.head?, continues line = false) (later : Headed rest headers) :
      Headed (header.lines ++ rest) (header :: headers)

theorem takeWhile_folds {folds rest : List Bytes} (folded : ∀ fold ∈ folds, continues fold = true)
    (next : ∀ line ∈ rest.head?, continues line = false) :
    (folds ++ rest).takeWhile continues = folds ∧ (folds ++ rest).dropWhile continues = rest := by
  rw [takeWhile_append_of_pos folded, dropWhile_append_of_pos folded]
  cases rest with
  | nil => exact ⟨append_nil _, rfl⟩
  | cons line rest =>
    have solid := next line rfl
    rw [takeWhile_cons, dropWhile_cons, solid, if_neg Bool.false_ne_true,
      if_neg Bool.false_ne_true]
    exact ⟨append_nil _, rfl⟩

theorem dropWhile_head (lines : List Bytes) :
    ∀ line ∈ (lines.dropWhile continues).head?, continues line = false := by
  intro line first
  have stops := head?_dropWhile_not continues lines
  rw [Option.mem_def.mp first] at stops
  exact stops

theorem headed_nil {headers : List HeaderText} (headed : Headed [] headers) : headers = [] := by
  generalize empty : ([] : List Bytes) = lines at headed
  cases headed with
  | ends _ => rfl
  | header _ _ _ _ _ => cases empty

theorem headed_cons {line : Bytes} {rest : List Bytes} {headers : List HeaderText} :
    Headed (line :: rest) headers ↔
      (line.length ≤ 2 ∧ headers = []) ∨
      (2 < line.length ∧ ∃ header later, headers = header :: later ∧ line = header.first ∧
        58 ∉ header.name ∧ header.folds = rest.takeWhile continues ∧
        Headed (rest.dropWhile continues) later) := by
  constructor
  · intro headed
    generalize whole : line :: rest = lines at headed
    cases headed with
    | ends short =>
      subst whole
      exact Or.inl ⟨short line rfl, rfl⟩
    | header noColon long folded next later =>
      rename_i header behind headers
      obtain ⟨rfl, rfl⟩ := List.cons.inj whole
      obtain ⟨folds, tail⟩ := takeWhile_folds folded next
      have folds : header.folds = (header.folds.append behind).takeWhile continues := folds.symm
      have tail : (header.folds.append behind).dropWhile continues = behind := tail
      rw [tail, ← folds]
      exact Or.inr ⟨long, header, headers, rfl, rfl, noColon, rfl, later⟩
  · intro shape
    rcases shape with ⟨short, rfl⟩ | ⟨long, header, later, rfl, rfl, noColon, folds, headed⟩
    · apply Headed.ends
      intro first same
      cases same
      exact short
    · have whole : header.first :: rest = header.lines ++ rest.dropWhile continues := by
        rw [HeaderText.lines, folds, cons_append, takeWhile_append_dropWhile]
      rw [whole]
      apply Headed.header noColon long _ (dropWhile_head rest) headed
      intro fold member
      rw [folds] at member
      exact mem_takeWhile_imp member

theorem nothing_read (done read : List SipHdr) (rounds : Nat) :
    headerRounds rounds done [] = some read ↔
      ∃ headers, Headed [] headers ∧ read = done ++ headers.map HeaderText.hdr := by
  have stops : headerRounds rounds done [] = some done := by cases rounds <;> rfl
  rw [stops]
  constructor
  · intro same
    cases same
    exact ⟨[], Headed.ends nofun, (append_nil done).symm⟩
  · intro shape
    obtain ⟨headers, headed, rfl⟩ := shape
    rw [headed_nil headed, map_nil, append_nil]

theorem headerRounds_iff {rounds : Nat} (done : List SipHdr) {lines : List Bytes}
    (enough : lines.length ≤ rounds) (read : List SipHdr) :
    headerRounds rounds done lines = some read ↔
      ∃ headers, Headed lines headers ∧ read = done ++ headers.map HeaderText.hdr := by
  induction rounds generalizing done lines with
  | zero =>
    rw [length_eq_zero_iff.mp (Nat.le_zero.mp enough)]
    exact nothing_read done read 0
  | succ rounds inductionHypothesis =>
    cases lines with
    | nil => exact nothing_read done read (rounds + 1)
    | cons line rest =>
      rw [headerRounds]
      by_cases short : line.length ≤ 2
      · rw [if_pos short]
        constructor
        · intro same
          cases same
          exact ⟨[], headed_cons.mpr (Or.inl ⟨short, rfl⟩), (append_nil _).symm⟩
        · intro shape
          obtain ⟨headers, headed, rfl⟩ := shape
          rcases headed_cons.mp headed with ⟨_, rfl⟩ | ⟨long, _⟩
          · rw [map_nil, append_nil]
          · omega
      · rw [if_neg short]
        split
        · rename_i name text parted
          obtain ⟨rfl, noColon⟩ := strsplit_two.mp parted
          have behind : (rest.dropWhile continues).length ≤ rounds := by
            have fewer := (dropWhile_suffix (p := continues) (l := rest)).length_le
            rw [length_cons] at enough
            omega
          dsimp only
          rw [inductionHypothesis _ behind]
          constructor
          · intro shape
            obtain ⟨later, headed, rfl⟩ := shape
            refine ⟨⟨name, text, rest.takeWhile continues⟩ :: later, ?_, ?_⟩
            · exact headed_cons.mpr (Or.inr ⟨by omega, _, later, rfl, rfl, noColon, rfl, headed⟩)
            · rw [map_cons, append_assoc]
              rfl
          · intro shape
            obtain ⟨headers, headed, rfl⟩ := shape
            rcases headed_cons.mp headed with ⟨few, _⟩ |
              ⟨_, header, later, rfl, first, solid, folds, headedLater⟩
            · omega
            · have again := strsplit_two.mpr ⟨first, solid⟩
              rw [parted] at again
              cases again
              refine ⟨later, headedLater, ?_⟩
              rw [map_cons, append_assoc, ← folds]
              rfl
        · rename_i other
          refine iff_of_false (Option.some_ne_none _).symm ?_
          intro shape
          obtain ⟨headers, headed, rfl⟩ := shape
          rcases headed_cons.mp headed with ⟨few, _⟩ | ⟨_, header, _, _, first, solid, _, _⟩
          · exact short few
          · exact other _ _ (strsplit_two.mpr ⟨first, solid⟩)

end Purple.Simple
