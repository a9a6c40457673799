/-
`purple_strcasereplace` of util.c: a pass that counts the bytes of the result, and one
that copies them into a block of that size.

Positions are kept in an `int`.  An operation is `none` where an `int` does not hold
its result, where it is outside the block, and where a loop has no round left.
-/

import Purple.CString

namespace Purple.StrCaseReplace

open List Option Memory CString

def intMax : Nat := 2 ^ 31 - 1

def int (value : Nat) : Option Nat := if value ≤ intMax then some value else none

def found (delimiter rest : List UInt8) : Bool := strncasecmpEq rest delimiter delimiter.length

/-- The first loop; `rest` is the string from `i` on. -/
def countLoop (delimiter replacement : List UInt8) : Nat → Nat → Nat → List UInt8 → Option Nat
  | 0, _, _, _ => none
  | _ + 1, _, j, [] => some j
  | rounds + 1, i, j, byte :: rest =>
    if found delimiter (byte :: rest) then
      (int (i + delimiter.length)).bind fun i =>
        (int (j + replacement.length)).bind fun j =>
          countLoop delimiter replacement rounds i j ((byte :: rest).drop delimiter.length)
    else
      (int (i + 1)).bind fun i =>
        (int (j + 1)).bind fun j => countLoop delimiter replacement rounds i j rest

def copyLoop (delimiter replacement : List UInt8) :
    Nat → Nat → List UInt8 → Block UInt8 → Option (Block UInt8)
  | 0, _, _, _ => none
  | _ + 1, j, [], ret => ret.store j [some 0]
  | rounds + 1, j, byte :: rest, ret =>
    if found delimiter (byte :: rest) then
      (ret.store j (replacement.map some)).bind fun ret =>
        copyLoop delimiter replacement rounds (j + replacement.length)
          ((byte :: rest).drop delimiter.length) ret
    else
      (ret.store j [some byte]).bind fun ret =>
        copyLoop delimiter replacement rounds (j + 1) rest ret

def purpleStrcasereplace (rounds : Nat) (string delimiter replacement : List UInt8) :
    Option (Block UInt8) :=
  (int delimiter.length).bind fun _ =>
    (int replacement.length).bind fun _ =>
      (countLoop delimiter replacement rounds 0 0 string).bind fun j =>
        (int (j + 1)).bind fun size =>
          copyLoop delimiter replacement rounds 0 string (List.replicate size none)

/-- The occurrences are replaced from the left; `inside` bytes of one are still to pass. -/
def replaced (delimiter replacement : List UInt8) : Nat → List UInt8 → List UInt8
  | _, [] => []
  | inside + 1, _ :: rest => replaced delimiter replacement inside rest
  | 0, byte :: rest =>
    if found delimiter (byte :: rest) then
      replacement ++ replaced delimiter replacement (delimiter.length - 1) rest
    else byte :: replaced delimiter replacement 0 rest

variable {delimiter replacement rest : List UInt8} {rounds i j : Nat}

theorem int_eq_some {value : Nat} : int value = some i ↔ value ≤ intMax ∧ value = i := by
  rw [int]
  split
  · rename_i small
    rw [some_inj, and_iff_right small]
  · rename_i large
    exact iff_of_false (some_ne_none i).symm fun both => large both.1

theorem replaced_drop (inside : Nat) (rest : List UInt8) :
    replaced delimiter replacement inside rest =
      replaced delimiter replacement 0 (rest.drop inside) := by
  induction rest generalizing inside with
  | nil =>
    rw [drop_nil]
    cases inside <;> rfl
  | cons byte rest ih =>
    cases inside with
    | zero => rfl
    | succ inside => exact ih inside

theorem replaced_found (filled : delimiter ≠ []) {byte : UInt8}
    (here : found delimiter (byte :: rest) = true) :
    replaced delimiter replacement 0 (byte :: rest) = replacement ++
      replaced delimiter replacement 0 ((byte :: rest).drop delimiter.length) := by
  obtain ⟨first, more, rfl⟩ := exists_cons_of_ne_nil filled
  rw [replaced, if_pos here, replaced_drop]
  rfl

/-- An occurrence is within the string, and takes at least one byte of it. -/
theorem found_length (filled : delimiter ≠ []) (here : found delimiter rest = true) :
    0 < delimiter.length ∧
      delimiter.length + (rest.drop delimiter.length).length = rest.length := by
  have lengths := congrArg List.length (eq_of_beq here)
  rw [length_map, length_map, length_take, take_length] at lengths
  refine ⟨length_pos_iff.mpr filled, ?_⟩
  rw [List.length_drop]
  omega

theorem countLoop_bounds (filled : delimiter ≠ []) {count : Nat} (low : i ≤ intMax)
    (counted : countLoop delimiter replacement rounds i j rest = some count) :
    i + rest.length ≤ intMax ∧ count = j + (replaced delimiter replacement 0 rest).length := by
  induction rounds generalizing i j rest with
  | zero => cases counted
  | succ rounds ih =>
    cases rest with
    | nil =>
      cases counted
      exact ⟨low, rfl⟩
    | cons byte rest =>
      rw [countLoop] at counted
      split at counted
      · rename_i here
        obtain ⟨next, isNext, counted⟩ := bind_eq_some_iff.mp counted
        obtain ⟨further, isFurther, counted⟩ := bind_eq_some_iff.mp counted
        obtain ⟨small, rfl⟩ := int_eq_some.mp isNext
        obtain ⟨-, rfl⟩ := int_eq_some.mp isFurther
        obtain ⟨bounded, whole⟩ := ih small counted
        have length := (found_length filled here).2
        rw [replaced_found filled here, length_append]
        exact ⟨by omega, by omega⟩
      · rename_i elsewhere
        obtain ⟨next, isNext, counted⟩ := bind_eq_some_iff.mp counted
        obtain ⟨further, isFurther, counted⟩ := bind_eq_some_iff.mp counted
        obtain ⟨small, rfl⟩ := int_eq_some.mp isNext
        obtain ⟨-, rfl⟩ := int_eq_some.mp isFurther
        obtain ⟨bounded, whole⟩ := ih small counted
        rw [replaced, if_neg elsewhere, length_cons, length_cons]
        exact ⟨by omega, by omega⟩

theorem countLoop_counts (filled : delimiter ≠ []) (enough : rest.length < rounds)
    (inside : i + rest.length ≤ intMax)
    (fits : j + (replaced delimiter replacement 0 rest).length ≤ intMax) :
    ∃ count, countLoop delimiter replacement rounds i j rest = some count := by
  induction rounds generalizing i j rest with
  | zero => exact absurd enough (Nat.not_lt_zero _)
  | succ rounds ih =>
    cases rest with
    | nil => exact ⟨j, rfl⟩
    | cons byte rest =>
      rw [countLoop]
      by_cases here : found delimiter (byte :: rest) = true
      · obtain ⟨positive, length⟩ := found_length filled here
        rw [replaced_found filled here, length_append] at fits
        rw [if_pos here, int, if_pos (by omega), bind_some, int, if_pos (by omega),
          bind_some]
        exact ih (by omega) (by omega) (by omega)
      · rw [replaced, if_neg here, length_cons] at fits
        rw [length_cons] at enough inside
        rw [if_neg here, int, if_pos (by omega), bind_some, int, if_pos (by omega),
          bind_some]
        exact ih (by omega) (by omega) (by omega)

/-- Both passes take the same branches, so the copies fill the block. -/
theorem copyLoop_copies (filled : delimiter ≠ []) (enough : rest.length < rounds)
    (front : List UInt8) :
    copyLoop delimiter replacement rounds front.length rest (front.map some ++
        List.replicate ((replaced delimiter replacement 0 rest).length + 1) none) =
      some ((front ++ replaced delimiter replacement 0 rest ++ [0]).map some) := by
  have stores (front bytes : List UInt8) (size : Nat) :
      Block.store (front.map some ++ List.replicate (bytes.length + size) none) front.length
        (bytes.map some) = some ((front ++ bytes).map some ++ List.replicate size none) := by
    have stored := @Block.store_middle UInt8 (bytes.map some) (front.map some)
      (List.replicate size none) (List.replicate bytes.length none)
      (by rw [length_replicate, length_map])
    rw [length_map] at stored
    rw [replicate_add, ← append_assoc, stored, map_append]
  induction rounds generalizing rest front with
  | zero => exact absurd enough (Nat.not_lt_zero _)
  | succ rounds ih =>
    cases rest with
    | nil =>
      have stored := stores front [0] 0
      rw [replicate_zero, append_nil] at stored
      rw [copyLoop, replaced, append_nil]
      exact stored
    | cons byte rest =>
      rw [copyLoop]
      by_cases here : found delimiter (byte :: rest) = true
      · obtain ⟨positive, length⟩ := found_length filled here
        have later := @ih ((byte :: rest).drop delimiter.length) (by omega)
          (front ++ replacement)
        rw [length_append] at later
        rw [if_pos here, replaced_found filled here, length_append, Nat.add_assoc, stores,
          bind_some, later, append_assoc front]
      · have later := @ih rest (Nat.lt_of_succ_lt_succ enough) (front ++ [byte])
        rw [length_append] at later
        have stored := stores front [byte]
          ((replaced delimiter replacement 0 rest).length + 1)
        rw [length_singleton, Nat.add_comm 1] at stored
        rw [if_neg here, replaced, if_neg here, length_cons]
        change (Block.store _ _ ([byte].map some)).bind _ = _
        rw [stored, bind_some]
        change copyLoop delimiter replacement rounds (front.length + 1) rest _ = _ at later
        rw [later, append_assoc front]
        rfl

/-- An empty delimiter is found wherever the loop is, so it stays there. -/
theorem countLoop_endless {byte : UInt8} (rounds i j : Nat) :
    countLoop [] replacement rounds i j (byte :: rest) = none := by
  induction rounds generalizing i j with
  | zero => rfl
  | succ rounds ih =>
    rw [countLoop, if_pos (show found [] (byte :: rest) = true from rfl)]
    cases int (i + [].length) with
    | none => rfl
    | some i =>
      cases int (j + replacement.length) with
      | none => rfl
      | some j => exact ih i j

/-- The lengths that the two passes keep in an `int`. -/
structure Fits (string delimiter replacement : List UInt8) : Prop where
  stringFits : string.length ≤ intMax
  delimiterFits : delimiter.length ≤ intMax
  replacementFits : replacement.length ≤ intMax
  resultFits : (replaced delimiter replacement 0 string).length < intMax

theorem purpleStrcasereplace_replaces_iff (string delimiter replacement : List UInt8) :
    (∃ rounds, purpleStrcasereplace rounds string delimiter replacement =
        some ((replaced delimiter replacement 0 string ++ [0]).map some)) ↔
      (delimiter ≠ [] ∨ string = []) ∧ Fits string delimiter replacement := by
  constructor
  · intro runs
    obtain ⟨rounds, ran⟩ := runs
    obtain ⟨_, isDel, ran⟩ := bind_eq_some_iff.mp ran
    obtain ⟨_, isRep, ran⟩ := bind_eq_some_iff.mp ran
    obtain ⟨count, counted, ran⟩ := bind_eq_some_iff.mp ran
    obtain ⟨size, isSize, -⟩ := bind_eq_some_iff.mp ran
    have small := (int_eq_some.mp isSize).1
    have delimiterFits := (int_eq_some.mp isDel).1
    have replacementFits := (int_eq_some.mp isRep).1
    cases string with
    | nil =>
      exact ⟨Or.inr rfl, Nat.zero_le _, delimiterFits, replacementFits, Nat.zero_lt_succ _⟩
    | cons byte rest =>
      by_cases filled : delimiter = []
      · rw [filled, countLoop_endless] at counted
        cases counted
      · obtain ⟨bounded, whole⟩ := countLoop_bounds filled (Nat.zero_le _) counted
        rw [Nat.zero_add] at bounded whole
        exact ⟨Or.inl filled, bounded, delimiterFits, replacementFits, by omega⟩
  · intro condition
    obtain ⟨ends, fits⟩ := condition
    refine ⟨string.length + 1, ?_⟩
    rw [purpleStrcasereplace, int, if_pos fits.delimiterFits, bind_some, int,
      if_pos fits.replacementFits, bind_some]
    have result := fits.resultFits
    rcases ends with filled | empty
    · obtain ⟨count, counted⟩ := @countLoop_counts delimiter replacement string
        (string.length + 1) 0 0 filled (Nat.lt_succ_self _)
        (Nat.le_trans (Nat.le_of_eq (Nat.zero_add _)) fits.stringFits) (by omega)
      have whole := (countLoop_bounds filled (Nat.zero_le _) counted).2
      rw [Nat.zero_add] at whole
      rw [counted, bind_some, whole, int, if_pos (by omega), bind_some]
      exact copyLoop_copies filled (Nat.lt_succ_self _) []
    · rw [empty]
      rfl

/-- Nothing is between two letters, and the loop does not pass it. -/
theorem emptyDelimiter_endless :
    ¬∃ rounds written, purpleStrcasereplace rounds (ascii "a") [] (ascii "b") = some written := by
  intro runs
  obtain ⟨rounds, written, ran⟩ := runs
  have counted := @countLoop_endless (ascii "b") [] 97 rounds 0 0
  change (countLoop [] (ascii "b") rounds 0 0 [97]).bind _ = some written at ran
  rw [counted] at ran
  cases ran

end Purple.StrCaseReplace
