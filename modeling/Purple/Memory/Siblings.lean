/-
Neighbours in a list without repetitions, the abstract side of sibling links.

A chain of records is described by the list of their addresses: the link of each
record is the neighbour of its address in that list.
-/

import Mathlib.Data.List.Sort
import Mathlib.Data.Finset.Card

namespace Purple.Memory

open List Option

/-- The element behind `address`. -/
def after : List Nat → Nat → Option Nat
  | [], _ => none
  | first :: rest, address => if first = address then rest.head? else after rest address

/-- The element in front of `address`. -/
def before : List Nat → Nat → Option Nat
  | [], _ => none
  | first :: rest, address =>
    if rest.head? = some address then some first else before rest address

variable {address : Nat} {list : List Nat}

theorem after_append {front rest : List Nat} (unique : (front ++ address :: rest).Nodup) :
    after (front ++ address :: rest) address = rest.head? := by
  induction front with
  | nil => exact if_pos rfl
  | cons first front ih =>
    rw [cons_append, nodup_cons] at unique
    have different : first ≠ address := by
      intro same
      apply unique.1
      rw [same]
      exact mem_append_right _ mem_cons_self
    rw [cons_append, after, if_neg different, ih unique.2]

theorem after_absent (absent : address ∉ list) : after list address = none := by
  induction list with
  | nil => rfl
  | cons first rest ih =>
    rw [mem_cons, not_or] at absent
    rw [after, if_neg (Ne.symm absent.1), ih absent.2]

theorem after_mem_tail {next : Nat} (behind : after list address = some next) :
    next ∈ list.tail := by
  induction list with
  | nil => cases behind
  | cons first rest ih =>
    rw [after] at behind
    split at behind
    · exact mem_of_head? behind
    · exact mem_of_mem_tail (ih behind)

theorem mem_of_after {next : Nat} (behind : after list address = some next) : address ∈ list := by
  apply Classical.byContradiction
  intro absent
  rw [after_absent absent] at behind
  cases behind

theorem before_iff_after (unique : list.Nodup) {previous : Nat} :
    before list address = some previous ↔ after list previous = some address := by
  induction list with
  | nil =>
    constructor <;> intro impossible <;> cases impossible
  | cons first rest ih =>
    rw [nodup_cons] at unique
    rw [before, after]
    by_cases here : rest.head? = some address
    · rw [if_pos here, some_inj]
      by_cases same : first = previous
      · rw [if_pos same]
        exact ⟨fun _ => here, fun _ => same⟩
      · rw [if_neg same]
        apply Iff.intro (fun impossible => absurd impossible same)
        intro behind
        -- the head of `rest` is behind nothing in it
        cases rest with
        | nil => cases behind
        | cons second rest =>
          cases here
          exact absurd (after_mem_tail behind) (nodup_cons.mp unique.2).1
    · rw [if_neg here, ih unique.2]
      by_cases same : first = previous
      · rw [if_pos same]
        constructor
        · intro behind
          exact absurd (mem_of_after behind) (same ▸ unique.1)
        · intro impossible
          exact absurd impossible here
      · rw [if_neg same]

theorem before_absent (absent : address ∉ list) : before list address = none := by
  induction list with
  | nil => rfl
  | cons first rest ih =>
    rw [mem_cons, not_or] at absent
    rw [before, if_neg (fun here => absent.2 (mem_of_head? here)), ih absent.2]

theorem before_mem (unique : list.Nodup) {previous : Nat}
    (behind : before list address = some previous) : previous ∈ list :=
  mem_of_after ((before_iff_after unique).mp behind)

theorem after_eq_none_iff (unique : list.Nodup) (member : address ∈ list) :
    after list address = none ↔ list.getLast? = some address := by
  induction list with
  | nil => cases member
  | cons first rest ih =>
    rw [nodup_cons] at unique
    rw [after, getLast?_cons]
    by_cases same : first = address
    · rw [if_pos same, head?_eq_none_iff]
      constructor
      · rintro rfl
        rw [same]
        rfl
      · intro last
        cases rest with
        | nil => rfl
        | cons second rest =>
          have inside : address ∈ second :: rest := by
            apply mem_of_getLast?
            rw [getLast?_cons] at last ⊢
            exact last
          exact absurd inside (same ▸ unique.1)
    · have inside : address ∈ rest := by
        rcases mem_cons.mp member with here | inside
        · exact absurd here.symm same
        · exact inside
      rw [if_neg same, ih unique.2 inside]
      cases last : rest.getLast? with
      | none =>
        rw [getLast?_eq_none_iff.mp last] at inside
        cases inside
      | some found => rfl

theorem before_eq_none_iff (unique : list.Nodup) (member : address ∈ list) :
    before list address = none ↔ list.head? = some address := by
  induction list with
  | nil => cases member
  | cons first rest ih =>
    rw [nodup_cons] at unique
    rw [before, head?_cons, some_inj]
    by_cases here : rest.head? = some address
    · rw [if_pos here]
      constructor
      · intro impossible
        cases impossible
      · intro same
        exact absurd (mem_of_head? here) (same ▸ unique.1)
    · rw [if_neg here]
      rcases mem_cons.mp member with same | inside
      · rw [before_absent (same ▸ unique.1)]
        exact ⟨fun _ => same.symm, fun _ => rfl⟩
      · rw [ih unique.2 inside]
        constructor
        · intro impossible
          exact absurd impossible here
        · intro same
          exact absurd inside (same ▸ unique.1)

theorem head?_erase (list : List Nat) (address : Nat) :
    (list.erase address).head? =
      if list.head? = some address then after list address else list.head? := by
  cases list with
  | nil => rfl
  | cons first rest =>
    rw [erase_cons, head?_cons, after]
    by_cases same : first = address
    · rw [if_pos (beq_iff_eq.mpr same), if_pos (congrArg some same), if_pos same]
    · rw [if_neg (fun equal => same (beq_iff_eq.mp equal)),
        if_neg (fun equal => same (Option.some.inj equal))]
      rfl

theorem after_erase (unique : list.Nodup) {other : Nat} (different : other ≠ address) :
    after (list.erase address) other =
      if after list other = some address then after list address else after list other := by
  induction list with
  | nil => rfl
  | cons first rest ih =>
    rw [nodup_cons] at unique
    rw [erase_cons]
    by_cases same : first = address
    · have skipped : after (first :: rest) other = after rest other :=
        if_neg (fun here => different (here.symm.trans same))
      rw [if_pos (beq_iff_eq.mpr same), skipped, if_neg]
      intro behind
      exact absurd (mem_of_mem_tail (after_mem_tail behind)) (same ▸ unique.1)
    · rw [if_neg (fun equal => same (beq_iff_eq.mp equal)), after, after, after, if_neg same]
      by_cases here : first = other
      · rw [if_pos here, if_pos here]
        exact head?_erase rest address
      · rw [if_neg here, if_neg here]
        exact ih unique.2

theorem getLast?_erase (unique : list.Nodup) (address : Nat) :
    (list.erase address).getLast? =
      if list.getLast? = some address then before list address else list.getLast? := by
  induction list with
  | nil => rfl
  | cons first rest ih =>
    rw [nodup_cons] at unique
    rw [erase_cons]
    by_cases same : first = address
    · rw [if_pos (beq_iff_eq.mpr same), getLast?_cons]
      cases last : rest.getLast? with
      | none =>
        have empty : rest = [] := getLast?_eq_none_iff.mp last
        rw [same, empty]
        exact (if_pos rfl).symm
      | some found =>
        have inside : found ∈ rest := mem_of_getLast? last
        rw [if_neg]
        · rfl
        · intro equal
          cases equal
          exact unique.1 (same ▸ inside)
    · rw [if_neg (fun equal => same (beq_iff_eq.mp equal)), getLast?_cons, ih unique.2,
        getLast?_cons, before]
      cases last : rest.getLast? with
      | none =>
        have empty : rest = [] := getLast?_eq_none_iff.mp last
        rw [if_neg (fun impossible => nomatch impossible), if_neg]
        exact fun equal => same (Option.some.inj equal)
      | some found =>
        simp only [getD_some, some_inj]
        by_cases ends : found = address
        · rw [if_pos ends, if_pos ends]
          have inside : address ∈ rest := ends ▸ mem_of_getLast? last
          by_cases here : rest.head? = some address
          · rw [if_pos here, (before_eq_none_iff unique.2 inside).mpr here]
            rfl
          · rw [if_neg here]
            cases previous : before rest address with
            | none => exact absurd ((before_eq_none_iff unique.2 inside).mp previous) here
            | some found => rfl
        · rw [if_neg ends, if_neg ends]
          rfl

theorem after_concat (absent : address ∉ list) (unique : list.Nodup) {other : Nat}
    (different : other ≠ address) :
    after (list ++ [address]) other =
      if list.getLast? = some other then some address else after list other := by
  induction list with
  | nil => exact if_neg (Ne.symm different)
  | cons first rest ih =>
    rw [nodup_cons] at unique
    rw [mem_cons, not_or] at absent
    have later := ih absent.2 unique.2
    simp only [cons_append, after, getLast?_cons, some_inj]
    by_cases here : first = other
    · rw [if_pos here, if_pos here]
      cases last : rest.getLast? with
      | none =>
        rw [getLast?_eq_none_iff.mp last]
        exact (if_pos here).symm
      | some found =>
        have distinct : found ≠ other := by
          intro same
          exact unique.1 (here ▸ same ▸ mem_of_getLast? last)
        rw [getD_some, if_neg distinct, head?_append]
        cases rest with
        | nil => cases last
        | cons second rest => rfl
    · rw [if_neg here, if_neg here, later]
      cases last : rest.getLast? with
      | none =>
        rw [getD_none, if_neg here, if_neg (fun impossible => nomatch impossible)]
      | some found => simp only [getD_some, some_inj]

theorem after_concat_self (absent : address ∉ list) (unique : list.Nodup) :
    after (list ++ [address]) address = none := by
  apply after_append
  rw [nodup_append]
  refine ⟨unique, nodup_singleton _, ?_⟩
  intro first member second last same
  rw [mem_singleton.mp last] at same
  exact absent (same ▸ member)

theorem length_le_of_bounded (unique : list.Nodup) {bound : Nat}
    (bounded : ∀ address ∈ list, address < bound) : list.length ≤ bound := by
  rw [← toFinset_card_of_nodup unique, ← Finset.card_range bound]
  apply Finset.card_le_card
  intro address member
  exact Finset.mem_range.mpr (bounded address (List.mem_toFinset.mp member))

end Purple.Memory
