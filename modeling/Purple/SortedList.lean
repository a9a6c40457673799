/-
Lists kept in the order of a comparison function, as a C library keeps them.

A comparison is `none` where the modelled code has undefined behaviour on the
two elements, and negative or zero where the first need not stand behind the
second.  Sorting is stable: of equal elements the first stays in front.
-/

import Mathlib.Data.List.Perm.Basic

namespace Purple.SortedList

open List

variable {Element : Type*} {compare : Element → Element → Option Int}

/-- `g_list_insert_sorted`: in front of the first element that is no smaller. -/
def insertSorted (compare : Element → Element → Option Int) (data : Element) :
    List Element → Option (List Element)
  | [] => some [data]
  | head :: rest =>
    (compare data head).bind fun cmp =>
      if cmp > 0 then (insertSorted compare data rest).map (head :: ·)
      else some (data :: head :: rest)

/-- `g_list_sort` -/
def sort (compare : Element → Element → Option Int) : List Element → Option (List Element)
  | [] => some []
  | data :: rest => (sort compare rest).bind (insertSorted compare data)

/-- The comparison is defined and lets `first` stand in front of `second`. -/
def InOrder (compare : Element → Element → Option Int) (first second : Element) : Prop :=
  ∃ cmp, compare first second = some cmp ∧ cmp ≤ 0

def Sorted (compare : Element → Element → Option Int) (list : List Element) : Prop :=
  list.Pairwise (InOrder compare)

structure Lawful (compare : Element → Element → Option Int) : Prop where
  trans : ∀ first second third, InOrder compare first second → InOrder compare second third →
    InOrder compare first third
  swap : ∀ first second cmp, compare first second = some cmp → 0 < cmp →
    InOrder compare second first

variable {new list : List Element}

theorem insertSorted_cons {data head : Element} {rest : List Element}
    (inserted : insertSorted compare data (head :: rest) = some new) :
    (∃ cmp behind, compare data head = some cmp ∧ 0 < cmp ∧
        insertSorted compare data rest = some behind ∧ new = head :: behind) ∨
      (InOrder compare data head ∧ new = data :: head :: rest) := by
  rw [insertSorted] at inserted
  obtain ⟨cmp, compared, inserted⟩ := Option.bind_eq_some_iff.mp inserted
  by_cases behindHead : cmp > 0
  · rw [if_pos behindHead] at inserted
    obtain ⟨behind, insertedBehind, rfl⟩ := Option.map_eq_some_iff.mp inserted
    exact Or.inl ⟨cmp, behind, compared, behindHead, insertedBehind, rfl⟩
  · rw [if_neg behindHead] at inserted
    cases inserted
    exact Or.inr ⟨⟨cmp, compared, Int.not_lt.mp behindHead⟩, rfl⟩

theorem insertSorted_perm {data : Element} (inserted : insertSorted compare data list = some new) :
    new.Perm (data :: list) := by
  induction list generalizing new with
  | nil =>
    cases inserted
    exact List.Perm.refl _
  | cons head rest ih =>
    rcases insertSorted_cons inserted with ⟨_, behind, _, _, insertedBehind, rfl⟩ | ⟨_, rfl⟩
    · exact ((ih insertedBehind).cons head).trans (List.Perm.swap data head rest)
    · exact List.Perm.refl _

theorem insertSorted_sorted (lawful : Lawful compare) {data : Element}
    (sorted : Sorted compare list) (inserted : insertSorted compare data list = some new) :
    Sorted compare new := by
  induction list generalizing new with
  | nil =>
    cases inserted
    exact pairwise_singleton _ _
  | cons head rest ih =>
    obtain ⟨headFirst, restSorted⟩ := pairwise_cons.mp sorted
    rcases insertSorted_cons inserted with
      ⟨cmp, behind, compared, positive, insertedBehind, rfl⟩ | ⟨first, rfl⟩
    · refine pairwise_cons.mpr ⟨?_, ih restSorted insertedBehind⟩
      intro other member
      rcases mem_cons.mp ((insertSorted_perm insertedBehind).mem_iff.mp member) with
        same | inRest
      · rw [same]
        exact lawful.swap data head cmp compared positive
      · exact headFirst other inRest
    · refine pairwise_cons.mpr ⟨?_, sorted⟩
      intro other member
      rcases mem_cons.mp member with same | inRest
      · rw [same]
        exact first
      · exact lawful.trans data head other first (headFirst other inRest)

theorem sort_perm (sorted : sort compare list = some new) : new.Perm list := by
  induction list generalizing new with
  | nil =>
    cases sorted
    exact List.Perm.refl _
  | cons data rest ih =>
    obtain ⟨middle, sortedRest, inserted⟩ := Option.bind_eq_some_iff.mp sorted
    exact (insertSorted_perm inserted).trans ((ih sortedRest).cons data)

theorem sort_sorted (lawful : Lawful compare) (sorted : sort compare list = some new) :
    Sorted compare new := by
  induction list generalizing new with
  | nil =>
    cases sorted
    exact List.Pairwise.nil
  | cons data rest ih =>
    obtain ⟨middle, sortedRest, inserted⟩ := Option.bind_eq_some_iff.mp sorted
    exact insertSorted_sorted lawful (ih sortedRest) inserted

end Purple.SortedList
