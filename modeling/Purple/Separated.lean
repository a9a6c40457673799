/-
Lists cut at a separator.
-/

import Mathlib.Data.List.Basic

namespace Purple.Separated

open List

variable {Item : Type*} [BEq Item] [LawfulBEq Item] {separator : Item}

theorem mem_splitOn {part whole : List Item} (member : part ∈ whole.splitOn separator) :
    separator ∉ part := by
  induction whole generalizing part with
  | nil =>
    rw [splitOn_nil, mem_singleton] at member
    rw [member]
    exact not_mem_nil
  | cons item whole ih =>
    rw [splitOn_cons_eq_if_modifyHead] at member
    split at member
    · obtain rfl | later := mem_cons.mp member
      · exact not_mem_nil
      · exact ih later
    · rename_i other
      cases parts : whole.splitOn separator with
      | nil => exact absurd parts (splitOn_ne_nil _ _)
      | cons first parts' =>
        rw [parts] at member ih
        obtain rfl | later := mem_cons.mp member
        · intro inside
          obtain same | inside := mem_cons.mp inside
          · exact other (beq_iff_eq.mpr same.symm)
          · exact ih mem_cons_self inside
        · exact ih (mem_cons_of_mem _ later)

def Marked (separator : Item) (text : List Item) : Prop :=
  ∃ body, text = separator :: body ∧ separator ∉ body

theorem splitOn_append_marked {texts : List (List Item)}
    (marked : ∀ text ∈ texts, Marked separator text) {front : List Item} (clean : separator ∉ front) :
    (front ++ texts.flatten).splitOn separator = front :: texts.map List.tail := by
  induction texts generalizing front with
  | nil => rw [flatten_nil, append_nil, splitOn_eq_singleton clean, map_nil]
  | cons text texts ih =>
    obtain ⟨body, same, cleanBody⟩ := marked text mem_cons_self
    have rest := ih (fun other member => marked other (mem_cons_of_mem _ member)) cleanBody
    rw [same, flatten_cons, cons_append, splitOn_append_cons_self_of_not_mem clean, rest]
    rfl

theorem splitOn_marked {texts : List (List Item)} (marked : ∀ text ∈ texts, Marked separator text) :
    texts.flatten.splitOn separator = [] :: texts.map List.tail :=
  splitOn_append_marked marked not_mem_nil

theorem flatten_inj {left right : List (List Item)}
    (markedLeft : ∀ text ∈ left, Marked separator text)
    (markedRight : ∀ text ∈ right, Marked separator text) (same : left.flatten = right.flatten) :
    left = right := by
  have tails : left.map List.tail = right.map List.tail := by
    have split := congrArg (List.splitOn separator) same
    rw [splitOn_marked markedLeft, splitOn_marked markedRight] at split
    exact tail_eq_of_cons_eq split
  have whole {texts : List (List Item)} (marked : ∀ text ∈ texts, Marked separator text) :
      (texts.map List.tail).map (separator :: ·) = texts := by
    rw [List.map_map]
    refine (map_congr_left fun text member => ?_).trans (List.map_id texts)
    obtain ⟨body, same, _⟩ := marked text member
    rw [same]
    rfl
  rw [← whole markedLeft, tails, whole markedRight]

end Purple.Separated
