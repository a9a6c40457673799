/-
Feistel networks.

Each round exchanges the halves and mixes the function of one half into the other.  The
rounds are undone by the same rounds with the keys in reverse, for any round function.
-/

import Mathlib.Data.List.Basic

namespace Purple.Feistel

variable {Half Key : Type*} [XorOp Half]

def round (f : Key → Half → Half) (halves : Half × Half) (key : Key) : Half × Half :=
  (halves.2, halves.1 ^^^ f key halves.2)

def rounds (f : Key → Half → Half) (keys : List Key) (halves : Half × Half) : Half × Half :=
  keys.foldl (round f) halves

variable {f : Key → Half → Half}

theorem rounds_cons (key : Key) (keys : List Key) (halves : Half × Half) :
    rounds f (key :: keys) halves = rounds f keys (round f halves key) := rfl

theorem rounds_append (front back : List Key) (halves : Half × Half) :
    rounds f (front ++ back) halves = rounds f back (rounds f front halves) := List.foldl_append

theorem round_swap (cancel : ∀ left right : Half, left ^^^ right ^^^ right = left)
    (halves : Half × Half) (key : Key) :
    (round f (round f halves key).swap key).swap = halves := by
  change (halves.1 ^^^ f key halves.2 ^^^ f key halves.2, halves.2) = halves
  rw [cancel]

theorem rounds_reverse (cancel : ∀ left right : Half, left ^^^ right ^^^ right = left)
    (keys : List Key) (halves : Half × Half) :
    (rounds f keys.reverse (rounds f keys halves).swap).swap = halves := by
  induction keys generalizing halves with
  | nil => exact Prod.swap_swap halves
  | cons key keys ih =>
    have inner : rounds f keys.reverse (rounds f keys (round f halves key)).swap =
        (round f halves key).swap := by
      rw [← Prod.swap_swap (rounds f keys.reverse _), ih]
    rw [List.reverse_cons, rounds_append, rounds_cons key keys, inner]
    exact round_swap cancel halves key

end Purple.Feistel
