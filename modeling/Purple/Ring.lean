/-
A queue in a ring of slots, with the indices to read and to write next.

`Ring.Holds` says which items wait in it, the first one to be read first.
-/

import Mathlib.Data.Nat.ModEq

namespace Purple

open List

/-- The slots from 0 on; only those below the size are used. -/
structure Ring (α : Type*) where
  slots : Nat → Option α
  count : Nat
  rd : Nat
  wr : Nat

namespace Ring

variable {α : Type*}

def empty : Ring α := { slots := fun _ => none, count := 0, rd := 0, wr := 0 }

def push (size : Nat) (ring : Ring α) (item : α) : Option (Ring α) :=
  if ring.count < size then
    some
      { slots := Function.update ring.slots ring.wr (some item), count := ring.count + 1
        rd := ring.rd, wr := (ring.wr + 1) % size }
  else none

def pop (size : Nat) (ring : Ring α) : Option α × Ring α :=
  if 0 < ring.count then
    (ring.slots ring.rd,
      { slots := Function.update ring.slots ring.rd none, count := ring.count - 1
        rd := (ring.rd + 1) % size, wr := ring.wr })
  else (none, ring)

structure Holds (size : Nat) (ring : Ring α) (items : List α) : Prop where
  count : ring.count = items.length
  room : items.length ≤ size
  rd : ring.rd < size
  wr : ring.wr = (ring.rd + ring.count) % size
  full : ∀ place, place < items.length → ring.slots ((ring.rd + place) % size) = items[place]?
  free : ∀ place, items.length ≤ place → place < size → ring.slots ((ring.rd + place) % size) = none

variable {size : Nat} {ring after : Ring α} {items : List α} {item : α}

theorem empty_holds (positive : 0 < size) : Holds size (empty : Ring α) [] :=
  { count := rfl
    room := Nat.zero_le _
    rd := positive
    wr := (Nat.zero_mod _).symm
    full := fun _ impossible => absurd impossible (Nat.not_lt_zero _)
    free := fun _ _ _ => rfl }

theorem place_unique {rd first second : Nat} (firstIn : first < size) (secondIn : second < size)
    (same : (rd + first) % size = (rd + second) % size) : first = second := by
  have modulo : first ≡ second [MOD size] := Nat.ModEq.add_left_cancel' rd same
  rw [Nat.ModEq, Nat.mod_eq_of_lt firstIn, Nat.mod_eq_of_lt secondIn] at modulo
  exact modulo

theorem Holds.push_none_iff (holds : Holds size ring items) :
    ring.push size item = none ↔ items.length = size := by
  have room := holds.room
  rw [push, holds.count]
  split
  · refine ⟨fun impossible => (nomatch impossible), fun full => ?_⟩
    omega
  · exact ⟨fun _ => by omega, fun _ => rfl⟩

theorem Holds.push (holds : Holds size ring items) (pushed : ring.push size item = some after) :
    Holds size after (items ++ [item]) := by
  rw [Ring.push] at pushed
  split at pushed
  · rename_i space
    cases pushed
    rw [holds.count] at space
    have length : (items ++ [item]).length = items.length + 1 := by
      rw [length_append, length_singleton]
    constructor
    · dsimp only
      rw [length, holds.count]
    · rw [length]
      exact space
    · exact holds.rd
    · dsimp only
      rw [holds.wr, Nat.mod_add_mod, Nat.add_assoc]
    · intro place inside
      rw [length] at inside
      dsimp only
      rw [holds.wr, holds.count]
      by_cases last : place = items.length
      · rw [last, Function.update_self, getElem?_concat_length]
      · have apart : (ring.rd + place) % size ≠ (ring.rd + items.length) % size := fun same =>
          last (place_unique (by omega) space same)
        rw [Function.update_of_ne apart, getElem?_append_left (by omega)]
        exact holds.full place (by omega)
    · intro place behind inside
      rw [length] at behind
      dsimp only
      rw [holds.wr, holds.count]
      have apart : (ring.rd + place) % size ≠ (ring.rd + items.length) % size := fun same => by
        have place := place_unique inside space same
        omega
      rw [Function.update_of_ne apart]
      exact holds.free place (by omega) inside
  · cases pushed

theorem Holds.pop_nil (holds : Holds size ring []) : ring.pop size = (none, ring) := by
  have none : ring.count = 0 := holds.count
  rw [Ring.pop, none]
  exact if_neg (Nat.lt_irrefl 0)

theorem Holds.pop (holds : Holds size ring (item :: items)) :
    ∃ rest, ring.pop size = (some item, rest) ∧ Holds size rest items := by
  have some : 0 < ring.count := by
    rw [holds.count]
    exact Nat.succ_pos _
  have room := holds.room
  rw [length_cons] at room
  have positive : 0 < size := by omega
  have here := holds.full 0 (Nat.succ_pos _)
  rw [Nat.add_zero, Nat.mod_eq_of_lt holds.rd] at here
  have next (place : Nat) : ((ring.rd + 1) % size + place) % size = (ring.rd + (place + 1)) % size := by
    rw [Nat.mod_add_mod, Nat.add_assoc, Nat.add_comm 1 place]
  -- the slot that is read is none of the others
  have apart {place : Nat} (inside : place + 1 < size) :
      (ring.rd + (place + 1)) % size ≠ ring.rd := by
    intro same
    have again : (ring.rd + (place + 1)) % size = (ring.rd + 0) % size := by
      rw [same, Nat.add_zero, Nat.mod_eq_of_lt holds.rd]
    have unique := place_unique inside positive again
    omega
  rw [Ring.pop, if_pos some, here]
  refine ⟨_, rfl, ?_⟩
  constructor
  · dsimp only
    rw [holds.count, length_cons, Nat.add_sub_cancel]
  · omega
  · exact Nat.mod_lt _ positive
  · dsimp only
    rw [holds.wr, Nat.mod_add_mod, Nat.add_assoc]
    congr 2
    omega
  · intro place inside
    dsimp only
    rw [next, Function.update_of_ne (apart (by omega)), holds.full _ (Nat.succ_lt_succ inside)]
    rfl
  · intro place behind inside
    dsimp only
    rw [next]
    by_cases last : place + 1 = size
    · rw [last, Nat.add_mod_right, Nat.mod_eq_of_lt holds.rd, Function.update_self]
    · rw [Function.update_of_ne (apart (by omega))]
      exact holds.free _ (Nat.succ_le_succ behind) (by omega)

end Ring

end Purple
