/-
A heap of records at addresses that are never used twice.

Reading, writing or disposing of an address that is not live is `none`, so a
program that returns `some` has not used a record after it was destroyed.
-/

import Mathlib.Algebra.Group.Nat.Defs
import Mathlib.Logic.Function.Basic

namespace Purple.Memory

open Option

structure Heap (Cell : Type*) where
  cells : Nat → Option Cell
  fresh : Nat
  bounded : ∀ address, fresh ≤ address → cells address = none

variable {Cell : Type*}

def Heap.empty : Heap Cell :=
  { cells := fun _ => none
    fresh := 0
    bounded := fun _ _ => rfl }

/-- The new record is at `heap.fresh`. -/
def Heap.alloc (heap : Heap Cell) (cell : Cell) : Heap Cell :=
  { cells := Function.update heap.cells heap.fresh (some cell)
    fresh := heap.fresh + 1
    bounded := fun address above => by
      rw [Function.update_of_ne (by omega)]
      exact heap.bounded address (by omega) }

def Heap.modify (heap : Heap Cell) (address : Nat) (change : Cell → Cell) : Heap Cell :=
  { cells := Function.update heap.cells address ((heap.cells address).map change)
    fresh := heap.fresh
    bounded := fun other above => by
      by_cases same : other = address
      · rw [same, Function.update_self, heap.bounded address (same ▸ above), map_none]
      · rw [Function.update_of_ne same, heap.bounded other above] }

def Heap.remove (heap : Heap Cell) (address : Nat) : Heap Cell :=
  { cells := Function.update heap.cells address none
    fresh := heap.fresh
    bounded := fun other above => by
      by_cases same : other = address
      · rw [same, Function.update_self]
      · rw [Function.update_of_ne same, heap.bounded other above] }

def Heap.read (heap : Heap Cell) (address : Nat) : Option Cell := heap.cells address

def Heap.write (heap : Heap Cell) (address : Nat) (change : Cell → Cell) : Option (Heap Cell) :=
  (heap.cells address).map fun _ => heap.modify address change

def Heap.dispose (heap : Heap Cell) (address : Nat) : Option (Heap Cell) :=
  (heap.cells address).map fun _ => heap.remove address

variable {heap : Heap Cell} {address : Nat}

theorem Heap.lt_fresh {cell : Cell} (live : heap.cells address = some cell) :
    address < heap.fresh := by
  apply Nat.lt_of_not_le
  intro above
  rw [heap.bounded address above] at live
  cases live

@[simp] theorem Heap.alloc_fresh (heap : Heap Cell) (cell : Cell) :
    (heap.alloc cell).fresh = heap.fresh + 1 := rfl

@[simp] theorem Heap.modify_fresh (heap : Heap Cell) (address : Nat) (change : Cell → Cell) :
    (heap.modify address change).fresh = heap.fresh := rfl

@[simp] theorem Heap.remove_fresh (heap : Heap Cell) (address : Nat) :
    (heap.remove address).fresh = heap.fresh := rfl

theorem Heap.alloc_cells (heap : Heap Cell) (cell : Cell) (address : Nat) :
    (heap.alloc cell).cells address =
      if address = heap.fresh then some cell else heap.cells address :=
  Function.update_apply _ _ _ _

theorem Heap.modify_cells (heap : Heap Cell) (address other : Nat) (change : Cell → Cell) :
    (heap.modify address change).cells other =
      if other = address then (heap.cells other).map change else heap.cells other := by
  change Function.update _ _ _ _ = _
  rw [Function.update_apply]
  split
  · rename_i same
    rw [same]
  · rfl

theorem Heap.remove_cells (heap : Heap Cell) (address other : Nat) :
    (heap.remove address).cells other = if other = address then none else heap.cells other :=
  Function.update_apply _ _ _ _

theorem Heap.write_live {cell : Cell} (live : heap.cells address = some cell)
    (change : Cell → Cell) : heap.write address change = some (heap.modify address change) := by
  rw [write, live, map_some]

theorem Heap.dispose_live {cell : Cell} (live : heap.cells address = some cell) :
    heap.dispose address = some (heap.remove address) := by
  rw [dispose, live, map_some]

theorem Heap.modify_modify (heap : Heap Cell) (address : Nat) (first second : Cell → Cell) :
    (heap.modify address first).modify address second =
      heap.modify address fun cell => second (first cell) := by
  simp only [modify, Function.update_self, Function.update_idem, Option.map_map]
  rfl

theorem Heap.alloc_modify (heap : Heap Cell) (cell : Cell) (change : Cell → Cell) :
    (heap.alloc cell).modify heap.fresh change = heap.alloc (change cell) := by
  simp only [alloc, modify, Function.update_self, Function.update_idem, map_some]

theorem Heap.modify_same {change : Cell → Cell}
    (same : ∀ cell, heap.cells address = some cell → change cell = cell) :
    heap.modify address change = heap := by
  have unchanged : (heap.cells address).map change = heap.cells address := by
    cases found : heap.cells address with
    | none => rfl
    | some cell => rw [map_some, same cell found]
  obtain ⟨cells, fresh, bounded⟩ := heap
  simp only [modify] at unchanged ⊢
  congr 1
  rw [unchanged, Function.update_eq_self]

end Purple.Memory
