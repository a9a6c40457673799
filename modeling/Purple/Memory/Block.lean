/-
An allocated block of memory as the list of its cells.  A cell that was never
written is `none`, so a value that comes back from a load is `some` only when
the program put it there.  Loads and stores outside the block are `none`.
-/

import Mathlib.Algebra.Group.Nat.Defs
import Mathlib.Data.List.Basic

namespace Purple.Memory

open List

abbrev Block (α : Type*) := List (Option α)

variable {α : Type*}

/-- `realloc`: the common prefix survives, new cells are uninitialised. -/
def Block.realloc (block : Block α) (size : Nat) : Block α :=
  block.take size ++ List.replicate (size - block.length) none

def Block.store (block : Block α) (offset : Nat) (cells : List (Option α)) : Option (Block α) :=
  if offset + cells.length ≤ block.length then
    some (block.take offset ++ cells ++ block.drop (offset + cells.length))
  else none

def Block.load (block : Block α) (offset count : Nat) : Option (List (Option α)) :=
  if offset + count ≤ block.length then some ((block.drop offset).take count) else none

variable {offset : Nat} {cells front : List (Option α)} {block stored : Block α}

@[simp] theorem Block.realloc_length (block : Block α) (size : Nat) :
    (block.realloc size).length = size := by
  simp only [realloc, length_append, length_take, length_replicate]
  omega

theorem Block.realloc_kept (block : Block α) {size index : Nat}
    (kept : index < size) (old : index < block.length) :
    (block.realloc size)[index]? = block[index]? := by
  have inside : index < (block.take size).length := by
    simp only [length_take]
    omega
  rw [realloc, getElem?_append_left inside, getElem?_take_of_lt kept]

theorem Block.store_some (block : Block α) (room : offset + cells.length ≤ block.length) :
    block.store offset cells =
      some (block.take offset ++ cells ++ block.drop (offset + cells.length)) :=
  if_pos room

theorem Block.store_length (done : block.store offset cells = some stored) :
    stored.length = block.length := by
  simp only [store] at done
  split at done
  · rename_i room
    cases done
    simp only [length_append, length_take, List.length_drop]
    omega
  · cases done

theorem Block.store_inside (done : block.store offset cells = some stored) {index : Nat}
    (within : index < cells.length) : stored[offset + index]? = cells[index]? := by
  simp only [store] at done
  split at done
  · rename_i room
    cases done
    have start : (block.take offset).length = offset := by
      simp only [length_take]
      omega
    rw [append_assoc, getElem?_append_right (by omega), start,
      Nat.add_sub_cancel_left, getElem?_append_left within]
  · cases done

theorem Block.store_outside (done : block.store offset cells = some stored) {index : Nat}
    (outside : index < offset ∨ offset + cells.length ≤ index) :
    stored[index]? = block[index]? := by
  simp only [store] at done
  split at done
  · rename_i room
    cases done
    have start : (block.take offset).length = offset := by
      simp only [length_take]
      omega
    rcases outside with before | after
    · rw [append_assoc, getElem?_append_left (by omega),
        getElem?_take_of_lt before]
    · rw [getElem?_append_right (by simp only [length_append]; omega),
        length_append, start, getElem?_drop]
      congr 1
      omega
  · cases done

theorem Block.load_some (block : Block α) {count : Nat} (room : offset + count ≤ block.length) :
    block.load offset count = some ((block.drop offset).take count) :=
  if_pos room

theorem Block.load_eq_some_iff (block : Block α) (offset count : Nat) (cells : List (Option α)) :
    block.load offset count = some cells ↔
      offset + count ≤ block.length ∧ cells.length = count ∧
        ∀ index, index < count → cells[index]? = block[offset + index]? := by
  constructor
  · intro loaded
    simp only [load] at loaded
    split at loaded
    · rename_i room
      cases loaded
      refine ⟨room, ?_, ?_⟩
      · simp only [length_take, List.length_drop]
        omega
      · intro index within
        rw [getElem?_take_of_lt within, getElem?_drop]
    · cases loaded
  · rintro ⟨room, sized, same⟩
    rw [load_some block room]
    congr 1
    apply ext_getElem?
    intro index
    by_cases within : index < count
    · rw [getElem?_take_of_lt within, getElem?_drop, same index within]
    · rw [getElem?_eq_none (by simp only [length_take]; omega),
        getElem?_eq_none (by omega)]

theorem mapM_stored (values : List α) : (values.map some).mapM id = some values := by
  induction values with
  | nil => rfl
  | cons value rest ih =>
    rw [map_cons, mapM_cons, ih]
    rfl

theorem Block.store_cell (front back : Block α) (old new : Option α) :
    Block.store (front ++ old :: back) front.length [new] = some (front ++ new :: back) := by
  have room : front.length + [new].length ≤ (front ++ old :: back).length := by
    rw [length_append, length_singleton, length_cons]
    omega
  rw [store_some _ room, take_left' rfl, append_assoc, length_singleton,
    ← drop_drop, drop_left' rfl]
  rfl

theorem Block.store_middle (front back : Block α) {old : List (Option α)}
    (sized : old.length = cells.length) :
    Block.store (front ++ old ++ back) front.length cells = some (front ++ cells ++ back) := by
  have room : front.length + cells.length ≤ (front ++ old ++ back).length := by
    rw [length_append, length_append]
    omega
  rw [store_some _ room, drop_left' (by rw [length_append, sized]),
    append_assoc front old back, take_left' rfl]

theorem Block.prefix_realloc {size : Nat} (held : front <+: block) (kept : front.length ≤ size) :
    front <+: block.realloc size := by
  obtain ⟨rest, rfl⟩ := held
  refine ⟨rest.take (size - front.length) ++
    List.replicate (size - (front ++ rest).length) none, ?_⟩
  rw [realloc, take_append, take_of_length_le kept, append_assoc]

theorem Block.store_after {block : Block α} {front cells : List (Option α)}
    (held : front <+: block) (room : front.length + cells.length ≤ block.length) :
    ∃ stored, block.store front.length cells = some stored ∧
      stored.length = block.length ∧ front ++ cells <+: stored := by
  obtain ⟨rest, rfl⟩ := held
  refine ⟨_, store_some _ room, Block.store_length (store_some _ room), ?_⟩
  rw [take_left']
  · exact prefix_append _ _
  · rfl

theorem Block.store_behind (held : front <+: block) (behind : front.length ≤ offset)
    (done : block.store offset cells = some stored) : front <+: stored := by
  obtain ⟨rest, rfl⟩ := held
  unfold store at done
  split at done
  · cases done
    rw [take_append, take_of_length_le behind, append_assoc, append_assoc]
    exact prefix_append _ _
  · cases done

theorem Block.load_front {block : Block α} (first second : List (Option α))
    (held : first ++ second <+: block) :
    block.load first.length second.length = some second := by
  obtain ⟨rest, rfl⟩ := held
  rw [load_some _ (by simp only [length_append]; omega), append_assoc,
    drop_left' rfl, take_left' rfl]

theorem Block.realloc_of_prefix (held : front <+: block) : block.realloc front.length = front := by
  obtain ⟨rest, rfl⟩ := held
  have short : front.length - (front ++ rest).length = 0 := by
    rw [length_append]
    omega
  rw [realloc, take_left' rfl, short, replicate_zero, append_nil]

theorem Block.realloc_prefix (block : Block α) {size : Nat} (room : size ≤ block.length) :
    block.realloc size <+: block := by
  rw [realloc, Nat.sub_eq_zero_of_le room, replicate_zero, append_nil]
  exact take_prefix size block

theorem Block.realloc_getElem? (block : Block α) (size index : Nat) :
    (block.realloc size)[index]? = if index < size then some (block[index]?.getD none) else none := by
  split
  · rename_i within
    by_cases old : index < block.length
    · rw [Block.realloc_kept _ within old, getElem?_eq_getElem old]
      rfl
    · have taken : (block.take size).length ≤ index := by
        rw [length_take]
        omega
      have absent : block[index]? = none := getElem?_eq_none (by omega)
      rw [realloc, getElem?_append_right taken, absent,
        getElem?_replicate_of_lt (by rw [length_take]; omega)]
      rfl
  · rename_i outside
    exact getElem?_eq_none (by rw [Block.realloc_length]; omega)

theorem Block.realloc_realloc (block : Block α) {first second : Nat} (grown : second ≤ first) :
    Block.realloc (block.realloc first) second = block.realloc second := by
  apply ext_getElem?
  intro index
  simp only [realloc_getElem?]
  split
  · rw [if_pos (by omega)]
    rfl
  · rfl

theorem Block.realloc_front (held : front <+: block) (size : Nat) :
    Block.realloc (block.realloc size) front.length =
      Block.realloc (Block.realloc front size) front.length := by
  obtain ⟨rest, rfl⟩ := held
  apply ext_getElem?
  intro index
  simp only [realloc_getElem?]
  split
  · rename_i within
    rw [getElem?_append_left within]
  · rfl

end Purple.Memory
