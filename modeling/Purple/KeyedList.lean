/-
Lists of records, each under its key, that hold what a table holds.

No key stands twice in the list.  The order of the list does not matter.
-/

import Mathlib.Data.List.Nodup

namespace Purple.KeyedList

open List

variable {Node Key Value : Type*}

structure Mirrors (key : Node → Key) (value : Node → Value) (list : List Node)
    (table : Key → Option Value) : Prop where
  distinct : (list.map key).Nodup
  stored : ∀ node ∈ list, table (key node) = some (value node)
  listed : ∀ id, table id ≠ none → ∃ node ∈ list, key node = id

variable {key : Node → Key} {value : Node → Value} {list : List Node}
  {table : Key → Option Value}

theorem Mirrors.unlisted (mirrors : Mirrors key value list table) {id : Key}
    (empty : table id = none) : ∀ node ∈ list, key node ≠ id := by
  intro node member same
  have stored := mirrors.stored node member
  rw [same, empty] at stored
  cases stored

theorem Mirrors.unique (mirrors : Mirrors key value list table) {first second : Node}
    (isFirst : first ∈ list) (isSecond : second ∈ list) (same : key first = key second) :
    first = second :=
  inj_on_of_nodup_map mirrors.distinct isFirst isSecond same

theorem Mirrors.perm {other : List Node} (mirrors : Mirrors key value list table)
    (same : other.Perm list) : Mirrors key value other table where
  distinct := (same.map key).nodup_iff.mpr mirrors.distinct
  stored := fun node member => mirrors.stored node (same.mem_iff.mp member)
  listed := by
    intro id present
    obtain ⟨node, member, isKey⟩ := mirrors.listed id present
    exact ⟨node, same.mem_iff.mpr member, isKey⟩

section Updates

variable [DecidableEq Key]

theorem Mirrors.cons (mirrors : Mirrors key value list table) {node : Node}
    (unused : table (key node) = none) :
    Mirrors key value (node :: list)
      (Function.update table (key node) (some (value node))) where
  distinct := by
    rw [map_cons, nodup_cons]
    refine ⟨fun member => ?_, mirrors.distinct⟩
    obtain ⟨other, isThere, same⟩ := List.mem_map.mp member
    exact mirrors.unlisted unused other isThere same
  stored := by
    intro other member
    rcases mem_cons.mp member with same | old
    · rw [same, Function.update_self]
    · rw [Function.update_of_ne (mirrors.unlisted unused other old)]
      exact mirrors.stored other old
  listed := by
    intro id present
    by_cases new : id = key node
    · exact ⟨node, mem_cons_self, new.symm⟩
    · rw [Function.update_of_ne new] at present
      obtain ⟨other, member, isKey⟩ := mirrors.listed id present
      exact ⟨other, mem_cons_of_mem _ member, isKey⟩

theorem Mirrors.filter (mirrors : Mirrors key value list table) {keep : Node → Bool} {id : Key}
    (removes : ∀ node ∈ list, keep node = true ↔ key node ≠ id) :
    Mirrors key value (list.filter keep) (Function.update table id none) where
  distinct := mirrors.distinct.sublist (filter_sublist.map key)
  stored := by
    intro node member
    obtain ⟨old, kept⟩ := mem_filter.mp member
    rw [Function.update_of_ne ((removes node old).mp kept)]
    exact mirrors.stored node old
  listed := by
    intro other present
    by_cases removed : other = id
    · rw [removed, Function.update_self] at present
      exact absurd rfl present
    · rw [Function.update_of_ne removed] at present
      obtain ⟨node, member, isKey⟩ := mirrors.listed other present
      refine ⟨node, mem_filter.mpr ⟨member, (removes node member).mpr ?_⟩, isKey⟩
      rw [isKey]
      exact removed

theorem Mirrors.map (mirrors : Mirrors key value list table) {change : Node → Node} {id : Key}
    {content : Value} (present : table id ≠ none)
    (keys : ∀ node ∈ list, key (change node) = key node)
    (written : ∀ node ∈ list, key node = id → value (change node) = content)
    (others : ∀ node ∈ list, key node ≠ id → value (change node) = value node) :
    Mirrors key value (list.map change) (Function.update table id (some content)) where
  distinct := by
    have same : list.map (key ∘ change) = list.map key := map_congr_left keys
    rw [List.map_map, same]
    exact mirrors.distinct
  stored := by
    intro node member
    obtain ⟨old, isThere, rfl⟩ := List.mem_map.mp member
    rw [keys old isThere]
    by_cases here : key old = id
    · rw [here, Function.update_self, written old isThere here]
    · rw [Function.update_of_ne here, others old isThere here]
      exact mirrors.stored old isThere
  listed := by
    intro other isSome
    have before : table other ≠ none := by
      by_cases here : other = id
      · rw [here]
        exact present
      · rw [Function.update_of_ne here] at isSome
        exact isSome
    obtain ⟨node, member, isKey⟩ := mirrors.listed other before
    refine ⟨change node, List.mem_map_of_mem member, ?_⟩
    rw [keys node member]
    exact isKey

end Updates

end Purple.KeyedList
