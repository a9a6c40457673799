/-
A hash table as the list of its entries, with one entry for each key.

An insertion under a key that is there replaces the value and keeps the place of
the entry.  Nothing may depend on the order of the entries.
-/

import Mathlib.Data.List.Nodup

namespace Purple

open List

structure HashTable (Key Value : Type) where
  entries : List (Key × Value)
  distinct : (entries.map Prod.fst).Nodup

namespace HashTable

variable {Key Value : Type} [DecidableEq Key]

def empty : HashTable Key Value := ⟨[], nodup_nil⟩

def find (key : Key) : List (Key × Value) → Option Value
  | [] => none
  | (head, value) :: rest => if head = key then some value else find key rest

def lookup (table : HashTable Key Value) (key : Key) : Option Value := find key table.entries

def size (table : HashTable Key Value) : Nat := table.entries.length

def put (key : Key) (value : Value) : List (Key × Value) → List (Key × Value)
  | [] => [(key, value)]
  | (head, old) :: rest =>
    if head = key then (key, value) :: rest else (head, old) :: put key value rest

def drop (key : Key) : List (Key × Value) → List (Key × Value)
  | [] => []
  | (head, value) :: rest => if head = key then rest else (head, value) :: drop key rest

variable {key other : Key} {table : HashTable Key Value} {old : Value}

theorem mem_keys_put (key other : Key) (value : Value) (entries : List (Key × Value)) :
    other ∈ (put key value entries).map Prod.fst ↔
      other = key ∨ other ∈ entries.map Prod.fst := by
  induction entries with
  | nil => simp [put]
  | cons entry rest ih =>
    obtain ⟨head, old⟩ := entry
    by_cases same : head = key
    · simp [put, same]
    · simp only [put, same, if_false, map_cons, mem_cons, ih]
      exact or_left_comm

theorem put_distinct (key : Key) (value : Value) (entries : List (Key × Value))
    (distinct : (entries.map Prod.fst).Nodup) : ((put key value entries).map Prod.fst).Nodup := by
  induction entries with
  | nil => exact nodup_singleton key
  | cons entry rest ih =>
    obtain ⟨head, old⟩ := entry
    obtain ⟨fresh, tail⟩ := nodup_cons.mp distinct
    by_cases same : head = key
    · subst same
      rw [put, if_pos rfl]
      exact distinct
    · rw [put, if_neg same, map_cons, nodup_cons]
      refine ⟨?_, ih tail⟩
      intro member
      rcases (mem_keys_put key head value rest).mp member with equal | old
      · exact same equal
      · exact fresh old

theorem drop_sublist (key : Key) (entries : List (Key × Value)) :
    (drop key entries).Sublist entries := by
  induction entries with
  | nil => exact List.Sublist.refl []
  | cons entry rest ih =>
    obtain ⟨head, value⟩ := entry
    unfold drop
    split
    · exact sublist_cons_self _ _
    · exact ih.cons_cons _

/-- `g_hash_table_insert` -/
def insert (table : HashTable Key Value) (key : Key) (value : Value) : HashTable Key Value :=
  ⟨put key value table.entries, put_distinct key value table.entries table.distinct⟩

/-- `g_hash_table_remove` -/
def remove (table : HashTable Key Value) (key : Key) : HashTable Key Value :=
  ⟨drop key table.entries,
    table.distinct.sublist ((drop_sublist key table.entries).map Prod.fst)⟩

def mapEntry (change : Key → Value → Value) (entry : Key × Value) : Key × Value :=
  (entry.1, change entry.1 entry.2)

omit [DecidableEq Key] in
theorem keys_map (change : Key → Value → Value) (entries : List (Key × Value)) :
    (entries.map (mapEntry change)).map Prod.fst = entries.map Prod.fst := by
  rw [List.map_map]
  rfl

/-- `g_hash_table_foreach` with a function that writes to each value. -/
def foreach (table : HashTable Key Value) (change : Key → Value → Value) :
    HashTable Key Value :=
  ⟨table.entries.map (mapEntry change), by rw [keys_map]; exact table.distinct⟩

@[simp] theorem lookup_empty (key : Key) : (empty : HashTable Key Value).lookup key = none := rfl

theorem find_eq_some {value : Value} {entries : List (Key × Value)}
    (found : find key entries = some value) : (key, value) ∈ entries := by
  induction entries with
  | nil => cases found
  | cons entry rest ih =>
    obtain ⟨head, old⟩ := entry
    rw [find] at found
    split at found
    · rename_i same
      cases found
      rw [same]
      exact mem_cons_self
    · exact mem_cons_of_mem _ (ih found)

theorem find_of_mem {value : Value} {entries : List (Key × Value)}
    (distinct : (entries.map Prod.fst).Nodup) (member : (key, value) ∈ entries) :
    find key entries = some value := by
  induction entries with
  | nil => cases member
  | cons entry rest ih =>
    obtain ⟨head, old⟩ := entry
    obtain ⟨fresh, tail⟩ := nodup_cons.mp distinct
    rcases mem_cons.mp member with equal | inRest
    · cases equal
      rw [find, if_pos rfl]
    · have different : head ≠ key := by
        intro same
        apply fresh
        rw [same]
        exact List.mem_map.mpr ⟨(key, value), inRest, rfl⟩
      rw [find, if_neg different]
      exact ih tail inRest

theorem mem_entries {value : Value} :
    (key, value) ∈ table.entries ↔ table.lookup key = some value :=
  ⟨find_of_mem table.distinct, find_eq_some⟩

theorem find_eq_none {entries : List (Key × Value)} :
    find key entries = none ↔ key ∉ entries.map Prod.fst := by
  induction entries with
  | nil => simp [find]
  | cons entry rest ih =>
    obtain ⟨head, old⟩ := entry
    by_cases same : head = key
    · simp [find, same]
    · simp only [find, same, if_false, ih, map_cons, mem_cons, not_or]
      exact ⟨fun absent => ⟨fun equal => same equal.symm, absent⟩, And.right⟩

theorem find_put_self (key : Key) (value : Value) (entries : List (Key × Value)) :
    find key (put key value entries) = some value := by
  induction entries with
  | nil => simp [put, find]
  | cons entry rest ih =>
    obtain ⟨head, old⟩ := entry
    by_cases same : head = key
    · simp [put, find, same]
    · simpa [put, find, same] using ih

theorem find_put_other (different : other ≠ key) (value : Value) (entries : List (Key × Value)) :
    find other (put key value entries) = find other entries := by
  induction entries with
  | nil => simp [put, find, Ne.symm different]
  | cons entry rest ih =>
    obtain ⟨head, old⟩ := entry
    by_cases same : head = key
    · subst same
      simp [put, find, Ne.symm different]
    · by_cases here : head = other
      · subst here
        simp [put, find, same]
      · simpa [put, find, same, here] using ih

theorem find_drop_self (key : Key) {entries : List (Key × Value)}
    (distinct : (entries.map Prod.fst).Nodup) : find key (drop key entries) = none := by
  induction entries with
  | nil => rfl
  | cons entry rest ih =>
    obtain ⟨head, old⟩ := entry
    obtain ⟨fresh, tail⟩ := nodup_cons.mp distinct
    by_cases same : head = key
    · subst same
      rw [drop, if_pos rfl]
      exact find_eq_none.mpr fresh
    · simpa [drop, find, same] using ih tail

theorem find_drop_other (different : other ≠ key) (entries : List (Key × Value)) :
    find other (drop key entries) = find other entries := by
  induction entries with
  | nil => rfl
  | cons entry rest ih =>
    obtain ⟨head, old⟩ := entry
    by_cases same : head = key
    · subst same
      simp [drop, find, Ne.symm different]
    · by_cases here : head = other
      · subst here
        simp [drop, find, same]
      · simpa [drop, find, same, here] using ih

theorem find_map (change : Key → Value → Value) (key : Key) (entries : List (Key × Value)) :
    find key (entries.map (mapEntry change)) = (find key entries).map (change key) := by
  induction entries with
  | nil => rfl
  | cons entry rest ih =>
    obtain ⟨head, old⟩ := entry
    by_cases same : head = key
    · subst same
      simp [mapEntry, find]
    · simpa [mapEntry, find, same] using ih

@[simp] theorem lookup_insert_self (table : HashTable Key Value) (key : Key) (value : Value) :
    (table.insert key value).lookup key = some value := find_put_self key value table.entries

theorem lookup_insert_other (table : HashTable Key Value) (different : other ≠ key)
    (value : Value) : (table.insert key value).lookup other = table.lookup other :=
  find_put_other different value table.entries

@[simp] theorem lookup_remove_self (table : HashTable Key Value) (key : Key) :
    (table.remove key).lookup key = none := find_drop_self key table.distinct

theorem lookup_remove_other (table : HashTable Key Value) (different : other ≠ key) :
    (table.remove key).lookup other = table.lookup other :=
  find_drop_other different table.entries

@[simp] theorem lookup_foreach (table : HashTable Key Value) (change : Key → Value → Value)
    (key : Key) : (table.foreach change).lookup key = (table.lookup key).map (change key) :=
  find_map change key table.entries

theorem length_put_new {entries : List (Key × Value)} (fresh : find key entries = none)
    (value : Value) : (put key value entries).length = entries.length + 1 := by
  induction entries with
  | nil => rfl
  | cons entry rest ih =>
    obtain ⟨head, old⟩ := entry
    by_cases same : head = key
    · simp [find, same] at fresh
    · simp only [find, same, if_false] at fresh
      simpa [put, same] using ih fresh

theorem length_put_old {entries : List (Key × Value)} (present : find key entries = some old)
    (value : Value) : (put key value entries).length = entries.length := by
  induction entries with
  | nil => cases present
  | cons entry rest ih =>
    obtain ⟨head, before⟩ := entry
    by_cases same : head = key
    · simp [put, same]
    · simp only [find, same, if_false] at present
      simpa [put, same] using ih present

theorem length_drop {entries : List (Key × Value)} (present : find key entries = some old) :
    (drop key entries).length + 1 = entries.length := by
  induction entries with
  | nil => cases present
  | cons entry rest ih =>
    obtain ⟨head, before⟩ := entry
    by_cases same : head = key
    · simp [drop, same]
    · simp only [find, same, if_false] at present
      simpa [drop, same] using ih present

theorem size_insert_new (fresh : table.lookup key = none) (value : Value) :
    (table.insert key value).size = table.size + 1 := length_put_new fresh value

theorem size_insert_old (present : table.lookup key = some old) (value : Value) :
    (table.insert key value).size = table.size := length_put_old present value

theorem size_remove (present : table.lookup key = some old) :
    (table.remove key).size + 1 = table.size :=
  length_drop present

omit [DecidableEq Key] in
@[simp] theorem size_foreach (table : HashTable Key Value) (change : Key → Value → Value) :
    (table.foreach change).size = table.size := length_map _

theorem size_eq_zero : table.size = 0 ↔ ∀ key, table.lookup key = none := by
  constructor
  · intro zero key
    unfold lookup
    rw [length_eq_zero_iff.mp zero]
    rfl
  · intro absent
    cases held : table.entries with
    | nil => exact congrArg List.length held
    | cons entry rest =>
      have present : table.lookup entry.1 = some entry.2 := by
        apply mem_entries.mp
        rw [held]
        exact mem_cons_self
      rw [absent] at present
      cases present

end HashTable

end Purple
