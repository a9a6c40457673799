/-
Trees given by the parents of their nodes, in the order of their creation.

A parent is older than its children, and siblings have different names, so the
names on the way from the root say which node is meant.
-/

import Mathlib.Data.List.Nodup

namespace Purple.NamedTree

open List

variable {Name Kind : Type}

/-- A node without its value.  The root is at 0 and is not listed. -/
structure Entry (Name Kind : Type) where
  address : Nat
  parent : Nat
  name : Name
  kind : Kind

def Live (tree : List (Entry Name Kind)) (address : Nat) : Prop :=
  address = 0 ∨ ∃ entry ∈ tree, entry.address = address

inductive Path (tree : List (Entry Name Kind)) : Nat → List Name → Prop
  | root : Path tree 0 []
  | child {entry : Entry Name Kind} {names : List Name} (member : entry ∈ tree)
      (above : Path tree entry.parent names) : Path tree entry.address (names ++ [entry.name])

inductive Below (tree : List (Entry Name Kind)) (top : Nat) : Nat → Prop
  | self : Below tree top top
  | child {entry : Entry Name Kind} (member : entry ∈ tree) (above : Below tree top entry.parent) :
      Below tree top entry.address

structure WellFormed (tree : List (Entry Name Kind)) : Prop where
  sorted : tree.Pairwise fun first second => first.address < second.address
  older : ∀ entry ∈ tree, entry.parent < entry.address
  parents : ∀ entry ∈ tree, Live tree entry.parent
  siblings : ∀ first ∈ tree, ∀ second ∈ tree, first.parent = second.parent →
    first.name = second.name → first = second

variable {names : List Name} {top : Nat} {smaller : List (Entry Name Kind)}

theorem wellFormed_nil : WellFormed ([] : List (Entry Name Kind)) := by
  refine ⟨List.Pairwise.nil, ?_, ?_, ?_⟩
  · intro entry member
    cases member
  · intro entry member
    cases member
  · intro first member
    cases member

variable {tree : List (Entry Name Kind)}

theorem address_positive (wellFormed : WellFormed tree) {entry : Entry Name Kind}
    (member : entry ∈ tree) : 0 < entry.address :=
  Nat.lt_of_le_of_lt (Nat.zero_le _) (wellFormed.older entry member)

theorem entry_unique (wellFormed : WellFormed tree) {first second : Entry Name Kind}
    (left : first ∈ tree) (right : second ∈ tree) (same : first.address = second.address) :
    first = second := by
  have sorted := wellFormed.sorted
  clear wellFormed
  induction tree with
  | nil => cases left
  | cons head rest ih =>
    obtain ⟨before, later⟩ := pairwise_cons.mp sorted
    rcases mem_cons.mp left with rfl | leftLater
    · rcases mem_cons.mp right with rfl | rightLater
      · rfl
      · have older := before second rightLater
        omega
    · rcases mem_cons.mp right with rfl | rightLater
      · have older := before first leftLater
        omega
      · exact ih leftLater rightLater later

theorem path_exists (wellFormed : WellFormed tree) {address : Nat} (live : Live tree address) :
    ∃ names, Path tree address names := by
  induction address using Nat.strongRecOn with
  | ind address ih =>
    rcases live with rfl | ⟨entry, member, rfl⟩
    · exact ⟨[], .root⟩
    · obtain ⟨names, above⟩ :=
        ih entry.parent (wellFormed.older entry member) (wellFormed.parents entry member)
      exact ⟨names ++ [entry.name], .child member above⟩

theorem path_live {address : Nat} (path : Path tree address names) : Live tree address := by
  cases path with
  | root => exact .inl rfl
  | child member above => exact .inr ⟨_, member, rfl⟩

theorem path_root (wellFormed : WellFormed tree) (path : Path tree 0 names) : names = [] := by
  generalize atRoot : 0 = address at path
  cases path with
  | root => rfl
  | child member above =>
    have positive := address_positive wellFormed member
    omega

theorem path_entry (wellFormed : WellFormed tree) {entry : Entry Name Kind}
    (member : entry ∈ tree) (path : Path tree entry.address names) :
    ∃ above, Path tree entry.parent above ∧ names = above ++ [entry.name] := by
  generalize here : entry.address = address at path
  cases path with
  | root =>
    have positive := address_positive wellFormed member
    omega
  | child other above =>
    have same := entry_unique wellFormed member other here
    subst same
    exact ⟨_, above, rfl⟩

theorem path_unique (wellFormed : WellFormed tree) {address : Nat} {first second : List Name}
    (left : Path tree address first) (right : Path tree address second) : first = second := by
  induction left generalizing second with
  | root => exact (path_root wellFormed right).symm
  | child member above ih =>
    obtain ⟨names, rest, rfl⟩ := path_entry wellFormed member right
    rw [ih rest]

theorem path_injective (wellFormed : WellFormed tree) {first second : Nat}
    (left : Path tree first names) (right : Path tree second names) : first = second := by
  induction left generalizing second with
  | root =>
    generalize empty : ([] : List Name) = names at right
    cases right with
    | root => rfl
    | child member above => exact absurd empty.symm (append_ne_nil_of_right_ne_nil _ (by simp))
  | @child entry names member above ih =>
    generalize ends : names ++ [entry.name] = path at right
    cases right with
    | root => exact absurd ends (append_ne_nil_of_right_ne_nil _ (by simp))
    | @child other others otherMember otherAbove =>
      obtain ⟨same, last⟩ := append_inj' ends rfl
      subst same
      have parents := ih otherAbove
      have equal := wellFormed.siblings entry member other otherMember parents
        (singleton_inj.mp last)
      rw [equal]

theorem path_member {address : Nat} (path : Path tree address names) :
    ∀ name ∈ names, ∃ entry ∈ tree, entry.name = name := by
  induction path with
  | root =>
    intro name member
    cases member
  | @child entry names member above ih =>
    intro name inside
    rcases mem_append.mp inside with upper | last
    · exact ih name upper
    · exact ⟨entry, member, (mem_singleton.mp last).symm⟩

theorem below_older (wellFormed : WellFormed tree) {address : Nat}
    (below : Below tree top address) : top ≤ address := by
  induction below with
  | self => exact Nat.le_refl top
  | child member above ih => exact Nat.le_trans ih (Nat.le_of_lt (wellFormed.older _ member))

theorem below_trans {middle address : Nat} (upper : Below tree top middle)
    (lower : Below tree middle address) : Below tree top address := by
  induction lower with
  | self => exact upper
  | child member above ih => exact .child member ih

theorem below_entry (wellFormed : WellFormed tree) {entry : Entry Name Kind}
    (member : entry ∈ tree) (below : Below tree top entry.address) :
    top = entry.address ∨ Below tree top entry.parent := by
  generalize here : entry.address = address at below
  cases below with
  | self => exact .inl rfl
  | child other above =>
    have same := entry_unique wellFormed member other here
    subst same
    exact .inr above

theorem below_mono (within : ∀ entry ∈ smaller, entry ∈ tree) {address : Nat}
    (below : Below smaller top address) : Below tree top address := by
  induction below with
  | self => exact .self
  | child member above ih => exact .child (within _ member) ih

theorem not_below_parent (wellFormed : WellFormed tree) {entry : Entry Name Kind}
    (member : entry ∈ tree) : ¬Below tree entry.address entry.parent := by
  intro below
  have younger := below_older wellFormed below
  have older := wellFormed.older entry member
  omega

theorem not_below_sibling (wellFormed : WellFormed tree) {first second : Entry Name Kind}
    (left : first ∈ tree) (right : second ∈ tree) (same : first.parent = second.parent)
    (different : first.address ≠ second.address) : ¬Below tree first.address second.address := by
  intro below
  rcases below_entry wellFormed right below with equal | above
  · exact different equal
  · rw [← same] at above
    exact not_below_parent wellFormed left above

section Leaf

variable {entry : Entry Name Kind}

theorem live_append {address : Nat} (live : Live tree address) : Live (tree ++ [entry]) address := by
  rcases live with rfl | ⟨found, member, here⟩
  · exact .inl rfl
  · exact .inr ⟨found, mem_append_left _ member, here⟩

theorem wellFormed_append (wellFormed : WellFormed tree)
    (fresh : ∀ other ∈ tree, other.address < entry.address) (older : entry.parent < entry.address)
    (parent : Live tree entry.parent)
    (unnamed : ∀ other ∈ tree, other.parent = entry.parent → other.name ≠ entry.name) :
    WellFormed (tree ++ [entry]) := by
  refine ⟨?_, ?_, ?_, ?_⟩
  · refine pairwise_append.mpr ⟨wellFormed.sorted, pairwise_singleton _ _, ?_⟩
    intro first left second right
    rw [mem_singleton.mp right]
    exact fresh first left
  · intro other member
    rcases mem_append.mp member with old | new
    · exact wellFormed.older other old
    · rw [mem_singleton.mp new]
      exact older
  · intro other member
    rcases mem_append.mp member with old | new
    · exact live_append (wellFormed.parents other old)
    · rw [mem_singleton.mp new]
      exact live_append parent
  · intro first left second right sameParent sameName
    rcases mem_append.mp left with oldLeft | newLeft
    · rcases mem_append.mp right with oldRight | newRight
      · exact wellFormed.siblings first oldLeft second oldRight sameParent sameName
      · rw [mem_singleton.mp newRight] at sameParent sameName
        exact absurd sameName (unnamed first oldLeft sameParent)
    · rcases mem_append.mp right with oldRight | newRight
      · rw [mem_singleton.mp newLeft] at sameParent sameName
        exact absurd sameName.symm (unnamed second oldRight sameParent.symm)
      · rw [mem_singleton.mp newLeft, mem_singleton.mp newRight]

theorem path_append {address : Nat} {names : List Name} (path : Path tree address names) :
    Path (tree ++ [entry]) address names := by
  induction path with
  | root => exact .root
  | child member above ih => exact .child (mem_append_left _ member) ih

end Leaf

def without (tree : List (Entry Name Kind)) (address : Nat) : List (Entry Name Kind) :=
  tree.filter fun entry => entry.address ≠ address

theorem mem_without {address : Nat} {entry : Entry Name Kind} :
    entry ∈ without tree address ↔ entry ∈ tree ∧ entry.address ≠ address := by
  rw [without, mem_filter, decide_eq_true_iff]

theorem live_without {address other : Nat} (live : Live tree other) (different : other ≠ address) :
    Live (without tree address) other := by
  rcases live with rfl | ⟨found, member, rfl⟩
  · exact .inl rfl
  · exact .inr ⟨found, mem_without.mpr ⟨member, different⟩, rfl⟩

section Without

variable {address : Nat} (leaf : ∀ entry ∈ tree, entry.parent ≠ address)

include leaf

theorem wellFormed_without (wellFormed : WellFormed tree) : WellFormed (without tree address) := by
  refine ⟨wellFormed.sorted.filter _, ?_, ?_, ?_⟩
  · intro entry member
    exact wellFormed.older entry (mem_without.mp member).1
  · intro entry member
    have old := (mem_without.mp member).1
    exact live_without (wellFormed.parents entry old) (leaf entry old)
  · intro first left second right
    exact wellFormed.siblings first (mem_without.mp left).1 second (mem_without.mp right).1

theorem path_without {other : Nat} {names : List Name} (path : Path tree other names)
    (different : other ≠ address) : Path (without tree address) other names := by
  induction path with
  | root => exact .root
  | @child entry names member above ih =>
    exact .child (mem_without.mpr ⟨member, different⟩) (ih (leaf entry member))

end Without

theorem path_mono (within : ∀ entry ∈ smaller, entry ∈ tree) {address : Nat}
    (path : Path smaller address names) : Path tree address names := by
  induction path with
  | root => exact .root
  | child member above ih => exact .child (within _ member) ih

/-- How many nodes are younger: it bounds the way down and the way to the right. -/
def younger (tree : List (Entry Name Kind)) (address : Nat) : Nat :=
  (tree.filter fun entry => address < entry.address).length

theorem length_lt_of_missing {Item : Type} {smaller larger : List Item}
    (within : smaller.Sublist larger) {item : Item} (member : item ∈ larger)
    (missing : item ∉ smaller) : smaller.length < larger.length := by
  rcases Nat.lt_or_ge smaller.length larger.length with less | notLess
  · exact less
  · rw [within.eq_of_length_le notLess] at missing
    exact absurd member missing

theorem younger_le_length (address : Nat) : younger tree address ≤ tree.length :=
  length_filter_le _ _

theorem younger_sublist (within : smaller.Sublist tree) (address : Nat) :
    younger smaller address ≤ younger tree address :=
  (within.filter _).length_le

theorem younger_lt {address : Nat} {entry : Entry Name Kind} (member : entry ∈ tree)
    (later : address < entry.address) : younger tree entry.address < younger tree address := by
  refine length_lt_of_missing ?_ (mem_filter.mpr ⟨member, decide_eq_true later⟩) ?_
  · refine monotone_filter_right tree fun other youngerStill => ?_
    exact decide_eq_true (Nat.lt_trans later (of_decide_eq_true youngerStill))
  · intro impossible
    exact Nat.lt_irrefl _ (of_decide_eq_true (mem_filter.mp impossible).2)

theorem younger_gone (within : smaller.Sublist tree) {address : Nat} {entry : Entry Name Kind}
    (member : entry ∈ tree) (later : address < entry.address)
    (gone : ∀ other ∈ smaller, other.address ≠ entry.address) :
    younger smaller address < younger tree address := by
  refine length_lt_of_missing (within.filter _)
    (mem_filter.mpr ⟨member, decide_eq_true later⟩) ?_
  intro still
  exact gone entry (mem_filter.mp still).1 rfl

end Purple.NamedTree
