/-
Walking over the nodes of the buddy list, from blist.c.

A pointer is `none` for NULL.  Reading behind a pointer to nothing, or more links than
there are rounds for, makes the operation `none`.
-/

import Mathlib.Data.Option.Basic

namespace Purple.Blist

open List

/-- `connected` is whether the account of a buddy is. -/
structure PurpleBlistNode where
  isBuddy : Bool
  connected : Bool
  next : Option Nat
  parent : Option Nat
  child : Option Nat

abbrev Nodes := Nat → Option PurpleBlistNode

def getNextNode (nodes : Nodes) : Nat → Option Nat → Bool → Option (Option Nat)
  | 0, _, _ => none
  | _ + 1, none, _ => some none
  | rounds + 1, some node, godeep =>
    (nodes node).bind fun cell =>
      if godeep ∧ cell.child ≠ none then some cell.child
      else if cell.next ≠ none then some cell.next
      else getNextNode nodes rounds cell.parent false

/-- The loop that passes the buddies of accounts that are not connected. -/
def nextShown (nodes : Nodes) (rounds : Nat) : Nat → Option Nat → Option (Option Nat)
  | 0, _ => none
  | steps + 1, node =>
    (getNextNode nodes rounds node true).bind fun ret =>
      match ret with
      | none => some none
      | some other => (nodes other).bind fun cell =>
        if cell.isBuddy ∧ ¬cell.connected then nextShown nodes rounds steps ret else some ret

def purpleBlistNodeNext (nodes : Nodes) (rounds : Nat) (node : Option Nat) (offline : Bool) :
    Option (Option Nat) :=
  if offline then getNextNode nodes rounds node true else nextShown nodes rounds rounds node

/-- `for (node = root; node; node = purple_blist_node_next(node, offline))` -/
def walk (nodes : Nodes) (rounds : Nat) (offline : Bool) : Nat → Option Nat → Option (List Nat)
  | 0, _ => none
  | _ + 1, none => some []
  | steps + 1, some node => (purpleBlistNodeNext nodes rounds (some node) offline).bind fun next =>
    (walk nodes rounds offline steps next).map (node :: ·)

inductive Tree where
  | node (address : Nat) (children : List Tree)

def Tree.address : Tree → Nat
  | .node address _ => address

/-- Each node before its children. -/
def preorder : List Tree → List Nat
  | [] => []
  | .node address children :: rest => address :: preorder children ++ preorder rest

/-- The links of the nodes are those of the trees, which stand side by side below `parent`. -/
def Held (nodes : Nodes) (parent : Option Nat) : List Tree → Prop
  | [] => True
  | .node address children :: rest => (∃ cell, nodes address = some cell ∧ cell.parent = parent ∧
      cell.child = children.head?.map Tree.address ∧ cell.next = rest.head?.map Tree.address) ∧
    Held nodes (some address) children ∧ Held nodes parent rest

def Shown (nodes : Nodes) (node : Nat) : Bool :=
  (nodes node).all fun cell => !cell.isBuddy || cell.connected

/-- Every node leads to the one behind it, and the last one to `last`. -/
def Follows (nodes : Nodes) (rounds : Nat) : List Nat → Option Nat → Prop
  | [], _ => True
  | node :: rest, last => getNextNode nodes rounds (some node) true = some (rest.head?.or last) ∧
    (nodes node).isSome ∧ Follows nodes rounds rest last

variable {nodes : Nodes} {rounds : Nat}

theorem follows_append {first second : List Nat} {last : Option Nat}
    (before : Follows nodes rounds first (second.head?.or last))
    (behind : Follows nodes rounds second last) : Follows nodes rounds (first ++ second) last := by
  induction first with
  | nil => exact behind
  | cons node first ih =>
    obtain ⟨here, live, later⟩ := before
    refine ⟨?_, live, ih later⟩
    rw [here, ← Option.or_assoc, ← head?_append]
    rfl

theorem head_preorder (forest : List Tree) :
    (preorder forest).head? = forest.head?.map Tree.address := by
  cases forest with
  | nil =>
    rw [preorder]
    rfl
  | cons tree rest =>
    cases tree with
    | node address children =>
      rw [preorder]
      rfl

theorem follows_preorder (forest : List Tree) {depth : Nat} {parent last : Option Nat}
    (held : Held nodes parent forest)
    (up : ∀ more, depth < more → getNextNode nodes more parent false = some last)
    (deep : depth + (preorder forest).length < rounds) : Follows nodes rounds (preorder forest) last := by
  match forest with
  | [] =>
    rw [preorder]
    trivial
  | .node address children :: rest =>
    rw [Held] at held
    obtain ⟨⟨cell, live, isParent, isChild, isNext⟩, below, beside⟩ := held
    rw [preorder, cons_append, length_cons, length_append] at deep
    -- where the walk goes on once the children are done
    have onwards : ∀ more, depth + 1 < more → getNextNode nodes more (some address) false =
        some ((preorder rest).head?.or last) := by
      intro more enough
      obtain ⟨more, rfl⟩ := Nat.exists_eq_add_of_lt enough
      rw [getNextNode, live, Option.bind_some, if_neg (fun both => absurd both.1 (by decide)),
        isNext, head_preorder, isParent]
      cases rest.head?.map Tree.address with
      | none => exact up _ (by omega)
      | some other => rfl
    rw [preorder, cons_append]
    refine ⟨?_, by rw [live]; rfl, follows_append
      (follows_preorder children below onwards (by omega))
      (follows_preorder rest beside up (by omega))⟩
    obtain ⟨more, rfl⟩ := Nat.exists_eq_add_of_lt deep
    rw [getNextNode, live, Option.bind_some, head?_append, Option.or_assoc, head_preorder children,
      isChild]
    cases children with
    | cons child children => rfl
    | nil =>
      rw [if_neg (fun both => both.2 rfl), isNext, isParent, head_preorder]
      cases rest.head?.map Tree.address with
      | none => exact up _ (by omega)
      | some other => rfl

theorem nextShown_eq {node : Nat} {list : List Nat}
    (follows : Follows nodes rounds (node :: list) none) {steps : Nat}
    (enough : list.length < steps) :
    nextShown nodes rounds steps (some node) = some (list.find? (Shown nodes)) := by
  induction list generalizing node steps with
  | nil =>
    obtain ⟨steps, rfl⟩ := Nat.exists_eq_add_of_lt enough
    rw [nextShown, follows.1]
    rfl
  | cons other list ih =>
    obtain ⟨steps, rfl⟩ := Nat.exists_eq_add_of_lt enough
    obtain ⟨here, -, later⟩ := follows
    obtain ⟨cell, live⟩ := Option.isSome_iff_exists.mp later.2.1
    have shown : Shown nodes other ↔ ¬(cell.isBuddy ∧ ¬cell.connected) := by
      rw [Shown, live]
      change (!cell.isBuddy || cell.connected) = true ↔ _
      cases cell.isBuddy <;> cases cell.connected <;> decide
    rw [nextShown, here, Option.or_none, Option.bind_some, head?_cons]
    simp only [live, Option.bind_some]
    by_cases passed : cell.isBuddy ∧ ¬cell.connected
    · rw [if_pos passed, find?_cons_of_neg fun is => shown.mp is passed]
      exact ih later (by rw [length_cons]; omega)
    · rw [if_neg passed, find?_cons_of_pos (shown.mpr passed)]

theorem follows_find {list : List Nat} (follows : Follows nodes rounds list none) :
    ∃ rest, Follows nodes rounds rest none ∧ rest.head? = list.find? (Shown nodes) ∧
      rest.length ≤ list.length ∧ rest.filter (Shown nodes) = list.filter (Shown nodes) := by
  induction list with
  | nil => exact ⟨[], trivial, rfl, Nat.le_refl _, rfl⟩
  | cons node list ih =>
    by_cases shown : Shown nodes node
    · exact ⟨node :: list, follows, (find?_cons_of_pos shown).symm, Nat.le_refl _, rfl⟩
    · obtain ⟨rest, later, first, shorter, same⟩ := ih follows.2.2
      exact ⟨rest, later, first.trans (find?_cons_of_neg shown).symm, Nat.le_succ_of_le shorter,
        same.trans (filter_cons_of_neg shown).symm⟩

/-- Without the offline ones, the walk passes the nodes that are not shown, but for its first. -/
theorem walk_shown {node : Nat} {list : List Nat}
    (follows : Follows nodes rounds (node :: list) none) (enough : list.length < rounds)
    {steps : Nat} (long : list.length + 1 < steps) :
    walk nodes rounds false steps (some node) = some (node :: list.filter (Shown nodes)) := by
  induction steps generalizing node list with
  | zero => exact absurd long (Nat.not_lt_zero _)
  | succ steps ih =>
    rw [walk, purpleBlistNodeNext, if_neg Bool.false_ne_true, nextShown_eq follows enough,
      Option.bind_some]
    obtain ⟨rest, later, first, shorter, same⟩ := follows_find follows.2.2
    rw [← first, ← same]
    cases rest with
    | nil =>
      obtain ⟨steps, rfl⟩ := Nat.exists_eq_succ_of_ne_zero (n := steps) (by omega)
      rfl
    | cons other rest =>
      have shown : Shown nodes other = true := find?_some first.symm
      rw [length_cons] at shorter
      rw [head?_cons, ih later (by omega) (by omega), filter_cons_of_pos shown]
      rfl

theorem walk_all {list : List Nat} (follows : Follows nodes rounds list none) {steps : Nat}
    (enough : list.length < steps) : walk nodes rounds true steps list.head? = some list := by
  induction list generalizing steps with
  | nil =>
    obtain ⟨steps, rfl⟩ := Nat.exists_eq_add_of_lt enough
    rfl
  | cons node list ih =>
    obtain ⟨steps, rfl⟩ := Nat.exists_eq_add_of_lt enough
    obtain ⟨here, -, later⟩ := follows
    rw [head?_cons, walk, purpleBlistNodeNext, if_pos rfl, here, Option.or_none, Option.bind_some,
      ih later (Nat.lt_of_succ_lt_succ enough)]
    rfl

theorem follows_unique {node : Nat} {first second : List Nat}
    (follows : Follows nodes rounds (node :: first) none)
    (others : Follows nodes rounds (node :: second) none) : first = second := by
  induction first generalizing node second with
  | nil =>
    have next := follows.1.symm.trans others.1
    cases second with
    | nil => rfl
    | cons other second => cases next
  | cons node first ih =>
    have next := follows.1.symm.trans others.1
    cases second with
    | nil => cases next
    | cons other second =>
      cases next
      rw [ih follows.2.2 others.2.2]

theorem follows_behind {first second : List Nat} {last : Option Nat}
    (follows : Follows nodes rounds (first ++ second) last) :
    Follows nodes rounds second last := by
  induction first with
  | nil => exact follows
  | cons node first ih => exact ih follows.2.2

theorem follows_nodup {list : List Nat} (follows : Follows nodes rounds list none) :
    list.Nodup := by
  induction list with
  | nil => exact nodup_nil
  | cons node list ih =>
    refine nodup_cons.mpr ⟨fun member => ?_, ih follows.2.2⟩
    -- the same would follow the node at both of its places
    obtain ⟨before, behind, rfl⟩ := append_of_mem member
    have same := congrArg length (follows_unique follows (follows_behind follows.2.2))
    rw [length_append, length_cons] at same
    omega

/-- The walk from the root reaches every node once, each before those below it, and
without the offline ones those that are shown, and the root. -/
theorem walk_forest {root : Nat} {children rest : List Tree}
    (held : Held nodes none (.node root children :: rest))
    (enough : (preorder (.node root children :: rest)).length < rounds) :
    (preorder (.node root children :: rest)).Nodup ∧
      walk nodes rounds true rounds (some root) = some (preorder (.node root children :: rest)) ∧
      walk nodes rounds false rounds (some root) =
        some (root :: (preorder (.node root children :: rest)).tail.filter (Shown nodes)) := by
  have top : ∀ more, 0 < more → getNextNode nodes more none false = some none := by
    intro more positive
    obtain ⟨more, rfl⟩ := Nat.exists_eq_add_of_lt positive
    rfl
  have follows := @follows_preorder nodes rounds _ 0 none none held top (by omega)
  rw [preorder, cons_append] at follows enough ⊢
  rw [length_cons] at enough
  exact ⟨follows_nodup follows, walk_all follows (by rw [length_cons]; omega),
    walk_shown follows (by omega) (by omega)⟩

/-- A group with a contact of two buddies, the first of them offline, beside another. -/
def friends : Nodes
  | 0 => some ⟨false, false, some 4, none, some 1⟩
  | 1 => some ⟨false, false, none, some 0, some 2⟩
  | 2 => some ⟨true, false, some 3, some 1, none⟩
  | 3 => some ⟨true, true, none, some 1, none⟩
  | 4 => some ⟨false, false, none, none, none⟩
  | _ => none

theorem walk_friends : walk friends 6 false 6 (some 0) = some [0, 1, 3, 4] := by
  have held : Held friends none
      [.node 0 [.node 1 [.node 2 [], .node 3 []]], .node 4 []] := by
    simp [Held, friends, Tree.address]
  have order : preorder [.node 0 [.node 1 [.node 2 [], .node 3 []]], .node 4 []] =
      [0, 1, 2, 3, 4] := by
    simp [preorder]
  have walked := (@walk_forest friends 6 _ _ _ held (by rw [order]; decide)).2.2
  rw [order] at walked
  exact walked

end Purple.Blist
