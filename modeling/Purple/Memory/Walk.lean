/-
Walking along a singly linked list whose links the body may free.

The loop reads the datum of a link and its next pointer before the body runs, so
that the body may free the link itself, but not the next one.
-/

import Purple.Memory.Siblings

namespace Purple.Memory

open List

structure Link (Datum : Type) where
  address : Nat
  datum : Datum
deriving DecidableEq, Repr

section Walk

variable {Datum State : Type}

def addresses (links : List (Link Datum)) : List Nat := links.map Link.address

def data (links : List (Link Datum)) : List Datum := links.map Link.datum

def linkAt (links : List (Link Datum)) (address : Nat) : Option (Link Datum) :=
  links.find? fun link => link.address = address

@[simp] theorem data_nil : data ([] : List (Link Datum)) = [] := rfl

@[simp] theorem data_cons (link : Link Datum) (rest : List (Link Datum)) :
    data (link :: rest) = link.datum :: data rest := rfl

@[simp] theorem data_append (front rest : List (Link Datum)) :
    data (front ++ rest) = data front ++ data rest := map_append

/-- `g_slist_delete_link` -/
def unlink (links : List (Link Datum)) (address : Nat) : List (Link Datum) :=
  links.filter fun link => link.address ≠ address

/-- `none` where the loop follows a freed link, or has no round left. -/
def walk (links : State → List (Link Datum)) (body : State → Datum → State) :
    Nat → Option Nat → State → Option State
  | 0, _, _ => none
  | _ + 1, none, state => some state
  | rounds + 1, some address, state =>
    match linkAt (links state) address with
    | none => none
    | some link =>
      walk links body rounds (after (addresses (links state)) address) (body state link.datum)

variable {links : State → List (Link Datum)} {body : State → Datum → State}

theorem unlink_append {front rest : List (Link Datum)} {link : Link Datum}
    (unique : (addresses (front ++ link :: rest)).Nodup) :
    unlink (front ++ link :: rest) link.address = front ++ rest := by
  rw [addresses, map_append, map_cons, nodup_append, nodup_cons] at unique
  obtain ⟨-, ⟨absent, -⟩, apart⟩ := unique
  have keepsFront : unlink front link.address = front := by
    rw [unlink, filter_eq_self]
    intro other member
    exact decide_eq_true
      (apart other.address (List.mem_map_of_mem member) link.address mem_cons_self)
  have keepsRest : unlink (link :: rest) link.address = rest := by
    rw [unlink, filter_cons_of_neg (by simp), filter_eq_self]
    intro other member
    refine decide_eq_true fun same => absent ?_
    rw [← same]
    exact List.mem_map_of_mem member
  rw [unlink, filter_append]
  exact congrArg₂ List.append keepsFront keepsRest

theorem linkAt_append {front rest : List (Link Datum)} {link : Link Datum}
    (unique : (addresses (front ++ link :: rest)).Nodup) :
    linkAt (front ++ link :: rest) link.address = some link := by
  rw [addresses, map_append, map_cons, nodup_append] at unique
  have apart : ∀ other ∈ front, ¬decide (other.address = link.address) = true := by
    intro other member same
    exact unique.2.2 other.address (List.mem_map_of_mem member) link.address mem_cons_self
      (of_decide_eq_true same)
  rw [linkAt, find?_append, find?_eq_none.mpr apart, Option.none_or]
  exact find?_cons_of_pos (by simp)

theorem walk_rule (holds : List (Link Datum) → State → Prop)
    (coming : ∀ rest state, holds rest state → rest <:+ links state)
    (unique : ∀ rest state, holds rest state → (addresses (links state)).Nodup)
    (round : ∀ link rest state, holds (link :: rest) state → holds rest (body state link.datum))
    {rest : List (Link Datum)} {state : State} (start : holds rest state) {rounds : Nat}
    (enough : rest.length < rounds) :
    ∃ last, walk links body rounds (rest.head?.map Link.address) state = some last ∧
      holds [] last := by
  induction rounds generalizing rest state with
  | zero => exact absurd enough (Nat.not_lt_zero _)
  | succ rounds ih =>
    cases rest with
    | nil => exact ⟨state, rfl, start⟩
    | cons link rest =>
      obtain ⟨last, walked, final⟩ :=
        ih (round link rest state start) (Nat.lt_of_succ_lt_succ enough)
      refine ⟨last, ?_, final⟩
      obtain ⟨front, split⟩ := coming _ state start
      have distinct := unique _ state start
      rw [← split] at distinct
      have next : after (addresses (front ++ link :: rest)) link.address =
          rest.head?.map Link.address := by
        rw [addresses, map_append, map_cons] at distinct ⊢
        rw [after_append distinct, head?_map]
      rw [head?_cons, Option.map_some, walk, ← split, linkAt_append distinct, next]
      exact walked

end Walk

end Purple.Memory
