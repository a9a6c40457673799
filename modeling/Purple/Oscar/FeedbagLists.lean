/-
Ids that are searched for, and lists that are kept in order.
-/

import Mathlib.Data.List.Nodup
import Mathlib.Data.List.Perm.Subperm
import Purple.Oscar.FeedbagEdits

namespace Purple.Oscar

open List

variable {new : SsiNode} {list : List SsiNode}

theorem next_id (start : Nat) :
    UInt16.ofNat (start + 65535) + 1 = UInt16.ofNat start := by
  apply UInt16.toNat_inj.mp
  rw [UInt16.toNat_add, UInt16.toNat_ofNat', UInt16.toNat_ofNat']
  change ((start + 65535) % 65536 + 1) % 65536 = start % 65536
  omega

theorem id_later (start : Nat) : UInt16.ofNat start = UInt16.ofNat (start + 1 + 65535) := by
  apply UInt16.toNat_inj.mp
  rw [UInt16.toNat_ofNat', UInt16.toNat_ofNat']
  change start % 65536 = (start + 1 + 65535) % 65536
  omega

theorem searchId_some {taken : UInt16 → Bool} {rounds start : Nat} {found : UInt16}
    (searched : searchId taken rounds (UInt16.ofNat (start + 65535)) = some found) :
    ∃ steps < rounds, found = UInt16.ofNat (start + steps) ∧ taken found = false ∧
      ∀ before < steps, taken (UInt16.ofNat (start + before)) = true := by
  induction rounds generalizing start with
  | zero => cases searched
  | succ rounds ih =>
    rw [searchId, next_id] at searched
    by_cases here : taken (UInt16.ofNat start) = true
    · rw [if_pos here, id_later] at searched
      obtain ⟨steps, within, isFound, free, all⟩ := ih searched
      refine ⟨steps + 1, Nat.succ_lt_succ within, ?_, free, fun before earlier => ?_⟩
      · rw [isFound, Nat.add_right_comm, Nat.add_assoc]
      · cases before with
        | zero => exact here
        | succ before =>
          have isTaken := all before (Nat.lt_of_succ_lt_succ earlier)
          rw [Nat.add_right_comm, Nat.add_assoc] at isTaken
          exact isTaken
    · rw [if_neg here] at searched
      cases searched
      exact ⟨0, Nat.succ_pos _, rfl, Bool.eq_false_iff.mpr here, nofun⟩

theorem searchId_none {taken : UInt16 → Bool} {rounds start : Nat}
    (searched : searchId taken rounds (UInt16.ofNat (start + 65535)) = none) :
    ∀ before < rounds, taken (UInt16.ofNat (start + before)) = true := by
  induction rounds generalizing start with
  | zero => exact nofun
  | succ rounds ih =>
    rw [searchId, next_id] at searched
    by_cases here : taken (UInt16.ofNat start) = true
    · rw [if_pos here, id_later] at searched
      intro before earlier
      cases before with
      | zero => exact here
      | succ before =>
        have isTaken := ih searched before (Nat.lt_of_succ_lt_succ earlier)
        rw [Nat.add_right_comm, Nat.add_assoc] at isTaken
        exact isTaken
    · rw [if_neg here] at searched
      cases searched

theorem searchId_least {taken : UInt16 → Bool} {found : UInt16}
    (searched : searchId taken 65536 0xffff = some found) :
    taken found = false ∧ ∀ id, id < found → taken id = true := by
  obtain ⟨steps, within, isFound, free, all⟩ := @searchId_some taken 65536 0 found searched
  refine ⟨free, fun id smaller => ?_⟩
  rw [Nat.zero_add] at isFound
  have bound := UInt16.lt_iff_toNat_lt.mp smaller
  rw [isFound, UInt16.toNat_ofNat', Nat.mod_eq_of_lt within] at bound
  have isTaken := all id.toNat bound
  rw [Nat.zero_add, UInt16.ofNat_toNat] at isTaken
  exact isTaken

theorem exists_unused {ids : List UInt16} (few : ids.length < 65536) : ∃ id, id ∉ ids := by
  by_contra all
  have whole : (List.range 65536).map UInt16.ofNat ⊆ ids := by
    intro id _member
    by_contra missing
    exact all ⟨id, missing⟩
  have distinct : ((List.range 65536).map UInt16.ofNat).Nodup := by
    refine List.Nodup.map_on (fun first isFirst second isSecond same => ?_) nodup_range
    have numbers := congrArg UInt16.toNat same
    rw [UInt16.toNat_ofNat', UInt16.toNat_ofNat', Nat.mod_eq_of_lt (mem_range.mp isFirst),
      Nat.mod_eq_of_lt (mem_range.mp isSecond)] at numbers
    exact numbers
  have most := (distinct.subperm whole).length_le
  rw [length_map, length_range] at most
  exact absurd few (Nat.not_lt_of_le most)

theorem searchId_ends {taken : UInt16 → Bool} {ids : List UInt16} (few : ids.length < 65536)
    (listed : ∀ id, taken id = true → id ∈ ids) :
    ∃ found, searchId taken 65536 0xffff = some found := by
  cases searched : searchId taken 65536 0xffff with
  | some found => exact ⟨found, rfl⟩
  | none =>
    obtain ⟨id, unused⟩ := exists_unused few
    have isTaken := @searchId_none taken 65536 0 searched id.toNat id.toNat_lt
    rw [Nat.zero_add, UInt16.ofNat_toNat] at isTaken
    exact absurd (listed id isTaken) unused

def orderKey (item : AimSsiItem) : Nat := item.gid.toNat * 65536 + item.bid.toNat

theorem precedes_iff (first second : AimSsiItem) :
    Precedes first second ↔ orderKey first < orderKey second := by
  have bound1 := first.bid.toNat_lt
  have bound2 := second.bid.toNat_lt
  rw [Precedes, UInt16.lt_iff_toNat_lt, UInt16.lt_iff_toNat_lt, ← UInt16.toNat_inj, orderKey,
    orderKey]
  omega

theorem sameId_iff (first second : AimSsiItem) :
    first.gid = second.gid ∧ first.bid = second.bid ↔ orderKey first = orderKey second := by
  have bound1 := first.bid.toNat_lt
  have bound2 := second.bid.toNat_lt
  rw [← UInt16.toNat_inj, ← UInt16.toNat_inj, orderKey, orderKey]
  omega

def Ascending (list : List SsiNode) : Prop :=
  list.Pairwise fun first second => Precedes first.item second.item

theorem insertBehind_perm (new : SsiNode) (list : List SsiNode) :
    (insertBehind new list).Perm (new :: list) := by
  induction list with
  | nil => exact List.Perm.refl _
  | cons cur rest ih =>
    rw [insertBehind]
    split
    · exact (ih.cons cur).trans (List.Perm.swap _ _ _)
    · exact List.Perm.refl _

theorem insertNode_perm (new : SsiNode) (list : List SsiNode) :
    (insertNode new list).Perm (new :: list) := by
  cases list with
  | nil => exact List.Perm.refl _
  | cons head rest =>
    rw [insertNode]
    split
    · exact List.Perm.refl _
    · exact ((insertBehind_perm new rest).cons head).trans (List.Perm.swap _ _ _)

theorem mem_insertNode {cur : SsiNode} : cur ∈ insertNode new list ↔ cur = new ∨ cur ∈ list := by
  rw [(insertNode_perm new list).mem_iff, mem_cons]

theorem insertBehind_ascending (ascending : Ascending list)
    (unused : ∀ cur ∈ list, orderKey cur.item ≠ orderKey new.item) :
    Ascending (insertBehind new list) := by
  induction list with
  | nil => exact pairwise_singleton _ _
  | cons cur rest ih =>
    obtain ⟨first, later⟩ := pairwise_cons.mp ascending
    have ahead := unused cur mem_cons_self
    rw [insertBehind]
    by_cases before : Precedes cur.item new.item
    · rw [if_pos before]
      refine pairwise_cons.mpr ⟨fun other member => ?_, ih later fun other member =>
        unused other (mem_cons_of_mem _ member)⟩
      rcases mem_cons.mp ((insertBehind_perm new rest).mem_iff.mp member) with same | old
      · rw [same]
        exact before
      · exact first other old
    · rw [if_neg before]
      rw [precedes_iff] at before
      refine pairwise_cons.mpr ⟨fun other member => ?_, ascending⟩
      rw [precedes_iff]
      rcases mem_cons.mp member with same | old
      · rw [same]
        omega
      · have behind := first other old
        rw [precedes_iff] at behind
        omega

theorem insertNode_ascending (ascending : Ascending list)
    (unused : ∀ cur ∈ list, orderKey cur.item ≠ orderKey new.item) :
    Ascending (insertNode new list) := by
  cases list with
  | nil => exact pairwise_singleton _ _
  | cons head rest =>
    obtain ⟨first, later⟩ := pairwise_cons.mp ascending
    have ahead := unused head mem_cons_self
    rw [insertNode]
    by_cases before : Precedes new.item head.item
    · rw [if_pos before]
      rw [precedes_iff] at before
      refine pairwise_cons.mpr ⟨fun other member => ?_, ascending⟩
      rw [precedes_iff]
      rcases mem_cons.mp member with same | old
      · rw [same]
        exact before
      · have behind := first other old
        rw [precedes_iff] at behind
        omega
    · rw [if_neg before]
      rw [precedes_iff] at before
      refine pairwise_cons.mpr ⟨fun other member => ?_,
        insertBehind_ascending later fun other member =>
          unused other (mem_cons_of_mem _ member)⟩
      rcases mem_cons.mp ((insertBehind_perm new rest).mem_iff.mp member) with same | old
      · rw [same, precedes_iff]
        omega
      · exact first other old

theorem insertBehind_filter {keep : SsiNode → Bool} (dropped : keep new = false)
    (list : List SsiNode) : (insertBehind new list).filter keep = list.filter keep := by
  induction list with
  | nil => exact filter_cons_of_neg (Bool.eq_false_iff.mp dropped)
  | cons cur rest ih =>
    rw [insertBehind]
    split
    · rw [filter_cons, filter_cons, ih]
    · exact filter_cons_of_neg (Bool.eq_false_iff.mp dropped)

theorem insertNode_filter {keep : SsiNode → Bool} (dropped : keep new = false)
    (list : List SsiNode) : (insertNode new list).filter keep = list.filter keep := by
  cases list with
  | nil => exact filter_cons_of_neg (Bool.eq_false_iff.mp dropped)
  | cons head rest =>
    rw [insertNode]
    split
    · exact filter_cons_of_neg (Bool.eq_false_iff.mp dropped)
    · rw [filter_cons, filter_cons, insertBehind_filter dropped]

theorem Ascending.unique (ascending : Ascending list) {first second : SsiNode}
    (isFirst : first ∈ list) (isSecond : second ∈ list)
    (same : orderKey first.item = orderKey second.item) : first = second := by
  have distinct : (list.map fun cur => orderKey cur.item).Nodup := by
    refine pairwise_map.mpr (ascending.imp fun before => ?_)
    rw [precedes_iff] at before
    exact Nat.ne_of_lt before
  exact inj_on_of_nodup_map distinct isFirst isSecond same

end Purple.Oscar
