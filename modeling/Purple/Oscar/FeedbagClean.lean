/-
Cleaning the local list, from family_feedbag.c, and what its first loop does to the list
in one round.

The loop keeps the address of the next item while an item is worked on; an address that
is in the list no more makes it `none`, as does a loop that has no round left.  The chains
play no part in it: `bare` leaves them out.
-/

import Purple.CString
import Purple.Memory.Siblings
import Purple.Oscar.FeedbagSyncEnds

namespace Purple.Oscar

open CString

def typePermit : UInt16 := 0x0002

def typeDeny : UInt16 := 0x0003

def typeIcqdeny : UInt16 := 0x000e

def isPrivate (type : UInt16) : Bool :=
  type = typePermit || type = typeDeny || type = typeIcqdeny

def orphans : Bytes := ascii "orphans"

/-- `g_strndup` ends at a NUL in the value. -/
def aimSsiGetalias (list : List SsiNode) (gn bn : Option Bytes) : Option Bytes :=
  (aimSsiItemlistFinditem list gn bn typeBuddy).bind fun cur =>
    (aimTlvGettlv cur.item.data 0x0131).bind fun tlv =>
      if tlv.length = 0 then none else some (cString tlv.value)

/-- A buddy in the root group, or in a group that is not found. -/
def isOrphan (list : List SsiNode) (cur : SsiNode) : Bool :=
  cur.item.type = typeBuddy ∧ cur.item.name ≠ none ∧
    (cur.item.gid = 0 ∨ aimSsiItemlistFind list cur.item.gid 0 = none)

section Clean

variable (malloc : Malloc)

def cleanItem (od : OscarData) (cur : SsiNode) : Option OscarData :=
  match cur.item.name with
  | none =>
    if cur.item.type = typeBuddy then aimSsiDelbuddy malloc od none none
    else if isPrivate cur.item.type then aimSsiDelFromPrivateList malloc od none cur.item.type
    else some od
  | some name =>
    if isOrphan od.localList cur then
      (aimSsiAddbuddy malloc od (some name) (some orphans) []
        (aimSsiGetalias od.localList none (some name)) none none false).bind fun od =>
          aimSsiDelbuddy malloc od (some name) none
    else some od

def addressesOf (list : List SsiNode) : List Nat := list.map SsiNode.address

/-- `cur` is read before the body runs, and so is the item behind it. -/
def cleanRounds : Nat → OscarData → Option Nat → Option OscarData
  | _, od, none => some od
  | 0, _, some _ => none
  | rounds + 1, od, some address =>
    (nodeAt od.localList address).bind fun cur =>
      (cleanItem malloc od cur).bind fun after =>
        cleanRounds rounds after (Memory.after (addressesOf od.localList) address)

def isDuplicate (cur cur2 : SsiNode) : Bool :=
  cur.item.type = cur2.item.type ∧ cur.item.gid = cur2.item.gid ∧ cur.item.name ≠ none ∧
    cur2.item.name ≠ none ∧ oscarUtilNameCompare cur.item.name cur2.item.name = 0

/-- The inner loop: it deletes behind `cur` only, and not the item that it reads next. -/
def deleteDuplicates (cur : SsiNode) (rest : List SsiNode) : List SsiNode :=
  if cur.item.type = typeBuddy ∨ cur.item.type = typePermit ∨ cur.item.type = typeDeny then
    rest.filter fun cur2 => !isDuplicate cur cur2
  else rest

theorem deleteDuplicates_sublist (cur : SsiNode) (rest : List SsiNode) :
    (deleteDuplicates cur rest).Sublist rest := by
  rw [deleteDuplicates]
  split
  · exact List.filter_sublist
  · exact List.Sublist.refl _

def withoutDuplicates : List SsiNode → List SsiNode
  | [] => []
  | cur :: rest => cur :: withoutDuplicates (deleteDuplicates cur rest)
termination_by list => list.length
decreasing_by exact Nat.lt_succ_of_le (deleteDuplicates_sublist cur rest).length_le

def aimSsiCleanlist (rounds : Nat) (od : OscarData) : Option OscarData :=
  (cleanRounds malloc rounds od (addressesOf od.localList).head?).bind fun od =>
    aimSsiSync malloc { od with localList := withoutDuplicates od.localList }

end Clean

def HasGroup (list : List SsiNode) (gid : UInt16) : Prop :=
  ∃ cur ∈ list, cur.item.type = typeGroup ∧ cur.item.gid = gid ∧ cur.item.bid = 0

structure Housed (list : List SsiNode) (cur : SsiNode) : Prop where
  buddy : cur.item.type = typeBuddy
  named : cur.item.name ≠ none
  notRoot : cur.item.gid ≠ 0
  group : HasGroup list cur.item.gid

structure Cleaned (list after : List SsiNode) : Prop where
  housed : ∀ cur ∈ after, cur.item.type = typeBuddy → Housed after cur
  kept : ∀ cur ∈ list, Housed list cur → ∀ name, cur.item.name = some name →
    ∃ other ∈ after, other.item.type = typeBuddy ∧ other.item.gid = cur.item.gid ∧
      other.hasName name = true

/-- An item that is deleted for its missing name. -/
def isNameless (cur : SsiNode) : Bool :=
  cur.item.name = none ∧ (cur.item.type = typeBuddy ∨ isPrivate cur.item.type = true)

def named (list : List SsiNode) : List SsiNode := list.filter fun cur => !isNameless cur

/-- The id of the group that orphans are added to: that of the group with the name, or that
of the group that is made. -/
def orphansGid (list : List SsiNode) : UInt16 :=
  match aimSsiItemlistFinditem list (some orphans) none typeGroup with
  | some parent => parent.item.gid
  | none =>
    (searchId (fun gid => (gid = 0 && (aimSsiItemlistFind list 0 0).isNone) || groupTaken list gid)
      65536 0xffff).getD 0

def Sorted (list : List SsiNode) : Prop :=
  list.Pairwise fun first second => orderKey first.item ≤ orderKey second.item

/-- The orphan is worked on: its group is not the one that is made, or it is made for it. -/
def Moves (list : List SsiNode) (cur : SsiNode) : Prop :=
  cur.item.gid < orphansGid list ∨
    ∀ front rest, list = front ++ cur :: rest → ∀ other ∈ front, isOrphan list other = false

structure OrphanFits (list : List SsiNode) (cur : SsiNode) : Prop where
  /-- Orphans in missing groups do not stand behind the group of the orphans, which is not
  the root group. -/
  ahead : cur.item.gid ≤ orphansGid (named list)
  notRoot : orphansGid (named list) ≠ 0
  /-- There are ids for all of them. -/
  room : (list.filter fun other => other.item.gid = orphansGid (named list) ||
    isOrphan (named list) other).length < 65535
  /-- No buddy of the same name is in an existing group before it. -/
  first : Moves (named list) cur → ∀ other ∈ list, Housed list other →
    other.item.gid < cur.item.gid → ∀ name, cur.item.name = some name → other.hasName name = false

structure Fitting (list : List SsiNode) : Prop where
  sorted : Sorted list
  /-- What is found at the place of a buddy's group is a group. -/
  honest : ∀ cur ∈ named list, cur.item.type = typeBuddy → cur.item.gid ≠ 0 →
    ∀ other ∈ named list, other.item.gid = cur.item.gid → other.item.bid = 0 →
      HasGroup list cur.item.gid
  orphans : ∀ cur ∈ named list, isOrphan (named list) cur = true → OrphanFits list cur

structure Cleanable (od : OscarData) : Prop where
  ready : Ready od
  light : ∀ cur ∈ od.official ++ od.localList, Light cur
  fitting : Fitting od.localList

open List Option

def bare (cur : SsiNode) : SsiNode := { cur with item := { cur.item with data := [] } }

theorem bare_setData (address : Nat) (data : List AimTlv) (cur : SsiNode) :
    bare (setData address data cur) = bare cur := by
  rw [setData]
  split <;> rfl

section Bare

variable (list : List SsiNode)

theorem find_bare (gid bid : UInt16) :
    aimSsiItemlistFind (list.map bare) gid bid = (aimSsiItemlistFind list gid bid).map bare :=
  find?_map

theorem finditem_bare (gn bn : Option Bytes) (type : UInt16) :
    aimSsiItemlistFinditem (list.map bare) gn bn type =
      (aimSsiItemlistFinditem list gn bn type).map bare := by
  have groups : ∀ gid name, groupNamed (list.map bare) gid name = groupNamed list gid name :=
    fun _ _ => List.any_map
  cases gn with
  | none => cases bn <;> exact find?_map
  | some gn =>
    cases bn with
    | none => exact find?_map
    | some bn =>
      rw [aimSsiItemlistFinditem, aimSsiItemlistFinditem]
      simp only [groups]
      exact find?_map

theorem rebuildgroup_bare (name : Option Bytes) :
    (aimSsiItemlistRebuildgroup list name).map bare = list.map bare := by
  obtain same | ⟨address, data, written⟩ := rebuildgroup_cases list name
  · rw [same]
  · rw [written, List.map_map]
    exact map_congr_left fun cur _ => bare_setData address data cur

theorem insertNode_bare (new : SsiNode) :
    (insertNode new list).map bare = insertNode (bare new) (list.map bare) := by
  have behind : ∀ list : List SsiNode,
      (insertBehind new list).map bare = insertBehind (bare new) (list.map bare) := by
    intro list
    induction list with
    | nil => rfl
    | cons cur rest ih =>
      rw [insertBehind, map_cons, insertBehind]
      by_cases before : Precedes cur.item new.item
      · have bareBefore : Precedes (bare cur).item (bare new).item := before
        rw [if_pos before, if_pos bareBefore, map_cons, ih]
      · have bareBefore : ¬ Precedes (bare cur).item (bare new).item := before
        rw [if_neg before, if_neg bareBefore, map_cons, map_cons]
  cases list with
  | nil => rfl
  | cons head rest =>
    rw [insertNode, map_cons, insertNode]
    by_cases before : Precedes new.item head.item
    · have bareBefore : Precedes (bare new).item (bare head).item := before
      rw [if_pos before, if_pos bareBefore, map_cons, map_cons]
    · have bareBefore : ¬ Precedes (bare new).item (bare head).item := before
      rw [if_neg before, if_neg bareBefore, map_cons, behind]

theorem del_bare (address : Nat) :
    (aimSsiItemlistDel list address).map bare = aimSsiItemlistDel (list.map bare) address := by
  rw [aimSsiItemlistDel, aimSsiItemlistDel, List.filter_map]
  rfl

theorem groupTaken_bare (gid : UInt16) : groupTaken (list.map bare) gid = groupTaken list gid :=
  List.any_map

theorem addresses_bare : (list.map bare).map SsiNode.address = list.map SsiNode.address :=
  List.map_map

theorem inGroup_bare (gid : UInt16) :
    ((list.map bare).filter fun cur => cur.item.gid = gid).length =
      (list.filter fun cur => cur.item.gid = gid).length := by
  rw [List.filter_map, length_map]
  rfl

end Bare

/-- What adding a buddy to the group with this id brings: the buddy, and the groups that were
not there. -/
structure Added (list longer : List SsiNode) (name : Bytes) (gid : UInt16) (fresh : SsiNode)
    (groups : List SsiNode) : Prop where
  perm : longer.Perm (fresh :: (groups ++ list))
  sublist : list.Sublist longer
  sorted : Sorted list → Sorted longer
  separate : Separate list → Separate longer
  type : fresh.item.type = typeBuddy
  name : fresh.item.name = some name
  inGroup : fresh.item.gid = gid
  made : ∀ cur ∈ groups, cur.item.type = typeGroup ∧ cur.item.bid = 0 ∧
    (cur.item.gid = 0 ∨ cur.item.gid = gid)
  few : groups.length ≤ 2
  one : (groups.filter fun cur => cur.item.gid = gid).length ≤ 1
  parent : ∃ parent, aimSsiItemlistFinditem longer (some orphans) none typeGroup = some parent ∧
    parent.item.gid = gid
  there : aimSsiItemlistFinditem list (some orphans) none typeGroup ≠ none → groups = []

theorem insertBehind_sublist (new : SsiNode) (list : List SsiNode) :
    list.Sublist (insertBehind new list) := by
  induction list with
  | nil => exact nil_sublist _
  | cons cur rest ih =>
    rw [insertBehind]
    split
    · exact ih.cons_cons cur
    · exact sublist_cons_self new _

theorem insertNode_sublist (new : SsiNode) (list : List SsiNode) :
    list.Sublist (insertNode new list) := by
  cases list with
  | nil => exact nil_sublist _
  | cons head rest =>
    rw [insertNode]
    split
    · exact sublist_cons_self new _
    · exact (insertBehind_sublist new rest).cons_cons head

theorem insertBehind_sorted {list : List SsiNode} (sorted : Sorted list) (new : SsiNode) :
    Sorted (insertBehind new list) := by
  induction list with
  | nil => exact pairwise_singleton _ _
  | cons cur rest ih =>
    obtain ⟨first, later⟩ := pairwise_cons.mp sorted
    rw [insertBehind]
    by_cases before : Precedes cur.item new.item
    · rw [if_pos before]
      rw [precedes_iff] at before
      apply pairwise_cons.mpr
      constructor
      · intro other member
        obtain rfl | old := mem_cons.mp ((insertBehind_perm new rest).mem_iff.mp member)
        · exact Nat.le_of_lt before
        · exact first other old
      · exact ih later
    · rw [if_neg before]
      rw [precedes_iff, not_lt] at before
      apply pairwise_cons.mpr
      constructor
      · intro other member
        obtain rfl | old := mem_cons.mp member
        · exact before
        · exact Nat.le_trans before (first other old)
      · exact sorted

theorem insertNode_sorted {list : List SsiNode} (sorted : Sorted list) (new : SsiNode) :
    Sorted (insertNode new list) := by
  cases list with
  | nil => exact pairwise_singleton _ _
  | cons head rest =>
    obtain ⟨first, later⟩ := pairwise_cons.mp sorted
    rw [insertNode]
    by_cases before : Precedes new.item head.item
    · rw [if_pos before]
      rw [precedes_iff] at before
      apply pairwise_cons.mpr
      constructor
      · intro other member
        obtain rfl | old := mem_cons.mp member
        · exact Nat.le_of_lt before
        · exact Nat.le_trans (Nat.le_of_lt before) (first other old)
      · exact sorted
    · rw [if_neg before]
      rw [precedes_iff, not_lt] at before
      apply pairwise_cons.mpr
      constructor
      · intro other member
        obtain rfl | old := mem_cons.mp ((insertBehind_perm new rest).mem_iff.mp member)
        · exact before
        · exact first other old
      · exact insertBehind_sorted later new

theorem findgroup_insert {new : SsiNode} (other : new.item.type ≠ typeGroup) (list : List SsiNode)
    (gn : Bytes) :
    aimSsiItemlistFinditem (insertNode new list) (some gn) none typeGroup =
      aimSsiItemlistFinditem list (some gn) none typeGroup := by
  rw [aimSsiItemlistFinditem, aimSsiItemlistFinditem, ← head?_filter, ← head?_filter,
    insertNode_filter]
  exact decide_eq_false fun all => other all.1

section Adding

variable {malloc : Malloc} {official list : List SsiNode}

theorem chooseIds_buddy {gid : UInt16} (notRoot : gid ≠ 0)
    (room : (list.filter fun cur => cur.item.gid = gid).length < 65536) (name : Option Bytes) :
    ∃ bid, chooseIds list name gid 0xffff typeBuddy = some (gid, bid) := by
  have listed : ∀ bid, buddyTaken list gid bid = true →
      bid ∈ (list.filter fun cur => cur.item.gid = gid).map (·.item.bid) := by
    intro bid taken
    obtain ⟨cur, member, isBid, inGroup⟩ := (buddyTaken_iff list gid bid).mp taken
    rw [← isBid]
    have kept : cur ∈ list.filter fun cur => cur.item.gid = gid :=
      mem_filter.mpr ⟨member, decide_eq_true inGroup⟩
    exact List.mem_map_of_mem (f := fun cur : SsiNode => cur.item.bid) kept
  have few : ((list.filter fun cur => cur.item.gid = gid).map (·.item.bid)).length < 65536 := by
    rw [length_map]
    exact room
  obtain ⟨bid, searched⟩ := searchId_ends few listed
  have isBuddy : typeBuddy ≠ typeGroup := by decide
  have toChoose : ¬ (0xffff : UInt16) ≠ 0xffff := not_not.mpr rfl
  exact ⟨bid, by rw [chooseIds, if_neg isBuddy, if_neg toChoose, if_neg notRoot, searched]; rfl⟩

theorem addLocal_buddy {gid : UInt16} (notRoot : gid ≠ 0)
    (room : (list.filter fun cur => cur.item.gid = gid).length < 65536) (name : Bytes)
    (data : List AimTlv) :
    ∃ new, addLocal malloc official list (some name) gid 0xffff typeBuddy data =
        some (new, insertNode new list) ∧
      new.address ∉ list.map SsiNode.address ∧ new.item.type = typeBuddy ∧
      new.item.name = some name ∧ new.item.gid = gid ∧ new.item.data = data := by
  obtain ⟨bid, chosen⟩ := @chooseIds_buddy list gid notRoot room (some name)
  obtain ⟨address, unused, adds⟩ :=
    @addLocal_some malloc official list (some name) gid 0xffff typeBuddy (gid, bid) data chosen
  exact ⟨_, adds, unused, rfl, rfl, rfl, rfl⟩

theorem added_there {new parent : SsiNode} {name : Bytes}
    (found : aimSsiItemlistFinditem list (some orphans) none typeGroup = some parent)
    (unused : new.address ∉ list.map SsiNode.address) (isBuddy : new.item.type = typeBuddy)
    (isName : new.item.name = some name) (inGroup : new.item.gid = parent.item.gid) :
    Added list (insertNode new list) name parent.item.gid new [] where
  perm := insertNode_perm new list
  sublist := insertNode_sublist new list
  sorted := fun sorted => insertNode_sorted sorted new
  separate := fun separate => separate.inserted unused
  type := isBuddy
  name := isName
  inGroup := inGroup
  made := nofun
  few := Nat.zero_le 2
  one := Nat.zero_le 1
  parent := by
    have notGroup : new.item.type ≠ typeGroup := by
      rw [isBuddy]
      decide
    rw [findgroup_insert notGroup]
    exact ⟨parent, found, rfl⟩
  there := fun _ => rfl

theorem addbuddyList_there {parent : SsiNode}
    (found : aimSsiItemlistFinditem list (some orphans) none typeGroup = some parent)
    (notRoot : parent.item.gid ≠ 0)
    (room : (list.filter fun cur => cur.item.gid = parent.item.gid).length < 65536) (name : Bytes)
    (data : List AimTlv) :
    ∃ after fresh, addbuddyList malloc official list name orphans data = some after ∧
      Added (list.map bare) (after.map bare) name parent.item.gid fresh [] := by
  obtain ⟨new, adds, unused, isBuddy, isName, inGroup, -⟩ :=
    @addLocal_buddy malloc official list parent.item.gid notRoot room name data
  refine ⟨aimSsiItemlistRebuildgroup (insertNode new list) (some orphans), bare new, ?_, ?_⟩
  · rw [addbuddyList, withParent, found, elim_some, bind_some, adds]
    rfl
  · rw [rebuildgroup_bare, insertNode_bare]
    have bareFound : aimSsiItemlistFinditem (list.map bare) (some orphans) none typeGroup =
        some (bare parent) := by
      rw [finditem_bare, found]
      rfl
    have bareUnused : (bare new).address ∉ (list.map bare).map SsiNode.address := by
      rw [addresses_bare]
      exact unused
    have added := added_there bareFound bareUnused isBuddy isName inGroup
    exact added

inductive MasterAdded (list : List SsiNode) : List SsiNode → List SsiNode → Prop where
  | there (found : (aimSsiItemlistFind list 0 0).isNone = false) : MasterAdded list list []
  | made (master : SsiNode) (missing : (aimSsiItemlistFind list 0 0).isNone = true)
      (unused : master.address ∉ list.map SsiNode.address) (type : master.item.type = typeGroup)
      (name : master.item.name = none) (gid : master.item.gid = 0) (bid : master.item.bid = 0) :
      MasterAdded list (insertNode master list) [master]

theorem withMaster_added :
    ∃ mastered masters, withMaster malloc official list = some mastered ∧
      MasterAdded list mastered masters := by
  cases missing : (aimSsiItemlistFind list 0 0).isNone with
  | false =>
    refine ⟨list, [], ?_, MasterAdded.there missing⟩
    rw [withMaster, missing]
    rfl
  | true =>
    obtain ⟨address, unused, adds⟩ :=
      @addLocal_some malloc official list none 0 0 typeGroup (0, 0) [] rfl
    refine ⟨_, [newNode address none 0 0 typeGroup []], ?_,
      MasterAdded.made _ missing unused rfl rfl rfl rfl⟩
    rw [withMaster, missing, if_pos rfl, adds]
    rfl

theorem MasterAdded.bare {mastered masters : List SsiNode} (added : MasterAdded list mastered masters) :
    MasterAdded (list.map bare) (mastered.map bare) (masters.map bare) := by
  cases added with
  | there found =>
    apply MasterAdded.there
    rw [find_bare, isNone_map]
    exact found
  | made master missing unused type name gid bid =>
    rw [insertNode_bare]
    refine MasterAdded.made (Oscar.bare master) ?_ ?_ type name gid bid
    · rw [find_bare, isNone_map]
      exact missing
    · rw [addresses_bare]
      exact unused

theorem MasterAdded.taken {mastered masters : List SsiNode}
    (added : MasterAdded list mastered masters) :
    groupTaken mastered = fun gid =>
      (gid = 0 && (aimSsiItemlistFind list 0 0).isNone) || groupTaken list gid := by
  funext gid
  cases added with
  | there found => rw [found, Bool.and_false, Bool.false_or]
  | made master missing unused type name zero bid =>
    rw [missing, Bool.and_true, Bool.eq_iff_iff, groupTaken_insert, type, zero, Bool.or_eq_true,
      decide_eq_true_eq, eq_comm (a := gid)]
    exact or_congr_left (and_iff_right rfl)

theorem added_made {mastered masters : List SsiNode} {group new : SsiNode} {name : Bytes}
    {gid : UInt16} (notRoot : gid ≠ 0)
    (missing : aimSsiItemlistFinditem list (some orphans) none typeGroup = none)
    (added : MasterAdded list mastered masters)
    (unusedGroup : group.address ∉ mastered.map SsiNode.address)
    (isGroup : group.item.type = typeGroup) (isOrphans : group.item.name = some orphans)
    (isGid : group.item.gid = gid) (isBid : group.item.bid = 0)
    (unused : new.address ∉ (insertNode group mastered).map SsiNode.address)
    (isBuddy : new.item.type = typeBuddy) (isName : new.item.name = some name)
    (inGroup : new.item.gid = gid) :
    Added list (insertNode new (insertNode group mastered)) name gid new (group :: masters) := by
  have perm : mastered.Perm (masters ++ list) := by
    cases added with
    | there found => exact List.Perm.refl _
    | made master => exact insertNode_perm master list
  have madeMasters : ∀ cur ∈ masters, cur.item.type = typeGroup ∧ cur.item.bid = 0 ∧
      cur.item.gid = 0 ∧ cur.item.name = none := by
    cases added with
    | there found => exact nofun
    | made master missing unused type name gid bid =>
      intro cur member
      obtain rfl := mem_singleton.mp member
      exact ⟨type, bid, gid, name⟩
  have notFound : ∀ cur ∈ mastered, cur.item.type = typeGroup → cur.item.bid = 0 →
      ¬ cur.hasName orphans = true := by
    intro cur member curGroup zero
    obtain new | old := mem_append.mp (perm.mem_iff.mp member)
    · rw [SsiNode.hasName, (madeMasters cur new).2.2.2]
      exact Bool.false_ne_true
    · exact findgroup_none missing cur old curGroup zero
  have isParent : aimSsiItemlistFinditem (insertNode group mastered) (some orphans) none typeGroup =
      some group := by
    cases found : aimSsiItemlistFinditem (insertNode group mastered) (some orphans) none
        typeGroup with
    | none =>
      exact absurd ((hasName_iff group orphans).mpr ⟨orphans, isOrphans, rfl⟩)
        (findgroup_none found group (mem_insertNode.mpr (Or.inl rfl)) isGroup isBid)
    | some parent =>
      have holds := find?_some found
      have all := of_decide_eq_true holds
      obtain rfl | old := mem_insertNode.mp (mem_of_find?_eq_some found)
      · rfl
      · exact absurd all.2.2 (notFound parent old all.1 all.2.1)
  exact {
    perm := by
      apply (insertNode_perm new _).trans
      apply List.Perm.cons
      exact (insertNode_perm group mastered).trans (perm.cons group)
    sublist := by
      have first : list.Sublist mastered := by
        cases added with
        | there found => exact List.Sublist.refl _
        | made master => exact insertNode_sublist master list
      exact (first.trans (insertNode_sublist group mastered)).trans (insertNode_sublist new _)
    sorted := by
      intro sorted
      have first : Sorted mastered := by
        cases added with
        | there found => exact sorted
        | made master => exact insertNode_sorted sorted master
      exact insertNode_sorted (insertNode_sorted first group) new
    separate := by
      intro separate
      have first : Separate mastered := by
        cases added with
        | there found => exact separate
        | made master missing unusedMaster => exact separate.inserted unusedMaster
      exact (first.inserted unusedGroup).inserted unused
    type := isBuddy
    name := isName
    inGroup := inGroup
    made := by
      intro cur member
      obtain rfl | old := mem_cons.mp member
      · exact ⟨isGroup, isBid, Or.inr isGid⟩
      · obtain ⟨curGroup, zero, root, -⟩ := madeMasters cur old
        exact ⟨curGroup, zero, Or.inl root⟩
    few := by
      cases added with
      | there found => exact Nat.le_succ 1
      | made master => exact Nat.le_refl 2
    one := by
      have others : masters.filter (fun cur => cur.item.gid = gid) = [] := by
        apply filter_eq_nil_iff.mpr
        intro cur member same
        exact notRoot ((of_decide_eq_true same).symm.trans (madeMasters cur member).2.2.1)
      rw [filter_cons, others]
      split
      · exact Nat.le_refl 1
      · exact Nat.zero_le 1
    parent := by
      have notGroup : new.item.type ≠ typeGroup := by
        rw [isBuddy]
        decide
      rw [findgroup_insert notGroup]
      exact ⟨group, isParent, isGid⟩
    there := fun found => absurd missing found }

theorem addbuddyList_made {gid : UInt16} (notRoot : gid ≠ 0)
    (missing : aimSsiItemlistFinditem list (some orphans) none typeGroup = none)
    (searched : searchId (fun gid =>
      (gid = 0 && (aimSsiItemlistFind list 0 0).isNone) || groupTaken list gid) 65536 0xffff =
        some gid)
    (room : (list.filter fun cur => cur.item.gid = gid).length < 65535) (name : Bytes)
    (data : List AimTlv) :
    ∃ after fresh groups, addbuddyList malloc official list name orphans data = some after ∧
      Added (list.map bare) (after.map bare) name gid fresh groups := by
  obtain ⟨mastered, masters, mastering, added⟩ := @withMaster_added malloc official list
  have chosen : chooseIds mastered (some orphans) 0xffff 0 typeGroup = some (gid, 0) := by
    rw [chooseIds, if_pos rfl, if_pos ⟨rfl, some_ne_none _⟩, added.taken, searched]
    rfl
  obtain ⟨address, unusedGroup, grouping⟩ :=
    @addLocal_some malloc official mastered (some orphans) 0xffff 0 typeGroup (gid, 0) [] chosen
  -- the group and the master group are the only new items so far, and one has the id
  have roomMade : ((aimSsiItemlistRebuildgroup
      (insertNode (newNode address (some orphans) gid 0 typeGroup []) mastered) none).filter
        fun cur => cur.item.gid = gid).length < 65536 := by
    rw [← inGroup_bare, rebuildgroup_bare, inGroup_bare]
    have counts := ((insertNode_perm (newNode address (some orphans) gid 0 typeGroup [])
      mastered).filter fun cur => cur.item.gid = gid).length_eq
    have inMastered : (mastered.filter fun cur => cur.item.gid = gid) =
        list.filter fun cur => cur.item.gid = gid := by
      cases added with
      | there found => rfl
      | made master missing unused type name zero bid =>
        apply insertNode_filter
        rw [zero]
        exact decide_eq_false (Ne.symm notRoot)
    rw [counts, filter_cons, inMastered]
    split
    · rw [length_cons]
      omega
    · omega
  obtain ⟨new, adds, unused, isBuddy, isName, inGroup, -⟩ :=
    @addLocal_buddy malloc official _ gid notRoot roomMade name data
  refine ⟨aimSsiItemlistRebuildgroup (insertNode new (aimSsiItemlistRebuildgroup
      (insertNode (newNode address (some orphans) gid 0 typeGroup []) mastered) none))
      (some orphans), bare new,
    bare (newNode address (some orphans) gid 0 typeGroup []) :: masters.map bare, ?_, ?_⟩
  · rw [addbuddyList, withParent, missing, elim_none, mastering, bind_some, grouping]
    rw [map_some, bind_some]
    exact map_eq_some_iff.mpr ⟨_, adds, rfl⟩
  · rw [rebuildgroup_bare, insertNode_bare, rebuildgroup_bare, insertNode_bare]
    have bareMissing : aimSsiItemlistFinditem (list.map bare) (some orphans) none typeGroup =
        none := by
      rw [finditem_bare, missing]
      rfl
    refine added_made notRoot bareMissing added.bare ?_ rfl rfl rfl rfl ?_ isBuddy isName inGroup
    · rw [addresses_bare]
      exact unusedGroup
    · rw [← insertNode_bare, ← rebuildgroup_bare _ none, addresses_bare]
      exact unused

end Adding

end Purple.Oscar
