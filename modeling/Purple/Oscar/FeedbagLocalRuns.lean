/-
The local list under any sequence of edits.
-/

import Purple.Oscar.FeedbagLocal
import Purple.PartialRun

namespace Purple.Oscar

open List Option

/-! ### Removing an item -/

variable {list after : List SsiNode} {address : Nat} {gid : UInt16} {del : SsiNode} {gn : Bytes}
  {bn : Option Bytes}

theorem mem_del {list : List SsiNode} {address : Nat} {cur : SsiNode} :
    cur ∈ aimSsiItemlistDel list address ↔ cur ∈ list ∧ cur.address ≠ address := by
  rw [aimSsiItemlistDel, mem_filter, decide_eq_true_eq]

theorem groupTaken_del_of (taken : groupTaken (aimSsiItemlistDel list address) gid = true) :
    groupTaken list gid = true := by
  obtain ⟨cur, member, isGroup, isGid⟩ := (groupTaken_iff _ gid).mp taken
  exact (groupTaken_iff list gid).mpr ⟨cur, (mem_del.mp member).1, isGroup, isGid⟩

theorem memberIds_del_other
    (other : ∀ cur ∈ list, cur.address = address → isMember gid cur = false) :
    memberIds (aimSsiItemlistDel list address) gid = memberIds list gid := by
  rw [memberIds_eq, memberIds_eq, aimSsiItemlistDel, List.filter_filter]
  congr 1
  refine filter_congr fun cur member => ?_
  by_cases removed : cur.address = address
  · rw [other cur member removed, Bool.false_and]
  · rw [decide_eq_true removed, Bool.and_true]

theorem memberIds_del_length (list : List SsiNode) (address : Nat) (gid : UInt16) :
    (memberIds (aimSsiItemlistDel list address) gid).length ≤ (memberIds list gid).length := by
  rw [memberIds_eq, memberIds_eq, length_map, length_map]
  exact ((filter_sublist (p := fun cur : SsiNode => decide (cur.address ≠ address))).filter
    (isMember gid)).length_le

theorem Shape.removed (shape : Shape list)
    (buddies : ∀ cur ∈ list, cur.item.type = typeBuddy → cur.address ≠ address →
      groupTaken (aimSsiItemlistDel list address) cur.item.gid = true)
    (master : ∀ cur ∈ list, cur.item.type = typeGroup → cur.address ≠ address →
      groupTaken (aimSsiItemlistDel list address) 0 = true) :
    Shape (aimSsiItemlistDel list address) where
  ascending := shape.ascending.sublist filter_sublist
  addresses := shape.addresses.sublist (filter_sublist.map SsiNode.address)
  groups := fun cur member => shape.groups cur (mem_del.mp member).1
  others := fun cur member => shape.others cur (mem_del.mp member).1
  buddies := by
    intro cur member isBuddy
    obtain ⟨old, stays⟩ := mem_del.mp member
    obtain ⟨notRoot, named, _taken⟩ := shape.buddies cur old isBuddy
    exact ⟨notRoot, named, buddies cur old isBuddy stays⟩
  roots := fun cur member => shape.roots cur (mem_del.mp member).1
  apart := by
    intro cur member notGroup inRoot
    rw [Bool.eq_false_iff]
    intro taken
    have before := groupTaken_del_of taken
    rw [shape.apart cur (mem_del.mp member).1 notGroup inRoot] at before
    cases before
  master := fun cur member isGroup =>
    master cur (mem_del.mp member).1 isGroup (mem_del.mp member).2
  names := fun first isFirst second isSecond =>
    shape.names first (mem_del.mp isFirst).1 second (mem_del.mp isSecond).1
  few := fun gid => Nat.lt_of_le_of_lt (memberIds_del_length list address gid) (shape.few gid)

theorem groupTaken_del (shape : Shape list) (member : del ∈ list)
    (notGroup : del.item.type ≠ typeGroup) (gid : UInt16) :
    groupTaken (aimSsiItemlistDel list del.address) gid = groupTaken list gid := by
  rw [Bool.eq_iff_iff]
  refine ⟨groupTaken_del_of, fun taken => ?_⟩
  obtain ⟨cur, isThere, isGroup, isGid⟩ := (groupTaken_iff list gid).mp taken
  refine (groupTaken_iff _ gid).mpr ⟨cur, mem_del.mpr ⟨isThere, fun same => ?_⟩, isGroup, isGid⟩
  rw [inj_on_of_nodup_map shape.addresses isThere member same] at isGroup
  exact notGroup isGroup

theorem Shape.removed_item (shape : Shape list) (member : del ∈ list)
    (notGroup : del.item.type ≠ typeGroup) : Shape (aimSsiItemlistDel list del.address) := by
  refine shape.removed (fun cur isThere isBuddy _stays => ?_) fun cur isThere isGroup _stays => ?_
  · rw [groupTaken_del shape member notGroup]
    exact (shape.buddies cur isThere isBuddy).2.2
  · rw [groupTaken_del shape member notGroup]
    exact shape.master cur isThere isGroup

theorem Lists.removed (lists : Lists list gid)
    (other : ∀ cur ∈ list, cur.address = address → isMember gid cur = false) :
    Lists (aimSsiItemlistDel list address) gid := by
  intro cur member isGroup isGid
  rw [memberIds_del_other other]
  exact lists cur (mem_del.mp member).1 isGroup isGid

theorem Occupied.removed (occupied : Occupied list gid)
    (other : ∀ cur ∈ list, cur.address = address → isMember gid cur = false) :
    Occupied (aimSsiItemlistDel list address) gid := by
  intro notMaster taken empty
  have same := memberIds_del_other other
  rw [memberIds, if_neg notMaster, empty, memberIds, if_neg notMaster] at same
  exact occupied notMaster (groupTaken_del_of taken) same.symm

theorem delFromPrivateList_kept (kept : LocalKept list) {name : Option Bytes} {type : UInt16}
    (notBuddy : type ≠ typeBuddy) (notGroup : type ≠ typeGroup)
    (removed : delFromPrivateList list name type = some after) : LocalKept after := by
  obtain ⟨del, found, rfl⟩ := map_eq_some_iff.mp removed
  obtain ⟨member, isType⟩ := finditem_some found
  rw [← isType] at notBuddy notGroup
  have other : ∀ gid, ∀ cur ∈ list, cur.address = del.address → isMember gid cur = false := by
    intro gid cur isThere same
    rw [inj_on_of_nodup_map kept.shape.addresses isThere member same]
    exact private_isMember notBuddy notGroup gid
  exact ⟨kept.shape.removed_item member notGroup, fun gid => (kept.lists gid).removed (other gid),
    fun gid => (kept.occupied gid).removed (other gid)⟩

def Stays (list : List SsiNode) (del : SsiNode) : Prop :=
  ∃ other ∈ list, other.address ≠ del.address ∧ other.item.type = typeBuddy ∧
    other.item.gid = del.item.gid

theorem findbuddy_some (shape : Shape list)
    (found : aimSsiItemlistFinditem list (some gn) bn typeBuddy = some del) :
    ∃ parent ∈ list, parent.item.type = typeGroup ∧ parent.item.gid = del.item.gid ∧
      parent.hasName gn = true := by
  obtain ⟨member, isBuddy⟩ := finditem_some found
  cases bn with
  | none =>
    have holds := find?_some found
    refine absurd (of_decide_eq_true holds).2.1 (shape.others del member ?_)
    rw [isBuddy]
    decide
  | some bn =>
    have holds := find?_some found
    obtain ⟨parent, isThere, holds⟩ := List.any_eq_true.mp (of_decide_eq_true holds).2.2
    obtain ⟨isGroup, isGid, hasName⟩ := of_decide_eq_true holds
    exact ⟨parent, isThere, isGroup, isGid, hasName⟩

theorem delbuddyList_but (kept : LocalKept list)
    (found : aimSsiItemlistFinditem list (some gn) bn typeBuddy = some del)
    (removed : delbuddyList list bn (some gn) = some after) :
    KeptBut after del.item.gid ∧ (Stays list del → LocalKept after) := by
  rw [delbuddyList, found] at removed
  cases removed
  obtain ⟨member, isBuddy⟩ := finditem_some found
  obtain ⟨parent, isThere, isGroup, isGid, named⟩ := findbuddy_some kept.shape found
  have notGroup : del.item.type ≠ typeGroup := by
    rw [isBuddy]
    decide
  have notRoot := (kept.shape.buddies del member isBuddy).1
  have shape := kept.shape.removed_item member notGroup
  have parentStays : parent ∈ aimSsiItemlistDel list del.address := by
    refine mem_del.mpr ⟨isThere, fun same => ?_⟩
    rw [inj_on_of_nodup_map kept.shape.addresses isThere member same] at isGroup
    exact notGroup isGroup
  have rebuilt := rebuilt_of_found shape (findgroup shape parentStays isGroup named) parentStays
    isGroup
  rw [isGid] at rebuilt
  have other : ∀ gid, gid ≠ del.item.gid → ∀ cur ∈ list, cur.address = del.address →
      isMember gid cur = false := by
    intro gid differs cur present same
    rw [inj_on_of_nodup_map kept.shape.addresses present member same, Bool.eq_false_iff]
    exact fun isMember => differs ((buddy_isMember isBuddy rfl gid).mp isMember).2
  have elsewhere : ∀ gid, gid ≠ del.item.gid →
      Occupied (aimSsiItemlistRebuildgroup (aimSsiItemlistDel list del.address) (some gn)) gid := by
    intro gid differs notMaster taken empty
    have members := rebuilt.members gid
    rw [memberIds, if_neg notMaster, empty, memberIds, if_neg notMaster] at members
    rw [rebuilt.taken] at taken
    exact (kept.occupied gid).removed (other gid differs) notMaster taken members.symm
  have lists : ∀ gid, gid ≠ del.item.gid →
      Lists (aimSsiItemlistRebuildgroup (aimSsiItemlistDel list del.address) (some gn)) gid :=
    fun gid differs => rebuilt.elsewhere gid differs ((kept.lists gid).removed (other gid differs))
  refine ⟨⟨rebuilt.shape, lists, elsewhere⟩, fun stays => ⟨rebuilt.shape, fun gid => ?_,
    fun gid => ?_⟩⟩
  all_goals
    obtain ⟨remaining, present, differs, otherBuddy, sameGroup⟩ := stays
    have nonempty : memberIds (aimSsiItemlistDel list del.address) del.item.gid ≠ [] := by
      intro empty
      have none := (memberIds_eq_nil_iff _ _).mp empty remaining (mem_del.mpr ⟨present, differs⟩)
      rw [(buddy_isMember otherBuddy sameGroup _).mpr ⟨notRoot, rfl⟩] at none
      cases none
  · by_cases own : gid = del.item.gid
    · rw [own]
      exact rebuilt.lists (.inr nonempty)
    · exact lists gid own
  · by_cases own : gid = del.item.gid
    · intro _notMaster _taken empty
      have members := rebuilt.members gid
      rw [memberIds, own, if_neg notRoot, ← own, empty] at members
      rw [own] at members
      exact nonempty members.symm
    · exact elsewhere gid own

theorem listed_of_emptyGroup {data : List AimTlv} (empty : emptyGroup data = true) :
    listed data = [] := by
  rw [emptyGroup] at empty
  rw [listed]
  cases found : aimTlvGettlv data 0x00c8 with
  | none => rfl
  | some tlv =>
    rw [found] at empty
    have zero : tlv.length = 0 := of_decide_eq_true empty
    have length := tlv.length_toNat
    rw [zero] at length
    exact length_eq_zero_iff.mp length.symm

theorem idBytes_eq_nil {ids : List UInt16} (empty : idBytes ids = []) : ids = [] := by
  have length := idBytes_length ids
  rw [empty, length_nil] at length
  exact length_eq_zero_iff.mp (by omega)

theorem delgroupList_kept (kept : LocalKept list) {group : Option Bytes}
    (removed : delgroupList list group = some after) : LocalKept after := by
  obtain ⟨del, found, removed⟩ := bind_eq_some_iff.mp removed
  obtain ⟨member, isGroup⟩ := finditem_some found
  by_cases empty : emptyGroup del.item.data = true
  · rw [if_pos empty] at removed
    cases removed
    have nothing : memberIds list del.item.gid = [] := by
      have lists := kept.lists del.item.gid del member isGroup rfl
      rw [listed_of_emptyGroup empty] at lists
      exact idBytes_eq_nil lists.symm
    have isMaster : del.item.gid = 0 := by
      by_contra notRoot
      refine kept.occupied del.item.gid notRoot
        ((groupTaken_iff list _).mpr ⟨del, member, isGroup, rfl⟩) ?_
      rw [memberIds, if_neg notRoot] at nothing
      exact nothing
    have alone : ∀ cur ∈ list, cur.item.type = typeGroup → cur.address = del.address := by
      intro cur isThere curGroup
      have none := (memberIds_eq_nil_iff _ _).mp nothing cur isThere
      have zero : cur.item.gid = 0 := by
        rw [isMaster, isMember, if_pos rfl] at none
        by_contra notRoot
        exact of_decide_eq_false none ⟨curGroup, notRoot⟩
      rw [kept.shape.group_unique isThere member curGroup isGroup (zero.trans isMaster.symm)]
    have untaken : ∀ gid, groupTaken (aimSsiItemlistDel list del.address) gid = false := by
      intro gid
      rw [Bool.eq_false_iff]
      intro taken
      obtain ⟨cur, left, curGroup, _isGid⟩ := (groupTaken_iff _ gid).mp taken
      exact (mem_del.mp left).2 (alone cur (mem_del.mp left).1 curGroup)
    have notFound : aimSsiItemlistFinditem (aimSsiItemlistDel list del.address) group none
        typeGroup = none := by
      cases again : aimSsiItemlistFinditem (aimSsiItemlistDel list del.address) group none
          typeGroup with
      | none => rfl
      | some cur =>
        obtain ⟨left, curGroup⟩ := finditem_some again
        exact absurd (alone cur (mem_del.mp left).1 curGroup) (mem_del.mp left).2
    have shape : Shape (aimSsiItemlistDel list del.address) := by
      refine kept.shape.removed (fun cur isThere isBuddy _stays => ?_)
        fun cur isThere curGroup stays => absurd (alone cur isThere curGroup) stays
      obtain ⟨notRoot, _named, taken⟩ := kept.shape.buddies cur isThere isBuddy
      obtain ⟨parent, present, parentGroup, sameGid⟩ := (groupTaken_iff list _).mp taken
      have whole := inj_on_of_nodup_map kept.shape.addresses present member
        (alone parent present parentGroup)
      rw [whole, isMaster] at sameGid
      exact absurd sameGid.symm notRoot
    have same : aimSsiItemlistRebuildgroup (aimSsiItemlistDel list del.address) group =
        aimSsiItemlistDel list del.address := by
      rw [aimSsiItemlistRebuildgroup, notFound]
    rw [same]
    refine ⟨shape, fun gid cur left curGroup => ?_, fun gid _notMaster taken => ?_⟩
    · exact absurd (alone cur (mem_del.mp left).1 curGroup) (mem_del.mp left).2
    · rw [untaken gid] at taken
      cases taken
  · rw [if_neg empty] at removed
    cases removed

theorem editText_kept (kept : LocalKept list) {type : UInt16} {bn : Bytes} {text : Option Bytes}
    (edited : editText type list gn bn text = some after) : LocalKept after := by
  obtain ⟨tmp, found, rfl⟩ := map_eq_some_iff.mp edited
  obtain ⟨member, isBuddy⟩ := finditem_some found
  have elsewhere : ∀ cur ∈ list, cur.item.type = typeGroup → cur.address ≠ tmp.address := by
    intro cur isThere isGroup same
    rw [inj_on_of_nodup_map kept.shape.addresses isThere member same, isBuddy] at isGroup
    exact absurd isGroup (by decide)
  refine ⟨kept.shape.written _ _, fun gid => ?_, fun gid notMaster taken => ?_⟩
  · exact (kept.lists gid).written_elsewhere _ _ fun cur isThere isGroup _isGid =>
      elsewhere cur isThere isGroup
  · rw [groupTaken_setData] at taken
    have before := kept.occupied gid notMaster taken
    have members := memberIds_setData tmp.address (editedText type text tmp.item.data) list gid
    rw [memberIds, memberIds, if_neg notMaster, if_neg notMaster] at members
    rw [members]
    exact before

/-! ### Moving a buddy -/

theorem findgroup_map (address : Nat) (data : List AimTlv) (list : List SsiNode) (group : Bytes) :
    aimSsiItemlistFinditem (list.map (setData address data)) (some group) none typeGroup =
      (aimSsiItemlistFinditem list (some group) none typeGroup).map (setData address data) := by
  have kept : (fun cur : SsiNode => decide (cur.item.type = typeGroup ∧ cur.item.bid = 0 ∧
      cur.hasName group = true)) ∘ setData address data = fun cur =>
        decide (cur.item.type = typeGroup ∧ cur.item.bid = 0 ∧ cur.hasName group = true) := by
    funext cur
    refine decide_eq_decide.mpr ?_
    rw [setData_type, setData_bid, SsiNode.hasName, setData_name]
    rfl
  unfold aimSsiItemlistFinditem
  dsimp only
  rw [find?_map]
  exact congrArg (fun keep => (list.find? keep).map (setData address data)) kept

theorem buddyIds_setData (address : Nat) (data : List AimTlv) (list : List SsiNode) (gid : UInt16) :
    buddyIds (list.map (setData address data)) gid = buddyIds list gid := by
  have kept : (fun cur : SsiNode => decide (cur.item.gid = gid ∧ cur.item.type = typeBuddy)) ∘
      setData address data = fun cur =>
        decide (cur.item.gid = gid ∧ cur.item.type = typeBuddy) := by
    funext cur
    refine decide_eq_decide.mpr ?_
    rw [setData_gid, setData_type]
  have ids : (fun cur : SsiNode => cur.item.bid) ∘ setData address data = fun cur =>
      cur.item.bid := funext (setData_bid address data)
  rw [buddyIds, buddyIds, List.filter_map, List.map_map, kept, ids]

theorem AdmitsBuddy.written {group : Bytes} (admits : AdmitsBuddy list group) (address : Nat)
    (data : List AimTlv) :
    AdmitsBuddy (list.map (setData address data)) group where
  small := by
    rw [length_map]
    exact admits.small
  room := by
    intro parent found
    rw [findgroup_map] at found
    obtain ⟨before, isThere, rfl⟩ := map_eq_some_iff.mp found
    rw [buddyIds_setData, setData_gid]
    exact admits.room before isThere
  newGroup := by
    intro missing
    rw [findgroup_map] at missing
    obtain ⟨few, room⟩ := admits.newGroup (map_eq_none_iff.mp missing)
    have groups : groupIds (list.map (setData address data)) = groupIds list :=
      memberIds_setData address data list 0
    rw [groups]
    refine ⟨few, ?_⟩
    rw [RoomBelow, List.forall_mem_map]
    intro cur member
    rw [setData_type, setData_gid, setData_bid]
    simp only [groupTaken_setData]
    exact room cur member

theorem rebuildgroup_cases (list : List SsiNode) (name : Option Bytes) :
    aimSsiItemlistRebuildgroup list name = list ∨
      ∃ address data, aimSsiItemlistRebuildgroup list name = list.map (setData address data) := by
  unfold aimSsiItemlistRebuildgroup
  split
  · exact .inl rfl
  · dsimp only
    split
    · exact .inl rfl
    · exact .inr ⟨_, _, rfl⟩

theorem AdmitsBuddy.rebuilt {group : Bytes} (admits : AdmitsBuddy list group)
    (name : Option Bytes) : AdmitsBuddy (aimSsiItemlistRebuildgroup list name) group := by
  rcases rebuildgroup_cases list name with same | ⟨address, data, written⟩
  · rw [same]
    exact admits
  · rw [written]
    exact admits.written address data

def InGroup (list : List SsiNode) (buddy : SsiNode) (group : Bytes) : Prop :=
  ∃ parent, aimSsiItemlistFinditem list (some group) none typeGroup = some parent ∧
    parent.item.gid = buddy.item.gid

theorem findgroup_rebuilt {group : Bytes} {parent : SsiNode}
    (found : aimSsiItemlistFinditem list (some group) none typeGroup = some parent)
    (name : Option Bytes) :
    ∃ again, aimSsiItemlistFinditem (aimSsiItemlistRebuildgroup list name) (some group) none
      typeGroup = some again ∧ again.item.gid = parent.item.gid := by
  rcases rebuildgroup_cases list name with same | ⟨address, data, written⟩
  · rw [same]
    exact ⟨parent, found, rfl⟩
  · rw [written, findgroup_map, found]
    exact ⟨_, rfl, setData_gid address data parent⟩

/-- What moving a buddy needs of the list; adding it is up to the list without it. -/
structure AdmitsMove (list : List SsiNode) (buddy : SsiNode) (newgn : Bytes) : Prop where
  adding : AdmitsBuddy (aimSsiItemlistDel list buddy.address) newgn
  leaving : Stays list buddy ∨ InGroup (aimSsiItemlistDel list buddy.address) buddy newgn

theorem moved_kept (malloc : Malloc) (official : List SsiNode) (kept : LocalKept list)
    {oldgn newgn bn : Bytes} {buddy : SsiNode}
    (found : aimSsiItemlistFinditem list (some oldgn) (some bn) typeBuddy = some buddy)
    (admits : AdmitsMove list buddy newgn) (data : List AimTlv) :
    ∃ after, addbuddyList malloc official ((delbuddyList list (some bn) (some oldgn)).getD list)
      bn newgn data = some after ∧ LocalKept after := by
  have removed : delbuddyList list (some bn) (some oldgn) =
      some (aimSsiItemlistRebuildgroup (aimSsiItemlistDel list buddy.address) (some oldgn)) := by
    rw [delbuddyList, found]
    rfl
  obtain ⟨but, whole⟩ := delbuddyList_but kept found removed
  have adding := admits.adding.rebuilt (some oldgn)
  rw [removed, getD_some]
  rcases admits.leaving with stays | ⟨parent, isParent, sameGid⟩
  · exact addbuddyList_kept malloc official (whole stays) adding bn data
  · obtain ⟨again, isThere, gid⟩ := findgroup_rebuilt isParent (some oldgn)
    rw [← sameGid, ← gid] at but
    exact addbuddyList_found malloc official isThere but adding bn data

/-! ### Runs -/

def Admits (list : List SsiNode) : SsiCall → Prop
  | .addbuddy (some _) (some group) _ _ _ _ _ => AdmitsBuddy list group
  | .addbuddy _ _ _ _ _ _ _ => True
  | .delbuddy name group => ∀ del,
      aimSsiItemlistFinditem list group name typeBuddy = some del →
        group ≠ none ∧ Stays list del
  | .movebuddy oldgn newgn bn => ∀ buddy,
      aimSsiItemlistFinditem list oldgn bn typeBuddy = some buddy →
        oldgn ≠ none ∧ newgn.elim (Stays list buddy) (AdmitsMove list buddy)
  | .aliasbuddy _ _ _ => True
  | .editcomment _ _ _ => True
  | .delgroup _ => True
  | .addToPrivateList _ type => type ≠ typeBuddy ∧ type ≠ typeGroup ∧ list.length < 65534
  | .delFromPrivateList _ type => type ≠ typeBuddy ∧ type ≠ typeGroup

theorem getD_kept (kept : LocalKept list) {edited : Option (List SsiNode)}
    (keeps : ∀ after, edited = some after → LocalKept after) : LocalKept (edited.getD list) := by
  cases edited with
  | none => exact kept
  | some after => exact keeps after rfl

theorem findbuddy_named (shape : Shape list)
    (found : aimSsiItemlistFinditem list (some gn) bn typeBuddy = some del) : bn ≠ none := by
  rintro rfl
  obtain ⟨member, isBuddy⟩ := finditem_some found
  have holds := find?_some found
  refine absurd (of_decide_eq_true holds).2.1 (shape.others del member ?_)
  rw [isBuddy]
  decide

theorem localAfter_kept (malloc : Malloc) (receivedData : Bool) (official : List SsiNode)
    (kept : LocalKept list) {call : SsiCall} (admits : Admits list call) :
    ∃ after, localAfter malloc receivedData official list call = some after ∧
      LocalKept after := by
  cases call with
  | addbuddy name group data nickname comment smsnum needauth =>
    cases name with
    | none => exact ⟨list, rfl, kept⟩
    | some name =>
      cases group with
      | none => exact ⟨list, rfl, kept⟩
      | some group => exact addbuddyList_kept malloc official kept admits name _
  | delbuddy name group =>
    refine ⟨_, rfl, getD_kept kept fun after removed => ?_⟩
    obtain ⟨del, found, _written⟩ := map_eq_some_iff.mp removed
    obtain ⟨inGroup, stays⟩ := admits del found
    obtain ⟨gn, rfl⟩ := ne_none_iff_exists'.mp inGroup
    exact (delbuddyList_but kept found removed).2 stays
  | movebuddy oldgn newgn bn =>
    rw [localAfter]
    cases found : aimSsiItemlistFinditem list oldgn bn typeBuddy with
    | none => exact ⟨list, rfl, kept⟩
    | some buddy =>
      obtain ⟨inGroup, moves⟩ := admits buddy found
      obtain ⟨gn, rfl⟩ := ne_none_iff_exists'.mp inGroup
      obtain ⟨name, rfl⟩ := ne_none_iff_exists'.mp (findbuddy_named kept.shape found)
      cases newgn with
      | none =>
        refine ⟨_, rfl, getD_kept kept fun after removed => ?_⟩
        exact (delbuddyList_but kept found removed).2 moves
      | some newgn => exact moved_kept malloc official kept found moves _
  | aliasbuddy gn bn nickname =>
    cases gn with
    | none => exact ⟨list, rfl, kept⟩
    | some gn =>
      cases bn with
      | none => exact ⟨list, rfl, kept⟩
      | some bn => exact ⟨_, rfl, getD_kept kept fun _ => editText_kept kept⟩
  | editcomment gn bn comment =>
    cases gn with
    | none => exact ⟨list, rfl, kept⟩
    | some gn =>
      cases bn with
      | none => exact ⟨list, rfl, kept⟩
      | some bn => exact ⟨_, rfl, getD_kept kept fun _ => editText_kept kept⟩
  | delgroup group => exact ⟨_, rfl, getD_kept kept fun _ => delgroupList_kept kept⟩
  | addToPrivateList name type =>
    obtain ⟨notBuddy, notGroup, small⟩ := admits
    cases name with
    | none => exact ⟨list, rfl, kept⟩
    | some name =>
      rw [localAfter]
      by_cases received : receivedData = true
      · rw [if_pos received]
        exact addToPrivateList_kept malloc official kept small name notBuddy notGroup
      · rw [if_neg received]
        exact ⟨list, rfl, kept⟩
  | delFromPrivateList name type =>
    exact ⟨_, rfl, getD_kept kept fun _ => delFromPrivateList_kept kept admits.1 admits.2⟩

/-- The local list is in order, with no id twice, no item in the root group has the id of a
group, and every group lists its members. -/
structure WellFormed (list : List SsiNode) : Prop where
  ascending : list.Pairwise fun first second => Precedes first.item second.item
  distinct : list.Pairwise fun first second =>
    ¬(first.item.gid = second.item.gid ∧ first.item.bid = second.item.bid)
  apart : ∀ cur ∈ list, cur.item.type ≠ typeGroup → cur.item.gid = 0 →
    ∀ group ∈ list, group.item.type = typeGroup → cur.item.bid ≠ group.item.gid
  members : ∀ group ∈ list, group.item.type = typeGroup →
    listed group.item.data = idBytes (memberIds list group.item.gid)

theorem LocalKept.wellFormed (kept : LocalKept list) : WellFormed list where
  ascending := kept.shape.ascending
  distinct := by
    refine kept.shape.ascending.imp fun before same => ?_
    rw [precedes_iff] at before
    exact absurd ((sameId_iff _ _).mp same) (Nat.ne_of_lt before)
  apart := by
    intro cur member notGroup inRoot group isThere isGroup same
    have untaken := kept.shape.apart cur member notGroup inRoot
    rw [(groupTaken_iff list _).mpr ⟨group, isThere, isGroup, same.symm⟩] at untaken
    cases untaken
  members := fun group member isGroup => kept.lists group.item.gid group member isGroup rfl

/-- A call, with what `malloc` returns during it. -/
abbrev SsiStep := Malloc × SsiCall

def editStep (receivedData : Bool) (official list : List SsiNode) (step : SsiStep) :
    Option (List SsiNode) :=
  localAfter step.1 receivedData official list step.2

def performStep (od : OscarData) (step : SsiStep) : Option OscarData := perform step.1 od step.2

theorem empty_kept : LocalKept [] where
  shape := ⟨List.Pairwise.nil, nodup_nil, nofun, nofun, nofun, nofun, nofun, nofun, nofun,
    fun gid => by
      rw [memberIds_eq]
      exact Nat.zero_lt_succ _⟩
  lists := fun _ => nofun
  occupied := fun _ _ => nofun

theorem performed_local {receivedData : Bool} {official : List SsiNode} {steps : List SsiStep}
    {od last : OscarData} (isLocal : od.localList = list) (isOfficial : od.official = official)
    (isReceived : od.receivedData = receivedData)
    (edited : PartialRun.run (editStep receivedData official) list steps = some after)
    (performed : PartialRun.run performStep od steps = some last) : last.localList = after := by
  induction steps generalizing od list with
  | nil =>
    cases edited
    cases performed
    exact isLocal
  | cons step steps ih =>
    rw [PartialRun.run_cons] at edited performed
    obtain ⟨next, first, performed⟩ := bind_eq_some_iff.mp performed
    obtain ⟨changed, official', received'⟩ := perform_keeps first
    rw [isLocal, isOfficial, isReceived] at changed
    have firstEdit : editStep receivedData official list step = some next.localList := changed
    rw [firstEdit, bind_some] at edited
    exact ih rfl (official'.trans isOfficial) (received'.trans isReceived) edited performed

/-- In every run of admitted calls from the empty list, each call returns but for its sync, and
the local list is well formed after it. -/
theorem localList_wellFormed (receivedData : Bool) (official : List SsiNode)
    (steps : List SsiStep)
    (admitted : PartialRun.Admitted (editStep receivedData official)
      (fun list step => Admits list step.2) [] steps)
    (done : List SsiStep) (reached : done <+: steps) :
    ∃ list, PartialRun.run (editStep receivedData official) [] done = some list ∧
      WellFormed list ∧
      ∀ od last, od.localList = [] → od.official = official → od.receivedData = receivedData →
        PartialRun.run performStep od done = some last → last.localList = list := by
  obtain ⟨list, ran, kept⟩ := PartialRun.reached LocalKept
    (fun list step kept admits => localAfter_kept step.1 receivedData official kept admits)
    empty_kept admitted reached
  exact ⟨list, ran, kept.wellFormed, fun od last isLocal isOfficial isReceived performed =>
    performed_local isLocal isOfficial isReceived ran performed⟩

def newBuddy : SsiCall := .addbuddy (some [98]) (some [103]) [] none none none false

theorem newBuddy_admitted : Admits [] newBuddy where
  small := by decide
  room := nofun
  newGroup := fun _ => ⟨by decide, nofun⟩

theorem localList_wellFormed_newBuddy :
    ∃ list, PartialRun.run (editStep true []) []
        [(lastMalloc, newBuddy), (lastMalloc, .delgroup (some [103]))] = some list ∧
      WellFormed list ∧
      ∀ od last, od.localList = [] → od.official = [] → od.receivedData = true →
        PartialRun.run performStep od
          [(lastMalloc, newBuddy), (lastMalloc, .delgroup (some [103]))] = some last →
            last.localList = list :=
  localList_wellFormed true [] [(lastMalloc, newBuddy), (lastMalloc, .delgroup (some [103]))]
    ⟨newBuddy_admitted, fun _ _ => ⟨trivial, fun _ _ => trivial⟩⟩ _ (prefix_refl _)

/-- An item in the root group has the first buddy ID; the new group gets it as its group ID. -/
theorem blockedGroup_not_wellFormed :
    ¬∀ (steps : List SsiStep) (list : List SsiNode),
      PartialRun.run (editStep true []) [] steps = some list → list.length < 65535 →
        WellFormed list := by
  intro wellFormed
  have whole := wellFormed
    [(lastMalloc, .addToPrivateList (some [97]) 3), (lastMalloc, newBuddy)]
    [newNode 1 none 0 0 typeGroup [createtlv 0x00c8 2 [0, 1]],
      newNode 2 (some [97]) 0 1 3 [],
      newNode 3 (some [103]) 1 0 typeGroup [createtlv 0x00c8 2 [0, 1]],
      newNode 4 (some [98]) 1 1 typeBuddy []]
    (by rfl) (by decide)
  exact whole.apart (newNode 2 (some [97]) 0 1 3 []) (by decide) (by decide) rfl
    (newNode 3 (some [103]) 1 0 typeGroup [createtlv 0x00c8 2 [0, 1]]) (by decide) rfl rfl

end Purple.Oscar
