/-
What edits keep of the local list, and the edits that add to it.

Ids, names and members are facts about a list without its chains (`Shape`); that the
group with an id lists its members is a fact for each id (`Lists`).
-/

import Purple.Oscar.FeedbagLists

namespace Purple.Oscar

open List Option

def foldName (name : Bytes) : Bytes := (name.filter (· ≠ 32)).map toupper

variable {list : List SsiNode} {parent new : SsiNode} {gid : UInt16} {group : Bytes}

theorem foldName_space (rest : Bytes) : foldName (32 :: rest) = foldName rest := rfl

theorem foldName_char {char : UInt8} (visible : char ≠ 32) (rest : Bytes) :
    foldName (char :: rest) = toupper char :: foldName rest := by
  rw [foldName, filter_cons, if_pos (decide_eq_true visible)]
  rfl

theorem skipSpaces_cases (name : Bytes) :
    (skipSpaces name = [] ∧ foldName name = []) ∨
      ∃ char rest, skipSpaces name = char :: rest ∧
        foldName name = toupper char :: foldName rest := by
  induction name with
  | nil => exact .inl ⟨rfl, rfl⟩
  | cons char rest ih =>
    by_cases space : char = 32
    · rw [space]
      exact ih
    · refine .inr ⟨char, rest, ?_, foldName_char space rest⟩
      rw [skipSpaces, dropWhile_cons, if_neg fun same => space (of_decide_eq_true same)]

theorem nameCompareLoop_zero_iff (name1 name2 : Bytes) :
    nameCompareLoop name1 name2 = 0 ↔ foldName name1 = foldName name2 := by
  induction name1 generalizing name2 with
  | nil =>
    rw [nameCompareLoop]
    rcases skipSpaces_cases name2 with ⟨nothing, folds⟩ | ⟨char, rest, visible, folds⟩
    · rw [if_pos nothing, folds]
      exact iff_of_true rfl rfl
    · rw [visible, if_neg (cons_ne_nil _ _), folds]
      exact iff_of_false Int.one_ne_zero nofun
  | cons char name1 ih =>
    rw [nameCompareLoop]
    by_cases space : char = 32
    · rw [if_pos space, space, foldName_space]
      exact ih name2
    · rw [if_neg space, foldName_char space]
      rcases skipSpaces_cases name2 with ⟨nothing, folds⟩ | ⟨other, rest, visible, folds⟩
      · rw [nothing, folds]
        exact iff_of_false Int.one_ne_zero nofun
      · rw [visible, folds]
        change (if toupper char ≠ toupper other then (1 : Int) else nameCompareLoop name1 rest) =
          0 ↔ _
        by_cases same : toupper char = toupper other
        · rw [if_neg (not_not.mpr same), ih, same, cons_eq_cons, and_iff_right rfl]
        · rw [if_pos same]
          exact iff_of_false Int.one_ne_zero fun equal => same (head_eq_of_cons_eq equal)

theorem hasName_iff (cur : SsiNode) (name : Bytes) :
    cur.hasName name = true ↔ ∃ own, cur.item.name = some own ∧ foldName own = foldName name := by
  rw [SsiNode.hasName, Option.any_eq_true]
  constructor
  · rintro ⟨own, isName, compares⟩
    exact ⟨own, isName, (nameCompareLoop_zero_iff own name).mp (of_decide_eq_true compares)⟩
  · rintro ⟨own, isName, same⟩
    exact ⟨own, isName, decide_eq_true ((nameCompareLoop_zero_iff own name).mpr same)⟩

def listed (data : List AimTlv) : Bytes := (aimTlvGettlv data 0x00c8).elim [] AimTlv.value

theorem listed_replace (data : List AimTlv) (length : UInt16) (value : Bytes) :
    listed (aimTlvlistReplaceRaw 0x00c8 length value data) = value.take length.toNat := by
  have found : aimTlvGettlv (aimTlvlistReplaceRaw 0x00c8 length value data) 0x00c8 =
      some (createtlv 0x00c8 length value) := by
    induction data with
    | nil => rfl
    | cons tlv rest ih =>
      rw [aimTlvlistReplaceRaw]
      by_cases here : tlv.type = 0x00c8
      · rw [if_pos here]
        rfl
      · rw [if_neg here, aimTlvGettlv, find?_cons, decide_eq_false here]
        exact ih
  rw [listed, found]
  rfl

def idBytes (ids : List UInt16) : Bytes := ids.flatMap aimutilPut16

theorem idBytes_length (ids : List UInt16) : (idBytes ids).length = 2 * ids.length := by
  induction ids with
  | nil => rfl
  | cons id ids ih =>
    rw [idBytes, flatMap_cons, length_append, aimutilPut16_length, length_cons]
    change 2 + (idBytes ids).length = _
    rw [ih]
    omega

theorem listed_rebuilt (data : List AimTlv) {ids : List UInt16} (few : ids.length < 32768) :
    listed (aimTlvlistReplaceRaw 0x00c8 (UInt16.ofNat (2 * ids.length)) (idBytes ids) data) =
      idBytes ids := by
  have fits : (UInt16.ofNat (2 * ids.length)).toNat = (idBytes ids).length := by
    rw [UInt16.toNat_ofNat', idBytes_length]
    omega
  rw [listed_replace, fits, take_length]

structure Shape (list : List SsiNode) : Prop where
  ascending : Ascending list
  addresses : (list.map SsiNode.address).Nodup
  groups : ∀ cur ∈ list, cur.item.type = typeGroup →
    cur.item.bid = 0 ∧ (cur.item.gid = 0 ↔ cur.item.name = none)
  others : ∀ cur ∈ list, cur.item.type ≠ typeGroup → cur.item.bid ≠ 0
  buddies : ∀ cur ∈ list, cur.item.type = typeBuddy →
    cur.item.gid ≠ 0 ∧ cur.item.name ≠ none ∧ groupTaken list cur.item.gid = true
  roots : ∀ cur ∈ list, cur.item.type ≠ typeGroup → cur.item.type ≠ typeBuddy → cur.item.gid = 0
  apart : ∀ cur ∈ list, cur.item.type ≠ typeGroup → cur.item.gid = 0 →
    groupTaken list cur.item.bid = false
  master : ∀ cur ∈ list, cur.item.type = typeGroup → groupTaken list 0 = true
  names : ∀ first ∈ list, ∀ second ∈ list, first.item.type = typeGroup →
    second.item.type = typeGroup → ∀ name1 name2, first.item.name = some name1 →
      second.item.name = some name2 → foldName name1 = foldName name2 →
        first.item.gid = second.item.gid
  few : ∀ gid, (memberIds list gid).length < 32768

def Lists (list : List SsiNode) (gid : UInt16) : Prop :=
  ∀ cur ∈ list, cur.item.type = typeGroup → cur.item.gid = gid →
    listed cur.item.data = idBytes (memberIds list gid)

def Occupied (list : List SsiNode) (gid : UInt16) : Prop :=
  gid ≠ 0 → groupTaken list gid = true → buddyIds list gid ≠ []

structure LocalKept (list : List SsiNode) : Prop where
  shape : Shape list
  lists : ∀ gid, Lists list gid
  occupied : ∀ gid, Occupied list gid

theorem groupTaken_iff (list : List SsiNode) (gid : UInt16) :
    groupTaken list gid = true ↔
      ∃ cur ∈ list, cur.item.type = typeGroup ∧ cur.item.gid = gid := by
  rw [groupTaken, List.any_eq_true]
  simp only [decide_eq_true_eq]

theorem Shape.group_unique (shape : Shape list) {first second : SsiNode} (isFirst : first ∈ list)
    (isSecond : second ∈ list) (firstGroup : first.item.type = typeGroup)
    (secondGroup : second.item.type = typeGroup) (same : first.item.gid = second.item.gid) :
    first = second := by
  refine shape.ascending.unique isFirst isSecond ((sameId_iff _ _).mp ⟨same, ?_⟩)
  rw [(shape.groups first isFirst firstGroup).1, (shape.groups second isSecond secondGroup).1]

def isMember (gid : UInt16) (cur : SsiNode) : Bool :=
  if gid = 0 then cur.item.type = typeGroup ∧ cur.item.gid ≠ 0
  else cur.item.gid = gid ∧ cur.item.type = typeBuddy

def memberId (gid : UInt16) (cur : SsiNode) : UInt16 :=
  if gid = 0 then cur.item.gid else cur.item.bid

theorem memberIds_eq (list : List SsiNode) (gid : UInt16) :
    memberIds list gid = (list.filter (isMember gid)).map (memberId gid) := by
  unfold memberIds isMember memberId
  by_cases root : gid = 0
  · simp only [if_pos root]
    rfl
  · simp only [if_neg root]
    rfl

theorem memberIds_eq_nil_iff (list : List SsiNode) (gid : UInt16) :
    memberIds list gid = [] ↔ ∀ cur ∈ list, isMember gid cur = false := by
  rw [memberIds_eq, map_eq_nil_iff, filter_eq_nil_iff]
  exact forall₂_congr fun _ _ => Bool.eq_false_iff.symm

/-! ### Writing the chain of one item -/

section SetData

variable (address : Nat) (data : List AimTlv)

variable {list : List SsiNode}

@[simp] theorem setData_address (cur : SsiNode) :
    (setData address data cur).address = cur.address := by
  rw [setData]
  split <;> rfl

@[simp] theorem setData_name (cur : SsiNode) :
    (setData address data cur).item.name = cur.item.name := by
  rw [setData]
  split <;> rfl

@[simp] theorem setData_gid (cur : SsiNode) :
    (setData address data cur).item.gid = cur.item.gid := by
  rw [setData]
  split <;> rfl

@[simp] theorem setData_bid (cur : SsiNode) :
    (setData address data cur).item.bid = cur.item.bid := by
  rw [setData]
  split <;> rfl

@[simp] theorem setData_type (cur : SsiNode) :
    (setData address data cur).item.type = cur.item.type := by
  rw [setData]
  split <;> rfl

theorem groupTaken_setData (list : List SsiNode) (gid : UInt16) :
    groupTaken (list.map (setData address data)) gid = groupTaken list gid := by
  rw [groupTaken, groupTaken, List.any_map]
  simp only [Function.comp_def, setData_type, setData_gid]

theorem memberIds_setData (list : List SsiNode) (gid : UInt16) :
    memberIds (list.map (setData address data)) gid = memberIds list gid := by
  have kept : isMember gid ∘ setData address data = isMember gid := by
    funext cur
    simp only [Function.comp_def, isMember, setData_type, setData_gid]
  have ids : memberId gid ∘ setData address data = memberId gid := by
    funext cur
    simp only [Function.comp_def, memberId, setData_gid, setData_bid]
  rw [memberIds_eq, memberIds_eq, List.filter_map, List.map_map, kept, ids]

theorem Shape.written (shape : Shape list) :
    Shape (list.map (setData address data)) where
  ascending := by
    rw [Ascending, pairwise_map]
    simp only [Precedes, setData_gid, setData_bid]
    exact shape.ascending
  addresses := by
    rw [List.map_map]
    simp only [Function.comp_def, setData_address]
    exact shape.addresses
  groups := by
    simp only [List.forall_mem_map, setData_type, setData_bid, setData_gid, setData_name]
    exact shape.groups
  others := by
    simp only [List.forall_mem_map, setData_type, setData_bid]
    exact shape.others
  buddies := by
    simp only [List.forall_mem_map, setData_type, setData_gid, setData_name, groupTaken_setData]
    exact shape.buddies
  roots := by
    simp only [List.forall_mem_map, setData_type, setData_gid]
    exact shape.roots
  apart := by
    simp only [List.forall_mem_map, setData_type, setData_gid, setData_bid, groupTaken_setData]
    exact shape.apart
  master := by
    simp only [List.forall_mem_map, setData_type, groupTaken_setData]
    exact shape.master
  names := by
    simp only [List.forall_mem_map, setData_type, setData_gid, setData_name]
    exact shape.names
  few := by
    simp only [memberIds_setData]
    exact shape.few

theorem Lists.written_elsewhere {gid : UInt16} (lists : Lists list gid)
    (elsewhere : ∀ cur ∈ list, cur.item.type = typeGroup → cur.item.gid = gid →
      cur.address ≠ address) : Lists (list.map (setData address data)) gid := by
  rw [Lists, List.forall_mem_map]
  intro cur member
  rw [setData_type, setData_gid, memberIds_setData]
  intro isGroup isGid
  rw [setData, if_neg (elsewhere cur member isGroup isGid)]
  exact lists cur member isGroup isGid

theorem lists_written {gid : UInt16}
    (only : ∀ cur ∈ list, cur.item.type = typeGroup → cur.item.gid = gid → cur.address = address)
    (right : listed data = idBytes (memberIds list gid)) :
    Lists (list.map (setData address data)) gid := by
  rw [Lists, List.forall_mem_map]
  intro cur member
  rw [setData_type, setData_gid, memberIds_setData]
  intro isGroup isGid
  rw [setData, if_pos (only cur member isGroup isGid)]
  exact right

end SetData

structure Rebuilt (list after : List SsiNode) (gid : UInt16) : Prop where
  shape : Shape after
  members : ∀ other, memberIds after other = memberIds list other
  taken : ∀ other, groupTaken after other = groupTaken list other
  elsewhere : ∀ other, other ≠ gid → Lists list other → Lists after other
  lists : Lists list gid ∨ memberIds list gid ≠ [] → Lists after gid
  length : after.length = list.length
  nodes : ∀ cur ∈ list, ∃ kept ∈ after, kept.item.name = cur.item.name ∧
    kept.item.gid = cur.item.gid ∧ kept.item.type = cur.item.type

theorem rebuilt_of_found (shape : Shape list) {name : Option Bytes} {group : SsiNode}
    (found : aimSsiItemlistFinditem list name none typeGroup = some group) (member : group ∈ list)
    (isGroup : group.item.type = typeGroup) :
    Rebuilt list (aimSsiItemlistRebuildgroup list name) group.item.gid := by
  rw [aimSsiItemlistRebuildgroup, found]
  dsimp only
  by_cases empty : memberIds list group.item.gid = []
  · rw [if_pos empty]
    exact ⟨shape, fun _ => rfl, fun _ => rfl, fun _ _ same => same,
      fun either => either.elim id fun nonempty => absurd empty nonempty, rfl,
      fun cur member => ⟨cur, member, rfl, rfl, rfl⟩⟩
  · rw [if_neg empty]
    have only : ∀ cur ∈ list, cur.item.type = typeGroup → cur.item.gid = group.item.gid →
        cur = group := fun cur isThere curGroup same =>
      shape.group_unique isThere member curGroup isGroup same
    refine ⟨shape.written _ _, memberIds_setData _ _ list, groupTaken_setData _ _ list,
      fun other differs lists => ?_, fun _ => ?_, length_map _, fun cur isThere =>
        ⟨_, List.mem_map_of_mem isThere, setData_name _ _ cur, setData_gid _ _ cur,
          setData_type _ _ cur⟩⟩
    · refine lists.written_elsewhere _ _ fun cur isThere _curGroup isOther same => differs ?_
      have whole : cur = group := inj_on_of_nodup_map shape.addresses isThere member same
      rw [← isOther, whole]
    · refine lists_written _ _ (fun cur isThere curGroup same => ?_)
        (listed_rebuilt _ (shape.few _))
      rw [only cur isThere curGroup same]

theorem finditem_some {gn bn : Option Bytes} {type : UInt16} {cur : SsiNode}
    (found : aimSsiItemlistFinditem list gn bn type = some cur) :
    cur ∈ list ∧ cur.item.type = type := by
  unfold aimSsiItemlistFinditem at found
  cases gn <;> cases bn <;> dsimp only at found
  all_goals
    have holds := find?_some found
    exact ⟨mem_of_find?_eq_some found, (of_decide_eq_true holds).1⟩

theorem findgroup_some {gn : Bytes} {group : SsiNode}
    (found : aimSsiItemlistFinditem list (some gn) none typeGroup = some group) :
    group.hasName gn = true := by
  have holds := find?_some found
  exact (of_decide_eq_true holds).2.2

theorem findgroup_none {gn : Bytes}
    (missing : aimSsiItemlistFinditem list (some gn) none typeGroup = none) :
    ∀ cur ∈ list, cur.item.type = typeGroup → cur.item.bid = 0 → ¬cur.hasName gn = true := by
  intro cur member isGroup zero named
  have fails := find?_eq_none.mp missing cur member
  exact fails (decide_eq_true ⟨isGroup, zero, named⟩)

theorem findmaster_some {group : SsiNode}
    (found : aimSsiItemlistFinditem list none none typeGroup = some group) :
    group.item.name = none := by
  have holds := find?_some found
  exact (of_decide_eq_true holds).2

theorem findmaster (shape : Shape list) (present : groupTaken list 0 = true) :
    ∃ master ∈ list, aimSsiItemlistFinditem list none none typeGroup = some master ∧
      master.item.type = typeGroup ∧ master.item.gid = 0 := by
  obtain ⟨cur, member, isGroup, zero⟩ := (groupTaken_iff list 0).mp present
  have unnamed := (shape.groups cur member isGroup).2.mp zero
  cases found : aimSsiItemlistFinditem list none none typeGroup with
  | none =>
    have fails := find?_eq_none.mp found cur member
    exact absurd (decide_eq_true ⟨isGroup, unnamed⟩) fails
  | some master =>
    obtain ⟨isThere, masterGroup⟩ := finditem_some found
    exact ⟨master, isThere, rfl, masterGroup,
      (shape.groups master isThere masterGroup).2.mpr (findmaster_some found)⟩

theorem findgroup (shape : Shape list) {gn : Bytes} (member : parent ∈ list)
    (isGroup : parent.item.type = typeGroup) (named : parent.hasName gn = true) :
    aimSsiItemlistFinditem list (some gn) none typeGroup = some parent := by
  cases found : aimSsiItemlistFinditem list (some gn) none typeGroup with
  | none =>
    exact absurd named (findgroup_none found parent member isGroup
      (shape.groups parent member isGroup).1)
  | some group =>
    obtain ⟨isThere, groupType⟩ := finditem_some found
    obtain ⟨name1, isName1, same1⟩ := (hasName_iff group gn).mp (findgroup_some found)
    obtain ⟨name2, isName2, same2⟩ := (hasName_iff parent gn).mp named
    have ids := shape.names group isThere parent member groupType isGroup name1 name2 isName1
      isName2 (same1.trans same2.symm)
    rw [shape.group_unique isThere member groupType isGroup ids]

/-! ### A new item -/

theorem groupTaken_insert (new : SsiNode) (list : List SsiNode) (gid : UInt16) :
    groupTaken (insertNode new list) gid = true ↔
      new.item.type = typeGroup ∧ new.item.gid = gid ∨ groupTaken list gid = true := by
  rw [groupTaken_iff, groupTaken_iff]
  constructor
  · rintro ⟨cur, member, isGroup, isGid⟩
    rcases mem_insertNode.mp member with rfl | old
    · exact .inl ⟨isGroup, isGid⟩
    · exact .inr ⟨cur, old, isGroup, isGid⟩
  · rintro (⟨isGroup, isGid⟩ | ⟨cur, old, isGroup, isGid⟩)
    · exact ⟨new, mem_insertNode.mpr (.inl rfl), isGroup, isGid⟩
    · exact ⟨cur, mem_insertNode.mpr (.inr old), isGroup, isGid⟩

theorem memberIds_insert_other (other : isMember gid new = false) (list : List SsiNode) :
    memberIds (insertNode new list) gid = memberIds list gid := by
  rw [memberIds_eq, memberIds_eq, insertNode_filter other]

theorem memberIds_insert_length (new : SsiNode) (list : List SsiNode) (gid : UInt16) :
    (memberIds (insertNode new list) gid).length ≤ (memberIds list gid).length + 1 := by
  have permuted := (insertNode_perm new list).filter (isMember gid)
  rw [memberIds_eq, memberIds_eq, length_map, length_map, permuted.length_eq,
    filter_cons]
  split
  · exact Nat.le_refl _
  · exact Nat.le_succ _

structure Fits (list : List SsiNode) (new : SsiNode) : Prop where
  address : new.address ∉ list.map SsiNode.address
  unused : ∀ cur ∈ list, orderKey cur.item ≠ orderKey new.item
  group : new.item.type = typeGroup → new.item.bid = 0 ∧
    (new.item.gid = 0 ↔ new.item.name = none) ∧
    (new.item.gid ≠ 0 → groupTaken list 0 = true) ∧
    (∀ cur ∈ list, cur.item.type ≠ typeGroup → cur.item.gid = 0 →
      cur.item.bid ≠ new.item.gid) ∧
    ∀ cur ∈ list, cur.item.type = typeGroup → ∀ name1 name2, cur.item.name = some name1 →
      new.item.name = some name2 → foldName name1 ≠ foldName name2
  other : new.item.type ≠ typeGroup → new.item.bid ≠ 0
  buddy : new.item.type = typeBuddy →
    new.item.gid ≠ 0 ∧ new.item.name ≠ none ∧ groupTaken list new.item.gid = true
  root : new.item.type ≠ typeGroup → new.item.type ≠ typeBuddy →
    new.item.gid = 0 ∧ groupTaken list new.item.bid = false
  few : ∀ gid, isMember gid new = true → (memberIds list gid).length + 1 < 32768

theorem Shape.inserted (shape : Shape list) (fits : Fits list new) :
    Shape (insertNode new list) where
  ascending := insertNode_ascending shape.ascending fits.unused
  addresses := by
    have permuted := (insertNode_perm new list).map SsiNode.address
    rw [permuted.nodup_iff, map_cons, nodup_cons]
    exact ⟨fits.address, shape.addresses⟩
  groups := by
    intro cur member isGroup
    rcases mem_insertNode.mp member with rfl | old
    · exact ⟨(fits.group isGroup).1, (fits.group isGroup).2.1⟩
    · exact shape.groups cur old isGroup
  others := by
    intro cur member notGroup
    rcases mem_insertNode.mp member with rfl | old
    · exact fits.other notGroup
    · exact shape.others cur old notGroup
  buddies := by
    intro cur member isBuddy
    rw [groupTaken_insert]
    rcases mem_insertNode.mp member with rfl | old
    · obtain ⟨notRoot, named, taken⟩ := fits.buddy isBuddy
      exact ⟨notRoot, named, .inr taken⟩
    · obtain ⟨notRoot, named, taken⟩ := shape.buddies cur old isBuddy
      exact ⟨notRoot, named, .inr taken⟩
  roots := by
    intro cur member notGroup notBuddy
    rcases mem_insertNode.mp member with rfl | old
    · exact (fits.root notGroup notBuddy).1
    · exact shape.roots cur old notGroup notBuddy
  apart := by
    intro cur member notGroup inRoot
    rw [Bool.eq_false_iff]
    intro taken
    rcases (groupTaken_insert new list _).mp taken with ⟨isGroup, same⟩ | before
    · rcases mem_insertNode.mp member with rfl | old
      · exact notGroup isGroup
      · exact (fits.group isGroup).2.2.2.1 cur old notGroup inRoot same.symm
    · rcases mem_insertNode.mp member with rfl | old
      · by_cases isBuddy : cur.item.type = typeBuddy
        · exact (fits.buddy isBuddy).1 inRoot
        · rw [(fits.root notGroup isBuddy).2] at before
          cases before
      · rw [shape.apart cur old notGroup inRoot] at before
        cases before
  master := by
    intro cur member isGroup
    rw [groupTaken_insert]
    rcases mem_insertNode.mp member with rfl | old
    · by_cases isMaster : cur.item.gid = 0
      · exact .inl ⟨isGroup, isMaster⟩
      · exact .inr ((fits.group isGroup).2.2.1 isMaster)
    · exact .inr (shape.master cur old isGroup)
  names := by
    intro first isFirst second isSecond firstGroup secondGroup name1 name2 named1 named2 same
    rcases mem_insertNode.mp isFirst with rfl | oldFirst
    · rcases mem_insertNode.mp isSecond with rfl | oldSecond
      · rfl
      · exact absurd same.symm ((fits.group firstGroup).2.2.2.2 second oldSecond secondGroup
          name2 name1 named2 named1)
    · rcases mem_insertNode.mp isSecond with rfl | oldSecond
      · exact absurd same ((fits.group secondGroup).2.2.2.2 first oldFirst firstGroup
          name1 name2 named1 named2)
      · exact shape.names first oldFirst second oldSecond firstGroup secondGroup name1 name2
          named1 named2 same
  few := by
    intro gid
    by_cases member : isMember gid new = true
    · exact Nat.lt_of_le_of_lt (memberIds_insert_length new list gid) (fits.few gid member)
    · rw [memberIds_insert_other (Bool.eq_false_iff.mpr member)]
      exact shape.few gid

theorem Lists.inserted (lists : Lists list gid) (other : isMember gid new = false)
    (fresh : new.item.type = typeGroup → new.item.gid = gid →
      listed new.item.data = idBytes (memberIds list gid)) : Lists (insertNode new list) gid := by
  intro cur member isGroup isGid
  rw [memberIds_insert_other other]
  rcases mem_insertNode.mp member with rfl | old
  · exact fresh isGroup isGid
  · exact lists cur old isGroup isGid

theorem Occupied.inserted (occupied : Occupied list gid)
    (notGroup : new.item.type = typeGroup → new.item.gid = gid → gid = 0) :
    Occupied (insertNode new list) gid := by
  intro notRoot taken
  have before : groupTaken list gid = true := by
    rcases (groupTaken_insert new list gid).mp taken with ⟨isGroup, isGid⟩ | old
    · exact absurd (notGroup isGroup isGid) notRoot
    · exact old
  intro empty
  refine occupied notRoot before ?_
  have none : memberIds (insertNode new list) gid = [] := by
    rw [memberIds, if_neg notRoot]
    exact empty
  have old : memberIds list gid = [] := by
    rw [memberIds_eq_nil_iff] at none ⊢
    exact fun cur member => none cur (mem_insertNode.mpr (.inr member))
  rw [memberIds, if_neg notRoot] at old
  exact old

/-! ### Adding to the local list -/

def newNode (address : Nat) (name : Option Bytes) (gid bid type : UInt16) (data : List AimTlv) :
    SsiNode :=
  { address, item := { name, gid, bid, type, data } }

theorem addLocal_some {malloc : Malloc} {official list : List SsiNode} {name : Option Bytes}
    {gid bid type : UInt16} {ids : UInt16 × UInt16} (data : List AimTlv)
    (chosen : chooseIds list name gid bid type = some ids) :
    ∃ address, address ∉ list.map SsiNode.address ∧
      addLocal malloc official list name gid bid type data =
        some (newNode address name ids.1 ids.2 type data,
          insertNode (newNode address name ids.1 ids.2 type data) list) := by
  refine ⟨malloc.pick ((official ++ list).map SsiNode.address), fun member => ?_, ?_⟩
  · have used : malloc.pick ((official ++ list).map SsiNode.address) ∈
        (official ++ list).map SsiNode.address := by
      have listed := mem_append_right (official.map SsiNode.address) member
      rw [← map_append] at listed
      exact listed
    exact malloc.unused _ used
  · rw [addLocal, aimSsiItemlistAdd, chosen, map_some, aimTlvlistCopy_eq]
    rfl

structure Mastered (list after : List SsiNode) : Prop where
  kept : LocalKept after
  master : groupTaken after 0 = true
  members : ∀ gid, memberIds after gid = memberIds list gid
  old : ∀ cur ∈ after, cur ∈ list ∨ cur.item.type = typeGroup ∧ cur.item.name = none
  length : after.length ≤ list.length + 1

theorem Mastered.taken {list after : List SsiNode} (mastered : Mastered list after) {gid : UInt16}
    (notRoot : gid ≠ 0) (taken : groupTaken after gid = true) : groupTaken list gid = true := by
  obtain ⟨cur, member, isGroup, isGid⟩ := (groupTaken_iff after gid).mp taken
  rcases mastered.old cur member with old | ⟨_group, unnamed⟩
  · exact (groupTaken_iff list gid).mpr ⟨cur, old, isGroup, isGid⟩
  · have zero := (mastered.kept.shape.groups cur member isGroup).2.mpr unnamed
    exact absurd (isGid.symm.trans zero) notRoot

theorem memberIds_untaken (shape : Shape list) (untaken : groupTaken list gid = false) :
    memberIds list gid = [] := by
  rw [memberIds_eq_nil_iff]
  intro cur member
  rw [Bool.eq_false_iff, isMember]
  by_cases root : gid = 0
  · rw [if_pos root]
    intro isGroup
    have master := shape.master cur member (of_decide_eq_true isGroup).1
    rw [root, master] at untaken
    cases untaken
  · rw [if_neg root]
    intro isBuddy
    obtain ⟨isGid, buddy⟩ := of_decide_eq_true isBuddy
    have taken := (shape.buddies cur member buddy).2.2
    rw [isGid, untaken] at taken
    cases taken

theorem master_isMember (address : Nat) (gid : UInt16) :
    isMember gid (newNode address none 0 0 typeGroup []) = false := by
  rw [isMember]
  split
  · rfl
  · exact decide_eq_false fun both => absurd (show typeGroup = typeBuddy from both.2) (by decide)

theorem withMaster_kept (malloc : Malloc) (official : List SsiNode) (kept : LocalKept list) :
    ∃ after, withMaster malloc official list = some after ∧ Mastered list after := by
  rw [withMaster]
  cases found : aimSsiItemlistFind list 0 0 with
  | some cur =>
    have holds := find?_some found
    have member := mem_of_find?_eq_some found
    obtain ⟨inRoot, zero⟩ := of_decide_eq_true holds
    have isGroup : cur.item.type = typeGroup := by
      by_contra notGroup
      exact kept.shape.others cur member notGroup zero
    refine ⟨list, if_neg Bool.false_ne_true, kept, ?_, fun _ => rfl, fun _ => .inl,
      Nat.le_succ _⟩
    exact (groupTaken_iff list 0).mpr ⟨cur, member, isGroup, inRoot⟩
  | none =>
    have unused : ∀ cur ∈ list, ¬(cur.item.gid = 0 ∧ cur.item.bid = 0) := by
      intro cur member both
      exact find?_eq_none.mp found cur member (decide_eq_true both)
    have untaken : groupTaken list 0 = false := by
      rw [Bool.eq_false_iff]
      intro taken
      obtain ⟨cur, member, isGroup, inRoot⟩ := (groupTaken_iff list 0).mp taken
      exact unused cur member ⟨inRoot, (kept.shape.groups cur member isGroup).1⟩
    obtain ⟨address, new, added⟩ := @addLocal_some malloc official list none 0 0 typeGroup
      (0, 0) [] rfl
    have fits : Fits list (newNode address none 0 0 typeGroup []) := by
      refine ⟨new, fun cur member same => ?_, fun _ => ⟨rfl, iff_of_true rfl rfl,
        fun notRoot => absurd rfl notRoot, fun cur member notGroup _inRoot =>
          kept.shape.others cur member notGroup, nofun⟩, fun notGroup => absurd rfl notGroup,
        nofun, fun notGroup => absurd rfl notGroup, fun gid isNew => ?_⟩
      · exact unused cur member ((sameId_iff _ _).mpr same)
      · exact absurd isNew (Bool.eq_false_iff.mp (master_isMember address gid))
    refine ⟨_, ?_, ⟨kept.shape.inserted fits, fun gid => ?_, fun gid => ?_⟩, ?_, fun gid => ?_,
      fun cur member => ?_, ?_⟩
    · rw [added]
      rfl
    · refine (kept.lists gid).inserted (master_isMember address gid) fun _isGroup isGid => ?_
      rw [← isGid]
      change listed [] = idBytes (memberIds list 0)
      rw [memberIds_untaken kept.shape untaken]
      rfl
    · exact (kept.occupied gid).inserted fun _isGroup isGid => isGid.symm
    · exact (groupTaken_insert _ _ _).mpr (.inl ⟨rfl, rfl⟩)
    · exact memberIds_insert_other (master_isMember address gid) list
    · rcases mem_insertNode.mp member with rfl | old
      · exact .inr ⟨rfl, rfl⟩
      · exact .inl old
    · exact Nat.le_of_eq (by rw [(insertNode_perm _ list).length_eq, length_cons])

/-! ### A new buddy -/

structure Parented (list : List SsiNode) (group : Bytes) (gid : UInt16) : Prop where
  shape : Shape list
  lists : ∀ other, other ≠ gid → Lists list other
  occupied : ∀ other, other ≠ gid → Occupied list other
  parent : ∃ cur ∈ list, cur.item.type = typeGroup ∧ cur.item.gid = gid ∧ cur.hasName group = true
  notRoot : gid ≠ 0
  few : (memberIds list gid).length + 1 < 32768

theorem buddyTaken_iff (list : List SsiNode) (gid bid : UInt16) :
    buddyTaken list gid bid = true ↔ ∃ cur ∈ list, cur.item.bid = bid ∧ cur.item.gid = gid := by
  rw [buddyTaken, List.any_eq_true]
  simp only [decide_eq_true_eq]

theorem mem_bids_of_buddyTaken {list : List SsiNode} {gid bid : UInt16}
    (taken : buddyTaken list gid bid = true) : bid ∈ list.map (·.item.bid) := by
  obtain ⟨cur, member, isBid, _inGroup⟩ := (buddyTaken_iff list gid bid).mp taken
  rw [← isBid]
  exact List.mem_map_of_mem (f := fun cur : SsiNode => cur.item.bid) member

theorem buddy_isMember {new : SsiNode} {gid : UInt16} (isBuddy : new.item.type = typeBuddy)
    (inGroup : new.item.gid = gid) (other : UInt16) :
    isMember other new = true ↔ other ≠ 0 ∧ other = gid := by
  rw [isMember, isBuddy, inGroup]
  by_cases root : other = 0
  · rw [if_pos root]
    exact iff_of_false (fun both => absurd (of_decide_eq_true both).1 (by decide))
      fun both => both.1 root
  · rw [if_neg root, decide_eq_true_eq]
    exact ⟨fun both => ⟨root, both.1.symm⟩, fun both => ⟨both.2.symm, rfl⟩⟩

theorem addBuddy_kept (malloc : Malloc) (official : List SsiNode)
    (parented : Parented list group gid) (small : list.length < 65536) (name : Bytes)
    (data : List AimTlv) :
    ∃ after, (addLocal malloc official list (some name) gid 0xffff typeBuddy data).map
        (fun added => aimSsiItemlistRebuildgroup added.2 (some group)) = some after ∧
      LocalKept after := by
  obtain ⟨shape, lists, occupied, ⟨parent, isThere, isGroup, isGid, named⟩, notRoot, few⟩ := parented
  have short : (list.map (·.item.bid)).length < 65536 := by
    rw [length_map]
    exact small
  obtain ⟨bid, searched⟩ := searchId_ends short fun id => @mem_bids_of_buddyTaken list gid id
  have free := (searchId_least searched).1
  have chosen : chooseIds list (some name) gid 0xffff typeBuddy = some (gid, bid) := by
    rw [chooseIds, if_neg (by decide), if_neg (not_not.mpr rfl), if_neg notRoot, searched]
    rfl
  have unused : ∀ cur ∈ list, ¬(cur.item.gid = gid ∧ cur.item.bid = bid) := by
    intro cur member both
    rw [(buddyTaken_iff list gid bid).mpr ⟨cur, member, both.2, both.1⟩] at free
    cases free
  obtain ⟨address, new, added⟩ := @addLocal_some malloc official _ _ _ _ _ _ data chosen
  have members := @buddy_isMember (newNode address (some name) gid bid typeBuddy data) gid rfl rfl
  have fits : Fits list (newNode address (some name) gid bid typeBuddy data) := by
    refine ⟨new, fun cur member same => unused cur member ((sameId_iff _ _).mpr same),
      fun isGroup => absurd (show typeBuddy = typeGroup from isGroup) (by decide),
      fun _ zero => ?_, fun _ => ⟨notRoot, nofun, ?_⟩,
      fun _ notBuddy => absurd rfl notBuddy, fun other isNew => ?_⟩
    · refine unused parent isThere ⟨isGid, ?_⟩
      rw [(shape.groups parent isThere isGroup).1]
      exact zero.symm
    · exact (groupTaken_iff list gid).mpr ⟨parent, isThere, isGroup, isGid⟩
    · rw [((members other).mp isNew).2]
      exact few
  have found := findgroup (shape.inserted fits) (mem_insertNode.mpr (.inr isThere)) isGroup named
  have rebuilt := rebuilt_of_found (shape.inserted fits) found (mem_insertNode.mpr (.inr isThere))
    isGroup
  rw [isGid] at rebuilt
  have nonempty : memberIds
      (insertNode (newNode address (some name) gid bid typeBuddy data) list) gid ≠ [] := by
    intro empty
    have none := (memberIds_eq_nil_iff _ _).mp empty _ (mem_insertNode.mpr (.inl rfl))
    rw [(members gid).mpr ⟨notRoot, rfl⟩] at none
    cases none
  refine ⟨_, by rw [added, map_some], rebuilt.shape, fun other => ?_, fun other => ?_⟩
  · by_cases own : other = gid
    · rw [own]
      exact rebuilt.lists (.inr nonempty)
    · refine rebuilt.elsewhere other own ((lists other own).inserted ?_ fun isGroup =>
        absurd (show typeBuddy = typeGroup from isGroup) (by decide))
      exact Bool.eq_false_iff.mpr fun isNew => own ((members other).mp isNew).2
  · intro notMaster taken empty
    have none : memberIds
        (insertNode (newNode address (some name) gid bid typeBuddy data) list) other = [] := by
      rw [← rebuilt.members, memberIds, if_neg notMaster]
      exact empty
    by_cases own : other = gid
    · rw [own] at none
      exact nonempty none
    · rw [rebuilt.taken] at taken
      have before : Occupied
          (insertNode (newNode address (some name) gid bid typeBuddy data) list) other :=
        (occupied other own).inserted fun isGroup =>
          absurd (show typeBuddy = typeGroup from isGroup) (by decide)
      rw [memberIds, if_neg notMaster] at none
      exact before notMaster taken none

/-! ### A new group -/

/-- Below the bid of each item in the root group there is an id that no group has. -/
def RoomBelow (list : List SsiNode) : Prop :=
  ∀ cur ∈ list, cur.item.type ≠ typeGroup → cur.item.gid = 0 →
    ∃ gid, gid ≠ 0 ∧ gid < cur.item.bid ∧ groupTaken list gid = false

theorem mem_gids_of_groupTaken {list : List SsiNode} {gid : UInt16}
    (taken : groupTaken list gid = true) : gid ∈ list.map (·.item.gid) := by
  obtain ⟨cur, member, _isGroup, isGid⟩ := (groupTaken_iff list gid).mp taken
  rw [← isGid]
  exact List.mem_map_of_mem (f := fun cur : SsiNode => cur.item.gid) member

theorem group_isMember {address : Nat} {group : Bytes} {gid : UInt16} (notRoot : gid ≠ 0)
    (other : UInt16) :
    isMember other (newNode address (some group) gid 0 typeGroup []) = true ↔ other = 0 := by
  rw [isMember]
  by_cases root : other = 0
  · rw [if_pos root]
    exact iff_of_true (decide_eq_true ⟨rfl, notRoot⟩) root
  · rw [if_neg root]
    refine iff_of_false (fun both => ?_) root
    exact absurd (show typeGroup = typeBuddy from (of_decide_eq_true both).2) (by decide)

theorem newGroup_fits {mastered : List SsiNode} (withMaster : Mastered list mastered)
    (room : RoomBelow list) (few : (groupIds list).length + 1 < 32768)
    (missing : aimSsiItemlistFinditem list (some group) none typeGroup = none)
    (free : groupTaken mastered gid = false)
    (least : ∀ id, id < gid → groupTaken mastered id = true) {address : Nat}
    (new : address ∉ mastered.map SsiNode.address) :
    gid ≠ 0 ∧ Fits mastered (newNode address (some group) gid 0 typeGroup []) := by
  have shape := withMaster.kept.shape
  have notRoot : gid ≠ 0 := by
    rintro rfl
    rw [withMaster.master] at free
    cases free
  refine ⟨notRoot, new, fun cur member same => ?_, fun _ => ⟨rfl, iff_of_false notRoot nofun,
    fun _ => withMaster.master, fun cur member notGroup inRoot isGid => ?_,
    fun cur member isGroup name1 name2 named1 named2 same => ?_⟩,
    fun notGroup => absurd rfl notGroup,
    fun isBuddy => absurd (show typeGroup = typeBuddy from isBuddy) (by decide),
    fun notGroup => absurd rfl notGroup, fun other isNew => ?_⟩
  · -- the id is new: only a group has the buddy ID 0
    obtain ⟨sameGid, zero⟩ := (sameId_iff _ _).mpr same
    by_cases isGroup : cur.item.type = typeGroup
    · rw [(groupTaken_iff mastered gid).mpr ⟨cur, member, isGroup, sameGid⟩] at free
      cases free
    · exact shape.others cur member isGroup zero
  · -- an item in the root group would have the least free id
    have old : cur ∈ list := (withMaster.old cur member).resolve_right fun both =>
      notGroup both.1
    obtain ⟨id, idNotRoot, below, untaken⟩ := room cur old notGroup inRoot
    rw [isGid] at below
    rw [withMaster.taken idNotRoot (least id below)] at untaken
    cases untaken
  · cases named2
    rcases withMaster.old cur member with old | ⟨_group, unnamed⟩
    · exact findgroup_none missing cur old isGroup (shape.groups cur member isGroup).1
        ((hasName_iff cur group).mpr ⟨name1, named1, same⟩)
    · rw [named1] at unnamed
      cases unnamed
  · rw [(group_isMember notRoot other).mp isNew, withMaster.members]
    exact few

theorem newGroup_parented (malloc : Malloc) (official : List SsiNode) {mastered : List SsiNode}
    (withMaster : Mastered list mastered) (small : mastered.length < 65536)
    (room : RoomBelow list) (few : (groupIds list).length + 1 < 32768)
    (missing : aimSsiItemlistFinditem list (some group) none typeGroup = none) :
    ∃ new added, addLocal malloc official mastered (some group) 0xffff 0 typeGroup [] =
        some (new, added) ∧
      Parented (aimSsiItemlistRebuildgroup added none) group new.item.gid ∧
      (aimSsiItemlistRebuildgroup added none).length = mastered.length + 1 := by
  have kept := withMaster.kept
  have short : (mastered.map (·.item.gid)).length < 65536 := by
    rw [length_map]
    exact small
  obtain ⟨gid, searched⟩ := searchId_ends short fun id => @mem_gids_of_groupTaken mastered id
  obtain ⟨free, least⟩ := searchId_least searched
  have chosen : chooseIds mastered (some group) 0xffff 0 typeGroup = some (gid, 0) := by
    rw [chooseIds, if_pos rfl, if_pos ⟨rfl, nofun⟩, searched]
    rfl
  obtain ⟨address, unused, added⟩ := @addLocal_some malloc official _ _ _ _ _ _ [] chosen
  obtain ⟨notRoot, fits⟩ := newGroup_fits withMaster room few missing free least unused
  have shape := kept.shape.inserted fits
  obtain ⟨master, isThere, found, isGroup, zero⟩ :=
    findmaster shape ((groupTaken_insert _ _ _).mpr (.inr withMaster.master))
  have rebuilt := rebuilt_of_found shape found isThere isGroup
  rw [zero] at rebuilt
  have isMember0 := (@group_isMember address group gid notRoot 0).mpr rfl
  have nonempty : memberIds
      (insertNode (newNode address (some group) gid 0 typeGroup []) mastered) 0 ≠ [] := by
    intro empty
    have none := (memberIds_eq_nil_iff _ _).mp empty _ (mem_insertNode.mpr (.inl rfl))
    rw [isMember0] at none
    cases none
  have notMember : ∀ other, other ≠ 0 →
      isMember other (newNode address (some group) gid 0 typeGroup []) = false :=
    fun other differs => Bool.eq_false_iff.mpr fun isNew =>
      differs ((group_isMember notRoot other).mp isNew)
  refine ⟨_, _, added, ⟨rebuilt.shape, fun other differs => ?_, fun other differs => ?_, ?_,
    notRoot, ?_⟩, ?_⟩
  · by_cases root : other = 0
    · rw [root]
      exact rebuilt.lists (.inr nonempty)
    · exact rebuilt.elsewhere other root ((kept.lists other).inserted (notMember other root)
        fun _isGroup isGid => absurd isGid.symm differs)
  · intro notMaster taken empty
    rw [rebuilt.taken] at taken
    have members := rebuilt.members other
    rw [memberIds, if_neg notMaster, empty, memberIds, if_neg notMaster] at members
    have before : Occupied
        (insertNode (newNode address (some group) gid 0 typeGroup []) mastered) other :=
      (kept.occupied other).inserted fun _isGroup isGid => absurd isGid.symm differs
    exact before notMaster taken members.symm
  · obtain ⟨parent, member, sameName, sameGid, sameType⟩ :=
      rebuilt.nodes _ (mem_insertNode.mpr (.inl rfl))
    exact ⟨parent, member, sameType, sameGid, (hasName_iff parent group).mpr ⟨group, sameName, rfl⟩⟩
  · change (memberIds _ gid).length + 1 < 32768
    rw [rebuilt.members, memberIds_insert_other (notMember gid notRoot),
      memberIds_untaken kept.shape free]
    decide
  · rw [rebuilt.length, (insertNode_perm _ _).length_eq, length_cons]

structure AdmitsBuddy (list : List SsiNode) (group : Bytes) : Prop where
  small : list.length < 65534
  room : ∀ parent, aimSsiItemlistFinditem list (some group) none typeGroup = some parent →
    (buddyIds list parent.item.gid).length + 1 < 32768
  newGroup : aimSsiItemlistFinditem list (some group) none typeGroup = none →
    (groupIds list).length + 1 < 32768 ∧ RoomBelow list

structure KeptBut (list : List SsiNode) (gid : UInt16) : Prop where
  shape : Shape list
  lists : ∀ other, other ≠ gid → Lists list other
  occupied : ∀ other, other ≠ gid → Occupied list other

theorem LocalKept.but (kept : LocalKept list) (gid : UInt16) : KeptBut list gid :=
  ⟨kept.shape, fun other _ => kept.lists other, fun other _ => kept.occupied other⟩

theorem named_notRoot (shape : Shape list) (member : parent ∈ list)
    (isGroup : parent.item.type = typeGroup) (named : parent.hasName group = true) :
    parent.item.gid ≠ 0 := by
  intro zero
  obtain ⟨own, isName, _same⟩ := (hasName_iff parent group).mp named
  rw [(shape.groups parent member isGroup).2.mp zero] at isName
  cases isName

theorem addbuddyList_found (malloc : Malloc) (official : List SsiNode)
    (found : aimSsiItemlistFinditem list (some group) none typeGroup = some parent)
    (kept : KeptBut list parent.item.gid) (admits : AdmitsBuddy list group) (name : Bytes)
    (data : List AimTlv) :
    ∃ after, addbuddyList malloc official list name group data = some after ∧ LocalKept after := by
  obtain ⟨member, isGroup⟩ := finditem_some found
  have named := findgroup_some found
  have notRoot := named_notRoot kept.shape member isGroup named
  have few := admits.room parent found
  have members : memberIds list parent.item.gid = buddyIds list parent.item.gid := by
    rw [memberIds, if_neg notRoot]
  have parented : Parented list group parent.item.gid :=
    ⟨kept.shape, kept.lists, kept.occupied, ⟨parent, member, isGroup, rfl, named⟩, notRoot,
      members ▸ few⟩
  have small := admits.small
  obtain ⟨after, added, keeps⟩ :=
    addBuddy_kept malloc official parented (by omega) name data
  refine ⟨after, ?_, keeps⟩
  rw [addbuddyList, withParent, found]
  exact added

theorem addbuddyList_kept (malloc : Malloc) (official : List SsiNode) (kept : LocalKept list)
    (admits : AdmitsBuddy list group) (name : Bytes) (data : List AimTlv) :
    ∃ after, addbuddyList malloc official list name group data = some after ∧ LocalKept after := by
  cases found : aimSsiItemlistFinditem list (some group) none typeGroup with
  | some parent => exact addbuddyList_found malloc official found (kept.but _) admits name data
  | none =>
    obtain ⟨few, room⟩ := admits.newGroup found
    have small := admits.small
    obtain ⟨mastered, ensured, withMaster⟩ := withMaster_kept malloc official kept
    have bound := withMaster.length
    obtain ⟨new, added, isNew, parented, length⟩ :=
      newGroup_parented malloc official withMaster (by omega) room few found
    obtain ⟨after, adds, keeps⟩ := addBuddy_kept malloc official parented (by omega) name data
    refine ⟨after, ?_, keeps⟩
    rw [addbuddyList, withParent, found, elim_none, ensured, bind_some, isNew]
    exact adds

/-- The id that an item can keep a new one in the root group from having. -/
def blockedId (cur : SsiNode) : UInt16 :=
  if cur.item.type = typeGroup then cur.item.gid else cur.item.bid

theorem rootTaken_iff (list : List SsiNode) (bid : UInt16) :
    rootTaken list bid = true ↔ ∃ cur ∈ list, cur.item.bid = bid ∨ cur.item.gid = bid := by
  rw [rootTaken, List.any_eq_true]
  simp only [decide_eq_true_eq]

theorem mem_blocked_of_groupTaken (taken : groupTaken list gid = true) :
    gid ∈ list.map blockedId := by
  obtain ⟨cur, member, isGroup, isGid⟩ := (groupTaken_iff list gid).mp taken
  refine List.mem_map.mpr ⟨cur, member, ?_⟩
  rw [blockedId, if_pos isGroup, isGid]

theorem mem_blocked_of_rootTaken {list : List SsiNode} (shape : Shape list)
    (master : groupTaken list 0 = true) {bid : UInt16} (taken : rootTaken list bid = true) :
    bid ∈ list.map blockedId := by
  obtain ⟨cur, member, either⟩ := (rootTaken_iff list bid).mp taken
  by_cases isGroup : cur.item.type = typeGroup
  · rcases either with isBid | isGid
    · rw [← isBid, (shape.groups cur member isGroup).1]
      exact mem_blocked_of_groupTaken master
    · exact mem_blocked_of_groupTaken
        ((groupTaken_iff list bid).mpr ⟨cur, member, isGroup, isGid⟩)
  · rcases either with isBid | isGid
    · refine List.mem_map.mpr ⟨cur, member, ?_⟩
      rw [blockedId, if_neg isGroup, isBid]
    · rw [← isGid]
      by_cases isBuddy : cur.item.type = typeBuddy
      · exact mem_blocked_of_groupTaken (shape.buddies cur member isBuddy).2.2
      · rw [shape.roots cur member isGroup isBuddy]
        exact mem_blocked_of_groupTaken master

theorem private_isMember {cur : SsiNode} (notBuddy : cur.item.type ≠ typeBuddy)
    (notGroup : cur.item.type ≠ typeGroup) (gid : UInt16) : isMember gid cur = false := by
  rw [isMember]
  split
  · exact decide_eq_false fun both => notGroup both.1
  · exact decide_eq_false fun both => notBuddy both.2

theorem addToPrivateList_kept (malloc : Malloc) (official : List SsiNode) (kept : LocalKept list)
    (small : list.length < 65534) (name : Bytes) {type : UInt16} (notBuddy : type ≠ typeBuddy)
    (notGroup : type ≠ typeGroup) :
    ∃ after, addToPrivateList malloc official list name type = some after ∧ LocalKept after := by
  obtain ⟨mastered, ensured, withMaster⟩ := withMaster_kept malloc official kept
  have bound := withMaster.length
  have shape := withMaster.kept.shape
  have short : (mastered.map blockedId).length < 65536 := by
    rw [length_map]
    omega
  obtain ⟨bid, searched⟩ := searchId_ends short fun id =>
    @mem_blocked_of_rootTaken mastered shape withMaster.master id
  have free := (searchId_least searched).1
  have unused : ∀ cur ∈ mastered, ¬(cur.item.bid = bid ∨ cur.item.gid = bid) := by
    intro cur member either
    rw [(rootTaken_iff mastered bid).mpr ⟨cur, member, either⟩] at free
    cases free
  have chosen : chooseIds mastered (some name) 0 0xffff type = some (0, bid) := by
    rw [chooseIds, if_neg notGroup, if_neg (not_not.mpr rfl), if_pos rfl, searched]
    rfl
  obtain ⟨address, new, added⟩ := @addLocal_some malloc official _ _ _ _ _ _ [] chosen
  have notMember := @private_isMember (newNode address (some name) 0 bid type []) notBuddy notGroup
  have untaken : groupTaken mastered bid = false := by
    rw [Bool.eq_false_iff]
    intro taken
    obtain ⟨cur, member, _isGroup, isGid⟩ := (groupTaken_iff mastered bid).mp taken
    exact unused cur member (.inr isGid)
  have fits : Fits mastered (newNode address (some name) 0 bid type []) := by
    refine ⟨new, fun cur member same => ?_, fun isGroup => absurd isGroup notGroup, fun _ zero => ?_,
      fun isBuddy => absurd isBuddy notBuddy, fun _ _ => ⟨rfl, untaken⟩, fun gid isNew => ?_⟩
    · exact unused cur member (.inl ((sameId_iff _ _).mpr same).2)
    · have isZero : bid = 0 := zero
      rw [isZero, withMaster.master] at untaken
      cases untaken
    · rw [notMember gid] at isNew
      cases isNew
  refine ⟨insertNode (newNode address (some name) 0 bid type []) mastered, ?_, shape.inserted fits,
    fun gid => ?_, fun gid => ?_⟩
  · rw [addToPrivateList, ensured, bind_some, added]
    rfl
  · exact (withMaster.kept.lists gid).inserted (notMember gid) fun isGroup => absurd isGroup notGroup
  · exact (withMaster.kept.occupied gid).inserted fun isGroup => absurd isGroup notGroup

end Purple.Oscar
