/-
Edits of the local list, from family_feedbag.c.

Each edit first changes the local list alone and then syncs.  `localAfter` is the
list that a call leaves; what it sends is up to the syncs in `perform`.
-/

import Purple.Oscar.Feedbag

namespace Purple.Oscar

open Option

/-- The loop that adds one to an id until it is not taken.  There are 65536 ids. -/
def searchId (taken : UInt16 → Bool) : Nat → UInt16 → Option UInt16
  | 0, _ => none
  | rounds + 1, id =>
    if taken (id + 1) then searchId taken rounds (id + 1) else some (id + 1)

def groupTaken (list : List SsiNode) (gid : UInt16) : Bool :=
  list.any fun cur => cur.item.type = typeGroup ∧ cur.item.gid = gid

/-- Items in the root group cannot have the buddy ID of another item, or any group ID. -/
def rootTaken (list : List SsiNode) (bid : UInt16) : Bool :=
  list.any fun cur => cur.item.bid = bid ∨ cur.item.gid = bid

def buddyTaken (list : List SsiNode) (gid bid : UInt16) : Bool :=
  list.any fun cur => cur.item.bid = bid ∧ cur.item.gid = gid

def chooseIds (list : List SsiNode) (name : Option Bytes) (gid bid type : UInt16) :
    Option (UInt16 × UInt16) :=
  if type = typeGroup then
    if gid = 0xffff ∧ name ≠ none then
      (searchId (groupTaken list) 65536 gid).map fun gid => (gid, bid)
    else some (gid, bid)
  else if bid ≠ 0xffff then some (gid, bid)
  else if gid = 0 then (searchId (rootTaken list) 65536 bid).map fun bid => (gid, bid)
  else (searchId (buddyTaken list gid) 65536 bid).map fun bid => (gid, bid)

def Precedes (first second : AimSsiItem) : Prop :=
  first.gid < second.gid ∨ first.gid = second.gid ∧ first.bid < second.bid

instance (first second : AimSsiItem) : Decidable (Precedes first second) :=
  inferInstanceAs (Decidable (_ ∨ _))

def insertBehind (new : SsiNode) : List SsiNode → List SsiNode
  | [] => [new]
  | cur :: rest =>
    if Precedes cur.item new.item then cur :: insertBehind new rest else new :: cur :: rest

def insertNode (new : SsiNode) : List SsiNode → List SsiNode
  | [] => [new]
  | head :: rest =>
    if Precedes new.item head.item then new :: head :: rest else head :: insertBehind new rest

def aimSsiItemlistAdd (address : Nat) (list : List SsiNode) (name : Option Bytes)
    (gid bid type : UInt16) (data : List AimTlv) : Option (SsiNode × List SsiNode) :=
  (chooseIds list name gid bid type).map fun ids =>
    let new : SsiNode :=
      { address
        item := { name, gid := ids.1, bid := ids.2, type, data := aimTlvlistCopy data } }
    (new, insertNode new list)

def aimSsiItemlistDel (list : List SsiNode) (del : Nat) : List SsiNode :=
  list.filter fun cur => cur.address ≠ del

def setData (address : Nat) (data : List AimTlv) (cur : SsiNode) : SsiNode :=
  if cur.address = address then { cur with item := { cur.item with data } } else cur

def groupIds (list : List SsiNode) : List UInt16 :=
  (list.filter fun cur => cur.item.type = typeGroup ∧ cur.item.gid ≠ 0).map (·.item.gid)

def buddyIds (list : List SsiNode) (gid : UInt16) : List UInt16 :=
  (list.filter fun cur => cur.item.gid = gid ∧ cur.item.type = typeBuddy).map (·.item.bid)

def memberIds (list : List SsiNode) (gid : UInt16) : List UInt16 :=
  if gid = 0 then groupIds list else buddyIds list gid

/-- The length of the TLV is a `guint16`. -/
def aimSsiItemlistRebuildgroup (list : List SsiNode) (name : Option Bytes) : List SsiNode :=
  match aimSsiItemlistFinditem list name none typeGroup with
  | none => list
  | some group =>
    let ids := memberIds list group.item.gid
    if ids = [] then list
    else
      list.map (setData group.address (aimTlvlistReplaceRaw 0x00c8
        (UInt16.ofNat (2 * ids.length)) (ids.flatMap aimutilPut16) group.item.data))

section Local

variable (malloc : Malloc) (official : List SsiNode)

def addLocal (list : List SsiNode) (name : Option Bytes) (gid bid type : UInt16)
    (data : List AimTlv) : Option (SsiNode × List SsiNode) :=
  aimSsiItemlistAdd (malloc.pick ((official ++ list).map SsiNode.address)) list name gid bid type
    data

/-- The list with the master group, which is added where nothing has its ids. -/
def withMaster (list : List SsiNode) : Option (List SsiNode) :=
  if (aimSsiItemlistFind list 0 0).isNone then
    (addLocal malloc official list none 0 0 typeGroup []).map Prod.snd
  else some list

def withParent (list : List SsiNode) (group : Bytes) : Option (SsiNode × List SsiNode) :=
  (aimSsiItemlistFinditem list (some group) none typeGroup).elim
    ((withMaster malloc official list).bind fun list =>
      (addLocal malloc official list (some group) 0xffff 0 typeGroup []).map fun added =>
        (added.1, aimSsiItemlistRebuildgroup added.2 none))
    fun parent => some (parent, list)

def buddyData (data : List AimTlv) (nickname comment smsnum : Option Bytes) (needauth : Bool) :
    List AimTlv :=
  let data := if needauth then aimTlvlistAddNoval data 0x0066 else data
  let data := nickname.elim data (aimTlvlistAddStr data 0x0131)
  let data := smsnum.elim data (aimTlvlistAddStr data 0x013a)
  comment.elim data (aimTlvlistAddStr data 0x013c)

def addbuddyList (list : List SsiNode) (name group : Bytes) (data : List AimTlv) :
    Option (List SsiNode) :=
  (withParent malloc official list group).bind fun found =>
    (addLocal malloc official found.2 (some name) found.1.item.gid 0xffff typeBuddy data).map
      fun added => aimSsiItemlistRebuildgroup added.2 (some group)

def addToPrivateList (list : List SsiNode) (name : Bytes) (type : UInt16) :
    Option (List SsiNode) :=
  (withMaster malloc official list).bind fun list =>
    (addLocal malloc official list (some name) 0 0xffff type []).map Prod.snd

end Local

/-- `none` where there is no such item. -/
def delFromPrivateList (list : List SsiNode) (name : Option Bytes) (type : UInt16) :
    Option (List SsiNode) :=
  (aimSsiItemlistFinditem list none name type).map fun del => aimSsiItemlistDel list del.address

def delbuddyList (list : List SsiNode) (name group : Option Bytes) : Option (List SsiNode) :=
  (aimSsiItemlistFinditem list group name typeBuddy).map fun del =>
    aimSsiItemlistRebuildgroup (aimSsiItemlistDel list del.address) group

def emptyGroup (data : List AimTlv) : Bool :=
  (aimTlvGettlv data 0x00c8).all fun tlv => tlv.length = 0

/-- `none` where there is no such group, or it is not empty. -/
def delgroupList (list : List SsiNode) (group : Option Bytes) : Option (List SsiNode) :=
  (aimSsiItemlistFinditem list group none typeGroup).bind fun del =>
    if emptyGroup del.item.data then
      some (aimSsiItemlistRebuildgroup (aimSsiItemlistDel list del.address) group)
    else none

/-- Sets a string in a chain, or removes it where it is NULL or empty. -/
def editedText (type : UInt16) (text : Option Bytes) (data : List AimTlv) : List AimTlv :=
  match text with
  | some (char :: rest) => aimTlvlistReplaceStr type (char :: rest) data
  | _ => aimTlvlistRemove data type

/-- `type` is 0x0131 or 0x013c. -/
def editText (type : UInt16) (list : List SsiNode) (gn bn : Bytes) (text : Option Bytes) :
    Option (List SsiNode) :=
  (aimSsiItemlistFinditem list (some gn) (some bn) typeBuddy).map fun tmp =>
    list.map (setData tmp.address (editedText type text tmp.item.data))

section Calls

variable (malloc : Malloc) (od : OscarData)

def aimSsiAddbuddy (name group : Option Bytes) (data : List AimTlv)
    (nickname comment smsnum : Option Bytes) (needauth : Bool) : Option OscarData :=
  match name, group with
  | some name, some group =>
    (addbuddyList malloc od.official od.localList name group
      (buddyData data nickname comment smsnum needauth)).bind fun localList =>
        aimSsiSync malloc { od with localList }
  | _, _ => some od

def aimSsiAddToPrivateList (name : Option Bytes) (type : UInt16) : Option OscarData :=
  match name with
  | some name =>
    if od.receivedData then
      (addToPrivateList malloc od.official od.localList name type).bind fun localList =>
        aimSsiSync malloc { od with localList }
    else some od
  | none => some od

def syncEdited (edited : Option (List SsiNode)) : Option OscarData :=
  edited.elim (some od) fun localList => aimSsiSync malloc { od with localList }

def aimSsiDelFromPrivateList (name : Option Bytes) (type : UInt16) : Option OscarData :=
  syncEdited malloc od (delFromPrivateList od.localList name type)

def aimSsiDelbuddy (name group : Option Bytes) : Option OscarData :=
  syncEdited malloc od (delbuddyList od.localList name group)

def aimSsiDelgroup (group : Option Bytes) : Option OscarData :=
  syncEdited malloc od (delgroupList od.localList group)

def aimSsiMovebuddy (oldgn newgn bn : Option Bytes) : Option OscarData :=
  (aimSsiItemlistFinditem od.localList oldgn bn typeBuddy).elim (some od) fun buddy =>
    (aimSsiDelbuddy malloc od bn oldgn).bind fun od =>
      aimSsiAddbuddy malloc od bn newgn (aimTlvlistCopy buddy.item.data) none none none false

def aimSsiAliasbuddy (gn bn nickname : Option Bytes) : Option OscarData :=
  match gn, bn with
  | some gn, some bn => syncEdited malloc od (editText 0x0131 od.localList gn bn nickname)
  | _, _ => some od

def aimSsiEditcomment (gn bn comment : Option Bytes) : Option OscarData :=
  match gn, bn with
  | some gn, some bn => syncEdited malloc od (editText 0x013c od.localList gn bn comment)
  | _, _ => some od

end Calls

inductive SsiCall where
  | addbuddy (name group : Option Bytes) (data : List AimTlv)
      (nickname comment smsnum : Option Bytes) (needauth : Bool)
  | delbuddy (name group : Option Bytes)
  | movebuddy (oldgn newgn bn : Option Bytes)
  | aliasbuddy (gn bn nickname : Option Bytes)
  | editcomment (gn bn comment : Option Bytes)
  | delgroup (group : Option Bytes)
  | addToPrivateList (name : Option Bytes) (type : UInt16)
  | delFromPrivateList (name : Option Bytes) (type : UInt16)

def perform (malloc : Malloc) (od : OscarData) : SsiCall → Option OscarData
  | .addbuddy name group data nickname comment smsnum needauth =>
    aimSsiAddbuddy malloc od name group data nickname comment smsnum needauth
  | .delbuddy name group => aimSsiDelbuddy malloc od name group
  | .movebuddy oldgn newgn bn => aimSsiMovebuddy malloc od oldgn newgn bn
  | .aliasbuddy gn bn nickname => aimSsiAliasbuddy malloc od gn bn nickname
  | .editcomment gn bn comment => aimSsiEditcomment malloc od gn bn comment
  | .delgroup group => aimSsiDelgroup malloc od group
  | .addToPrivateList name type => aimSsiAddToPrivateList malloc od name type
  | .delFromPrivateList name type => aimSsiDelFromPrivateList malloc od name type

def addedBuddy (malloc : Malloc) (official list : List SsiNode) (name group : Option Bytes)
    (data : List AimTlv) : Option (List SsiNode) :=
  match name, group with
  | some name, some group => addbuddyList malloc official list name group data
  | _, _ => some list

def localAfter (malloc : Malloc) (receivedData : Bool) (official list : List SsiNode) :
    SsiCall → Option (List SsiNode)
  | .addbuddy name group data nickname comment smsnum needauth =>
    addedBuddy malloc official list name group (buddyData data nickname comment smsnum needauth)
  | .delbuddy name group => some ((delbuddyList list name group).getD list)
  | .movebuddy oldgn newgn bn =>
    (aimSsiItemlistFinditem list oldgn bn typeBuddy).elim (some list) fun buddy =>
      addedBuddy malloc official ((delbuddyList list bn oldgn).getD list) bn newgn
        (buddyData (aimTlvlistCopy buddy.item.data) none none none false)
  | .aliasbuddy (some gn) (some bn) nickname =>
    some ((editText 0x0131 list gn bn nickname).getD list)
  | .aliasbuddy _ _ _ => some list
  | .editcomment (some gn) (some bn) comment =>
    some ((editText 0x013c list gn bn comment).getD list)
  | .editcomment _ _ _ => some list
  | .delgroup group => some ((delgroupList list group).getD list)
  | .addToPrivateList (some name) type =>
    if receivedData then addToPrivateList malloc official list name type else some list
  | .addToPrivateList none _ => some list
  | .delFromPrivateList name type => some ((delFromPrivateList list name type).getD list)

theorem aimSsiAddmoddel_keeps {od after : OscarData} (sent : aimSsiAddmoddel od = some after) :
    after.localList = od.localList ∧ after.official = od.official ∧
      after.receivedData = od.receivedData := by
  unfold aimSsiAddmoddel at sent
  split at sent
  · obtain ⟨items, _read, rfl⟩ := map_eq_some_iff.mp sent
    exact ⟨rfl, rfl, rfl⟩
  · cases sent
    exact ⟨rfl, rfl, rfl⟩

theorem aimSsiSync_keeps {malloc : Malloc} {od after : OscarData}
    (synced : aimSsiSync malloc od = some after) :
    after.localList = od.localList ∧ after.official = od.official ∧
      after.receivedData = od.receivedData := by
  rw [aimSsiSync] at synced
  by_cases waits : od.waitingForAck = true
  · rw [if_pos waits] at synced
    cases synced
    exact ⟨rfl, rfl, rfl⟩
  · rw [if_neg waits] at synced
    obtain ⟨pending, _found, synced⟩ := bind_eq_some_iff.mp synced
    by_cases empty : pending = []
    · rw [if_pos empty] at synced
      cases synced
      exact ⟨rfl, rfl, rfl⟩
    · rw [if_neg empty] at synced
      have keeps := aimSsiAddmoddel_keeps synced
      exact keeps

theorem syncEdited_keeps {malloc : Malloc} {od after : OscarData}
    {edited : Option (List SsiNode)} (synced : syncEdited malloc od edited = some after) :
    after.localList = edited.getD od.localList ∧ after.official = od.official ∧
      after.receivedData = od.receivedData := by
  cases edited with
  | none =>
    cases synced
    exact ⟨rfl, rfl, rfl⟩
  | some list => exact aimSsiSync_keeps synced

theorem aimSsiAddbuddy_keeps {malloc : Malloc} {od after : OscarData} {name group : Option Bytes}
    {data : List AimTlv} {nickname comment smsnum : Option Bytes} {needauth : Bool}
    (added : aimSsiAddbuddy malloc od name group data nickname comment smsnum needauth =
      some after) :
    addedBuddy malloc od.official od.localList name group
        (buddyData data nickname comment smsnum needauth) = some after.localList ∧
      after.official = od.official ∧ after.receivedData = od.receivedData := by
  unfold aimSsiAddbuddy at added
  unfold addedBuddy
  split at added
  · obtain ⟨list, adds, synced⟩ := bind_eq_some_iff.mp added
    obtain ⟨same, official, received⟩ := aimSsiSync_keeps synced
    rw [same]
    exact ⟨adds, official, received⟩
  · rename_i missing
    cases added
    cases name with
    | none => exact ⟨rfl, rfl, rfl⟩
    | some name =>
      cases group with
      | none => exact ⟨rfl, rfl, rfl⟩
      | some group => exact absurd rfl (missing name group rfl)

theorem perform_keeps {malloc : Malloc} {od after : OscarData} {call : SsiCall}
    (performed : perform malloc od call = some after) :
    localAfter malloc od.receivedData od.official od.localList call = some after.localList ∧
      after.official = od.official ∧ after.receivedData = od.receivedData := by
  cases call with
  | addbuddy name group data nickname comment smsnum needauth =>
    exact aimSsiAddbuddy_keeps performed
  | delbuddy name group =>
    obtain ⟨same, official, received⟩ := syncEdited_keeps performed
    exact ⟨congrArg some same.symm, official, received⟩
  | movebuddy oldgn newgn bn =>
    rw [perform, aimSsiMovebuddy] at performed
    rw [localAfter]
    cases found : aimSsiItemlistFinditem od.localList oldgn bn typeBuddy with
    | none =>
      rw [found] at performed
      cases performed
      exact ⟨rfl, rfl, rfl⟩
    | some buddy =>
      rw [found, elim_some] at performed
      obtain ⟨middle, deleted, added⟩ := bind_eq_some_iff.mp performed
      obtain ⟨same, official, received⟩ := syncEdited_keeps deleted
      obtain ⟨adds, official', received'⟩ := aimSsiAddbuddy_keeps added
      rw [same, official] at adds
      exact ⟨adds, official'.trans official, received'.trans received⟩
  | aliasbuddy gn bn nickname =>
    cases gn with
    | none =>
      cases performed
      exact ⟨rfl, rfl, rfl⟩
    | some gn =>
      cases bn with
      | none =>
        cases performed
        exact ⟨rfl, rfl, rfl⟩
      | some bn =>
        obtain ⟨same, official, received⟩ := syncEdited_keeps performed
        exact ⟨congrArg some same.symm, official, received⟩
  | editcomment gn bn comment =>
    cases gn with
    | none =>
      cases performed
      exact ⟨rfl, rfl, rfl⟩
    | some gn =>
      cases bn with
      | none =>
        cases performed
        exact ⟨rfl, rfl, rfl⟩
      | some bn =>
        obtain ⟨same, official, received⟩ := syncEdited_keeps performed
        exact ⟨congrArg some same.symm, official, received⟩
  | delgroup group =>
    obtain ⟨same, official, received⟩ := syncEdited_keeps performed
    exact ⟨congrArg some same.symm, official, received⟩
  | addToPrivateList name type =>
    cases name with
    | none =>
      cases performed
      exact ⟨rfl, rfl, rfl⟩
    | some name =>
      rw [perform, aimSsiAddToPrivateList] at performed
      rw [localAfter]
      by_cases received : od.receivedData = true
      · rw [if_pos received] at performed ⊢
        obtain ⟨list, adds, synced⟩ := bind_eq_some_iff.mp performed
        obtain ⟨same, official, kept⟩ := aimSsiSync_keeps synced
        rw [same]
        exact ⟨adds, official, kept⟩
      · rw [if_neg received] at performed ⊢
        cases performed
        exact ⟨rfl, rfl, rfl⟩
  | delFromPrivateList name type =>
    obtain ⟨same, official, received⟩ := syncEdited_keeps performed
    exact ⟨congrArg some same.symm, official, received⟩

end Purple.Oscar
