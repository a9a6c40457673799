/-
Server-stored information, from family_feedbag.c: the lists of items, and what
is sent to bring the server to the local list.

A list is its nodes in order, each at its address.  A loop that never ends is `none`.
The codes that the functions return are not part of the model, and neither are the
messages that begin and end a transaction.
-/

import Purple.Oscar.Tlv

namespace Purple.Oscar

/-- `toupper`, for letters in ASCII. -/
def toupper (char : UInt8) : UInt8 := if 97 ≤ char ∧ char ≤ 122 then char - 32 else char

def skipSpaces (name : Bytes) : Bytes := name.dropWhile (· = 32)

/-- The loop of `oscar_util_name_compare`, on the bytes before the NUL. -/
def nameCompareLoop : Bytes → Bytes → Int
  | [], name2 => if skipSpaces name2 = [] then 0 else 1
  | char :: name1, name2 =>
    if char = 32 then nameCompareLoop name1 name2
    else
      match skipSpaces name2 with
      | [] => 1
      | other :: name2 =>
        if toupper char ≠ toupper other then 1 else nameCompareLoop name1 name2

def oscarUtilNameCompare : Option Bytes → Option Bytes → Int
  | some name1, some name2 => nameCompareLoop name1 name2
  | _, _ => -1

structure AimSsiItem where
  name : Option Bytes
  gid : UInt16
  bid : UInt16
  type : UInt16
  data : List AimTlv
deriving DecidableEq

structure SsiNode where
  address : Nat
  item : AimSsiItem
deriving DecidableEq

def typeBuddy : UInt16 := 0x0000

def typeGroup : UInt16 := 0x0001

/-- What `malloc` returns during a call: an address that is not in use, and streams with any
contents. -/
structure Malloc where
  pick : List Nat → Nat
  unused : ∀ live, pick live ∉ live
  bs1 : Fresh
  bs2 : Fresh

def lastMalloc : Malloc where
  pick := fun live => live.foldr max 0 + 1
  unused := by
    intro live member
    have bound : ∀ address ∈ live, address ≤ live.foldr max 0 := by
      clear member
      induction live with
      | nil => exact fun _ member => absurd member List.not_mem_nil
      | cons first rest ih =>
        intro address member
        rcases List.mem_cons.mp member with same | later
        · rw [same]
          exact Nat.le_max_left _ _
        · exact Nat.le_trans (ih address later) (Nat.le_max_right _ _)
    exact absurd (bound _ member) (Nat.not_succ_le_self _)
  bs1 := zeroed
  bs2 := zeroed

def aimSsiItemlistFind (list : List SsiNode) (gid bid : UInt16) : Option SsiNode :=
  list.find? fun cur => cur.item.gid = gid ∧ cur.item.bid = bid

def SsiNode.hasName (cur : SsiNode) (name : Bytes) : Bool :=
  cur.item.name.any fun own => oscarUtilNameCompare (some own) (some name) = 0

def groupNamed (list : List SsiNode) (gid : UInt16) (gn : Bytes) : Bool :=
  list.any fun curg => curg.item.type = typeGroup ∧ curg.item.gid = gid ∧ curg.hasName gn

def aimSsiItemlistFinditem (list : List SsiNode) (gn bn : Option Bytes) (type : UInt16) :
    Option SsiNode :=
  match gn, bn with
  | some gn, some bn =>
    list.find? fun cur =>
      cur.item.type = type ∧ cur.hasName bn ∧ groupNamed list cur.item.gid gn
  | some gn, none =>
    list.find? fun cur => cur.item.type = type ∧ cur.item.bid = 0 ∧ cur.hasName gn
  | none, some bn => list.find? fun cur => cur.item.type = type ∧ cur.hasName bn
  | none, none => list.find? fun cur => cur.item.type = type ∧ cur.item.name = none

def aimSsiItemlistValid (list : List SsiNode) (item : Nat) : Bool :=
  list.any fun cur => cur.address = item

/-- The comparison behind that of the chains: from the names on. -/
def fieldsCmp (cur1 cur2 : AimSsiItem) : Nat :=
  if cur1.name ≠ none ∧ cur2.name = none then 5
  else if cur1.name = none ∧ cur2.name ≠ none then 6
  else if cur1.name ≠ none ∧ cur2.name ≠ none ∧
      oscarUtilNameCompare cur1.name cur2.name ≠ 0 then 7
  else if cur1.gid ≠ cur2.gid then 8
  else if cur1.bid ≠ cur2.bid then 9
  else if cur1.type ≠ cur2.type then 10
  else 0

def aimSsiItemlistCmp (malloc : Malloc) (cur1 cur2 : Option AimSsiItem) : Option Nat :=
  match cur1, cur2 with
  | some cur1, some cur2 =>
    if cur1.data ≠ [] ∧ cur2.data = [] then some 2
    else if cur1.data = [] ∧ cur2.data ≠ [] then some 3
    else if cur1.data ≠ [] ∧ cur2.data ≠ [] then
      (aimTlvlistCmp malloc.bs1 malloc.bs2 cur1.data cur2.data).map fun differs =>
        if differs ≠ 0 then 4 else fieldsCmp cur1 cur2
    else some (fieldsCmp cur1 cur2)
  | _, _ => some 1

inductive FeedbagAction where
  | add
  | mod
  | del
deriving DecidableEq

/-- A pending record.  `ack` is 0xffff until there is an outcome; `item` may be NULL. -/
structure AimSsiTmp where
  action : FeedbagAction
  ack : UInt16
  item : Option Nat
deriving DecidableEq

structure FeedbagSnac where
  action : FeedbagAction
  items : List AimSsiItem

structure OscarData where
  official : List SsiNode
  localList : List SsiNode
  pending : List AimSsiTmp
  waitingForAck : Bool
  receivedData : Bool
  sent : List FeedbagSnac

def OscarData.item (od : OscarData) (pointer : Nat) : Option AimSsiItem :=
  ((od.official ++ od.localList).find? fun cur => cur.address = pointer).map SsiNode.item

/-- The loop over a list that makes a pending record of each item that is found, until there
are as many as one SNAC may hold. -/
def scan (found : SsiNode → Option Bool) : Nat → List SsiNode → Option (List SsiNode)
  | 0, _ => some []
  | _, [] => some []
  | left + 1, cur :: rest =>
    (found cur).bind fun isFound =>
      if isFound then (scan found left rest).map (cur :: ·) else scan found (left + 1) rest

def missingIn (list : List SsiNode) (cur : SsiNode) : Option Bool :=
  some (aimSsiItemlistFind list cur.item.gid cur.item.bid).isNone

def modifiedFrom (malloc : Malloc) (official : List SsiNode) (cur1 : SsiNode) : Option Bool :=
  (aimSsiItemlistFind official cur1.item.gid cur1.item.bid).elim (some false) fun cur2 =>
    (aimSsiItemlistCmp malloc (some cur1.item) (some cur2.item)).map (· ≠ 0)

def pendingRecords (action : FeedbagAction) (nodes : List SsiNode) : List AimSsiTmp :=
  nodes.map fun cur => { action, ack := 0xffff, item := some cur.address }

/-- Deletions, then additions, then modifications, as long as there is nothing pending. -/
def differences (malloc : Malloc) (od : OscarData) : Option (List AimSsiTmp) := do
  if od.pending ≠ [] then return od.pending
  let deletions ← scan (missingIn od.localList) 15 od.official
  if deletions ≠ [] then return pendingRecords .del deletions
  let additions ← scan (missingIn od.official) 15 od.localList
  if additions ≠ [] then return pendingRecords .add additions
  let modifications ← scan (modifiedFrom malloc od.official) 15 od.localList
  return pendingRecords .mod modifications

def aimSsiAddmoddel (od : OscarData) : Option OscarData :=
  match od.pending with
  | { action, item := some _, .. } :: _ =>
    (od.pending.mapM fun cur : AimSsiTmp => cur.item.bind od.item).map fun items =>
      { od with sent := od.sent ++ [{ action, items }] }
  | _ => some od

def aimSsiSync (malloc : Malloc) (od : OscarData) : Option OscarData :=
  if od.waitingForAck then some od
  else
    (differences malloc od).bind fun pending =>
      if pending = [] then some od
      else aimSsiAddmoddel { od with pending, waitingForAck := true }

end Purple.Oscar
