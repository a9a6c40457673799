/-
What acks and pushes do to the official list, against what the server did.

An accepted record changes the server to what was sent.  It changes the official
list to what the local list has by then, if it still has the item.
-/

import Mathlib.Data.List.TakeWhile
import Purple.KeyedList
import Purple.Oscar.FeedbagPipeline
import Purple.Oscar.FeedbagQuiescence

namespace Purple.Oscar

open List Option

abbrev Mirrors (list : List SsiNode) (server : Server) : Prop :=
  KeyedList.Mirrors (fun cur : SsiNode => itemId cur.item) SsiNode.item list server

attribute [ext] AimSsiItem

variable {list : List SsiNode} {item : AimSsiItem} {server : Server} {codes : List UInt16}
  {records : List (Nat × AimSsiItem)}

theorem itemId_eq {cur : AimSsiItem} {gid bid : UInt16} (isGid : cur.gid = gid)
    (isBid : cur.bid = bid) : itemId cur = (gid, bid) := by rw [itemId, isGid, isBid]

theorem find_none_iff (list : List SsiNode) (item : AimSsiItem) :
    aimSsiItemlistFind list item.gid item.bid = none ↔
      ∀ cur ∈ list, itemId cur.item ≠ itemId item := by
  rw [aimSsiItemlistFind, find?_eq_none]
  refine forall₂_congr fun cur _member => not_congr ?_
  rw [decide_eq_true_eq, itemId, itemId, Prod.mk.injEq]

theorem find_id {cur : SsiNode} (found : aimSsiItemlistFind list item.gid item.bid = some cur) :
    cur ∈ list ∧ itemId cur.item = itemId item := by
  obtain ⟨member, isGid, isBid⟩ := find_some found
  exact ⟨member, itemId_eq isGid isBid⟩

theorem find_of_stored (mirrors : Mirrors list server) (present : server (itemId item) ≠ none) :
    ∃ cur, aimSsiItemlistFind list item.gid item.bid = some cur := by
  cases found : aimSsiItemlistFind list item.gid item.bid with
  | some cur => exact ⟨cur, rfl⟩
  | none =>
    obtain ⟨cur, member, isId⟩ := mirrors.listed _ present
    exact absurd isId ((find_none_iff list item).mp found cur member)

theorem server_none (mirrors : Mirrors list server)
    (missing : aimSsiItemlistFind list item.gid item.bid = none) :
    server (itemId item) = none := by
  by_contra present
  obtain ⟨cur, found⟩ := find_of_stored mirrors present
  rw [missing] at found
  cases found

theorem server_some (mirrors : Mirrors list server) {cur : SsiNode}
    (found : aimSsiItemlistFind list item.gid item.bid = some cur) :
    server (itemId item) = some cur.item := by
  obtain ⟨member, isId⟩ := find_id found
  rw [← isId]
  exact mirrors.stored cur member

def PicksIds (item : AimSsiItem) : Prop :=
  if item.type = typeGroup then item.gid = 0xffff ∧ item.name ≠ none else item.bid = 0xffff

instance (item : AimSsiItem) : Decidable (PicksIds item) :=
  inferInstanceAs (Decidable (if item.type = typeGroup then item.gid = 0xffff ∧ item.name ≠ none
    else item.bid = 0xffff))

theorem chooseIds_kept (keeps : ¬PicksIds item) (list : List SsiNode) :
    chooseIds list item.name item.gid item.bid item.type = some (item.gid, item.bid) := by
  rw [PicksIds] at keeps
  rw [chooseIds]
  by_cases isGroup : item.type = typeGroup
  · rw [if_pos isGroup] at keeps ⊢
    rw [if_neg keeps]
  · rw [if_neg isGroup] at keeps ⊢
    rw [if_pos keeps]

section Adding

variable {malloc : Malloc} {od after : OscarData}

/-- What does not touch the exchange and keeps the addresses apart. -/
structure Quietly (od after : OscarData) : Prop where
  pending : after.pending = od.pending
  waits : after.waitingForAck = od.waitingForAck
  sent : after.sent = od.sent
  official : Separate od.official → Separate after.official
  edits : Separate od.localList → Separate after.localList

variable {item : AimSsiItem}

theorem Quietly.refl (od : OscarData) : Quietly od od := ⟨rfl, rfl, rfl, id, id⟩

theorem Quietly.trans {middle : OscarData} (first : Quietly od middle)
    (second : Quietly middle after) : Quietly od after where
  pending := second.pending.trans first.pending
  waits := second.waits.trans first.waits
  sent := second.sent.trans first.sent
  official := second.official ∘ first.official
  edits := second.edits ∘ first.edits

theorem unused_official (malloc : Malloc) (od : OscarData) :
    malloc.pick ((od.official ++ od.localList).map SsiNode.address) ∉
      od.official.map SsiNode.address := by
  intro member
  refine malloc.unused ((od.official ++ od.localList).map SsiNode.address) ?_
  rw [map_append]
  rw [map_append] at member
  exact mem_append_left _ member

theorem addToOfficial_some (added : addToOfficial malloc od item = some after) :
    ∃ new : SsiNode, new.address ∉ od.official.map SsiNode.address ∧
      after = { od with official := insertNode new od.official } ∧
      (¬PicksIds item → new.item = item) := by
  obtain ⟨result, adds, rfl⟩ := map_eq_some_iff.mp added
  obtain ⟨ids, chosen, rfl⟩ := map_eq_some_iff.mp adds
  refine ⟨_, unused_official malloc od, rfl, fun keeps => ?_⟩
  rw [chooseIds_kept keeps] at chosen
  cases chosen
  change ({ item with data := aimTlvlistCopy item.data } : AimSsiItem) = item
  rw [aimTlvlistCopy_eq]

theorem addToOfficial_quietly (added : addToOfficial malloc od item = some after) :
    Quietly od after := by
  obtain ⟨new, unused, rfl, _kept⟩ := addToOfficial_some added
  exact ⟨rfl, rfl, rfl, fun separate => separate.inserted unused, id⟩

theorem addToLocal_quietly (added : addToLocal malloc od item = some after) :
    Quietly od after ∧ after.official = od.official := by
  obtain ⟨result, adds, rfl⟩ := map_eq_some_iff.mp added
  exact ⟨⟨rfl, rfl, rfl, id, fun separate => separate.added adds⟩, rfl⟩

theorem addToOfficial_mirrors {server : Server} (mirrors : Mirrors od.official server)
    (unused : server (itemId item) = none) (keeps : ¬PicksIds item)
    (added : addToOfficial malloc od item = some after) :
    Mirrors after.official (server.apply .add item) := by
  obtain ⟨new, _unused, rfl, kept⟩ := addToOfficial_some added
  rw [← kept keeps] at unused ⊢
  exact (mirrors.cons unused).perm (insertNode_perm new od.official)

end Adding

@[simp] theorem setContents_address (address : Nat) (name : Option Bytes) (data : List AimTlv)
    (cur : SsiNode) : (setContents address name data cur).address = cur.address := by
  rw [setContents]
  split <;> rfl

@[simp] theorem setContents_id (address : Nat) (name : Option Bytes) (data : List AimTlv)
    (cur : SsiNode) : itemId (setContents address name data cur).item = itemId cur.item := by
  rw [setContents]
  split <;> rfl

@[simp] theorem setContents_type (address : Nat) (name : Option Bytes) (data : List AimTlv)
    (cur : SsiNode) : (setContents address name data cur).item.type = cur.item.type := by
  rw [setContents]
  split <;> rfl

@[simp] theorem setItem_address (address : Nat) (item : AimSsiItem) (cur : SsiNode) :
    (setItem address item cur).address = cur.address := by
  rw [setItem]
  split <;> rfl

@[simp] theorem setItem_id (address : Nat) (item : AimSsiItem) (cur : SsiNode) :
    itemId (setItem address item cur).item = itemId cur.item := by
  rw [setItem]
  split <;> rfl

theorem address_iff (separate : Separate list) (mirrors : Mirrors list server) {found : SsiNode}
    (member : found ∈ list) :
    ∀ cur ∈ list, cur.address = found.address ↔ itemId cur.item = itemId found.item := by
  intro cur isThere
  constructor
  · intro same
    rw [separate.unique isThere member same]
  · intro same
    rw [mirrors.unique isThere member same]

theorem setContents_mirrors (separate : Separate list) (mirrors : Mirrors list server)
    {found : SsiNode} (isFound : aimSsiItemlistFind list item.gid item.bid = some found)
    (type : found.item.type = item.type) :
    Mirrors (list.map (setContents found.address item.name item.data))
      (server.apply .mod item) := by
  obtain ⟨member, isId⟩ := find_id isFound
  have here := address_iff separate mirrors member
  refine mirrors.map ?_ (fun cur _ => setContents_id _ _ _ cur) (fun cur isThere same => ?_)
    fun cur isThere differs => ?_
  · rw [server_some mirrors isFound]
    exact some_ne_none _
  · rw [← isId] at same
    have whole := mirrors.unique isThere member same
    rw [itemId, itemId, Prod.mk.injEq] at isId
    rw [setContents, if_pos ((here cur isThere).mpr same), whole]
    obtain ⟨isGid, isBid⟩ := isId
    exact AimSsiItem.ext rfl isGid isBid type rfl
  · rw [setContents, if_neg fun same => differs (((here cur isThere).mp same).trans isId)]

theorem modified_mirrors (separate : Separate list) (mirrors : Mirrors list server)
    (present : server (itemId item) ≠ none) :
    Mirrors (modified list item) (server.apply .mod item) := by
  obtain ⟨found, isFound⟩ := find_of_stored mirrors present
  obtain ⟨member, isId⟩ := find_id isFound
  have here := address_iff separate mirrors member
  rw [modified, isFound, elim_some]
  refine mirrors.map present (fun cur _ => setItem_id _ _ cur) (fun cur isThere same => ?_)
    fun cur isThere differs => ?_
  · rw [setItem, if_pos ((here cur isThere).mpr (same.trans isId.symm))]
    rw [itemId, itemId, Prod.mk.injEq] at same
    obtain ⟨isGid, isBid⟩ := same
    exact AimSsiItem.ext rfl isGid isBid rfl rfl
  · rw [setItem, if_neg fun same => differs (((here cur isThere).mp same).trans isId)]

theorem del_mirrors (mirrors : Mirrors list server) {address : Nat}
    (points : ∀ cur ∈ list, cur.address = address ↔ itemId cur.item = itemId item) :
    Mirrors (aimSsiItemlistDel list address) (server.apply .del item) := by
  refine mirrors.filter fun cur member => ?_
  rw [decide_eq_true_eq]
  exact not_congr (points cur member)

theorem deleted_mirrors (separate : Separate list) (mirrors : Mirrors list server)
    (present : server (itemId item) ≠ none) :
    Mirrors (deleted list item) (server.apply .del item) := by
  obtain ⟨found, isFound⟩ := find_of_stored mirrors present
  obtain ⟨member, isId⟩ := find_id isFound
  rw [deleted, isFound, elim_some]
  refine del_mirrors mirrors fun cur isThere => ?_
  rw [address_iff separate mirrors member cur isThere, isId]

theorem Separate.modified {list : List SsiNode} (separate : Separate list) (item : AimSsiItem) :
    Separate (modified list item) := by
  rw [Purple.Oscar.modified]
  cases aimSsiItemlistFind list item.gid item.bid with
  | none => exact separate
  | some cur => exact separate.changed (setItem_address cur.address item)

theorem Separate.pushedDel (separate : Separate list) (item : AimSsiItem) :
    Separate (Purple.Oscar.deleted list item) := by
  rw [Purple.Oscar.deleted]
  cases aimSsiItemlistFind list item.gid item.bid with
  | none => exact separate
  | some del => exact separate.deleted del.address

def ServerMessage.IsPush : ServerMessage → Prop
  | .ack _ _ => False
  | .push _ _ => True

theorem push_quietly {malloc : Malloc} {od after : OscarData} {message : ServerMessage}
    (isPush : message.IsPush) (handled : handleMessage malloc od message = some after) :
    Quietly od after := by
  cases message with
  | ack snac codes => exact absurd isPush id
  | push action item =>
    cases action with
    | add =>
      obtain ⟨middle, toLocal, toOfficial⟩ := bind_eq_some_iff.mp handled
      exact (addToLocal_quietly toLocal).1.trans (addToOfficial_quietly toOfficial)
    | mod =>
      cases handled
      exact ⟨rfl, rfl, rfl, fun separate => separate.modified item,
        fun separate => separate.modified item⟩
    | del =>
      cases handled
      exact ⟨rfl, rfl, rfl, fun separate => separate.pushedDel item,
        fun separate => separate.pushedDel item⟩

theorem push_mirrors {malloc : Malloc} {od after : OscarData} (separate : Separate od.official)
    (mirrors : Mirrors od.official server) {action : FeedbagAction}
    (mayPush : server.MayPush action item) (keeps : action = .add → ¬PicksIds item)
    (handled : handleMessage malloc od (.push action item) = some after) :
    Mirrors after.official (server.apply action item) := by
  have present : action ≠ .add → server (itemId item) ≠ none := by
    intro notAdd missing
    exact notAdd (mayPush.mp (isNone_iff_eq_none.mpr missing))
  cases action with
  | add =>
    obtain ⟨middle, toLocal, toOfficial⟩ := bind_eq_some_iff.mp handled
    have official := (addToLocal_quietly toLocal).2
    rw [← official] at mirrors
    exact addToOfficial_mirrors mirrors (isNone_iff_eq_none.mp (mayPush.mpr rfl))
      (keeps rfl) toOfficial
  | mod =>
    cases handled
    exact modified_mirrors separate mirrors (present nofun)
  | del =>
    cases handled
    exact deleted_mirrors separate mirrors (present nofun)

/-- The pointers of the records with the code 0, each with what was sent for it. -/
def accepted : List AimSsiTmp → List AimSsiItem → List UInt16 → List (Nat × AimSsiItem)
  | { item := some pointer, .. } :: pending, item :: items, code :: codes =>
    if code = 0 then (pointer, item) :: accepted pending items codes
    else accepted pending items codes
  | _, _, _ => []

/-- What is copied for an accepted record is what was sent, and the official list can take it. -/
def StillSent (od : OscarData) (action : FeedbagAction) (pointer : Nat) (item : AimSsiItem) :
    Prop :=
  match action with
  | .add =>
    (∃ cur, nodeAt od.localList pointer = some cur ∧ cur.item = item) ∧ ¬PicksIds item ∧
      aimSsiItemlistFind od.official item.gid item.bid = none
  | .mod =>
    (∃ cur, nodeAt od.localList pointer = some cur ∧ itemId cur.item = itemId item ∧
      cur.item.name = item.name ∧ cur.item.data = item.data) ∧
    ∃ cur1, aimSsiItemlistFind od.official item.gid item.bid = some cur1 ∧
      cur1.item.type = item.type
  | .del => ∀ cur ∈ od.official, cur.address = pointer ↔ itemId cur.item = itemId item

/-! ### Handling a record -/

theorem nodeAt_del {address pointer : Nat} (other : pointer ≠ address) :
    nodeAt (aimSsiItemlistDel list address) pointer = nodeAt list pointer := by
  rw [nodeAt, nodeAt, aimSsiItemlistDel, find?_filter]
  congr 1
  funext cur
  refine decide_eq_decide.mpr ?_
  rw [decide_eq_true_eq, decide_eq_true_eq]
  exact ⟨And.right, fun here => ⟨here.trans_ne other, here⟩⟩

theorem nodeAt_setContents {address pointer : Nat} {name : Option Bytes} {data : List AimTlv}
    (other : pointer ≠ address) :
    nodeAt (list.map (setContents address name data)) pointer = nodeAt list pointer := by
  rw [nodeAt, find?_map]
  have same : (fun cur : SsiNode => decide (cur.address = pointer)) ∘ setContents address name data =
      fun cur => decide (cur.address = pointer) := by
    funext cur
    rw [Function.comp_apply, setContents_address]
  rw [same]
  cases found : nodeAt list pointer with
  | none =>
    rw [nodeAt] at found
    rw [found]
    rfl
  | some cur =>
    have holds := find?_some found
    have here : cur.address = pointer := of_decide_eq_true holds
    rw [nodeAt] at found
    rw [found, map_some, setContents, if_neg (here.trans_ne other)]

theorem find_setContents (list : List SsiNode) (address : Nat) (name : Option Bytes)
    (data : List AimTlv) (item : AimSsiItem) :
    aimSsiItemlistFind (list.map (setContents address name data)) item.gid item.bid =
      (aimSsiItemlistFind list item.gid item.bid).map (setContents address name data) := by
  rw [aimSsiItemlistFind, find?_map]
  have same : (fun cur : SsiNode => decide (cur.item.gid = item.gid ∧ cur.item.bid = item.bid)) ∘
      setContents address name data =
        fun cur => decide (cur.item.gid = item.gid ∧ cur.item.bid = item.bid) := by
    funext cur
    have ids := setContents_id address name data cur
    rw [itemId, itemId, Prod.mk.injEq] at ids
    rw [Function.comp_apply, ids.1, ids.2]
  rw [same]
  rfl

theorem elim_of {α β : Type} (holds : β → Prop) {value : β} {choice : Option α} {taken : α → β}
    (kept : holds value) (changed : ∀ some, holds (taken some)) :
    holds (choice.elim value taken) := by
  cases choice with
  | none => exact kept
  | some some => exact changed some

section Handling

variable {malloc : Malloc} {od after : OscarData} {action : FeedbagAction} {pointer : Nat}

theorem handleFailure_quietly (handled : handleFailure malloc od action pointer = some after) :
    Quietly od after ∧ after.official = od.official := by
  cases action with
  | add =>
    cases handled
    exact ⟨⟨rfl, rfl, rfl, id, fun separate => separate.deleted pointer⟩, rfl⟩
  | mod =>
    cases handled
    refine elim_of (fun after => Quietly od after ∧ after.official = od.official)
      ⟨Quietly.refl od, rfl⟩ fun cur => ?_
    refine elim_of (fun after => Quietly od after ∧ after.official = od.official)
      ⟨Quietly.refl od, rfl⟩ fun cur1 => ?_
    exact ⟨⟨rfl, rfl, rfl, id, fun separate => separate.changed (setContents_address _ _ _)⟩,
      rfl⟩
  | del =>
    rw [handleFailure] at handled
    cases found : nodeAt od.official pointer with
    | none =>
      rw [found] at handled
      cases handled
      exact ⟨Quietly.refl od, rfl⟩
    | some cur =>
      rw [found] at handled
      exact addToLocal_quietly handled

theorem handleFailure_nodeAt (handled : handleFailure malloc od action pointer = some after)
    (fromLocal : action ≠ .del) {other : Nat} (differs : other ≠ pointer) :
    nodeAt after.localList other = nodeAt od.localList other := by
  cases action with
  | add =>
    cases handled
    exact nodeAt_del differs
  | mod =>
    cases handled
    refine elim_of (fun after : OscarData =>
      nodeAt after.localList other = nodeAt od.localList other) rfl fun cur => ?_
    refine elim_of (fun after : OscarData =>
      nodeAt after.localList other = nodeAt od.localList other) rfl fun cur1 => ?_
    exact nodeAt_setContents differs
  | del => exact absurd rfl fromLocal

theorem handleSuccess_quietly (handled : handleSuccess malloc od action pointer = some after) :
    Quietly od after ∧ after.localList = od.localList := by
  cases action with
  | add =>
    rw [handleSuccess] at handled
    cases found : nodeAt od.localList pointer with
    | none =>
      rw [found] at handled
      cases handled
      exact ⟨Quietly.refl od, rfl⟩
    | some cur =>
      rw [found] at handled
      have quietly := addToOfficial_quietly handled
      obtain ⟨new, _unused, rfl, _kept⟩ := addToOfficial_some handled
      exact ⟨quietly, rfl⟩
  | mod =>
    cases handled
    refine elim_of (fun after => Quietly od after ∧ after.localList = od.localList)
      ⟨Quietly.refl od, rfl⟩ fun cur => ?_
    refine elim_of (fun after => Quietly od after ∧ after.localList = od.localList)
      ⟨Quietly.refl od, rfl⟩ fun cur1 => ?_
    exact ⟨⟨rfl, rfl, rfl, fun separate => separate.changed (setContents_address _ _ _), id⟩,
      rfl⟩
  | del =>
    cases handled
    exact ⟨⟨rfl, rfl, rfl, fun separate => separate.deleted pointer, id⟩, rfl⟩

theorem handleSuccess_mirrors {server : Server} (separate : Separate od.official)
    (mirrors : Mirrors od.official server) {item : AimSsiItem}
    (still : StillSent od action pointer item)
    (handled : handleSuccess malloc od action pointer = some after) :
    Mirrors after.official (server.apply action item) := by
  cases action with
  | add =>
    obtain ⟨⟨cur, here, isSent⟩, keeps, missing⟩ := still
    rw [handleSuccess, here, elim_some, isSent] at handled
    exact addToOfficial_mirrors mirrors (server_none mirrors missing) keeps handled
  | mod =>
    obtain ⟨⟨cur, here, isId, name, data⟩, cur1, found, type⟩ := still
    rw [itemId, itemId, Prod.mk.injEq] at isId
    rw [handleSuccess, here, elim_some, isId.1, isId.2, found, elim_some, name,
      data] at handled
    cases handled
    exact setContents_mirrors separate mirrors found type
  | del =>
    cases handled
    exact del_mirrors mirrors still

theorem handleSuccess_still {item : AimSsiItem} (still : StillSent od action pointer item)
    (handled : handleSuccess malloc od action pointer = some after) {other : Nat}
    {sent : AimSsiItem} (distinct : action = .add → itemId sent ≠ itemId item)
    (waits : StillSent od action other sent) : StillSent after action other sent := by
  have sameLocal := (handleSuccess_quietly handled).2
  cases action with
  | add =>
    obtain ⟨⟨cur, here, isSent⟩, keeps, _missing⟩ := still
    obtain ⟨local', keeps', missing'⟩ := waits
    rw [handleSuccess, here, elim_some, isSent] at handled
    obtain ⟨new, _unused, rfl, kept⟩ := addToOfficial_some handled
    refine ⟨local', keeps', (find_none_iff _ _).mpr fun cur member => ?_⟩
    rcases mem_insertNode.mp member with same | old
    · rw [same, kept keeps]
      exact (distinct rfl).symm
    · exact (find_none_iff _ _).mp missing' cur old
  | mod =>
    obtain ⟨local', cur1, found, type⟩ := waits
    rw [← sameLocal] at local'
    refine ⟨local', ?_⟩
    cases handled
    refine elim_of (fun after : OscarData => ∃ cur1,
      aimSsiItemlistFind after.official sent.gid sent.bid = some cur1 ∧
        cur1.item.type = sent.type) ⟨cur1, found, type⟩ fun cur => ?_
    refine elim_of (fun after : OscarData => ∃ cur1,
      aimSsiItemlistFind after.official sent.gid sent.bid = some cur1 ∧
        cur1.item.type = sent.type) ⟨cur1, found, type⟩ fun cur2 => ?_
    refine ⟨setContents cur2.address cur.item.name cur.item.data cur1, ?_, ?_⟩
    · rw [find_setContents, found]
      rfl
    · rw [setContents_type]
      exact type
  | del =>
    cases handled
    exact fun cur member => waits cur (mem_del.mp member).1

theorem handleFailure_still (handled : handleFailure malloc od action pointer = some after)
    {other : Nat} (differs : other ≠ pointer) {sent : AimSsiItem}
    (waits : StillSent od action other sent) : StillSent after action other sent := by
  have official := (handleFailure_quietly handled).2
  have others := fun fromLocal => handleFailure_nodeAt handled fromLocal differs
  cases action with
  | add =>
    rw [StillSent, others nofun, official]
    exact waits
  | mod =>
    rw [StillSent, others nofun, official]
    exact waits
  | del =>
    rw [StillSent, official]
    exact waits

end Handling

/-! ### Handling all of them -/

theorem handleOutcome_quietly {malloc : Malloc} {od after : OscarData} {cur : AimSsiTmp}
    (handled : handleOutcome malloc od cur = some after) : Quietly od after := by
  rw [handleOutcome] at handled
  cases item : cur.item with
  | none =>
    rw [item] at handled
    cases handled
    exact Quietly.refl od
  | some pointer =>
    rw [item, elim_some] at handled
    by_cases failed : cur.ack ≠ 0
    · rw [if_pos failed] at handled
      exact (handleFailure_quietly handled).1
    · rw [if_neg failed] at handled
      exact (handleSuccess_quietly handled).1

theorem handleOutcomes_quietly {malloc : Malloc} {od after : OscarData} {records : List AimSsiTmp}
    (handled : handleOutcomes malloc od records = some after) : Quietly od after := by
  induction records generalizing od with
  | nil =>
    cases handled
    exact Quietly.refl _
  | cons cur rest ih =>
    rw [handleOutcomes] at handled
    by_cases stops : cur.ack = 0xffff
    · rw [if_pos stops] at handled
      cases handled
      exact Quietly.refl _
    · rw [if_neg stops] at handled
      obtain ⟨middle, first, handled⟩ := bind_eq_some_iff.mp handled
      exact (handleOutcome_quietly first).trans (ih handled)

theorem accepted_pointer {action : FeedbagAction} {nodes : List SsiNode} {items : List AimSsiItem}
    {record : Nat × AimSsiItem}
    (member : record ∈ accepted (pendingRecords action nodes) items codes) :
    record.1 ∈ nodes.map SsiNode.address := by
  induction nodes generalizing items codes with
  | nil => exact absurd member not_mem_nil
  | cons node nodes ih =>
    cases items with
    | nil => exact absurd member not_mem_nil
    | cons item items =>
      cases codes with
      | nil => exact absurd member not_mem_nil
      | cons code codes =>
        change record ∈ (if code = 0 then
          (node.address, item) :: accepted (pendingRecords action nodes) items codes
          else accepted (pendingRecords action nodes) items codes) at member
        by_cases success : code = 0
        · rw [if_pos success] at member
          rcases mem_cons.mp member with same | later
          · rw [same]
            exact mem_cons_self
          · exact mem_cons_of_mem _ (ih later)
        · rw [if_neg success] at member
          exact mem_cons_of_mem _ (ih member)

/-- What lets the records of an ack bring the official list to where the server is. -/
structure Undisturbed (od : OscarData) (action : FeedbagAction)
    (records : List (Nat × AimSsiItem)) : Prop where
  still : ∀ record ∈ records, StillSent od action record.1 record.2
  distinct : action = .add → (records.map fun record => itemId record.2).Nodup

theorem Undisturbed.accepts {od after : OscarData} {action : FeedbagAction} {malloc : Malloc}
    {first : Nat × AimSsiItem} (undisturbed : Undisturbed od action (first :: records))
    (handled : handleSuccess malloc od action first.1 = some after) :
    Undisturbed after action records where
  still := by
    intro record member
    refine handleSuccess_still (undisturbed.still first mem_cons_self) handled
      (fun isAdd same => ?_) (undisturbed.still record (mem_cons_of_mem _ member))
    have distinct := undisturbed.distinct isAdd
    rw [map_cons, nodup_cons, ← same] at distinct
    exact distinct.1 (List.mem_map_of_mem member)
  distinct := by
    intro isAdd
    have distinct := undisturbed.distinct isAdd
    rw [map_cons, nodup_cons] at distinct
    exact distinct.2

theorem Undisturbed.rejects {od after : OscarData} {action : FeedbagAction} {malloc : Malloc}
    {pointer : Nat} (undisturbed : Undisturbed od action records)
    (others : ∀ record ∈ records, record.1 ≠ pointer)
    (handled : handleFailure malloc od action pointer = some after) :
    Undisturbed after action records where
  still := fun record member =>
    handleFailure_still handled (others record member) (undisturbed.still record member)
  distinct := undisturbed.distinct

theorem handleOutcomes_mirrors {malloc : Malloc} {od after : OscarData} {server : Server}
    {action : FeedbagAction} {nodes : List SsiNode} {items : List AimSsiItem} {codes : List UInt16}
    (pointers : Separate nodes) (sent : items.length = nodes.length)
    (answered : codes.length = items.length) (outcomes : 0xffff ∉ codes)
    (separate : Separate od.official) (mirrors : Mirrors od.official server)
    (undisturbed : Undisturbed od action (accepted (pendingRecords action nodes) items codes))
    (handled : handleOutcomes malloc od (assignAcks (pendingRecords action nodes) codes) =
      some after) : Mirrors after.official (server.answer action items codes) := by
  induction nodes generalizing od server items codes with
  | nil =>
    obtain rfl := length_eq_zero_iff.mp sent
    cases handled
    exact mirrors
  | cons node nodes ih =>
    obtain ⟨item, items, rfl⟩ := exists_cons_of_length_eq_add_one sent
    obtain ⟨code, codes, rfl⟩ := exists_cons_of_length_eq_add_one answered
    have sentRest := Nat.succ.inj sent
    have answeredRest := Nat.succ.inj answered
    obtain ⟨notStop, outcomesRest⟩ := not_or.mp (mt mem_cons.mpr outcomes)
    obtain ⟨unused, pointersRest⟩ := nodup_cons.mp pointers
    change handleOutcomes malloc od ({ action, ack := code, item := some node.address } ::
      assignAcks (pendingRecords action nodes) codes) = some after at handled
    rw [handleOutcomes, if_neg (Ne.symm notStop)] at handled
    obtain ⟨middle, first, handled⟩ := bind_eq_some_iff.mp handled
    have official := (handleOutcome_quietly first).official separate
    change Undisturbed od action (if code = 0 then
      (node.address, item) :: accepted (pendingRecords action nodes) items codes
      else accepted (pendingRecords action nodes) items codes) at undisturbed
    rw [handleOutcome, elim_some] at first
    rw [Server.answer]
    by_cases success : code = 0
    · rw [if_neg (not_not.mpr success)] at first
      rw [if_pos success] at undisturbed ⊢
      have kept := handleSuccess_mirrors separate mirrors
        (undisturbed.still _ mem_cons_self) first
      exact ih pointersRest sentRest answeredRest outcomesRest official kept
        (undisturbed.accepts first) handled
    · rw [if_pos success] at first
      rw [if_neg success] at undisturbed ⊢
      rw [← (handleFailure_quietly first).2] at mirrors
      refine ih pointersRest sentRest answeredRest outcomesRest official mirrors
        (undisturbed.rejects (fun record member same => unused ?_) first) handled
      rw [← same]
      exact accepted_pointer member

theorem assignAcks_acks {pending : List AimSsiTmp} (answered : codes.length = pending.length) :
    (assignAcks pending codes).map AimSsiTmp.ack = codes := by
  induction pending generalizing codes with
  | nil => exact (length_eq_zero_iff.mp answered).symm
  | cons cur rest ih =>
    obtain ⟨code, codes, rfl⟩ := exists_cons_of_length_eq_add_one answered
    rw [assignAcks, map_cons, ih (Nat.succ.inj answered)]

theorem left_eq_nil_iff {pending : List AimSsiTmp} (answered : codes.length = pending.length) :
    ((assignAcks pending codes).dropWhile fun cur => cur.ack ≠ 0xffff) = [] ↔
      0xffff ∉ codes := by
  have acks := assignAcks_acks answered
  rw [dropWhile_eq_nil_iff]
  constructor
  · intro all member
    rw [← acks] at member
    obtain ⟨cur, isThere, isStop⟩ := List.mem_map.mp member
    exact of_decide_eq_true (all cur isThere) isStop
  · intro outcomes cur isThere
    refine decide_eq_true fun isStop => outcomes ?_
    rw [← acks, ← isStop]
    exact List.mem_map_of_mem isThere

theorem parseack_stuck {malloc : Malloc} {od after : OscarData}
    (answered : codes.length = od.pending.length) (stops : 0xffff ∈ codes)
    (handled : parseack malloc od codes = some after) :
    after.pending ≠ [] ∧ after.waitingForAck = od.waitingForAck ∧ after.sent = od.sent ∧
      (Separate od.official → Separate after.official) ∧
      (Separate od.localList → Separate after.localList) := by
  have left := mt (left_eq_nil_iff answered).mp (not_not.mpr stops)
  obtain ⟨middle, outcomes, handled⟩ := bind_eq_some_iff.mp handled
  have quietly := handleOutcomes_quietly outcomes
  dsimp only at handled
  rw [if_neg left] at handled
  cases handled
  exact ⟨left, quietly.waits, quietly.sent, quietly.official, quietly.edits⟩

theorem parseack_done {malloc : Malloc} {od after : OscarData} {snac : FeedbagSnac}
    {nodes : List SsiNode} (outstanding : Outstanding od.pending snac nodes)
    (answered : codes.length = snac.items.length) (outcomes : 0xffff ∉ codes)
    (official : Separate od.official) (edits : Separate od.localList)
    (mirrors : Mirrors od.official server)
    (undisturbed : Undisturbed od snac.action (accepted od.pending snac.items codes))
    (handled : parseack malloc od codes = some after) :
    ∃ middle : OscarData, Ready middle ∧ middle.pending = [] ∧ middle.waitingForAck = false ∧
      middle.sent = od.sent ∧
      Mirrors middle.official (server.answer snac.action snac.items codes) ∧
      aimSsiSync malloc middle = some after := by
  have length : codes.length = od.pending.length := by
    rw [answered, outstanding.length, outstanding.records, pendingRecords, length_map]
  have left := (left_eq_nil_iff length).mpr outcomes
  obtain ⟨middle, handles, handled⟩ := bind_eq_some_iff.mp handled
  have quietly := handleOutcomes_quietly handles
  dsimp only at handled
  rw [if_pos left] at handled
  rw [outstanding.records] at handles undisturbed
  have kept := @handleOutcomes_mirrors malloc
    { od with pending := assignAcks (pendingRecords snac.action nodes) codes } middle server
    snac.action nodes snac.items codes outstanding.separate outstanding.length answered outcomes
    official mirrors ⟨fun record member => undisturbed.still record member, undisturbed.distinct⟩
    handles
  exact ⟨{ middle with pending := [], waitingForAck := false },
    ⟨quietly.official official, quietly.edits edits, fun _ => rfl⟩, rfl, rfl, quietly.sent, kept,
    handled⟩

end Purple.Oscar
