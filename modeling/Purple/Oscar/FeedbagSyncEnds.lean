/-
A sync ends where the chains are not too long: no size overflows, and each pending record
is that of an item.

The list of members is written anew by edits.  It is at most 65535 bytes, so what counts
is the rest of a chain.
-/

import Purple.Oscar.FeedbagPipeline
import Purple.Oscar.FeedbagQuiescence

namespace Purple.Oscar

open List Option

/-- A chain whose size fits an `int`, whatever the list of members. -/
def Light (cur : SsiNode) : Prop :=
  (tlvsBytes (aimTlvlistReplaceRaw 0x00c8 0 [] cur.item.data)).length ≤ 2 ^ 30

theorem replaceRaw_replaceRaw (length : UInt16) (value : Bytes) (data : List AimTlv) :
    aimTlvlistReplaceRaw 0x00c8 0 [] (aimTlvlistReplaceRaw 0x00c8 length value data) =
      aimTlvlistReplaceRaw 0x00c8 0 [] data := by
  induction data with
  | nil => rfl
  | cons tlv rest ih =>
    rw [aimTlvlistReplaceRaw, aimTlvlistReplaceRaw]
    by_cases here : tlv.type = 0x00c8
    · rw [if_pos here, if_pos here]
      rfl
    · rw [if_neg here, if_neg here, aimTlvlistReplaceRaw, if_neg here, ih]

theorem bytes_le_replaced (data : List AimTlv) :
    (tlvsBytes data).length ≤
      (tlvsBytes (aimTlvlistReplaceRaw 0x00c8 0 [] data)).length + 65535 := by
  induction data with
  | nil => exact Nat.zero_le _
  | cons tlv rest ih =>
    have fits := tlv.fits
    rw [aimTlvlistReplaceRaw]
    by_cases here : tlv.type = 0x00c8
    · rw [if_pos here, tlvsBytes_cons, tlvsBytes_cons, length_append, length_append,
        tlvBytes_length, tlvBytes_length]
      omega
    · rw [if_neg here, tlvsBytes_cons, tlvsBytes_cons, length_append, length_append]
      omega

theorem replaced_le_bytes (data : List AimTlv) :
    (tlvsBytes (aimTlvlistReplaceRaw 0x00c8 0 [] data)).length ≤ (tlvsBytes data).length + 4 := by
  induction data with
  | nil => exact Nat.le_refl 4
  | cons tlv rest ih =>
    rw [aimTlvlistReplaceRaw]
    by_cases here : tlv.type = 0x00c8
    · have empty : (createtlv 0x00c8 0 []).value.length = 0 := rfl
      rw [if_pos here, tlvsBytes_cons, tlvsBytes_cons, length_append, length_append,
        tlvBytes_length, tlvBytes_length, empty]
      omega
    · rw [if_neg here, tlvsBytes_cons, tlvsBytes_cons, length_append, length_append]
      omega

theorem Light.sized {cur : SsiNode} (light : Light cur) :
    (tlvsBytes cur.item.data).length < 2 ^ 31 := by
  have bound := bytes_le_replaced cur.item.data
  rw [Light] at light
  omega

section Edits

variable {malloc : Malloc} {official list : List SsiNode}

theorem light_rebuilt (light : ∀ cur ∈ list, Light cur) (name : Option Bytes) :
    ∀ cur ∈ aimSsiItemlistRebuildgroup list name, Light cur := by
  rw [aimSsiItemlistRebuildgroup]
  split
  · exact light
  · rename_i group found
    have groupLight := light group (finditem_some found).1
    dsimp only
    split
    · exact light
    · intro cur member
      obtain ⟨other, isOther, rfl⟩ := List.mem_map.mp member
      rw [setData]
      split
      · rw [Light, replaceRaw_replaceRaw]
        exact groupLight
      · exact light other isOther

theorem light_deleted (light : ∀ cur ∈ list, Light cur) (address : Nat) :
    ∀ cur ∈ aimSsiItemlistDel list address, Light cur :=
  fun cur member => light cur (mem_of_mem_filter member)

theorem light_added (light : ∀ cur ∈ list, Light cur) {name : Option Bytes} {gid bid type : UInt16}
    {data : List AimTlv} (small : (tlvsBytes data).length ≤ 2 ^ 29)
    {added : SsiNode × List SsiNode}
    (adds : addLocal malloc official list name gid bid type data = some added) :
    ∀ cur ∈ added.2, Light cur := by
  obtain ⟨ids, chosen, -⟩ := map_eq_some_iff.mp adds
  obtain ⟨address, -, isAdded⟩ :=
    @addLocal_some malloc official list name gid bid type ids data chosen
  rw [isAdded] at adds
  cases adds
  intro cur member
  obtain rfl | old := mem_insertNode.mp member
  · have bound := replaced_le_bytes data
    change (tlvsBytes (aimTlvlistReplaceRaw 0x00c8 0 [] data)).length ≤ 2 ^ 30
    omega
  · exact light cur old

theorem light_addbuddy (light : ∀ cur ∈ list, Light cur) {name group : Bytes} {data : List AimTlv}
    (small : (tlvsBytes data).length ≤ 2 ^ 29) {after : List SsiNode}
    (adds : addbuddyList malloc official list name group data = some after) :
    ∀ cur ∈ after, Light cur := by
  have empty : (tlvsBytes []).length ≤ 2 ^ 29 := Nat.zero_le _
  obtain ⟨found, finds, adds⟩ := bind_eq_some_iff.mp adds
  obtain ⟨added, isAdded, rfl⟩ := map_eq_some_iff.mp adds
  have foundLight : ∀ cur ∈ found.2, Light cur := by
    rw [withParent] at finds
    cases parent : aimSsiItemlistFinditem list (some group) none typeGroup with
    | some cur =>
      rw [parent] at finds
      cases finds
      exact light
    | none =>
      rw [parent, elim_none] at finds
      obtain ⟨mastered, mastering, finds⟩ := bind_eq_some_iff.mp finds
      obtain ⟨made, isMade, rfl⟩ := map_eq_some_iff.mp finds
      have masterLight : ∀ cur ∈ mastered, Light cur := by
        rw [withMaster] at mastering
        split at mastering
        · obtain ⟨master, isMaster, rfl⟩ := map_eq_some_iff.mp mastering
          exact light_added light empty isMaster
        · cases mastering
          exact light
      exact light_rebuilt (light_added masterLight empty isMade) none
  exact light_rebuilt (light_added foundLight small isAdded) (some group)

end Edits

theorem scan_ends {found : SsiNode → Option Bool} {list : List SsiNode}
    (decided : ∀ cur ∈ list, ∃ isFound, found cur = some isFound) (left : Nat) :
    ∃ nodes, scan found left list = some nodes := by
  induction list generalizing left with
  | nil => cases left <;> exact ⟨[], rfl⟩
  | cons cur rest ih =>
    have later : ∀ other ∈ rest, ∃ isFound, found other = some isFound :=
      fun other member => decided other (mem_cons_of_mem _ member)
    cases left with
    | zero => exact ⟨[], rfl⟩
    | succ left =>
      obtain ⟨isFound, here⟩ := decided cur mem_cons_self
      rw [scan, here, bind_some]
      cases isFound with
      | false => exact ih later (left + 1)
      | true =>
        obtain ⟨nodes, scanned⟩ := ih later left
        rw [if_pos rfl, scanned]
        exact ⟨cur :: nodes, rfl⟩

theorem cmp_ends (malloc : Malloc) {cur1 cur2 : SsiNode} (first : Light cur1)
    (second : Light cur2) :
    ∃ result, aimSsiItemlistCmp malloc (some cur1.item) (some cur2.item) = some result := by
  rw [aimSsiItemlistCmp]
  by_cases lost : cur1.item.data ≠ [] ∧ cur2.item.data = []
  · rw [if_pos lost]
    exact ⟨_, rfl⟩
  by_cases new : cur1.item.data = [] ∧ cur2.item.data ≠ []
  · rw [if_neg lost, if_pos new]
    exact ⟨_, rfl⟩
  rw [if_neg lost, if_neg new]
  by_cases both : cur1.item.data ≠ [] ∧ cur2.item.data ≠ []
  · obtain ⟨result, compared, -⟩ :=
      (compares_iff _ _).mpr ⟨first.sized, second.sized⟩ malloc.bs1 malloc.bs2
    rw [if_pos both, compared]
    exact ⟨_, rfl⟩
  · rw [if_neg both]
    exact ⟨_, rfl⟩

section Syncing

variable {od : OscarData} (malloc : Malloc)

theorem differences_end (light : ∀ cur ∈ od.official ++ od.localList, Light cur)
    (nothing : od.pending = []) :
    ∃ action nodes, differences malloc od = some (pendingRecords action nodes) ∧
      nodes ⊆ od.official ++ od.localList := by
  have missing : ∀ (list other : List SsiNode), ∀ cur ∈ other,
      ∃ isFound, missingIn list cur = some isFound := fun _ _ _ _ => ⟨_, rfl⟩
  have differs : ∀ cur ∈ od.localList, ∃ isFound,
      modifiedFrom malloc od.official cur = some isFound := by
    intro cur member
    rw [modifiedFrom]
    cases found : aimSsiItemlistFind od.official cur.item.gid cur.item.bid with
    | none => exact ⟨false, rfl⟩
    | some other =>
      obtain ⟨result, compared⟩ := cmp_ends malloc
        (light cur (mem_append_right _ member))
        (light other (mem_append_left _ (find_some found).1))
      rw [elim_some, compared]
      exact ⟨_, rfl⟩
  obtain ⟨deletions, deleting⟩ := scan_ends (missing od.localList od.official) 15
  obtain ⟨additions, adding⟩ := scan_ends (missing od.official od.localList) 15
  obtain ⟨modifications, modifying⟩ := scan_ends differs 15
  unfold differences
  rw [if_neg (not_not.mpr nothing), deleting, adding, modifying]
  by_cases deletes : deletions ≠ []
  · refine ⟨.del, deletions, if_pos deletes, ?_⟩
    exact fun cur member => mem_append_left _ ((scan_sublist deleting).subset member)
  by_cases adds : additions ≠ []
  · refine ⟨.add, additions, (if_neg deletes).trans (if_pos adds), ?_⟩
    exact fun cur member => mem_append_right _ ((scan_sublist adding).subset member)
  · refine ⟨.mod, modifications, (if_neg deletes).trans (if_neg adds), ?_⟩
    exact fun cur member => mem_append_right _ ((scan_sublist modifying).subset member)

theorem records_read (action : FeedbagAction) {nodes : List SsiNode}
    (listed : nodes ⊆ od.official ++ od.localList) :
    ∃ items, (pendingRecords action nodes).mapM (fun cur : AimSsiTmp => cur.item.bind od.item) =
      some items := by
  induction nodes with
  | nil => exact ⟨[], rfl⟩
  | cons cur rest ih =>
    obtain ⟨items, read⟩ := ih fun other member => listed (mem_cons_of_mem _ member)
    have there : ∃ item, od.item cur.address = some item := by
      rw [OscarData.item]
      cases found : (od.official ++ od.localList).find? fun other =>
          other.address = cur.address with
      | some other => exact ⟨other.item, rfl⟩
      | none =>
        have fails := find?_eq_none.mp found cur (listed mem_cons_self)
        exact absurd (decide_eq_true rfl) fails
    obtain ⟨item, isItem⟩ := there
    refine ⟨item :: items, ?_⟩
    rw [pendingRecords, map_cons, mapM_cons]
    change ((od.item cur.address).bind fun item =>
      ((pendingRecords action rest).mapM fun cur : AimSsiTmp => cur.item.bind od.item).bind
        fun items => some (item :: items)) = _
    rw [isItem, read]
    rfl

theorem Ready.sync_ends (ready : Ready od)
    (light : ∀ cur ∈ od.official ++ od.localList, Light cur) :
    ∃ after, aimSsiSync malloc od = some after := by
  rw [aimSsiSync]
  by_cases waits : od.waitingForAck = true
  · rw [if_pos waits]
    exact ⟨od, rfl⟩
  rw [if_neg waits]
  obtain ⟨action, nodes, found, listed⟩ :=
    differences_end malloc light (ready.idle (Bool.eq_false_iff.mpr waits))
  rw [found, bind_some]
  cases nodes with
  | nil => exact ⟨od, if_pos rfl⟩
  | cons cur rest =>
    obtain ⟨items, read⟩ := records_read action listed
    have present : pendingRecords action (cur :: rest) ≠ [] := cons_ne_nil _ _
    rw [if_neg present]
    change ∃ after, Option.map _ ((pendingRecords action (cur :: rest)).mapM
      fun cur : AimSsiTmp => cur.item.bind od.item) = some after
    rw [read]
    exact ⟨_, rfl⟩

end Syncing

end Purple.Oscar
