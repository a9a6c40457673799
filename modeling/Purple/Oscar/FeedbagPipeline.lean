/-
What calls and syncs do to the exchange with the server: nothing, or they send one
SNAC, and then they wait.

No address stands twice in a list.  That holds of the real lists at any time; it is
what makes the pointer of a pending record the pointer of one item.
-/

import Purple.Oscar.FeedbagLocalRuns
import Purple.Oscar.FeedbagServer

namespace Purple.Oscar

open List Option

def Separate (list : List SsiNode) : Prop := (list.map SsiNode.address).Nodup

theorem Separate.unique {list : List SsiNode} (separate : Separate list) {first second : SsiNode}
    (isFirst : first ∈ list) (isSecond : second ∈ list) (same : first.address = second.address) :
    first = second := inj_on_of_nodup_map separate isFirst isSecond same

theorem Separate.sublist {list other : List SsiNode} (separate : Separate list)
    (part : other.Sublist list) : Separate other :=
  List.Nodup.sublist (part.map SsiNode.address) separate

theorem Separate.inserted {list : List SsiNode} (separate : Separate list) {new : SsiNode}
    (unused : new.address ∉ list.map SsiNode.address) : Separate (insertNode new list) := by
  have inserted := (insertNode_perm new list).map SsiNode.address
  exact inserted.nodup_iff.mpr (nodup_cons.mpr ⟨unused, separate⟩)

theorem Separate.changed {list : List SsiNode} (separate : Separate list)
    {change : SsiNode → SsiNode} (stays : ∀ cur, (change cur).address = cur.address) :
    Separate (list.map change) := by
  have same : SsiNode.address ∘ change = SsiNode.address := funext stays
  rw [Separate, List.map_map, same]
  exact separate

theorem Separate.deleted {list : List SsiNode} (separate : Separate list) (address : Nat) :
    Separate (aimSsiItemlistDel list address) := separate.sublist filter_sublist

theorem Separate.rebuilt {list : List SsiNode} (separate : Separate list) (name : Option Bytes) :
    Separate (aimSsiItemlistRebuildgroup list name) := by
  rcases rebuildgroup_cases list name with same | ⟨address, data, written⟩
  · rw [same]
    exact separate
  · rw [written]
    exact separate.changed (setData_address address data)

section Adding

variable {malloc : Malloc} {official list : List SsiNode}

theorem Separate.added (separate : Separate list) {name : Option Bytes} {gid bid type : UInt16}
    {data : List AimTlv} {added : SsiNode × List SsiNode}
    (adds : addLocal malloc official list name gid bid type data = some added) :
    Separate added.2 := by
  obtain ⟨ids, chosen, _built⟩ := map_eq_some_iff.mp adds
  obtain ⟨address, unused, isAdded⟩ :=
    @addLocal_some malloc official list name gid bid type ids data chosen
  rw [isAdded] at adds
  cases adds
  exact separate.inserted unused

theorem Separate.mastered (separate : Separate list) {after : List SsiNode}
    (adds : withMaster malloc official list = some after) : Separate after := by
  rw [withMaster] at adds
  by_cases missing : (aimSsiItemlistFind list 0 0).isNone = true
  · rw [if_pos missing] at adds
    obtain ⟨added, isAdded, rfl⟩ := map_eq_some_iff.mp adds
    exact separate.added isAdded
  · rw [if_neg missing] at adds
    cases adds
    exact separate

theorem Separate.parented (separate : Separate list) {group : Bytes}
    {found : SsiNode × List SsiNode}
    (finds : withParent malloc official list group = some found) : Separate found.2 := by
  rw [withParent] at finds
  cases parent : aimSsiItemlistFinditem list (some group) none typeGroup with
  | some cur =>
    rw [parent] at finds
    cases finds
    exact separate
  | none =>
    rw [parent, elim_none] at finds
    obtain ⟨mastered, isMastered, finds⟩ := bind_eq_some_iff.mp finds
    obtain ⟨added, isAdded, rfl⟩ := map_eq_some_iff.mp finds
    exact ((separate.mastered isMastered).added isAdded).rebuilt none

theorem Separate.addbuddy (separate : Separate list) {name group : Bytes} {data : List AimTlv}
    {after : List SsiNode}
    (adds : addbuddyList malloc official list name group data = some after) : Separate after := by
  obtain ⟨found, finds, adds⟩ := bind_eq_some_iff.mp adds
  obtain ⟨added, isAdded, rfl⟩ := map_eq_some_iff.mp adds
  exact ((separate.parented finds).added isAdded).rebuilt (some group)

theorem Separate.addPrivate (separate : Separate list) {name : Bytes} {type : UInt16}
    {after : List SsiNode} (adds : addToPrivateList malloc official list name type = some after) :
    Separate after := by
  obtain ⟨mastered, isMastered, adds⟩ := bind_eq_some_iff.mp adds
  obtain ⟨added, isAdded, rfl⟩ := map_eq_some_iff.mp adds
  exact (separate.mastered isMastered).added isAdded

end Adding

section Removing

variable {list after : List SsiNode}

theorem Separate.delPrivate (separate : Separate list) {name : Option Bytes} {type : UInt16}
    (removed : delFromPrivateList list name type = some after) : Separate after := by
  obtain ⟨del, _found, rfl⟩ := map_eq_some_iff.mp removed
  exact separate.deleted del.address

theorem Separate.delbuddy (separate : Separate list) {name group : Option Bytes}
    (removed : delbuddyList list name group = some after) : Separate after := by
  obtain ⟨del, _found, rfl⟩ := map_eq_some_iff.mp removed
  exact (separate.deleted del.address).rebuilt group

theorem Separate.delgroup (separate : Separate list) {group : Option Bytes}
    (removed : delgroupList list group = some after) : Separate after := by
  obtain ⟨del, _found, removed⟩ := bind_eq_some_iff.mp removed
  by_cases empty : emptyGroup del.item.data = true
  · rw [if_pos empty] at removed
    cases removed
    exact (separate.deleted del.address).rebuilt group
  · rw [if_neg empty] at removed
    cases removed

theorem Separate.edited (separate : Separate list) {type : UInt16} {gn bn : Bytes}
    {text : Option Bytes} (edits : editText type list gn bn text = some after) :
    Separate after := by
  obtain ⟨tmp, _found, rfl⟩ := map_eq_some_iff.mp edits
  exact separate.changed (setData_address _ _)

end Removing

theorem scan_sublist {found : SsiNode → Option Bool} {left : Nat} {list nodes : List SsiNode}
    (scanned : scan found left list = some nodes) : nodes.Sublist list := by
  induction list generalizing left nodes with
  | nil =>
    cases left <;>
    · cases scanned
      exact List.Sublist.refl _
  | cons cur rest ih =>
    cases left with
    | zero =>
      cases scanned
      exact nil_sublist _
    | succ left =>
      obtain ⟨isFound, _here, scanned⟩ := bind_eq_some_iff.mp scanned
      cases isFound with
      | true =>
        obtain ⟨later, scannedRest, rfl⟩ := map_eq_some_iff.mp scanned
        exact (ih scannedRest).cons_cons cur
      | false => exact (ih scanned).cons cur

/-- The pending records are those of the SNAC, none with an outcome. -/
structure Outstanding (pending : List AimSsiTmp) (snac : FeedbagSnac) (nodes : List SsiNode) :
    Prop where
  some : nodes ≠ []
  separate : Separate nodes
  records : pending = pendingRecords snac.action nodes
  length : snac.items.length = nodes.length

/-- What happens to the exchange: nothing, or a SNAC is sent where none was outstanding. -/
inductive Exchanged (od after : OscarData) : Prop where
  | same (pending : after.pending = od.pending) (waits : after.waitingForAck = od.waitingForAck)
      (sent : after.sent = od.sent)
  | sends (snac : FeedbagSnac) (nodes : List SsiNode) (idle : od.waitingForAck = false)
      (nothing : od.pending = []) (waits : after.waitingForAck = true)
      (outstanding : Outstanding after.pending snac nodes) (sent : after.sent = od.sent ++ [snac])

theorem Exchanged.refl (od : OscarData) : Exchanged od od := .same rfl rfl rfl

theorem Exchanged.trans {od middle after : OscarData} (first : Exchanged od middle)
    (second : Exchanged middle after) : Exchanged od after := by
  cases first with
  | same pending waits sent =>
    cases second with
    | same pending' waits' sent' =>
      exact .same (pending'.trans pending) (waits'.trans waits) (sent'.trans sent)
    | sends snac nodes idle nothing waits' outstanding sent' =>
      refine .sends snac nodes (waits.symm.trans idle) (pending.symm.trans nothing) waits'
        outstanding ?_
      rw [sent', sent]
  | sends snac nodes idle nothing waits outstanding sent =>
    cases second with
    | same pending' waits' sent' =>
      refine .sends snac nodes idle nothing (waits'.trans waits) ?_ (sent'.trans sent)
      rw [pending']
      exact outstanding
    | sends _ _ idle' _ _ _ _ =>
      rw [waits] at idle'
      cases idle'

theorem mapM_length {α β : Type} {read : α → Option β} {list : List α} {results : List β}
    (mapped : list.mapM read = some results) : results.length = list.length := by
  induction list generalizing results with
  | nil =>
    cases mapped
    rfl
  | cons first rest ih =>
    rw [mapM_cons] at mapped
    obtain ⟨result, _read, mapped⟩ := bind_eq_some_iff.mp mapped
    obtain ⟨later, mappedRest, built⟩ := bind_eq_some_iff.mp mapped
    cases built
    rw [length_cons, length_cons, ih mappedRest]

theorem differences_some {malloc : Malloc} {od : OscarData} {pending : List AimSsiTmp}
    (nothing : od.pending = []) (official : Separate od.official) (edits : Separate od.localList)
    (found : differences malloc od = some pending) :
    ∃ action nodes, Separate nodes ∧ pending = pendingRecords action nodes := by
  unfold differences at found
  rw [if_neg (not_not.mpr nothing)] at found
  obtain ⟨deletions, deleting, found⟩ := bind_eq_some_iff.mp found
  by_cases deletes : deletions ≠ []
  · rw [if_pos deletes] at found
    cases found
    exact ⟨.del, deletions, official.sublist (scan_sublist deleting), rfl⟩
  rw [if_neg deletes] at found
  obtain ⟨additions, adding, found⟩ := bind_eq_some_iff.mp found
  by_cases adds : additions ≠ []
  · rw [if_pos adds] at found
    cases found
    exact ⟨.add, additions, edits.sublist (scan_sublist adding), rfl⟩
  rw [if_neg adds] at found
  obtain ⟨modifications, modifying, found⟩ := bind_eq_some_iff.mp found
  cases found
  exact ⟨.mod, modifications, edits.sublist (scan_sublist modifying), rfl⟩

theorem aimSsiAddmoddel_sends {od after : OscarData} {action : FeedbagAction}
    {nodes : List SsiNode} (nonempty : nodes ≠ []) (pending : od.pending = pendingRecords action nodes)
    (sent : aimSsiAddmoddel od = some after) :
    ∃ items : List AimSsiItem, items.length = nodes.length ∧
      after = { od with sent := od.sent ++ [{ action, items }] } := by
  obtain ⟨cur, rest, rfl⟩ := exists_cons_of_ne_nil nonempty
  have length : od.pending.length = (cur :: rest).length := by
    rw [pending, pendingRecords, length_map]
  unfold aimSsiAddmoddel at sent
  split at sent
  · rename_i first _ack _item _later isHead
    have sameAction : first = action := by
      rw [pending] at isHead
      cases isHead
      rfl
    obtain ⟨items, read, rfl⟩ := map_eq_some_iff.mp sent
    rw [sameAction]
    exact ⟨items, (mapM_length read).trans length, rfl⟩
  · rename_i other
    exact absurd pending (other action 0xffff cur.address (pendingRecords action rest))

theorem aimSsiSync_exchanged {malloc : Malloc} {od after : OscarData}
    (idle : od.waitingForAck = false → od.pending = []) (official : Separate od.official)
    (edits : Separate od.localList) (synced : aimSsiSync malloc od = some after) :
    Exchanged od after := by
  rw [aimSsiSync] at synced
  by_cases waits : od.waitingForAck = true
  · rw [if_pos waits] at synced
    cases synced
    exact Exchanged.refl od
  rw [if_neg waits] at synced
  have ready := Bool.eq_false_iff.mpr waits
  obtain ⟨pending, found, synced⟩ := bind_eq_some_iff.mp synced
  by_cases empty : pending = []
  · rw [if_pos empty] at synced
    cases synced
    exact Exchanged.refl od
  rw [if_neg empty] at synced
  obtain ⟨action, nodes, separate, records⟩ :=
    differences_some (idle ready) official edits found
  have nonempty : nodes ≠ [] := by
    rintro rfl
    exact empty records
  obtain ⟨items, length, rfl⟩ :=
    @aimSsiAddmoddel_sends { od with pending, waitingForAck := true } after action nodes nonempty
      records synced
  exact .sends { action, items } nodes ready (idle ready) rfl
    ⟨nonempty, separate, records, length⟩ rfl

structure Called (od after : OscarData) : Prop where
  official : after.official = od.official
  separate : Separate after.localList
  exchanged : Exchanged od after

structure Ready (od : OscarData) : Prop where
  official : Separate od.official
  edits : Separate od.localList
  idle : od.waitingForAck = false → od.pending = []

theorem Ready.unchanged {od : OscarData} (ready : Ready od) : Called od od :=
  ⟨rfl, ready.edits, Exchanged.refl od⟩

theorem Called.ready {od after : OscarData} (called : Called od after) (ready : Ready od) :
    Ready after where
  official := by
    rw [called.official]
    exact ready.official
  edits := called.separate
  idle := by
    intro notWaiting
    cases called.exchanged with
    | same pending waits _ => exact pending.trans (ready.idle (waits.symm.trans notWaiting))
    | sends _ _ _ _ waits _ _ =>
      rw [waits] at notWaiting
      cases notWaiting

theorem Called.trans {od middle after : OscarData} (first : Called od middle)
    (second : Called middle after) : Called od after :=
  ⟨second.official.trans first.official, second.separate,
    first.exchanged.trans second.exchanged⟩

section Calls

variable {malloc : Malloc} {od after : OscarData}

theorem Ready.synced (ready : Ready od) {localList : List SsiNode} (separate : Separate localList)
    (synced : aimSsiSync malloc { od with localList } = some after) : Called od after := by
  obtain ⟨isLocal, official, _received⟩ := aimSsiSync_keeps synced
  refine ⟨official, ?_, ?_⟩
  · rw [isLocal]
    exact separate
  · cases @aimSsiSync_exchanged malloc { od with localList } after ready.idle ready.official separate
      synced with
    | same pending waits sent => exact .same pending waits sent
    | sends snac nodes idle nothing waits outstanding sent =>
      exact .sends snac nodes idle nothing waits outstanding sent

theorem Ready.syncEdited (ready : Ready od) {edited : Option (List SsiNode)}
    (separate : ∀ list, edited = some list → Separate list)
    (synced : syncEdited malloc od edited = some after) : Called od after := by
  cases edited with
  | none =>
    cases synced
    exact ready.unchanged
  | some list => exact ready.synced (separate list rfl) synced

theorem Ready.addbuddy (ready : Ready od) {name group : Option Bytes} {data : List AimTlv}
    {nickname comment smsnum : Option Bytes} {needauth : Bool}
    (added : aimSsiAddbuddy malloc od name group data nickname comment smsnum needauth =
      some after) : Called od after := by
  unfold aimSsiAddbuddy at added
  split at added
  · obtain ⟨list, adds, synced⟩ := bind_eq_some_iff.mp added
    exact ready.synced (ready.edits.addbuddy adds) synced
  · cases added
    exact ready.unchanged

theorem Ready.delbuddy (ready : Ready od) {name group : Option Bytes}
    (removed : aimSsiDelbuddy malloc od name group = some after) : Called od after :=
  ready.syncEdited (fun _ => ready.edits.delbuddy) removed

theorem Ready.editText (ready : Ready od) {type : UInt16} {gn bn : Bytes} {text : Option Bytes}
    (synced : Purple.Oscar.syncEdited malloc od
      (Purple.Oscar.editText type od.localList gn bn text) = some after) : Called od after :=
  ready.syncEdited (fun _ => ready.edits.edited) synced

theorem perform_called (ready : Ready od) {call : SsiCall}
    (performed : perform malloc od call = some after) : Called od after := by
  cases call with
  | addbuddy name group data nickname comment smsnum needauth => exact ready.addbuddy performed
  | delbuddy name group => exact ready.delbuddy performed
  | movebuddy oldgn newgn bn =>
    rw [perform, aimSsiMovebuddy] at performed
    cases found : aimSsiItemlistFinditem od.localList oldgn bn typeBuddy with
    | none =>
      rw [found] at performed
      cases performed
      exact ready.unchanged
    | some buddy =>
      rw [found, elim_some] at performed
      obtain ⟨middle, deleted, added⟩ := bind_eq_some_iff.mp performed
      have deletes := ready.delbuddy deleted
      exact deletes.trans ((deletes.ready ready).addbuddy added)
  | aliasbuddy gn bn nickname =>
    change aimSsiAliasbuddy malloc od gn bn nickname = some after at performed
    unfold aimSsiAliasbuddy at performed
    split at performed
    · exact ready.editText performed
    · cases performed
      exact ready.unchanged
  | editcomment gn bn comment =>
    change aimSsiEditcomment malloc od gn bn comment = some after at performed
    unfold aimSsiEditcomment at performed
    split at performed
    · exact ready.editText performed
    · cases performed
      exact ready.unchanged
  | delgroup group => exact ready.syncEdited (fun _ => ready.edits.delgroup) performed
  | addToPrivateList name type =>
    change aimSsiAddToPrivateList malloc od name type = some after at performed
    unfold aimSsiAddToPrivateList at performed
    split at performed
    · by_cases received : od.receivedData = true
      · rw [if_pos received] at performed
        obtain ⟨list, adds, synced⟩ := bind_eq_some_iff.mp performed
        exact ready.synced (ready.edits.addPrivate adds) synced
      · rw [if_neg received] at performed
        cases performed
        exact ready.unchanged
    · cases performed
      exact ready.unchanged
  | delFromPrivateList name type =>
    exact ready.syncEdited (fun _ => ready.edits.delPrivate) performed

end Calls

end Purple.Oscar
