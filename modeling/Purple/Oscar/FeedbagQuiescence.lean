/-
When nothing is left to send, the two lists agree.

The comparison of two items compares their names as usernames are compared.  Two
names that differ in case or in spaces only are then taken for the same.
-/

import Purple.Oscar.Feedbag
import Purple.Oscar.TlvRoundTrip

namespace Purple.Oscar

open List Option

variable {list : List SsiNode} {malloc : Malloc} {od : OscarData}

theorem scan_none_found {found : SsiNode → Option Bool} {left : Nat}
    (nothing : scan found (left + 1) list = some []) : ∀ cur ∈ list, found cur = some false := by
  induction list with
  | nil => exact fun _ member => absurd member not_mem_nil
  | cons first rest ih =>
    rw [scan] at nothing
    cases isFound : found first with
    | none =>
      rw [isFound] at nothing
      cases nothing
    | some here =>
      rw [isFound, bind_some] at nothing
      cases here with
      | true =>
        rw [if_pos rfl] at nothing
        obtain ⟨_later, _scanned, empty⟩ := map_eq_some_iff.mp nothing
        cases empty
      | false =>
        rw [if_neg Bool.false_ne_true] at nothing
        intro cur member
        rcases mem_cons.mp member with same | later
        · rw [same, isFound]
        · exact ih nothing cur later

theorem find_some {gid bid : UInt16} {cur : SsiNode}
    (found : aimSsiItemlistFind list gid bid = some cur) :
    cur ∈ list ∧ cur.item.gid = gid ∧ cur.item.bid = bid :=
  ⟨mem_of_find?_eq_some found, of_decide_eq_true (find?_some
    (p := fun cur : SsiNode => decide (cur.item.gid = gid ∧ cur.item.bid = bid)) found)⟩

theorem aimTlvlistCmp_zero {fresh other : Fresh} {one two : List AimTlv}
    (compared : aimTlvlistCmp fresh other one two = some 0) : one = two := by
  cases first : aimTlvlistSize one with
  | none =>
    rw [aimTlvlistCmp, first] at compared
    cases compared
  | some size =>
    cases second : aimTlvlistSize two with
    | none =>
      rw [aimTlvlistCmp, first, second] at compared
      cases compared
    | some size' =>
      obtain ⟨result, same, decides⟩ :=
        (compares_iff one two).mpr ⟨bound_of_sized first, bound_of_sized second⟩ fresh other
      rw [compared] at same
      exact decides.mp (Option.some.inj same).symm

structure Alike (cur1 cur2 : AimSsiItem) : Prop where
  data : cur1.data = cur2.data
  unnamed : cur1.name = none ↔ cur2.name = none
  name : cur1.name ≠ none → oscarUtilNameCompare cur1.name cur2.name = 0
  type : cur1.type = cur2.type

theorem alike_of_fields {cur1 cur2 : AimSsiItem} (data : cur1.data = cur2.data)
    (compared : fieldsCmp cur1 cur2 = 0) : Alike cur1 cur2 := by
  unfold fieldsCmp at compared
  by_cases lost : cur1.name ≠ none ∧ cur2.name = none
  · rw [if_pos lost] at compared
    cases compared
  by_cases new : cur1.name = none ∧ cur2.name ≠ none
  · rw [if_neg lost, if_pos new] at compared
    cases compared
  by_cases renamed : cur1.name ≠ none ∧ cur2.name ≠ none ∧
      oscarUtilNameCompare cur1.name cur2.name ≠ 0
  · rw [if_neg lost, if_neg new, if_pos renamed] at compared
    cases compared
  by_cases moved : cur1.gid ≠ cur2.gid
  · rw [if_neg lost, if_neg new, if_neg renamed, if_pos moved] at compared
    cases compared
  by_cases other : cur1.bid ≠ cur2.bid
  · rw [if_neg lost, if_neg new, if_neg renamed, if_neg moved, if_pos other] at compared
    cases compared
  by_cases types : cur1.type ≠ cur2.type
  · rw [if_neg lost, if_neg new, if_neg renamed, if_neg moved, if_neg other,
      if_pos types] at compared
    cases compared
  have unnamed : cur1.name = none ↔ cur2.name = none := by
    constructor
    · intro first
      by_contra second
      exact new ⟨first, second⟩
    · intro second
      by_contra first
      exact lost ⟨first, second⟩
  refine ⟨data, unnamed, fun first => ?_, not_not.mp types⟩
  by_contra differs
  exact renamed ⟨first, fun second => first (unnamed.mpr second), differs⟩

theorem alike_of_cmp {cur1 cur2 : AimSsiItem}
    (compared : aimSsiItemlistCmp malloc (some cur1) (some cur2) = some 0) : Alike cur1 cur2 := by
  unfold aimSsiItemlistCmp at compared
  dsimp only at compared
  by_cases lost : cur1.data ≠ [] ∧ cur2.data = []
  · rw [if_pos lost] at compared
    cases compared
  by_cases new : cur1.data = [] ∧ cur2.data ≠ []
  · rw [if_neg lost, if_pos new] at compared
    cases compared
  rw [if_neg lost, if_neg new] at compared
  by_cases chains : cur1.data ≠ [] ∧ cur2.data ≠ []
  · rw [if_pos chains] at compared
    obtain ⟨differs, result, behind⟩ := map_eq_some_iff.mp compared
    by_cases different : differs ≠ 0
    · rw [if_pos different] at behind
      cases behind
    · rw [if_neg different] at behind
      rw [not_not.mp different] at result
      exact alike_of_fields (aimTlvlistCmp_zero result) behind
  · rw [if_neg chains] at compared
    have data : cur1.data = cur2.data := by
      by_cases empty : cur1.data = []
      · rw [empty]
        by_contra some
        exact new ⟨empty, fun none => some none.symm⟩
      · by_cases none : cur2.data = []
        · exact absurd ⟨empty, none⟩ lost
        · exact absurd ⟨empty, none⟩ chains
    exact alike_of_fields data (Option.some.inj compared)

def SameId (cur1 cur2 : SsiNode) : Prop :=
  cur1.item.gid = cur2.item.gid ∧ cur1.item.bid = cur2.item.bid

structure Agree (localList official : List SsiNode) : Prop where
  stored : ∀ cur1 ∈ localList, ∃ cur2 ∈ official, SameId cur1 cur2
  wanted : ∀ cur2 ∈ official, ∃ cur1 ∈ localList, SameId cur1 cur2
  type : ∀ cur1 ∈ localList, ∀ cur2 ∈ official, SameId cur1 cur2 →
    cur1.item.type = cur2.item.type
  name : ∀ cur1 ∈ localList, ∀ cur2 ∈ official, SameId cur1 cur2 →
    cur1.item.name = cur2.item.name
  data : ∀ cur1 ∈ localList, ∀ cur2 ∈ official, SameId cur1 cur2 →
    cur1.item.data = cur2.item.data

def NamesExact (localList official : List SsiNode) : Prop :=
  ∀ cur1 ∈ localList, ∀ cur2 ∈ official, SameId cur1 cur2 →
    oscarUtilNameCompare cur1.item.name cur2.item.name = 0 → cur1.item.name = cur2.item.name

def Consistent (official : List SsiNode) : Prop :=
  ∀ cur1 ∈ official, ∀ cur2 ∈ official, SameId cur1 cur2 → cur1.item = cur2.item

/-- What the three scans of a sync have found when nothing is left to send. -/
structure Quiet (malloc : Malloc) (od : OscarData) : Prop where
  deletions : ∀ cur ∈ od.official, missingIn od.localList cur = some false
  additions : ∀ cur ∈ od.localList, missingIn od.official cur = some false
  modifications : ∀ cur ∈ od.localList, modifiedFrom malloc od.official cur = some false

theorem pendingRecords_eq_nil {action : FeedbagAction} {nodes : List SsiNode}
    (nothing : pendingRecords action nodes = []) : nodes = [] := map_eq_nil_iff.mp nothing

theorem quiet_of_differences (nothing : differences malloc od = some []) : Quiet malloc od := by
  unfold differences at nothing
  by_cases already : od.pending ≠ []
  · rw [if_pos already] at nothing
    exact absurd (Option.some.inj nothing) already
  rw [if_neg already] at nothing
  obtain ⟨deletions, deleting, nothing⟩ := bind_eq_some_iff.mp nothing
  by_cases deletes : deletions ≠ []
  · rw [if_pos deletes] at nothing
    exact absurd (pendingRecords_eq_nil (Option.some.inj nothing)) deletes
  rw [if_neg deletes] at nothing
  obtain ⟨additions, adding, nothing⟩ := bind_eq_some_iff.mp nothing
  by_cases adds : additions ≠ []
  · rw [if_pos adds] at nothing
    exact absurd (pendingRecords_eq_nil (Option.some.inj nothing)) adds
  rw [if_neg adds] at nothing
  obtain ⟨modifications, modifying, nothing⟩ := bind_eq_some_iff.mp nothing
  rw [not_not.mp deletes] at deleting
  rw [not_not.mp adds] at adding
  rw [pendingRecords_eq_nil (Option.some.inj nothing)] at modifying
  exact ⟨scan_none_found deleting, scan_none_found adding, scan_none_found modifying⟩

theorem aimSsiAddmoddel_pending {after : OscarData} (sent : aimSsiAddmoddel od = some after) :
    after.pending = od.pending := by
  unfold aimSsiAddmoddel at sent
  split at sent
  · obtain ⟨items, _read, rfl⟩ := map_eq_some_iff.mp sent
    rfl
  · cases sent
    rfl

theorem quiet_of_sync {after : OscarData} (idle : od.waitingForAck = false)
    (synced : aimSsiSync malloc od = some after) (nothing : after.pending = []) :
    Quiet malloc od := by
  rw [aimSsiSync, if_neg (Bool.eq_false_iff.mp idle)] at synced
  obtain ⟨pending, found, synced⟩ := bind_eq_some_iff.mp synced
  by_cases empty : pending = []
  · rw [empty] at found
    exact quiet_of_differences found
  · rw [if_neg empty] at synced
    exact absurd ((aimSsiAddmoddel_pending synced).symm.trans nothing) empty

theorem found_of_present {cur : SsiNode} (present : missingIn list cur = some false) :
    ∃ other, aimSsiItemlistFind list cur.item.gid cur.item.bid = some other ∧ other ∈ list ∧
      SameId cur other := by
  cases found : aimSsiItemlistFind list cur.item.gid cur.item.bid with
  | none =>
    rw [missingIn, found] at present
    cases present
  | some other =>
    obtain ⟨member, gid, bid⟩ := find_some found
    exact ⟨other, rfl, member, gid.symm, bid.symm⟩

theorem Quiet.alike (quiet : Quiet malloc od) {cur : SsiNode} (member : cur ∈ od.localList) :
    ∃ other ∈ od.official, SameId cur other ∧ Alike cur.item other.item := by
  obtain ⟨other, found, stored, same⟩ := found_of_present (quiet.additions cur member)
  have unmodified := quiet.modifications cur member
  rw [modifiedFrom, found, elim_some] at unmodified
  obtain ⟨result, compared, zero⟩ := map_eq_some_iff.mp unmodified
  rw [not_not.mp (of_decide_eq_false zero)] at compared
  exact ⟨other, stored, same, alike_of_cmp compared⟩

theorem item_ext {cur1 cur2 : SsiNode} (same : SameId cur1 cur2)
    (type : cur1.item.type = cur2.item.type) (name : cur1.item.name = cur2.item.name)
    (data : cur1.item.data = cur2.item.data) : cur1.item = cur2.item := by
  obtain ⟨address1, name1, gid1, bid1, type1, data1⟩ := cur1
  obtain ⟨address2, name2, gid2, bid2, type2, data2⟩ := cur2
  obtain ⟨gid, bid⟩ := same
  cases gid
  cases bid
  cases type
  cases name
  cases data
  rfl

theorem SameId.symm {cur1 cur2 : SsiNode} (same : SameId cur1 cur2) : SameId cur2 cur1 :=
  ⟨same.1.symm, same.2.symm⟩

theorem SameId.trans {cur1 cur2 cur3 : SsiNode} (first : SameId cur1 cur2)
    (second : SameId cur2 cur3) : SameId cur1 cur3 :=
  ⟨first.1.trans second.1, first.2.trans second.2⟩

theorem Quiet.same {malloc : Malloc} {od : OscarData} (quiet : Quiet malloc od)
    (exact' : NamesExact od.localList od.official) (consistent : Consistent od.official)
    {cur1 cur2 : SsiNode} (here : cur1 ∈ od.localList) (there : cur2 ∈ od.official)
    (same : SameId cur1 cur2) : cur1.item = cur2.item := by
  obtain ⟨first, stored, sameFirst, alike⟩ := quiet.alike here
  have names : cur1.item.name = first.item.name := by
    by_cases unnamed : cur1.item.name = none
    · rw [unnamed, alike.unnamed.mp unnamed]
    · exact exact' cur1 here first stored sameFirst (alike.name unnamed)
  rw [item_ext sameFirst alike.type names alike.data]
  exact consistent first stored cur2 there (sameFirst.symm.trans same)

/-- A sync that leaves nothing pending has two lists that agree, if and only if no two names
under one id differ in case or spaces only, and no id is stored with two items. -/
theorem sync_quiet_agree_iff (malloc : Malloc) (od after : OscarData)
    (idle : od.waitingForAck = false) (synced : aimSsiSync malloc od = some after)
    (nothing : after.pending = []) :
    Agree od.localList od.official ↔
      NamesExact od.localList od.official ∧ Consistent od.official := by
  have quiet := quiet_of_sync idle synced nothing
  constructor
  · intro agree
    refine ⟨fun cur1 here cur2 there same _compared => agree.name cur1 here cur2 there same, ?_⟩
    intro cur1 first cur2 second same
    obtain ⟨wanted, here, sameWanted⟩ := agree.wanted cur1 first
    have whole : ∀ cur ∈ od.official, SameId wanted cur → wanted.item = cur.item :=
      fun cur there sameCur => item_ext sameCur (agree.type wanted here cur there sameCur)
        (agree.name wanted here cur there sameCur) (agree.data wanted here cur there sameCur)
    rw [← whole cur1 first sameWanted, whole cur2 second (sameWanted.trans same)]
  · rintro ⟨exact', consistent⟩
    have equal := fun cur1 here cur2 there =>
      @Quiet.same _ _ quiet exact' consistent cur1 cur2 here there
    refine ⟨fun cur1 here => ?_, fun cur2 there => ?_, ?_, ?_, ?_⟩
    · obtain ⟨other, _found, stored, same⟩ := found_of_present (quiet.additions cur1 here)
      exact ⟨other, stored, same⟩
    · obtain ⟨other, _found, stored, same⟩ := found_of_present (quiet.deletions cur2 there)
      exact ⟨other, stored, same.symm⟩
    · exact fun cur1 here cur2 there same =>
        congrArg AimSsiItem.type (equal cur1 here cur2 there same)
    · exact fun cur1 here cur2 there same =>
        congrArg AimSsiItem.name (equal cur1 here cur2 there same)
    · exact fun cur1 here cur2 there same =>
        congrArg AimSsiItem.data (equal cur1 here cur2 there same)

def groupList (address : Nat) (name : Bytes) : List SsiNode :=
  [{ address, item := { name := some name, gid := 1, bid := 0, type := typeGroup, data := [] } }]

/-- The group is called `"work"` on the server. -/
def renamedGroup (name : Bytes) : OscarData where
  official := groupList 0 [119, 111, 114, 107]
  localList := groupList 1 name
  pending := []
  waitingForAck := false
  receivedData := true
  sent := []

theorem sync_quiet_agree_same :
    Agree (renamedGroup [119, 111, 114, 107]).localList
      (renamedGroup [119, 111, 114, 107]).official ↔
      NamesExact (renamedGroup [119, 111, 114, 107]).localList
        (renamedGroup [119, 111, 114, 107]).official ∧
      Consistent (renamedGroup [119, 111, 114, 107]).official :=
  sync_quiet_agree_iff lastMalloc _ (renamedGroup [119, 111, 114, 107]) rfl (by rfl) rfl

/-- `"Work"` is not sent. -/
theorem renamed_not_agree :
    ¬∀ (malloc : Malloc) (od after : OscarData), od.waitingForAck = false →
      aimSsiSync malloc od = some after → after.pending = [] →
        Agree od.localList od.official := by
  intro agrees
  have agree := agrees lastMalloc (renamedGroup [87, 111, 114, 107])
    (renamedGroup [87, 111, 114, 107]) rfl (by rfl) rfl
  have names :=
    agree.name _ (mem_singleton.mpr rfl) _ (mem_singleton.mpr rfl) ⟨rfl, rfl⟩
  exact absurd names (by decide)

end Purple.Oscar
