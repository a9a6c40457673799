/-
Each call keeps the books, and the expiry keeps the status in force and the one
for the startup.
-/

import Purple.SavedStatusesKept

namespace Purple.SavedStatuses

open List Option

open Xml (Node)
open Sax (Text)

variable {dated : Prop} {world : World} {state next : State}

variable {title : Option Text} {type : PurpleStatusPrimitive} {status : PurpleSavedStatus}
  {address : Nat} {savedStatuses : List PurpleSavedStatus}

theorem Grows.refl (state : State) : Grows state state := fun _ member => member

theorem create_cases (made : create world state title type = some (next, status)) :
    state.creationTimes.lookup status.creationTime = none ∧
      (0 ≤ world.clock state.readings → 0 < status.creationTime) ∧
      status.address = state.next ∧ status.title = title ∧
      ∃ savedStatuses,
        SortedList.insertSorted sortFunc status state.savedStatuses = some savedStatuses ∧
        next = { state with
          savedStatuses
          creationTimes := state.creationTimes.insert status.creationTime state.next
          next := state.next + 1
          readings := state.readings + 1 } := by
  obtain ⟨⟨time, after⟩, set, made⟩ := bind_eq_some_iff.mp made
  obtain ⟨savedStatuses, inserted, made⟩ := bind_eq_some_iff.mp made
  obtain ⟨absent, rfl, later⟩ := setCreationTime_spec set
  cases made
  exact ⟨absent, later, rfl, rfl, savedStatuses, inserted, rfl⟩

theorem create_booked (booked : Booked dated state) (clock : dated → ∀ n, 0 ≤ world.clock n)
    (unused : title.bind (find state.savedStatuses) = none)
    (made : create world state title type = some (next, status)) :
    Booked dated next ∧ Grows state next ∧ status ∈ next.savedStatuses := by
  obtain ⟨free, later, address, titled, savedStatuses, inserted, rfl⟩ := create_cases made
  have perm := SortedList.insertSorted_perm inserted
  refine ⟨⟨?_, SortedList.insertSorted_sorted sortFunc_lawful booked.sorted inserted⟩, ?_, ?_⟩
  · refine (booked.filed.add address free ?_ fun holds => later (clock holds _)).perm perm
    intro own same
    rw [← titled, same] at unused
    exact unused
  · intro other member
    exact perm.mem_iff.mpr (mem_cons_of_mem _ member)
  · exact perm.mem_iff.mpr mem_cons_self

theorem new_booked (booked : Booked dated state) (clock : dated → ∀ n, 0 ≤ world.clock n)
    {status : Option PurpleSavedStatus}
    (made : purpleSavedstatusNew world state title type = some (next, status)) :
    Booked dated next := by
  rw [purpleSavedstatusNew] at made
  split at made
  · cases made
    exact booked
  · rename_i unused
    obtain ⟨⟨after, new⟩, created, same⟩ := map_eq_some_iff.mp made
    cases same
    exact (create_booked booked clock (not_isSome_iff_eq_none.mp unused) created).1

theorem status_mem (found : state.status address = some status) :
    status ∈ state.savedStatuses ∧ status.address = address :=
  ⟨mem_of_find?_eq_some found,
    eq_of_beq (find?_some (p := fun status : PurpleSavedStatus => status.address == address) found)⟩

theorem map_sorted {change : PurpleSavedStatus → PurpleSavedStatus}
    (same : ∀ status, magic (change status) = magic status)
    (sorted : SortedList.Sorted sortFunc savedStatuses) :
    SortedList.Sorted sortFunc (savedStatuses.map change) := by
  refine List.Pairwise.map change ?_ sorted
  intro a b before
  rw [sortFunc_inOrder, same, same]
  exact sortFunc_inOrder.mp before

theorem setMessage_booked (booked : Booked dated state) {message : Option Text}
    (set : setMessage state address message = some next) :
    Booked dated next ∧ ∀ status ∈ state.savedStatuses, status.address ≠ address →
      status ∈ next.savedStatuses := by
  obtain ⟨-, -, rfl⟩ := map_eq_some_iff.mp set
  refine ⟨⟨booked.filed.map ?_ ?_ ?_, map_sorted ?_ booked.sorted⟩, ?_⟩
  · intro status
    split <;> rfl
  · intro status
    split <;> rfl
  · rw [filterMap_map, show PurpleSavedStatus.title ∘ _ = PurpleSavedStatus.title from
      funext fun status => by
        dsimp only [Function.comp]
        split <;> rfl]
    exact booked.filed.titles
  · intro status
    split <;> rfl
  · intro status member other
    refine List.mem_map.mpr ⟨status, member, if_neg other⟩

theorem titles_retitled (addresses : (savedStatuses.map PurpleSavedStatus.address).Nodup)
    (titles : (savedStatuses.filterMap PurpleSavedStatus.title).Nodup)
    (unused : title.bind (find savedStatuses) = none) (address : Nat) :
    ((savedStatuses.map fun status =>
      if status.address = address then { status with title } else status).filterMap
        PurpleSavedStatus.title).Nodup := by
  have absent : ∀ other ∈ savedStatuses, ∀ own, title = some own → other.title ≠ some own := by
    intro other member own same titled
    rw [same] at unused
    have differs := find?_eq_none.mp unused other member
    rw [titled] at differs
    exact differs (beq_self_eq_true _)
  unfold List.Nodup at addresses titles ⊢
  rw [pairwise_map] at addresses
  rw [pairwise_filterMap] at titles ⊢
  rw [pairwise_map]
  refine List.Pairwise.imp_of_mem ?_ (addresses.and titles)
  rintro first second firstIn secondIn ⟨different, apart⟩ titleA titledA titleB titledB
  -- at most one of the two takes the title
  by_cases firstHere : first.address = address
  · have secondOther : ¬second.address = address :=
      fun secondHere => different (firstHere.trans secondHere.symm)
    rw [if_pos firstHere] at titledA
    rw [if_neg secondOther] at titledB
    intro same
    exact absent second secondIn titleA titledA (same ▸ titledB)
  · rw [if_neg firstHere] at titledA
    by_cases secondHere : second.address = address
    · rw [if_pos secondHere] at titledB
      intro same
      exact absent first firstIn titleB titledB (same ▸ titledA)
    · rw [if_neg secondHere] at titledB
      exact apart titleA titledA titleB titledB

theorem setTitle_booked (booked : Booked dated state) {status : Option Nat}
    (set : setTitle state status title = some next) : Booked dated next := by
  cases status with
  | none =>
    cases set
    exact booked
  | some address =>
    rw [setTitle] at set
    split at set
    · cases set
      exact booked
    · rename_i unused
      obtain ⟨-, -, rfl⟩ := map_eq_some_iff.mp set
      refine ⟨booked.filed.map ?_ ?_ ?_, map_sorted ?_ booked.sorted⟩
      · intro status
        split <;> rfl
      · intro status
        split <;> rfl
      · exact titles_retitled booked.filed.addresses booked.filed.titles
          (not_isSome_iff_eq_none.mp unused) address
      · intro status
        split <;> rfl

theorem getDefault_booked (booked : Booked dated state) (clock : dated → ∀ n, 0 ≤ world.clock n)
    (got : getDefault world state = some (next, address)) :
    Booked dated next ∧ Grows state next := by
  rw [getDefault] at got
  split at got
  · cases got
    exact ⟨booked, Grows.refl state⟩
  · obtain ⟨⟨after, status⟩, made, got⟩ := bind_eq_some_iff.mp got
    cases got
    obtain ⟨kept, grows, -⟩ := create_booked booked clock rfl made
    exact ⟨⟨kept.filed, kept.sorted⟩, grows⟩

theorem getIdleaway_booked (booked : Booked dated state) (clock : dated → ∀ n, 0 ≤ world.clock n)
    (got : getIdleaway world state = some (next, address)) :
    Booked dated next ∧ Grows state next := by
  rw [getIdleaway] at got
  split at got
  · cases got
    exact ⟨booked, Grows.refl state⟩
  · split at got
    · cases got
      exact ⟨booked, Grows.refl state⟩
    · obtain ⟨⟨after, status⟩, made, got⟩ := bind_eq_some_iff.mp got
      obtain ⟨worded, set, got⟩ := bind_eq_some_iff.mp got
      cases got
      obtain ⟨kept, grows, -⟩ := create_booked booked clock rfl made
      obtain ⟨keptWorded, others⟩ := setMessage_booked kept set
      refine ⟨⟨keptWorded.filed, keptWorded.sorted⟩, fun other member => ?_⟩
      -- the message goes to the new status alone
      refine others other (grows other member) ?_
      have new : status.address = state.next := (create_cases made).2.2.1
      have old := booked.filed.fresh other member
      omega

theorem getCurrent_booked (booked : Booked dated state) (clock : dated → ∀ n, 0 ≤ world.clock n)
    (got : getCurrent world state = some (next, address)) :
    Booked dated next ∧ Grows state next := by
  rw [getCurrent] at got
  split at got
  · exact getIdleaway_booked booked clock got
  · exact getDefault_booked booked clock got

theorem getStartup_booked (booked : Booked dated state) (clock : dated → ∀ n, 0 ≤ world.clock n)
    (got : getStartup world state = some (next, address)) :
    Booked dated next ∧ Grows state next := by
  rw [getStartup] at got
  split at got
  · cases got
    exact ⟨booked, Grows.refl state⟩
  · exact getCurrent_booked booked clock got

theorem setIdleaway_booked (booked : Booked dated state) (clock : dated → ∀ n, 0 ≤ world.clock n)
    {idleaway : Bool} (set : setIdleaway world state idleaway = some next) :
    Booked dated next := by
  rw [setIdleaway] at set
  split at set
  · cases set
    exact booked
  · obtain ⟨⟨middle, old⟩, current, set⟩ := bind_eq_some_iff.mp set
    obtain ⟨⟨last, chosen⟩, got, rfl⟩ := map_eq_some_iff.mp set
    have keptMiddle := (getCurrent_booked booked clock current).1
    have keptLast : Booked dated last := by
      split at got
      · exact (getIdleaway_booked keptMiddle clock got).1
      · exact (getDefault_booked keptMiddle clock got).1
    exact ⟨keptLast.filed, keptLast.sorted⟩

theorem use_booked (booked : Booked dated state) (listed : status ∈ state.savedStatuses)
    (used : use world state status = some next) : Booked dated next := by
  obtain ⟨savedStatuses, inserted, rfl⟩ := map_eq_some_iff.mp used
  have remaining : SortedList.Sorted sortFunc
      (state.savedStatuses.eraseP (·.address == status.address)) :=
    booked.sorted.sublist eraseP_sublist
  refine ⟨?_, SortedList.insertSorted_sorted sortFunc_lawful remaining inserted⟩
  -- the status as it was, in front of the others
  have front := booked.filed.perm (booked.filed.erase_perm listed).symm
  refine Filed.perm ?_ (SortedList.insertSorted_perm inserted)
  constructor
  · intro other member
    rcases mem_cons.mp member with same | old
    · rw [same]
      exact booked.filed.fresh status listed
    · exact front.fresh other (mem_cons_of_mem _ old)
  · exact front.addresses
  · intro looked found
    rw [front.table]
    simp only [exists_mem_cons_iff]
  · have titles := front.titles
    rw [filterMap_cons] at titles ⊢
    exact titles
  · intro holds other member
    rcases mem_cons.mp member with same | old
    · rw [same]
      exact booked.filed.positive holds status listed
    · exact front.positive holds other (mem_cons_of_mem _ old)

theorem activate_booked (booked : Booked dated state) (clock : dated → ∀ n, 0 ≤ world.clock n)
    {savedStatus : Option Nat} (activated : activate world state savedStatus = some next) :
    Booked dated next := by
  obtain ⟨⟨middle, old⟩, current, activated⟩ := bind_eq_some_iff.mp activated
  have keptMiddle := (getCurrent_booked booked clock current).1
  cases savedStatus with
  | none =>
    cases activated
    exact keptMiddle
  | some address =>
    obtain ⟨status, found, activated⟩ := bind_eq_some_iff.mp activated
    obtain ⟨after, used, activated⟩ := bind_eq_some_iff.mp activated
    have kept := use_booked keptMiddle (status_mem found).1 used
    split at activated
    · exact setIdleaway_booked kept clock activated
    · cases activated
      exact kept

theorem forget_booked (booked : Booked dated state) (listed : status ∈ state.savedStatuses) :
    Booked dated (state.forget status) :=
  ⟨booked.filed.remove listed, booked.sorted.sublist eraseP_sublist⟩

theorem deleteByStatus_booked (booked : Booked dated state) {status : Option Nat}
    (deleted : deleteByStatus state status = some next) : Booked dated next := by
  cases status with
  | none =>
    cases deleted
    exact booked
  | some address =>
    obtain ⟨status, found, deleted⟩ := bind_eq_some_iff.mp deleted
    cases deleted
    have kept := forget_booked booked (status_mem found).1
    exact ⟨kept.filed, kept.sorted⟩

theorem delete_booked (booked : Booked dated state) (clock : dated → ∀ n, 0 ≤ world.clock n)
    {answer : Bool} (deleted : delete world state title = some (next, answer)) :
    Booked dated next := by
  rw [delete] at deleted
  split at deleted
  · cases deleted
    exact booked
  · obtain ⟨⟨middle, current⟩, got, deleted⟩ := bind_eq_some_iff.mp deleted
    have keptMiddle := (getCurrent_booked booked clock got).1
    dsimp only at deleted
    split at deleted
    · cases deleted
      exact keptMiddle
    · obtain ⟨last, gone, deleted⟩ := bind_eq_some_iff.mp deleted
      cases deleted
      exact deleteByStatus_booked keptMiddle gone

theorem expire_booked {current startup : Nat} {listed : List PurpleSavedStatus} :
    ∀ {count : Nat} {state : State}, Booked dated state →
      (listed.map PurpleSavedStatus.address).Nodup →
      (∀ status ∈ listed, status ∈ state.savedStatuses) →
      Booked dated (expire current startup count listed state) ∧
        ∀ status ∈ state.savedStatuses, status.address = current ∨ status.address = startup →
          status ∈ (expire current startup count listed state).savedStatuses := by
  induction listed with
  | nil =>
    intro count state booked _ _
    exact ⟨booked, fun status member _ => member⟩
  | cons status rest ih =>
    intro count state booked distinct members
    obtain ⟨fresh, distinctRest⟩ := nodup_cons.mp distinct
    have restMembers : ∀ other ∈ rest, other ∈ state.savedStatuses :=
      fun other member => members other (mem_cons_of_mem _ member)
    rw [expire]
    split
    · split
      · split
        · rename_i spared
          have here := members status mem_cons_self
          -- what has another address is still in the list
          have remains (other : PurpleSavedStatus) (member : other ∈ state.savedStatuses)
              (different : other.address ≠ status.address) :
              other ∈ (state.forget status).savedStatuses := by
            refine (mem_eraseP_of_neg ?_).mpr member
            simpa using different
          obtain ⟨kept, protects⟩ := ih (forget_booked booked here) distinctRest fun other member =>
            remains other (restMembers other member) fun same =>
              fresh (same ▸ List.mem_map_of_mem member)
          refine ⟨kept, fun other member addressed => ?_⟩
          refine protects other (remains other member fun same => ?_) addressed
          rw [same] at addressed
          exact addressed.elim spared.1 spared.2
        · exact ih booked distinctRest restMembers
      · exact ih booked distinctRest restMembers
    · exact ih booked distinctRest restMembers

end Purple.SavedStatuses
