/-
Every run of calls keeps the books of the saved statuses; the expiry spares the
status in force and the one for the startup, and no other that a preference denotes.
-/

import Purple.SavedStatusesCalls

namespace Purple.SavedStatuses

open Option

open Xml (Node getAttrib childrenNamed)
open Sax (Text)

variable {dated : Prop} {world : World} {state next : State}

theorem uniqueTitle_unused {savedStatuses : List PurpleSavedStatus} {attrib title found : Text}
    {rounds i : Nat} (unique : uniqueTitle savedStatuses attrib rounds i title = some found) :
    find savedStatuses found = none := by
  induction rounds generalizing i title with
  | zero =>
    rw [uniqueTitle] at unique
    split at unique
    · cases unique
    · rename_i unused
      cases unique
      exact not_isSome_iff_eq_none.mp unused
  | succ rounds ih =>
    rw [uniqueTitle] at unique
    split at unique
    · exact ih unique
    · rename_i unused
      cases unique
      exact not_isSome_iff_eq_none.mp unused

theorem parseTitle_unused {savedStatuses : List PurpleSavedStatus} {status : List Node}
    {title : Option Text} (parsed : parseTitle savedStatuses status = some title) :
    title.bind (find savedStatuses) = none := by
  rw [parseTitle] at parsed
  split at parsed
  · cases parsed
    rfl
  · obtain ⟨found, unique, rfl⟩ := map_eq_some_iff.mp parsed
    exact uniqueTitle_unused unique

def Dated (statuses : List (List Node)) : Prop :=
  ∀ status ∈ statuses, 0 ≤ numberOf (getAttrib status createdAttribute)

theorem loadEach_filed {statuses : List (List Node)} (times : dated → Dated statuses) :
    ∀ {state next : State}, Filed dated state.savedStatuses state.creationTimes state.next →
      loadEach world state statuses = some next →
        Filed dated next.savedStatuses next.creationTimes next.next := by
  induction statuses with
  | nil =>
    intro state next filed loaded
    cases loaded
    exact filed
  | cons status rest ih =>
    intro state next filed loaded
    obtain ⟨⟨middle, new⟩, parsed, loaded⟩ := bind_eq_some_iff.mp loaded
    obtain ⟨title, titled, parsed⟩ := bind_eq_some_iff.mp parsed
    obtain ⟨⟨time, after⟩, set, parsed⟩ := bind_eq_some_iff.mp parsed
    obtain ⟨free, rfl, later⟩ := setCreationTime_spec set
    cases parsed
    refine ih (fun holds other member => times holds other (List.mem_cons_of_mem _ member)) ?_ loaded
    refine filed.add rfl free ?_ fun holds => later (times holds status List.mem_cons_self)
    intro own same
    have unused := parseTitle_unused titled
    change title = some own at same
    rw [same] at unused
    exact unused

theorem loadStatuses_booked (booked : Booked dated state) {statuses : Option (List Node)}
    (times : dated → ∀ found, statuses = some found → Dated (childrenNamed found statusElement))
    (loaded : loadStatuses world state statuses = some next) : Booked dated next := by
  cases statuses with
  | none =>
    cases loaded
    exact booked
  | some found =>
    obtain ⟨middle, each, loaded⟩ := bind_eq_some_iff.mp loaded
    obtain ⟨savedStatuses, sorted, loaded⟩ := bind_eq_some_iff.mp loaded
    cases loaded
    have filed := loadEach_filed (fun holds => times holds found rfl) booked.filed each
    exact ⟨filed.perm (SortedList.sort_perm sorted),
      SortedList.sort_sorted sortFunc_lawful sorted⟩

/-- The status that the preference for the status in force denotes, or that of
the startup preference. -/
def Protected (state : State) (status : PurpleSavedStatus) : Prop :=
  state.denoted (if state.isIdleaway then state.prefIdleaway else state.prefDefault) =
      some status.address ∨
    state.denoted state.prefStartup = some status.address

theorem getCurrent_denoted {address : Nat}
    (inForce : state.denoted (if state.isIdleaway then state.prefIdleaway else state.prefDefault) =
      some address) : getCurrent world state = some (state, address) := by
  rw [getCurrent]
  split
  · rename_i idle
    rw [if_pos idle] at inForce
    rw [getIdleaway, inForce]
  · rename_i back
    rw [if_neg back] at inForce
    rw [getDefault, inForce]

theorem getStartup_denoted {address : Nat}
    (startup : state.denoted state.prefStartup = some address) :
    getStartup world state = some (state, address) := by
  rw [getStartup, startup]

theorem removeOld_booked (booked : Booked dated state) (clock : dated → ∀ n, 0 ≤ world.clock n)
    (removed : removeOldTransientStatuses world state = some next) :
    Booked dated next ∧
      ∀ status ∈ state.savedStatuses, Protected state status → status ∈ next.savedStatuses := by
  obtain ⟨⟨first, startup⟩, gotStartup, removed⟩ := bind_eq_some_iff.mp removed
  obtain ⟨⟨second, current⟩, gotCurrent, removed⟩ := bind_eq_some_iff.mp removed
  cases removed
  obtain ⟨keptFirst, growsFirst⟩ := getStartup_booked booked clock gotStartup
  obtain ⟨keptSecond, growsSecond⟩ := getCurrent_booked keptFirst clock gotCurrent
  obtain ⟨kept, spares⟩ := expire_booked keptSecond keptSecond.filed.addresses
    fun _ member => member
  refine ⟨kept, fun status member spared => ?_⟩
  refine spares status (growsSecond status (growsFirst status member)) ?_
  rcases spared with inForce | atStartup
  · -- neither look makes a status, and the second finds the one in force
    left
    have unchanged : first = state := by
      rw [getStartup, getCurrent_denoted inForce] at gotStartup
      split at gotStartup <;> cases gotStartup <;> rfl
    subst unchanged
    rw [getCurrent_denoted inForce] at gotCurrent
    cases gotCurrent
    rfl
  · right
    rw [getStartup_denoted atStartup] at gotStartup
    cases gotStartup
    rfl

def Call.Dated : Call → Prop
  | .loadStatuses (some statuses) => SavedStatuses.Dated (childrenNamed statuses statusElement)
  | _ => True

theorem perform_booked (booked : Booked dated state) (clock : dated → ∀ n, 0 ≤ world.clock n)
    {call : Call} (times : dated → call.Dated) (performed : perform world state call = some next) :
    Booked dated next := by
  cases call with
  | loadStatuses statuses =>
    refine loadStatuses_booked booked ?_ performed
    rintro holds found rfl
    exact times holds
  | new title type =>
    obtain ⟨⟨after, made⟩, called, rfl⟩ := map_eq_some_iff.mp performed
    exact new_booked booked clock called
  | setTitle status title => exact setTitle_booked booked performed
  | activate status => exact activate_booked booked clock performed
  | getDefault =>
    obtain ⟨⟨after, address⟩, called, rfl⟩ := map_eq_some_iff.mp performed
    exact (getDefault_booked booked clock called).1
  | getIdleaway =>
    obtain ⟨⟨after, address⟩, called, rfl⟩ := map_eq_some_iff.mp performed
    exact (getIdleaway_booked booked clock called).1
  | setIdleaway idleaway => exact setIdleaway_booked booked clock performed
  | delete title =>
    obtain ⟨⟨after, answer⟩, called, rfl⟩ := map_eq_some_iff.mp performed
    exact delete_booked booked clock called
  | deleteByStatus status => exact deleteByStatus_booked booked performed
  | removeOldTransientStatuses => exact (removeOld_booked booked clock performed).1
  | prefsSetIdleaway value =>
    cases performed
    exact ⟨booked.filed, booked.sorted⟩
  | prefsSetStartup value =>
    cases performed
    exact ⟨booked.filed, booked.sorted⟩

theorem run_booked {prefDefault prefIdleaway prefStartup : Int32} {isIdleaway : Bool}
    {calls : List Call} {reached : State} (clock : dated → ∀ n, 0 ≤ world.clock n)
    (times : dated → ∀ call ∈ calls, call.Dated)
    (ran : PartialRun.run (perform world) (initial prefDefault prefIdleaway prefStartup isIdleaway)
      calls = some reached) : Booked dated reached := by
  have start : Booked dated (initial prefDefault prefIdleaway prefStartup isIdleaway) :=
    ⟨Filed.empty, List.Pairwise.nil⟩
  have admitted : PartialRun.Admitted (perform world) (fun _ call => dated → call.Dated)
      (initial prefDefault prefIdleaway prefStartup isIdleaway) calls :=
    PartialRun.admitted_of_forall fun call member _ holds => times holds call member
  exact PartialRun.reached_of_run (Booked dated)
    (fun _ _ _ booked admitted performed => perform_booked booked clock admitted performed)
    start admitted ran

/-- In every state that a run of the calls reaches the table holds exactly the
creation times of the listed statuses, times and titles are distinct and the list
is sorted; without negative times no creation time is 0.  The expiry keeps the
status in force and the startup status. -/
theorem savedStatuses_run (world : World) (prefDefault prefIdleaway prefStartup : Int32)
    (isIdleaway : Bool) (calls : List Call) (reached : State)
    (ran : PartialRun.run (perform world) (initial prefDefault prefIdleaway prefStartup isIdleaway)
      calls = some reached) :
    (reached.savedStatuses.map PurpleSavedStatus.address).Nodup ∧
      (∀ time address, reached.creationTimes.lookup time = some address ↔
        ∃ status ∈ reached.savedStatuses,
          status.creationTime = time ∧ status.address = address) ∧
      (reached.savedStatuses.map PurpleSavedStatus.creationTime).Nodup ∧
      ((∀ n, 0 ≤ world.clock n) → (∀ call ∈ calls, call.Dated) →
        ∀ status ∈ reached.savedStatuses, status.creationTime ≠ 0) ∧
      (reached.savedStatuses.filterMap PurpleSavedStatus.title).Nodup ∧
      SortedList.Sorted sortFunc reached.savedStatuses ∧
      ∀ next, removeOldTransientStatuses world reached = some next →
        ∀ status ∈ reached.savedStatuses, Protected reached status →
          status ∈ next.savedStatuses := by
  have booked : Booked ((∀ n, 0 ≤ world.clock n) ∧ ∀ call ∈ calls, call.Dated) reached :=
    run_booked And.left And.right ran
  have unconditional : Booked False reached :=
    run_booked (fun impossible => impossible.elim) (fun impossible => impossible.elim) ran
  refine ⟨booked.filed.addresses, booked.filed.table, booked.filed.times, ?_, booked.filed.titles,
    booked.sorted, ?_⟩
  · intro clock times status member
    have later := booked.filed.positive ⟨clock, times⟩ status member
    omega
  · intro next removed
    exact (removeOld_booked unconditional (fun impossible => impossible.elim) removed).2

def stillWorld : World :=
  { accounts := [], normalize := fun _ name => name, autoawayMessage := ['o', 'u', 't'],
    clock := fun _ => 1000 }

def idleOnceCalls : List Call :=
  [.setIdleaway true, .setIdleaway false,
   .new none .available, .activate (some 2), .new none .available, .activate (some 3),
   .new none .available, .activate (some 4), .new none .available, .activate (some 5),
   .new none .available, .activate (some 6)]

def idledStatus : PurpleSavedStatus :=
  { address := 1, title := none, type := .away, message := some ['o', 'u', 't'],
    creationTime := 1001, lastused := 0, usageCount := 0, substatuses := [] }

theorem savedStatuses_run_idleOnce :
    ∃ reached, PartialRun.run (perform stillWorld) (initial 0 0 0 false) idleOnceCalls = some reached ∧
      ∀ next, removeOldTransientStatuses stillWorld reached = some next →
        ∀ status ∈ reached.savedStatuses, Protected reached status →
          status ∈ next.savedStatuses := by
  refine ⟨_, rfl, ?_⟩
  exact (savedStatuses_run stillWorld 0 0 0 false idleOnceCalls _ rfl).2.2.2.2.2.2

/-- The status that the idleaway preference denotes is deleted while it is not in force. -/
theorem idleaway_expires :
    ∃ reached next status,
      PartialRun.run (perform stillWorld) (initial 0 0 0 false) idleOnceCalls = some reached ∧
        status ∈ reached.savedStatuses ∧
        reached.denoted reached.prefIdleaway = some status.address ∧
        removeOldTransientStatuses stillWorld reached = some next ∧
        status ∉ next.savedStatuses := by
  refine ⟨_, _, idledStatus, rfl, ?_, rfl, rfl, ?_⟩
  · decide
  · decide

end Purple.SavedStatuses
