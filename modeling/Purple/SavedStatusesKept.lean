/-
What every call keeps of the list, the table and the order of the saved statuses.

`dated` stands for the assumption that no time of the clock or of a document is
negative: only then is no creation time 0.
-/

import Purple.SavedStatusesLoad

namespace Purple.SavedStatuses

open List Option

open Xml (Node)
open Sax (Text)

theorem sortFunc_inOrder {a b : PurpleSavedStatus} :
    SortedList.InOrder sortFunc a b ↔
      ∃ timeA timeB, magic a = some timeA ∧ magic b = some timeB ∧ timeB ≤ timeA := by
  constructor
  · rintro ⟨cmp, compared, low⟩
    obtain ⟨timeA, magicA, compared⟩ := bind_eq_some_iff.mp compared
    obtain ⟨timeB, magicB, compared⟩ := bind_eq_some_iff.mp compared
    refine ⟨timeA, timeB, magicA, magicB, ?_⟩
    by_contra later
    cases compared
    rw [if_neg (by omega), if_pos (by omega)] at low
    omega
  · rintro ⟨timeA, timeB, magicA, magicB, later⟩
    refine ⟨if timeA > timeB then -1 else if timeA < timeB then 1 else 0, ?_, ?_⟩
    · rw [sortFunc, magicA, magicB]
      rfl
    · split
      · omega
      · exact Int.le_of_eq (if_neg (by omega))

theorem sortFunc_lawful : SortedList.Lawful sortFunc where
  trans := by
    intro first second third firstSecond secondThird
    obtain ⟨timeA, timeB, magicA, magicB, before⟩ := sortFunc_inOrder.mp firstSecond
    obtain ⟨timeB', timeC, magicB', magicC, behind⟩ := sortFunc_inOrder.mp secondThird
    rw [magicB] at magicB'
    cases magicB'
    exact sortFunc_inOrder.mpr ⟨timeA, timeC, magicA, magicC, Int.le_trans behind before⟩
  swap := by
    intro first second cmp compared positive
    obtain ⟨timeA, magicA, compared⟩ := bind_eq_some_iff.mp compared
    obtain ⟨timeB, magicB, compared⟩ := bind_eq_some_iff.mp compared
    refine sortFunc_inOrder.mpr ⟨timeB, timeA, magicB, magicA, ?_⟩
    by_contra earlier
    cases compared
    rw [if_pos (by omega)] at positive
    omega

/-- Addresses and titles are distinct, and the table holds of each status its
creation time and nothing else. -/
structure Filed (dated : Prop) (savedStatuses : List PurpleSavedStatus)
    (creationTimes : HashTable Int Nat) (next : Nat) : Prop where
  fresh : ∀ status ∈ savedStatuses, status.address < next
  addresses : (savedStatuses.map PurpleSavedStatus.address).Nodup
  table : ∀ time address, creationTimes.lookup time = some address ↔
    ∃ status ∈ savedStatuses, status.creationTime = time ∧ status.address = address
  titles : (savedStatuses.filterMap PurpleSavedStatus.title).Nodup
  positive : dated → ∀ status ∈ savedStatuses, 0 < status.creationTime

section filed

variable {dated : Prop} {savedStatuses : List PurpleSavedStatus}
  {creationTimes : HashTable Int Nat} {next : Nat}

variable {status : PurpleSavedStatus}

theorem Filed.perm (filed : Filed dated savedStatuses creationTimes next)
    {other : List PurpleSavedStatus} (perm : other.Perm savedStatuses) :
    Filed dated other creationTimes next where
  fresh := fun status member => filed.fresh status (perm.mem_iff.mp member)
  addresses := (perm.map _).nodup_iff.mpr filed.addresses
  table := by
    intro time address
    rw [filed.table]
    constructor
    · rintro ⟨status, member, same⟩
      exact ⟨status, perm.mem_iff.mpr member, same⟩
    · rintro ⟨status, member, same⟩
      exact ⟨status, perm.mem_iff.mp member, same⟩
  titles := (perm.filterMap _).nodup_iff.mpr filed.titles
  positive := fun holds status member => filed.positive holds status (perm.mem_iff.mp member)

theorem Filed.ext_address (filed : Filed dated savedStatuses creationTimes next)
    {first second : PurpleSavedStatus} (firstIn : first ∈ savedStatuses)
    (secondIn : second ∈ savedStatuses) (same : first.address = second.address) :
    first = second := inj_on_of_nodup_map filed.addresses firstIn secondIn same

theorem Filed.ext_time (filed : Filed dated savedStatuses creationTimes next)
    {first second : PurpleSavedStatus} (firstIn : first ∈ savedStatuses)
    (secondIn : second ∈ savedStatuses) (same : first.creationTime = second.creationTime) :
    first = second := by
  have firstHeld := (filed.table _ _).mpr ⟨first, firstIn, rfl, rfl⟩
  have secondHeld := (filed.table _ _).mpr ⟨second, secondIn, rfl, rfl⟩
  rw [same, secondHeld] at firstHeld
  exact filed.ext_address firstIn secondIn (Option.some.inj firstHeld).symm

theorem Filed.times (filed : Filed dated savedStatuses creationTimes next) :
    (savedStatuses.map PurpleSavedStatus.creationTime).Nodup := by
  refine List.Nodup.map_on ?_ (List.Nodup.of_map _ filed.addresses)
  intro first firstIn second secondIn same
  exact filed.ext_time firstIn secondIn same

theorem Filed.empty : Filed dated [] HashTable.empty next where
  fresh := by
    intro status member
    cases member
  addresses := nodup_nil
  table := by
    intro time address
    simp
  titles := nodup_nil
  positive := by
    intro _ status member
    cases member

theorem Filed.add (filed : Filed dated savedStatuses creationTimes next)
    (address : status.address = next) (free : creationTimes.lookup status.creationTime = none)
    (unused : ∀ title, status.title = some title → find savedStatuses title = none)
    (later : dated → 0 < status.creationTime) :
    Filed dated (status :: savedStatuses) (creationTimes.insert status.creationTime next)
      (next + 1) where
  fresh := by
    intro other member
    rcases mem_cons.mp member with same | old
    · rw [same, address]
      exact Nat.lt_succ_self next
    · exact Nat.lt_succ_of_lt (filed.fresh other old)
  addresses := by
    rw [map_cons, nodup_cons]
    refine ⟨?_, filed.addresses⟩
    intro used
    obtain ⟨other, old, same⟩ := List.mem_map.mp used
    have below := filed.fresh other old
    omega
  table := by
    intro time other
    by_cases own : time = status.creationTime
    · rw [own, HashTable.lookup_insert_self]
      constructor
      · intro same
        cases same
        exact ⟨status, mem_cons_self, rfl, address⟩
      · rintro ⟨found, member, timed, rfl⟩
        rcases mem_cons.mp member with same | old
        · rw [same, address]
        · have held := (filed.table _ _).mpr ⟨found, old, timed, rfl⟩
          rw [free] at held
          cases held
    · rw [HashTable.lookup_insert_other _ own, filed.table]
      constructor
      · rintro ⟨found, old, same⟩
        exact ⟨found, mem_cons_of_mem _ old, same⟩
      · rintro ⟨found, member, timed, addressed⟩
        rcases mem_cons.mp member with same | old
        · rw [same] at timed
          exact absurd timed.symm own
        · exact ⟨found, old, timed, addressed⟩
  titles := by
    cases titled : status.title with
    | none =>
      rw [filterMap_cons_none titled]
      exact filed.titles
    | some title =>
      rw [filterMap_cons_some titled, nodup_cons]
      refine ⟨?_, filed.titles⟩
      intro used
      obtain ⟨other, old, same⟩ := mem_filterMap.mp used
      have differs := find?_eq_none.mp (unused title titled) other old
      rw [same] at differs
      exact differs (beq_self_eq_true _)
  positive := by
    intro holds other member
    rcases mem_cons.mp member with same | old
    · rw [same]
      exact later holds
    · exact filed.positive holds other old

theorem Filed.erase_perm (filed : Filed dated savedStatuses creationTimes next)
    (listed : status ∈ savedStatuses) :
    savedStatuses.Perm (status :: savedStatuses.eraseP (·.address == status.address)) := by
  obtain ⟨gone, front, behind, -, same, split, erased⟩ :=
    exists_of_eraseP (p := (·.address == status.address)) listed (beq_self_eq_true _)
  have goneIn : gone ∈ savedStatuses := by
    rw [split]
    exact mem_append_right _ mem_cons_self
  rw [← filed.ext_address goneIn listed (eq_of_beq same)] at erased ⊢
  rw [erased, split]
  exact perm_middle

theorem Filed.tail (filed : Filed dated (status :: savedStatuses) creationTimes next) :
    Filed dated savedStatuses (creationTimes.remove status.creationTime) next where
  fresh := fun other member => filed.fresh other (mem_cons_of_mem _ member)
  addresses := (nodup_cons.mp filed.addresses).2
  table := by
    intro time address
    by_cases own : time = status.creationTime
    · rw [own, HashTable.lookup_remove_self]
      constructor
      · intro impossible
        cases impossible
      · rintro ⟨other, member, timed, -⟩
        have same := filed.ext_time (mem_cons_of_mem _ member) mem_cons_self timed
        exact absurd (same ▸ member) (nodup_cons.mp (List.Nodup.of_map _ filed.addresses)).1
    · rw [HashTable.lookup_remove_other _ own, filed.table]
      constructor
      · rintro ⟨found, member, timed, addressed⟩
        rcases mem_cons.mp member with same | old
        · rw [same] at timed
          exact absurd timed.symm own
        · exact ⟨found, old, timed, addressed⟩
      · rintro ⟨found, old, same⟩
        exact ⟨found, mem_cons_of_mem _ old, same⟩
  titles := filed.titles.sublist ((sublist_cons_self _ _).filterMap _)
  positive := fun holds other member => filed.positive holds other (mem_cons_of_mem _ member)

theorem Filed.remove (filed : Filed dated savedStatuses creationTimes next)
    (listed : status ∈ savedStatuses) :
    Filed dated (savedStatuses.eraseP (·.address == status.address))
      (creationTimes.remove status.creationTime) next :=
  (filed.perm (filed.erase_perm listed).symm).tail

theorem Filed.map (filed : Filed dated savedStatuses creationTimes next)
    {change : PurpleSavedStatus → PurpleSavedStatus}
    (address : ∀ status, (change status).address = status.address)
    (time : ∀ status, (change status).creationTime = status.creationTime)
    (titles : ((savedStatuses.map change).filterMap PurpleSavedStatus.title).Nodup) :
    Filed dated (savedStatuses.map change) creationTimes next where
  fresh := by
    intro other member
    obtain ⟨status, listed, rfl⟩ := List.mem_map.mp member
    rw [address]
    exact filed.fresh status listed
  addresses := by
    rw [List.map_map, show PurpleSavedStatus.address ∘ change = PurpleSavedStatus.address from
      funext address]
    exact filed.addresses
  table := by
    intro looked found
    rw [filed.table]
    constructor
    · rintro ⟨status, listed, timed, addressed⟩
      exact ⟨change status, List.mem_map_of_mem listed, (time status).trans timed,
        (address status).trans addressed⟩
    · rintro ⟨_, member, timed, addressed⟩
      obtain ⟨status, listed, rfl⟩ := List.mem_map.mp member
      exact ⟨status, listed, (time status).symm.trans timed,
        (address status).symm.trans addressed⟩
  titles := titles
  positive := by
    intro holds other member
    obtain ⟨status, listed, rfl⟩ := List.mem_map.mp member
    rw [time]
    exact filed.positive holds status listed

end filed

structure Booked (dated : Prop) (state : State) : Prop where
  filed : Filed dated state.savedStatuses state.creationTimes state.next
  sorted : SortedList.Sorted sortFunc state.savedStatuses

def Grows (state next : State) : Prop :=
  ∀ status ∈ state.savedStatuses, status ∈ next.savedStatuses

theorem freeTime_spec {creationTimes : HashTable Int Nat} {rounds : Nat} {time found : Int}
    (free : freeTime creationTimes rounds time = some found) :
    creationTimes.lookup found = none ∧ time ≤ found := by
  induction rounds generalizing time with
  | zero => cases free
  | succ rounds ih =>
    rw [freeTime] at free
    split at free
    · rename_i absent
      cases free
      exact ⟨absent, Int.le_refl _⟩
    · split at free
      · obtain ⟨absent, later⟩ := ih free
        exact ⟨absent, by omega⟩
      · cases free

theorem setCreationTime_spec {creationTimes after : HashTable Int Nat} {address : Nat}
    {creationTime time : Int}
    (set : setCreationTime creationTimes address creationTime = some (time, after)) :
    creationTimes.lookup time = none ∧ after = creationTimes.insert time address ∧
      (0 ≤ creationTime → 0 < time) := by
  obtain ⟨found, free, same⟩ := map_eq_some_iff.mp set
  cases same
  obtain ⟨absent, later⟩ := freeTime_spec free
  refine ⟨absent, rfl, fun nonneg => ?_⟩
  split at later
  · omega
  · omega

end Purple.SavedStatuses
