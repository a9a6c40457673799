/-
The saved statuses of savedstatuses.c.

`saved_statuses` is the list of what its elements point to, each with its own
address.  A time is a `time_t` of 64 bits, a preference holds 32 of them.  A
function is `none` where the source has undefined behaviour: a time runs over,
or a status is used that is no longer in the list.  The reading of the clock is
one of the world, so that each call may see any time.
-/

import Mathlib.Algebra.Group.Int.Defs
import Mathlib.Data.List.TakeWhile
import Purple.HashTable
import Purple.PartialRun
import Purple.SortedList
import Purple.XmlTree

namespace Purple.SavedStatuses

open Xml (Node)
open Sax (Text)

inductive PurpleStatusPrimitive where
  | unset | offline | available | unavailable | invisible | away | extendedAway | mobile | tune | mood
deriving DecidableEq, Repr

structure PurpleStatusType where
  address : Nat
  id : Text
deriving DecidableEq

structure PurpleAccount where
  address : Nat
  username : Text
  protocolId : Text
  statusTypes : List PurpleStatusType
deriving DecidableEq

structure PurpleSavedStatusSub where
  account : PurpleAccount
  type : PurpleStatusType
  message : Option Text
deriving DecidableEq

/-- A status with its address; no title makes it transient. -/
structure PurpleSavedStatus where
  address : Nat
  title : Option Text
  type : PurpleStatusPrimitive
  message : Option Text
  creationTime : Int
  lastused : Int
  usageCount : UInt32
  substatuses : List PurpleSavedStatusSub
deriving DecidableEq

/-- What the functions read and do not write: the accounts with the
normalisation of their protocols, the translated message and the clock. -/
structure World where
  accounts : List PurpleAccount
  normalize : PurpleAccount → Text → Text
  autoawayMessage : Text
  clock : Nat → Int

/-- `readings` counts the calls of `time`, `next` is the address of the next status. -/
structure State where
  savedStatuses : List PurpleSavedStatus
  creationTimes : HashTable Int Nat
  prefDefault : Int32
  prefIdleaway : Int32
  prefStartup : Int32
  isIdleaway : Bool
  next : Nat
  readings : Nat

def maxTransients : Nat := 5

def longMax : Int := 2 ^ 63 - 1

def intMax : Nat := 2 ^ 31 - 1

def PurpleSavedStatus.isTransient (status : PurpleSavedStatus) : Bool := status.title.isNone

def State.status (state : State) (address : Nat) : Option PurpleSavedStatus :=
  state.savedStatuses.find? (·.address == address)

def State.denoted (state : State) (pref : Int32) : Option Nat :=
  if pref.toInt = 0 then none else state.creationTimes.lookup pref.toInt

/-- `purple_savedstatus_find` -/
def find (savedStatuses : List PurpleSavedStatus) (title : Text) : Option PurpleSavedStatus :=
  savedStatuses.find? (·.title == some title)

/-- `purple_savedstatus_find_transient_by_type_and_message` -/
def findTransientByTypeAndMessage (savedStatuses : List PurpleSavedStatus)
    (type : PurpleStatusPrimitive) (message : Option Text) : Option PurpleSavedStatus :=
  savedStatuses.find? fun status =>
    status.type == type && status.isTransient && status.substatuses.isEmpty &&
      status.message == message

/-- The loop of `set_creation_time`; among `rounds` times one more than the
table has entries some time is free. -/
def freeTime (creationTimes : HashTable Int Nat) : Nat → Int → Option Int
  | 0, _ => none
  | rounds + 1, time =>
    if creationTimes.lookup time = none then some time
    else if time < longMax then freeTime creationTimes rounds (time + 1)
    else none

/-- `set_creation_time` -/
def setCreationTime (creationTimes : HashTable Int Nat) (address : Nat) (creationTime : Int) :
    Option (Int × HashTable Int Nat) :=
  (freeTime creationTimes (creationTimes.size + 1)
      (if creationTime ≠ 0 then creationTime else 1)).map
    fun time => (time, creationTimes.insert time address)

def magic (status : PurpleSavedStatus) : Option Int :=
  let time := status.lastused + min status.usageCount.toNat 10 * 86400
  if time ≤ longMax then some time else none

/-- `saved_statuses_sort_func` -/
def sortFunc (a b : PurpleSavedStatus) : Option Int := do
  let timeA ← magic a
  let timeB ← magic b
  return if timeA > timeB then -1 else if timeA < timeB then 1 else 0

/-- The part of `purple_savedstatus_new` behind its check, which no title passes. -/
def create (world : World) (state : State) (title : Option Text) (type : PurpleStatusPrimitive) :
    Option (State × PurpleSavedStatus) := do
  let (creationTime, creationTimes) ←
    setCreationTime state.creationTimes state.next (world.clock state.readings)
  let status : PurpleSavedStatus :=
    { address := state.next, title, type, message := none, creationTime, lastused := 0,
      usageCount := 0, substatuses := [] }
  let savedStatuses ← SortedList.insertSorted sortFunc status state.savedStatuses
  return ({ state with savedStatuses, creationTimes, next := state.next + 1,
                       readings := state.readings + 1 }, status)

/-- `purple_savedstatus_new` -/
def purpleSavedstatusNew (world : World) (state : State) (title : Option Text)
    (type : PurpleStatusPrimitive) : Option (State × Option PurpleSavedStatus) :=
  if (title.bind (find state.savedStatuses)).isSome then some (state, none)
  else (create world state title type).map fun made => (made.1, some made.2)

def State.modify (state : State) (address : Nat) (change : PurpleSavedStatus → PurpleSavedStatus) :
    State :=
  { state with savedStatuses := state.savedStatuses.map fun status =>
      if status.address = address then change status else status }

/-- `purple_savedstatus_set_title`; no title is found in use. -/
def setTitle (state : State) (status : Option Nat) (title : Option Text) : Option State :=
  match status with
  | none => some state
  | some address =>
    if (title.bind (find state.savedStatuses)).isSome then some state
    else (state.status address).map fun _ => state.modify address ({ · with title })

/-- `purple_savedstatus_set_message` -/
def setMessage (state : State) (address : Nat) (message : Option Text) : Option State :=
  (state.status address).map fun _ =>
    state.modify address ({ · with message := if message = some [] then none else message })

/-- `purple_savedstatus_get_default` -/
def getDefault (world : World) (state : State) : Option (State × Nat) :=
  match state.denoted state.prefDefault with
  | some address => some (state, address)
  | none => do
    let (made, status) ← create world state none .available
    return ({ made with prefDefault := Int32.ofInt status.creationTime }, status.address)

/-- `purple_savedstatus_get_idleaway` -/
def getIdleaway (world : World) (state : State) : Option (State × Nat) :=
  match state.denoted state.prefIdleaway with
  | some address => some (state, address)
  | none =>
    match findTransientByTypeAndMessage state.savedStatuses .away (some world.autoawayMessage) with
    | some status => some (state, status.address)
    | none => do
      let (made, status) ← create world state none .away
      let worded ← setMessage made status.address (some world.autoawayMessage)
      return ({ worded with prefIdleaway := Int32.ofInt status.creationTime }, status.address)

/-- `purple_savedstatus_get_current` -/
def getCurrent (world : World) (state : State) : Option (State × Nat) :=
  if state.isIdleaway then getIdleaway world state else getDefault world state

/-- `purple_savedstatus_get_startup` -/
def getStartup (world : World) (state : State) : Option (State × Nat) :=
  match state.denoted state.prefStartup with
  | some address => some (state, address)
  | none => getCurrent world state

/-- `purple_savedstatus_set_idleaway`; what it does to the accounts is left out. -/
def setIdleaway (world : World) (state : State) (idleaway : Bool) : Option State :=
  if state.isIdleaway = idleaway then some state
  else do
    let (state, _old) ← getCurrent world state
    (if idleaway then getIdleaway world state else getDefault world state).map
      fun chosen => { chosen.1 with isIdleaway := idleaway }

/-- The status is used once more, at the time that is read, and put where it belongs. -/
def use (world : World) (state : State) (status : PurpleSavedStatus) : Option State :=
  (SortedList.insertSorted sortFunc
      { status with lastused := world.clock state.readings, usageCount := status.usageCount + 1 }
      (state.savedStatuses.eraseP (·.address == status.address))).map
    fun savedStatuses =>
      { state with savedStatuses, readings := state.readings + 1,
                   prefDefault := Int32.ofInt status.creationTime }

/-- `purple_savedstatus_activate`; what it does to the accounts is left out. -/
def activate (world : World) (state : State) (savedStatus : Option Nat) : Option State := do
  let (state, _old) ← getCurrent world state
  match savedStatus with
  | none => return state
  | some address =>
    let status ← state.status address
    let state ← use world state status
    if state.isIdleaway then setIdleaway world state false else return state

def State.forget (state : State) (status : PurpleSavedStatus) : State :=
  { state with
    savedStatuses := state.savedStatuses.eraseP (·.address == status.address)
    creationTimes := state.creationTimes.remove status.creationTime }

/-- `purple_savedstatus_delete_by_status` -/
def deleteByStatus (state : State) (status : Option Nat) : Option State :=
  match status with
  | none => some state
  | some address => do
    let status ← state.status address
    return { state.forget status with
      prefDefault := if state.prefDefault.toInt = status.creationTime then 0 else state.prefDefault
      prefIdleaway :=
        if state.prefIdleaway.toInt = status.creationTime then 0 else state.prefIdleaway }

/-- `purple_savedstatus_delete` with what it returns. -/
def delete (world : World) (state : State) (title : Option Text) : Option (State × Bool) :=
  match title.bind (find state.savedStatuses) with
  | none => some (state, false)
  | some status => do
    let (state, current) ← getCurrent world state
    if current = status.address then return (state, false)
    else return (← deleteByStatus state (some status.address), true)

/-- The loop of `remove_old_transient_statuses` over the list that was there. -/
def expire (current startup : Nat) : Nat → List PurpleSavedStatus → State → State
  | _, [], state => state
  | count, status :: rest, state =>
    if status.isTransient then
      if count = maxTransients then
        if status.address ≠ current ∧ status.address ≠ startup then
          expire current startup count rest (state.forget status)
        else expire current startup count rest state
      else expire current startup (count + 1) rest state
    else expire current startup count rest state

/-- `remove_old_transient_statuses` -/
def removeOldTransientStatuses (world : World) (state : State) : Option State := do
  let (state, startup) ← getStartup world state
  let (state, current) ← getCurrent world state
  return expire current startup 0 state.savedStatuses state

end Purple.SavedStatuses
