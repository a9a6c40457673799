/-
Reading the saved statuses from a document, and the calls of the API.

The document is the tree that the XML layer gives.  A title that is in use is
numbered from 2 on; a number that runs over an `int` is undefined.
-/

import Purple.SavedStatuses
import Purple.XmlParse

namespace Purple.SavedStatuses

open Xml (Node getAttrib getData childrenNamed)
open Sax (Text)

def childData (children : List Node) (name : Text) : Option Text :=
  (childrenNamed children name).head?.bind getData

/-- `atol` -/
def atol (text : Text) : Int :=
  let text := text.dropWhile Xml.isSpace
  let unsigned := if text.head? = some '-' ∨ text.head? = some '+' then text.tail else text
  let magnitude : Int := Nat.ofDigitChars 10 (unsigned.takeWhile Char.isDigit) 0
  if text.head? = some '-' then max (-2 ^ 63) (-magnitude) else min longMax magnitude

def numberOf (attrib : Option Text) : Int := attrib.elim 0 atol

def nameAttribute : Text := ['n', 'a', 'm', 'e']
def transientAttribute : Text := ['t', 'r', 'a', 'n', 's', 'i', 'e', 'n', 't']
def createdAttribute : Text := ['c', 'r', 'e', 'a', 't', 'e', 'd']
def lastusedAttribute : Text := ['l', 'a', 's', 't', 'u', 's', 'e', 'd']
def usageCountAttribute : Text := ['u', 's', 'a', 'g', 'e', '_', 'c', 'o', 'u', 'n', 't']
def protocolAttribute : Text := ['p', 'r', 'o', 't', 'o', 'c', 'o', 'l']
def statusElement : Text := ['s', 't', 'a', 't', 'u', 's']
def stateElement : Text := ['s', 't', 'a', 't', 'e']
def messageElement : Text := ['m', 'e', 's', 's', 'a', 'g', 'e']
def substatusElement : Text := ['s', 'u', 'b', 's', 't', 'a', 't', 'u', 's']
def accountElement : Text := ['a', 'c', 'c', 'o', 'u', 'n', 't']
def trueText : Text := ['t', 'r', 'u', 'e']

/-- `status_primitive_map` -/
def statusPrimitiveMap : List (PurpleStatusPrimitive × Text) :=
  [(.unset, ['u', 'n', 's', 'e', 't']),
   (.offline, ['o', 'f', 'f', 'l', 'i', 'n', 'e']),
   (.available, ['a', 'v', 'a', 'i', 'l', 'a', 'b', 'l', 'e']),
   (.unavailable, ['u', 'n', 'a', 'v', 'a', 'i', 'l', 'a', 'b', 'l', 'e']),
   (.invisible, ['i', 'n', 'v', 'i', 's', 'i', 'b', 'l', 'e']),
   (.away, ['a', 'w', 'a', 'y']),
   (.extendedAway, ['e', 'x', 't', 'e', 'n', 'd', 'e', 'd', '_', 'a', 'w', 'a', 'y']),
   (.mobile, ['m', 'o', 'b', 'i', 'l', 'e']),
   (.tune, ['t', 'u', 'n', 'e']),
   (.mood, ['m', 'o', 'o', 'd'])]

/-- `purple_primitive_get_type_from_id` -/
def primitiveGetTypeFromId (id : Text) : PurpleStatusPrimitive :=
  ((statusPrimitiveMap.find? (·.2 == id)).map Prod.fst).getD .unset

/-- `_purple_oscar_convert` -/
def oscarConvert (act protocol : Option Text) : Option Text :=
  match act with
  | none => protocol
  | some act =>
    if protocol = some ['p', 'r', 'p', 'l', '-', 'o', 's', 'c', 'a', 'r'] then
      if act.all Char.isDigit then some ['p', 'r', 'p', 'l', '-', 'i', 'c', 'q']
      else some ['p', 'r', 'p', 'l', '-', 'a', 'i', 'm']
    else protocol

/-- `purple_accounts_find` -/
def accountsFind (world : World) (name protocolId : Text) : Option PurpleAccount :=
  world.accounts.find? fun account =>
    account.protocolId == protocolId &&
      world.normalize account account.username == world.normalize account name

/-- `purple_status_type_find_with_id` -/
def statusTypeFindWithId (statusTypes : List PurpleStatusType) (id : Text) :
    Option PurpleStatusType :=
  statusTypes.find? (·.id == id)

/-- The account that the `account` child names. -/
def substatusAccount (world : World) (substatus : List Node) : Option PurpleAccount := do
  let account ← (childrenNamed substatus accountElement).head?
  let acctName := getData account
  let protocol := oscarConvert acctName (getAttrib account protocolAttribute)
  accountsFind world (← acctName) (← protocol)

def parseSubstatus (world : World) (substatus : List Node) : Option PurpleSavedStatusSub := do
  let account ← substatusAccount world substatus
  let type ← statusTypeFindWithId account.statusTypes (← childData substatus stateElement)
  return { account, type, message := childData substatus messageElement }

/-- `%s %d` -/
def numbered (title : Text) (number : Nat) : Text := title ++ ' ' :: Nat.toDigits 10 number

/-- The loop that makes the title unique, where `rounds` numbers are left. -/
def uniqueTitle (savedStatuses : List PurpleSavedStatus) (attrib : Text) :
    Nat → Nat → Text → Option Text
  | 0, _, title => if (find savedStatuses title).isSome then none else some title
  | rounds + 1, i, title =>
    if (find savedStatuses title).isSome then
      uniqueTitle savedStatuses attrib rounds (i + 1) (numbered attrib i)
    else some title

/-- The title that the attributes give, before it is made unique. -/
def namedTitle (status : List Node) : Option Text :=
  if getAttrib status transientAttribute = some trueText then none
  else getAttrib status nameAttribute

def parseTitle (savedStatuses : List PurpleSavedStatus) (status : List Node) :
    Option (Option Text) :=
  match namedTitle status with
  | none => some none
  | some attrib => (uniqueTitle savedStatuses attrib (intMax - 2) 2 attrib).map some

def parsedStatus (world : World) (status : List Node) (address : Nat) (title : Option Text)
    (creationTime : Int) : PurpleSavedStatus :=
  { address, title
    type := ((childData status stateElement).map primitiveGetTypeFromId).getD .unset
    message := childData status messageElement
    creationTime
    lastused := numberOf (getAttrib status lastusedAttribute)
    usageCount := UInt32.ofNat (numberOf (getAttrib status usageCountAttribute) % 2 ^ 32).toNat
    substatuses :=
      ((childrenNamed status substatusElement).filterMap (parseSubstatus world)).reverse }

def parseStatus (world : World) (state : State) (status : List Node) :
    Option (State × PurpleSavedStatus) := do
  let title ← parseTitle state.savedStatuses status
  let (creationTime, creationTimes) ←
    setCreationTime state.creationTimes state.next (numberOf (getAttrib status createdAttribute))
  return ({ state with creationTimes, next := state.next + 1 },
    parsedStatus world status state.next title creationTime)

/-- The loop of `load_statuses`. -/
def loadEach (world : World) (state : State) : List (List Node) → Option State
  | [] => some state
  | status :: rest => do
    let (state, new) ← parseStatus world state status
    loadEach world { state with savedStatuses := new :: state.savedStatuses } rest

/-- `load_statuses` of the children of the document, if it can be read. -/
def loadStatuses (world : World) (state : State) (statuses : Option (List Node)) : Option State :=
  match statuses with
  | none => some state
  | some statuses => do
    let state ← loadEach world state (childrenNamed statuses statusElement)
    let savedStatuses ← SortedList.sort sortFunc state.savedStatuses
    return { state with savedStatuses }

inductive Call where
  | loadStatuses (statuses : Option (List Node))
  | new (title : Option Text) (type : PurpleStatusPrimitive)
  | setTitle (status : Option Nat) (title : Option Text)
  | activate (status : Option Nat)
  | getDefault
  | getIdleaway
  | setIdleaway (idleaway : Bool)
  | delete (title : Option Text)
  | deleteByStatus (status : Option Nat)
  | removeOldTransientStatuses
  | prefsSetIdleaway (value : Int32)
  | prefsSetStartup (value : Int32)

def perform (world : World) (state : State) : Call → Option State
  | .loadStatuses statuses => loadStatuses world state statuses
  | .new title type => (purpleSavedstatusNew world state title type).map Prod.fst
  | .setTitle status title => setTitle state status title
  | .activate status => activate world state status
  | .getDefault => (getDefault world state).map Prod.fst
  | .getIdleaway => (getIdleaway world state).map Prod.fst
  | .setIdleaway idleaway => setIdleaway world state idleaway
  | .delete title => (delete world state title).map Prod.fst
  | .deleteByStatus status => deleteByStatus state status
  | .removeOldTransientStatuses => removeOldTransientStatuses world state
  | .prefsSetIdleaway value => some { state with prefIdleaway := value }
  | .prefsSetStartup value => some { state with prefStartup := value }

/-- `purple_savedstatuses_init` before `load_statuses`, with the preferences as they are. -/
def initial (prefDefault prefIdleaway prefStartup : Int32) (isIdleaway : Bool) : State :=
  { savedStatuses := [], creationTimes := HashTable.empty, prefDefault, prefIdleaway, prefStartup,
    isIdleaway, next := 0, readings := 0 }

end Purple.SavedStatuses
