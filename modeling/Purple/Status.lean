/-
Statuses and presences of status.c.

A status is named by its place in the list of statuses of its presence.  Hash
tables are the functions they look up.  The notifications at the end of
`status_has_changed` come after the last write, so a callback that sets a status
again is the next call of a run.
-/

import Purple.PartialRun

namespace Purple.Status

abbrev CText := List UInt8

/-- `FALSE` is zero and every other number counts as `TRUE`. -/
abbrev Gboolean := Int

/-- A `PurpleValue` of a type that the status code does not read is `other`. -/
inductive PurpleValue where
  | string (data : Option CText)
  | int (data : Int)
  | boolean (data : Gboolean)
  | other (type data : Nat)
deriving DecidableEq

/-- An element of the attribute list: what it is as a string and as a number. -/
structure Gpointer where
  string : Option CText
  int : Int

abbrev AttrValues := CText → Option PurpleValue

def AttrValues.insert (values : AttrValues) (id : CText) (value : PurpleValue) : AttrValues :=
  fun key => if key = id then some value else values key

@[simp] theorem AttrValues.insert_self (values : AttrValues) (id : CText) (value : PurpleValue) :
    values.insert id value id = some value := if_pos rfl

theorem AttrValues.insert_other {values : AttrValues} {id key : CText} (different : key ≠ id)
    (value : PurpleValue) : values.insert id value key = values key := if_neg different

/-- `data == NULL || g_utf8_validate(data, -1, NULL)` -/
def storable (utf8Valid : CText → Bool) : Option CText → Bool
  | none => true
  | some text => utf8Valid text

def PurpleValue.valid (utf8Valid : CText → Bool) : PurpleValue → Bool
  | .string data => storable utf8Valid data
  | _ => true

/-- `purple_value_set_string` is the only writer of a string and takes no other. -/
structure PurpleStatusAttr (utf8Valid : CText → Bool) where
  id : CText
  value : PurpleValue
  valid : value.valid utf8Valid = true

structure PurpleStatusType (utf8Valid : CText → Bool) where
  id : CText
  independent : Bool
  attrs : List (PurpleStatusAttr utf8Valid)

structure PurpleStatus (utf8Valid : CText → Bool) where
  type : PurpleStatusType utf8Valid
  active : Gboolean
  attrValues : AttrValues

structure PurplePresence (utf8Valid : CText → Bool) where
  statuses : List (PurpleStatus utf8Valid)
  statusTable : CText → Option Nat
  activeStatus : Option Nat

variable {utf8Valid : CText → Bool}

def PurpleStatusType.isExclusive (type : PurpleStatusType utf8Valid) : Bool := !type.independent

def PurpleStatus.isExclusive (status : PurpleStatus utf8Valid) : Bool := status.type.isExclusive

/-- `purple_status_new` -/
def insertDefaults (values : AttrValues) : List (PurpleStatusAttr utf8Valid) → AttrValues
  | [] => values
  | attr :: rest => insertDefaults (values.insert attr.id attr.value) rest

def purpleStatusNew (type : PurpleStatusType utf8Valid) : PurpleStatus utf8Valid :=
  { type, active := 0, attrValues := insertDefaults (fun _ => none) type.attrs }

/-- A new presence with the statuses of `purple_prpl_get_statuses`. -/
def purplePresenceNew (types : List (PurpleStatusType utf8Valid)) : PurplePresence utf8Valid :=
  { statuses := types.map purpleStatusNew, statusTable := fun _ => none, activeStatus := none }

def getAttrValue (values : AttrValues) (id : Option CText) : Option PurpleValue := id.bind values

def getAttrString (values : AttrValues) (id : CText) : Option CText :=
  match values id with
  | some (.string data) => data
  | _ => none

def getAttrInt (values : AttrValues) (id : CText) : Int :=
  match values id with
  | some (.int data) => data
  | _ => 0

def getAttrBoolean (values : AttrValues) (id : CText) : Gboolean :=
  match values id with
  | some (.boolean data) => data
  | _ => 0

variable (utf8Valid) in
def setAttrString (values : AttrValues) (id : CText) (value : Option CText) : AttrValues :=
  match values id with
  | some (.string _) =>
    if storable utf8Valid value then values.insert id (.string value) else values
  | _ => values

def setAttrInt (values : AttrValues) (id : CText) (value : Int) : AttrValues :=
  match values id with
  | some (.int _) => values.insert id (.int value)
  | _ => values

def setAttrBoolean (values : AttrValues) (id : CText) (value : Gboolean) : AttrValues :=
  match values id with
  | some (.boolean _) => values.insert id (.boolean value)
  | _ => values

/-- The locals of `purple_status_set_active_with_attrs_list` beside the list. -/
structure Walk where
  values : AttrValues
  specified : List CText
  changed : Bool

variable (utf8Valid) in
def setSuppliedAttr (walk : Walk) (id : Option CText) (data : Gpointer) : Walk :=
  match id with
  | none => walk
  | some name =>
    let specified := name :: walk.specified
    match walk.values name with
    | none => walk
    | some (.string current) =>
      if data.string = current then { walk with specified }
      else
        { values := setAttrString utf8Valid walk.values name data.string
          specified, changed := true }
    | some (.int current) =>
      if data.int = current then { walk with specified }
      else { values := setAttrInt walk.values name data.int, specified, changed := true }
    | some (.boolean current) =>
      if data.int = current then { walk with specified }
      else { values := setAttrBoolean walk.values name data.int, specified, changed := true }
    | some (.other _ _) => { walk with specified }

variable (utf8Valid) in
/-- The first loop.  A list that ends after an id is read through `NULL`. -/
def setSupplied (walk : Walk) : List Gpointer → Option Walk
  | [] => some walk
  | [_] => none
  | id :: data :: rest => setSupplied (setSuppliedAttr utf8Valid walk id.string data) rest

def resetAttr (walk : Walk) (attr : PurpleStatusAttr utf8Valid) : Walk :=
  if walk.specified.contains attr.id then walk
  else
    match attr.value with
    | .string default =>
      if getAttrString walk.values attr.id = default then walk
      else
        { walk with
          values := setAttrString utf8Valid walk.values attr.id default, changed := true }
    | .int default =>
      if getAttrInt walk.values attr.id = default then walk
      else { walk with values := setAttrInt walk.values attr.id default, changed := true }
    | .boolean default =>
      if getAttrBoolean walk.values attr.id = default then walk
      else { walk with values := setAttrBoolean walk.values attr.id default, changed := true }
    | .other _ _ => { walk with changed := true }

def resetUnspecified (walk : Walk) : List (PurpleStatusAttr utf8Valid) → Walk
  | [] => walk
  | attr :: rest => resetUnspecified (resetAttr walk attr) rest

def setInactive (status : PurpleStatus utf8Valid) : PurpleStatus utf8Valid :=
  { status with active := 0 }

def statusHasChanged (presence : PurplePresence utf8Valid) (index : Nat)
    (status : PurpleStatus utf8Valid) : PurplePresence utf8Valid :=
  if status.isExclusive then
    match presence.activeStatus with
    | none => { presence with activeStatus := some index }
    | some old =>
      if old = index then { presence with activeStatus := some index }
      else
        { presence with
          statuses := presence.statuses.modify old setInactive, activeStatus := some index }
  else presence

def purpleStatusSetActiveWithAttrsList (presence : PurplePresence utf8Valid) (index : Nat)
    (active : Gboolean) (attrs : List Gpointer) : Option (PurplePresence utf8Valid) :=
  match presence.statuses[index]? with
  | none => none
  | some status =>
    if active = 0 ∧ status.isExclusive = true then some presence
    else
      match setSupplied utf8Valid
          ⟨status.attrValues, [], decide (status.active ≠ active)⟩ attrs with
      | none => none
      | some supplied =>
        let walk := resetUnspecified supplied status.type.attrs
        let written := { status with active, attrValues := walk.values }
        let stored := { presence with statuses := presence.statuses.set index written }
        some (if walk.changed then statusHasChanged stored index written else stored)

def purpleStatusSetActive (presence : PurplePresence utf8Valid) (index : Nat) (active : Gboolean) :
    Option (PurplePresence utf8Valid) :=
  purpleStatusSetActiveWithAttrsList presence index active []

def hasId (id : CText) (type : PurpleStatusType utf8Valid) : Bool := decide (type.id = id)

def statusHasId (id : CText) (status : PurpleStatus utf8Valid) : Bool := hasId id status.type

def tableInsert (table : CText → Option Nat) (id : CText) (index : Nat) : CText → Option Nat :=
  fun key => if key = id then some index else table key

/-- `purple_presence_get_status` enters what it finds in the table. -/
def purplePresenceGetStatus (presence : PurplePresence utf8Valid) (id : CText) :
    Option Nat × PurplePresence utf8Valid :=
  match presence.statusTable id with
  | some index => (some index, presence)
  | none =>
    match presence.statuses.findIdx? (statusHasId id) with
    | none => (none, presence)
    | some index =>
      (some index, { presence with statusTable := tableInsert presence.statusTable id index })

def purplePresenceSetStatusActive (presence : PurplePresence utf8Valid) (id : CText)
    (active : Gboolean) : Option (PurplePresence utf8Valid) :=
  match purplePresenceGetStatus presence id with
  | (none, found) => some found
  | (some index, found) =>
    match found.statuses[index]? with
    | none => none
    | some status =>
      if status.isExclusive = true ∧ active = 0 then some found
      else purpleStatusSetActive found index active

def purplePresenceSwitchStatus (presence : PurplePresence utf8Valid) (id : CText) :
    Option (PurplePresence utf8Valid) :=
  purplePresenceSetStatusActive presence id 1

/-- The calls on a presence of `count` statuses.  The attribute list of a call
is made of pairs of an id and its data. -/
inductive Call (count : Nat) where
  | setActiveWithAttrsList (index : Fin count) (active : Gboolean)
      (pairs : List (Option CText × Gpointer))
  | setStatusActive (id : CText) (active : Gboolean)
  | switchStatus (id : CText)

def attrsOf : List (Option CText × Gpointer) → List Gpointer
  | [] => []
  | (id, data) :: rest => ⟨id, 0⟩ :: data :: attrsOf rest

def call {count : Nat} (presence : PurplePresence utf8Valid) :
    Call count → Option (PurplePresence utf8Valid)
  | .setActiveWithAttrsList index active pairs =>
    purpleStatusSetActiveWithAttrsList presence index active (attrsOf pairs)
  | .setStatusActive id active => purplePresenceSetStatusActive presence id active
  | .switchStatus id => purplePresenceSwitchStatus presence id

end Purple.Status
