/-
The permit and deny lists of privacy.c.

`normalize` is what the protocol or `g_utf8_normalize` makes of a name, and
`collate` says when `g_utf8_collate` finds no difference.  `purple_normalize`
writes to one static buffer, `normalized`.  A buddy is found under its normalized
name.  The server and the user interface, which are told of each change, leave
the lists and the buffer as they are.  A C string is the list of its characters.
-/

import Purple.Memory.Walk

namespace Purple.Privacy

open Memory

abbrev Text := List Char

inductive PurplePrivacyType where
  | allowAll
  | denyAll
  | allowUsers
  | denyUsers
  | allowBuddylist
deriving DecidableEq, Repr

structure PurpleAccount where
  permDeny : PurplePrivacyType
  permit : List (Link Text)
  deny : List (Link Text)
  /-- The names of its buddies, in the order in which `purple_find_buddies` lists them. -/
  buddies : List Text
  normalized : Text
  fresh : Nat

/-- After `purple_account_new`. -/
def purpleAccountNew : PurpleAccount :=
  { permDeny := .allowAll, permit := [], deny := [], buddies := [], normalized := [], fresh := 0 }

inductive Side where
  | permit
  | deny
deriving DecidableEq, Repr

namespace PurpleAccount

def list (account : PurpleAccount) : Side → List (Link Text)
  | .permit => account.permit
  | .deny => account.deny

def setList (account : PurpleAccount) (links : List (Link Text)) : Side → PurpleAccount
  | .permit => { account with permit := links }
  | .deny => { account with deny := links }

end PurpleAccount

variable (normalize : Text → Text) (collate : Text → Text → Bool)

def purpleNormalize (account : PurpleAccount) (str : Text) : PurpleAccount :=
  { account with normalized := normalize str }

/-- Whether there is one; an empty name is refused before it is normalized. -/
def purpleFindBuddy (account : PurpleAccount) (name : Text) : Bool × PurpleAccount :=
  if name = [] then (false, account)
  else
    (account.buddies.any fun buddy => normalize buddy = normalize name,
      purpleNormalize normalize account name)

def privacyAdd (side : Side) (account : PurpleAccount) (who : Text) : Bool × PurpleAccount :=
  let account := purpleNormalize normalize account who
  let name := account.normalized
  if (account.list side).any fun link => link.datum = name then (false, account)
  else
    let account := account.setList
      (account.list side ++ [{ address := account.fresh, datum := name }]) side
    (true, (purpleFindBuddy normalize { account with fresh := account.fresh + 1 } name).2)

def privacyRemove (side : Side) (account : PurpleAccount) (who : Text) : Bool × PurpleAccount :=
  let account := purpleNormalize normalize account who
  match (account.list side).find? fun link => link.datum = account.normalized with
  | none => (false, account)
  | some found =>
    let links := unlink (account.list side) found.address
    (true, (purpleFindBuddy normalize (account.setList links side) account.normalized).2)

def purplePrivacyPermitAdd (account : PurpleAccount) (who : Text) : Bool × PurpleAccount :=
  privacyAdd normalize .permit account who

def purplePrivacyPermitRemove (account : PurpleAccount) (who : Text) : Bool × PurpleAccount :=
  privacyRemove normalize .permit account who

def purplePrivacyDenyAdd (account : PurpleAccount) (who : Text) : Bool × PurpleAccount :=
  privacyAdd normalize .deny account who

/-- The buddy is looked up before the link is freed, which makes no difference. -/
def purplePrivacyDenyRemove (account : PurpleAccount) (who : Text) : Bool × PurpleAccount :=
  privacyRemove normalize .deny account who

def walkList (side : Side) (body : PurpleAccount → Text → PurpleAccount)
    (account : PurpleAccount) : Option PurpleAccount :=
  walk (fun account => account.list side) body ((account.list side).length + 1)
    ((account.list side).head?.map Link.address) account

/-- `norm` points at the static buffer. -/
def emptyRound (side : Side) (account : PurpleAccount) (person : Text) : PurpleAccount :=
  if account.normalized = person then account else (privacyRemove normalize side account person).2

def emptyList (side : Side) (account : PurpleAccount) (who : Text) : Option PurpleAccount :=
  walkList side (emptyRound normalize side) (purpleNormalize normalize account who)

def strangerRound (account : PurpleAccount) (person : Text) : PurpleAccount :=
  let looked := purpleFindBuddy normalize account person
  if looked.1 then looked.2 else (purplePrivacyPermitRemove normalize looked.2 person).2

def permitBuddies : List Text → PurpleAccount → PurpleAccount
  | [], account => account
  | name :: rest, account =>
    if account.permit.any fun link => collate link.datum name then permitBuddies rest account
    else permitBuddies rest (purplePrivacyPermitAdd normalize account name).2

def addAllBuddiesToPermitList (account : PurpleAccount) : Option PurpleAccount :=
  (walkList .permit (strangerRound normalize) account).map fun account =>
    permitBuddies normalize collate account.buddies account

def purplePrivacyAllow (account : PurpleAccount) (who : Text) (restore : Bool) :
    Option PurpleAccount :=
  match account.permDeny with
  | .allowAll => some account
  | .allowUsers => some (purplePrivacyPermitAdd normalize account who).2
  | .denyUsers => some (purplePrivacyDenyRemove normalize account who).2
  | .denyAll =>
    (if restore then some account else emptyList normalize .permit account who).map
      fun account =>
        { (purplePrivacyPermitAdd normalize account who).2 with permDeny := .allowUsers }
  | .allowBuddylist =>
    let looked := purpleFindBuddy normalize account who
    if looked.1 then some looked.2
    else (addAllBuddiesToPermitList normalize collate looked.2).map fun account =>
      { (purplePrivacyPermitAdd normalize account who).2 with permDeny := .allowUsers }

def purplePrivacyDeny (account : PurpleAccount) (who : Text) (restore : Bool) :
    Option PurpleAccount :=
  match account.permDeny with
  | .allowAll =>
    (if restore then some account else emptyList normalize .deny account who).map
      fun account =>
        { (purplePrivacyDenyAdd normalize account who).2 with permDeny := .denyUsers }
  | .allowUsers => some (purplePrivacyPermitRemove normalize account who).2
  | .denyUsers => some (purplePrivacyDenyAdd normalize account who).2
  | .denyAll => some account
  | .allowBuddylist =>
    let looked := purpleFindBuddy normalize account who
    if looked.1 then
      (addAllBuddiesToPermitList normalize collate looked.2).map fun account =>
        { (purplePrivacyPermitRemove normalize account who).2 with permDeny := .allowUsers }
    else some looked.2

def purplePrivacyCheck (account : PurpleAccount) (who : Text) : Bool :=
  match account.permDeny with
  | .allowAll => true
  | .denyAll => false
  | .allowUsers => account.permit.any fun link => normalize who = link.datum
  | .denyUsers => !account.deny.any fun link => normalize who = link.datum
  | .allowBuddylist => (purpleFindBuddy normalize account who).1

end Purple.Privacy
