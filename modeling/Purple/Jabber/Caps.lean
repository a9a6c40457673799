/-
The lookup of entity capabilities, from caps.c: `jabber_caps_get_info` and the
replies to its requests, over any number of lookups at once.

`none` is a use of freed memory or of a NULL string.  The entries of the two
tables are never taken out, and the infos of `capstable` never freed, before the
program ends; what a lookup is told is recorded in `calls`.  The callback is not
NULL.
-/

import Purple.CString
import Purple.PartialRun

namespace Purple.Jabber.Caps

open CString PartialRun

abbrev Bytes := List UInt8

structure JabberCapsTuple where
  node : Bytes
  ver : Bytes
  hash : Option Bytes
  deriving DecidableEq, Repr

/-- `exts` gives the features of an ext, and NULL, the empty list, for one it has not. -/
structure JabberCapsNodeExts where
  ref : Nat
  exts : Bytes → List Bytes

structure JabberCapsClientInfo where
  exts : Option Nat
  tuple : JabberCapsTuple
  deriving DecidableEq, Repr

/-- `jabber_caps_cbplususerdata`.  The strings are NULL once they are moved. -/
structure UserData where
  ref : Nat
  node : Option Bytes
  ver : Option Bytes
  hash : Option Bytes
  info : Option Nat
  exts : List Bytes
  extOutstanding : Nat
  nodeExts : Option Nat
  deriving DecidableEq, Repr

/-- The requests of a lookup, with the callback data they were sent with. -/
inductive Request
  | client (lookup : Nat)
  | ext (lookup : Nat) (name : Bytes)
  deriving DecidableEq, Repr

def Request.lookup : Request → Nat
  | .client lookup => lookup
  | .ext lookup _ => lookup

/-- The query of a result: the hashes `jabber_caps_calculate_hash` gives for it, and the
features it lists. -/
structure Query where
  sha1 : Option Bytes
  md5 : Option Bytes
  features : List Bytes
  deriving DecidableEq, Repr

structure Call where
  lookup : Nat
  info : Option Nat
  exts : List Bytes
  deriving DecidableEq, Repr

/-- Objects are addressed by their place, `none` where they are freed.  A lookup has the same
place in `asked` and `userdata`. -/
structure World where
  infos : List JabberCapsClientInfo
  capstable : List (JabberCapsTuple × Nat)
  nodeExts : List (Option JabberCapsNodeExts)
  nodetable : List (Bytes × Nat)
  userdata : List (Option UserData)
  asked : List JabberCapsTuple
  pending : List Request
  answered : List (Request × Option Query)
  calls : List Call

def find {Key : Type} [DecidableEq Key] (key : Key) : List (Key × Nat) → Option Nat
  | [] => none
  | (head, value) :: rest => if head = key then some value else find key rest

namespace World

def exts (world : World) (at' : Nat) : Option JabberCapsNodeExts := world.nodeExts[at']?.join

def user (world : World) (lookup : Nat) : Option UserData := world.userdata[lookup]?.join

def putExts (world : World) (at' : Nat) (exts : Option JabberCapsNodeExts) : World :=
  { world with nodeExts := world.nodeExts.set at' exts }

def putUser (world : World) (lookup : Nat) (user : Option UserData) : World :=
  { world with userdata := world.userdata.set lookup user }

def putInfo (world : World) (info : Nat) (client : JabberCapsClientInfo) : World :=
  { world with infos := world.infos.set info client }

def tell (world : World) (lookup : Nat) (info : Option Nat) (exts : List Bytes) : World :=
  { world with calls := world.calls ++ [⟨lookup, info, exts⟩] }

end World

def jabberCapsNodeExtsUnref (world : World) (at' : Nat) : Option World :=
  (world.exts at').map fun exts =>
    if exts.ref = 0 then world
    else if exts.ref = 1 then world.putExts at' none
    else world.putExts at' (some { exts with ref := exts.ref - 1 })

def jabberCapsFindExtsByNode (world : World) (node : Bytes) : Option (World × Nat) :=
  match find node world.nodetable with
  | some at' =>
    (world.exts at').map fun exts =>
      (world.putExts at' (some { exts with ref := exts.ref + 1 }), at')
  | none =>
    some
      ({ world with
          nodeExts := world.nodeExts ++ [some ⟨2, fun _ => []⟩]
          nodetable := (node, world.nodeExts.length) :: world.nodetable },
        world.nodeExts.length)

def unrefOptional (world : World) : Option Nat → Option World
  | none => some world
  | some at' => jabberCapsNodeExtsUnref world at'

def cbplususerdataUnref (world : World) (lookup : Nat) : Option World :=
  (world.user lookup).bind fun user =>
    if user.ref = 0 then some world
    else if 1 < user.ref then
      some (world.putUser lookup (some { user with ref := user.ref - 1 }))
    else (unrefOptional world user.nodeExts).map fun world => world.putUser lookup none

def jabberCapsGetInfoComplete (world : World) (lookup : Nat) : Option World :=
  (world.user lookup).map fun user =>
    (world.tell lookup user.info user.exts).putUser lookup
      (some { user with info := none, exts := [] })

/-- The hash of the parsed info under the algorithm that `hash` names. -/
def Query.calculated (query : Query) (hash : Bytes) : Option Bytes :=
  if hash = ascii "sha-1" then query.sha1 else if hash = ascii "md5" then query.md5 else none

/-- Whether the info is taken, `none` where `ver` is NULL. -/
def validated (user : UserData) (query : Query) : Option Bool :=
  match user.hash with
  | none => some true
  | some hash =>
    match query.calculated hash with
    | none => some false
    | some calculated => user.ver.map fun ver => calculated == ver

/-- The parsed info goes to `capstable`, or is destroyed where there is an entry: the world,
the user data and the entry. -/
def insertInfo (world : World) (user : UserData) (exts : Option Nat) :
    Option (World × UserData × Nat) :=
  user.node.bind fun node =>
    user.ver.bind fun ver =>
      let key : JabberCapsTuple := ⟨node, ver, user.hash⟩
      match find key world.capstable with
      | some value => (unrefOptional world exts).map fun world => (world, user, value)
      | none =>
        some
          ({ world with
              infos := world.infos ++ [⟨exts, key⟩]
              capstable := (key, world.infos.length) :: world.capstable },
            { user with node := none, ver := none, hash := none },
            world.infos.length)

def finish (world : World) (lookup : Nat) (complete : Bool) : Option World :=
  (if complete then jabberCapsGetInfoComplete world lookup else some world).bind fun world =>
    cbplususerdataUnref world lookup

def jabberCapsClientIqcb (world : World) (lookup : Nat) (outcome : Option Query) : Option World :=
  (world.user lookup).bind fun user =>
    match outcome with
    | none => cbplususerdataUnref (world.tell lookup none []) lookup
    | some query =>
      (validated user query).bind fun valid =>
        if !valid then cbplususerdataUnref (world.tell lookup none []) lookup
        else
          -- without a hash the info gets the reference of the user data
          let moved := if user.hash = none then user.nodeExts else none
          let kept := if user.hash = none then { user with nodeExts := none } else user
          (insertInfo world kept moved).bind fun (world, user, info) =>
            finish (world.putUser lookup (some { user with info := some info })) lookup
              (user.extOutstanding == 0)

/-- The exts that a reply is for: those of the info, or those of the user data.  Where there are
none they are looked up again. -/
def extsForReply (world : World) (lookup : Nat) (user : UserData) : Option (World × Nat) :=
  match user.info with
  | some info =>
    (world.infos[info]?).bind fun client =>
      match client.exts with
      | some at' => some (world, at')
      | none =>
        user.node.bind fun node =>
          (jabberCapsFindExtsByNode world node).map fun (world, at') =>
            (world.putInfo info { client with exts := some at' }, at')
  | none =>
    match user.nodeExts with
    | some at' => some (world, at')
    | none =>
      user.node.bind fun node =>
        (jabberCapsFindExtsByNode world node).map fun (world, at') =>
          (world.putUser lookup (some { user with nodeExts := some at' }), at')

def learn (exts : JabberCapsNodeExts) (name : Bytes) (features : List Bytes) : JabberCapsNodeExts :=
  { exts with exts := fun other => if other = name then features else exts.exts other }

/-- The name is a string of the user data's list, so it is there while the list is. -/
def jabberCapsExtIqcb (world : World) (lookup : Nat) (name : Bytes) (outcome : Option Query) :
    Option World :=
  (world.user lookup).bind fun user =>
    match outcome with
    | none => cbplususerdataUnref world lookup
    | some query =>
      (extsForReply world lookup user).bind fun (world, at') =>
        (world.user lookup).bind fun user =>
          (world.exts at').bind fun exts =>
            if name ∉ user.exts then none
            else
              let user := { user with extOutstanding := user.extOutstanding - 1 }
              let world := (world.putUser lookup (some user)).putExts at'
                (some (learn exts name query.features.reverse))
              finish world lookup (user.info.isSome && user.extOutstanding == 0)

/-- The loop over the exts: a request for each one that is not known. -/
def requestExts (known : Bytes → List Bytes) (lookup : Nat) :
    List Bytes → UserData → List Request → UserData × List Request
  | [], user, sent => (user, sent)
  | name :: rest, user, sent =>
    let user := { user with exts := name :: user.exts }
    if known name = [] then
      requestExts known lookup rest
        { user with ref := user.ref + 1, extOutstanding := user.extOutstanding + 1 }
        (sent ++ [.ext lookup name])
    else requestExts known lookup rest user sent

/-- The exts of the node, held by the info where there is one and by the user data otherwise. -/
def extsForLookup (world : World) (user : UserData) (node : Bytes) :
    Option (World × UserData × Nat) :=
  match user.info with
  | some info =>
    (world.infos[info]?).bind fun client =>
      match client.exts with
      | some at' => some (world, user, at')
      | none =>
        (jabberCapsFindExtsByNode world node).map fun (world, at') =>
          (world.putInfo info { client with exts := some at' }, user, at')
  | none =>
    (jabberCapsFindExtsByNode world node).map fun (world, at') =>
      (world, { user with nodeExts := some at' }, at')

def sendExts (world : World) (lookup : Nat) (node : Bytes) (user : UserData) (sent : List Request) :
    Option (List Bytes) → Option (World × UserData × List Request)
  | none => some (world, user, sent)
  | some names =>
    (extsForLookup world user node).bind fun (world, user, at') =>
      (world.exts at').map fun exts =>
        (world, requestExts exts.exts lookup names user sent)

def jabberCapsGetInfo (world : World) (key : JabberCapsTuple) (exts : Option (List Bytes)) :
    Option World :=
  let lookup := world.asked.length
  let exts := if key.hash.isSome then none else exts
  let world :=
    { world with
      asked := world.asked ++ [key]
      userdata := world.userdata ++ [none] }
  let info := find key world.capstable
  if info.isSome ∧ key.hash.isSome then some (world.tell lookup info [])
  else
    let user : UserData :=
      { ref := if info.isSome then 0 else 1, node := some key.node, ver := some key.ver
        hash := key.hash, info, exts := [], extOutstanding := 0, nodeExts := none }
    let sent := if info.isSome then [] else [Request.client lookup]
    (sendExts world lookup key.node user sent exts).bind fun (world, user, sent) =>
      if user.info.isSome ∧ user.extOutstanding = 0 then
        finish (world.putUser lookup (some { user with ref := 1 })) lookup true
      else
        some { world.putUser lookup (some user) with pending := world.pending ++ sent }

inductive Event
  | getInfo (key : JabberCapsTuple) (exts : Option (List Bytes))
  | reply (request : Request) (outcome : Option Query)
  deriving DecidableEq, Repr

/-- A request is answered once; an answer to anything else is no reply. -/
def step (world : World) : Event → Option World
  | .getInfo key exts => jabberCapsGetInfo world key exts
  | .reply request outcome =>
    if request ∈ world.pending then
      let world :=
        { world with
          pending := world.pending.erase request
          answered := world.answered ++ [(request, outcome)] }
      match request with
      | .client lookup => jabberCapsClientIqcb world lookup outcome
      | .ext lookup name => jabberCapsExtIqcb world lookup name outcome
    else some world

end Purple.Jabber.Caps
