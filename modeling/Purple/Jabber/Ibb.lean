/-
The in-band bytestreams of the Jabber protocol, from ibb.c: the table of
sessions and the stanzas that arrive for them.

`none` is a use of freed memory or of a NULL string.  A key of the table is the
`sid` of the session it was inserted with, so it is freed with that session; a
lookup reads the keys up to the one it finds.
-/

import Mathlib.Algebra.Group.Int.Defs
import Purple.CString
import Purple.PartialRun

namespace Purple.Jabber.Ibb

open CString PartialRun

abbrev Bytes := List UInt8

inductive JabberIBBSessionState
  | notOpened
  | opened
  | closed
  | error
  deriving DecidableEq, Repr

structure JabberIBBSession where
  who : Bytes
  sid : Bytes
  id : Option Bytes
  recvSeq : UInt16
  blockSize : Nat
  state : JabberIBBSessionState
  dataReceivedCb : Bool
  errorCb : Bool
  closedCb : Bool
  deriving DecidableEq, Repr

/-- A key that is the `sid` of the session `key`, and the session stored under it. -/
structure Entry where
  key : Nat
  value : Nat
  deriving DecidableEq, Repr

inductive Iq
  | result (target : Option Bytes) (id : Bytes)
  | itemNotFound (target : Option Bytes) (id : Bytes)
  | close (target sid : Bytes)
  deriving DecidableEq, Repr

/-- The live sessions by address, `jabber_ibb_sessions`, what was sent, and the data that
callbacks were given. -/
structure World where
  sessions : Nat → Option JabberIBBSession
  fresh : Nat
  table : List Entry
  sent : List Iq
  delivered : List (Nat × Bytes)

def World.empty : World := ⟨fun _ => none, 0, [], [], []⟩

def World.write (world : World) (sess : Nat) (session : Option JabberIBBSession) : World :=
  { world with sessions := fun other => if other = sess then session else world.sessions other }

def World.send (world : World) (iq : Iq) : World := { world with sent := world.sent ++ [iq] }

/-- The `sid` strings that are allocated, by the session they belong to. -/
def World.sids (world : World) (sess : Nat) : Option Bytes := (world.sessions sess).map (·.sid)

section Table

variable (strings : Nat → Option Bytes)

def hashLookup (sid : Bytes) : List Entry → Option (Option Entry)
  | [] => some none
  | entry :: rest =>
    (strings entry.key).bind fun text =>
      if text = sid then some (some entry) else hashLookup sid rest

/-- `g_hash_table_insert` keeps the key of an entry that is there. -/
def hashInsert (sid : Bytes) (sess : Nat) : List Entry → Option (List Entry)
  | [] => some [⟨sess, sess⟩]
  | entry :: rest =>
    (strings entry.key).bind fun text =>
      if text = sid then some (⟨entry.key, sess⟩ :: rest)
      else (hashInsert sid sess rest).map (entry :: ·)

def hashRemove (sid : Bytes) : List Entry → Option (List Entry)
  | [] => some []
  | entry :: rest =>
    (strings entry.key).bind fun text =>
      if text = sid then some rest else (hashRemove sid rest).map (entry :: ·)

end Table

def defaultBlockSize : Nat := 4096

def newSession (sid who : Bytes) : JabberIBBSession :=
  { who, sid, id := none, recvSeq := 0, blockSize := defaultBlockSize, state := .notOpened
    dataReceivedCb := false, errorCb := false, closedCb := false }

def World.allocate (world : World) (session : JabberIBBSession) : World :=
  { world.write world.fresh (some session) with fresh := world.fresh + 1 }

/-- A NULL `sid` becomes `nextId`, the result of `jabber_get_next_id`. -/
def jabberIbbSessionCreate (world : World) (sid : Option Bytes) (nextId who : Bytes) :
    Option (World × Nat) :=
  let session := newSession (sid.getD nextId) who
  let allocated := world.allocate session
  (hashInsert allocated.sids session.sid world.fresh allocated.table).map fun table =>
    ({ allocated with table := table }, world.fresh)

/-- `size = atoi(text)` into a `gsize`. -/
def blockSizeOf (text : Bytes) : Nat := (atoi text % 2 ^ 64).toNat

def jabberIbbSessionCreateFromXmlnode (world : World) (sender id : Bytes)
    (sid blockSize : Option Bytes) : Option World :=
  match sid, blockSize with
  | some sid, some blockSize =>
    (jabberIbbSessionCreate world (some sid) [] sender).bind fun (world, sess) =>
      (world.sessions sess).map fun session =>
        world.write sess (some { session with
          id := some id
          blockSize := blockSizeOf blockSize
          state := .opened })
  | _, _ => some world

def jabberIbbSessionClose (world : World) (sess : Nat) : Option World :=
  (world.sessions sess).map fun session =>
    if session.state = .opened ∨ session.state = .error then
      (world.send (.close session.who session.sid)).write sess
        (some { session with state := .closed })
    else world

def jabberIbbSessionDestroy (world : World) (sess : Nat) : Option World :=
  (world.sessions sess).bind fun session =>
    (if session.state = .opened then jabberIbbSessionClose world sess else some world).bind
      fun world =>
        (hashRemove world.sids session.sid world.table).map fun table =>
          { world with table := table }.write sess none

def setCallbacks (world : World) (sess : Nat) (dataReceived error closed : Bool) :
    Option World :=
  (world.sessions sess).map fun session =>
    world.write sess (some { session with
      dataReceivedCb := dataReceived
      errorCb := error
      closedCb := closed })

inductive Call
  | create (sid : Option Bytes) (nextId who : Bytes)
  | createFromXmlnode (sender id : Bytes) (sid blockSize : Option Bytes)
  | setCallbacks (sess : Nat) (dataReceived error closed : Bool)
  | close (sess : Nat)
  | destroy (sess : Nat)
  deriving DecidableEq, Repr

def perform (world : World) : Call → Option World
  | .create sid nextId who => (jabberIbbSessionCreate world sid nextId who).map Prod.fst
  | .createFromXmlnode sender id sid blockSize =>
    jabberIbbSessionCreateFromXmlnode world sender id sid blockSize
  | .setCallbacks sess dataReceived error closed =>
    setCallbacks world sess dataReceived error closed
  | .close sess => jabberIbbSessionClose world sess
  | .destroy sess => jabberIbbSessionDestroy world sess

/-- The contents of a data stanza are the decoded ones; NULL where there are none. -/
inductive Stanza
  | data (sid seq rawdata : Option Bytes)
  | close (sid : Option Bytes)
  | open (sid blockSize : Option Bytes)
  deriving DecidableEq, Repr

def Stanza.sid : Stanza → Option Bytes
  | .data sid _ _ => sid
  | .close sid => sid
  | .open _ _ => none

/-- `guint16 seq = atoi(text)` -/
def seqOf (text : Bytes) : UInt16 := UInt16.ofNat (atoi text % 2 ^ 16).toNat

def runCallback (isSet : Bool) (during : List Call) (world : World) : Option World :=
  if isSet then run perform world during else some world

def acknowledge (sess : Nat) (who id : Bytes) (world : World) : Option World :=
  (world.sessions sess).map fun session =>
    (world.write sess (some { session with recvSeq := session.recvSeq + 1 })).send
      (.result (some who) id)

section Parse

variable (world : World) (during : List Call)

/-- The stanza's `seq` is the expected one. -/
def parseExpected (sess : Nat) (session : JabberIBBSession) (who id : Bytes)
    (rawdata : Option Bytes) : Option World :=
  if session.dataReceivedCb then
    match rawdata with
    | none => runCallback session.errorCb during world
    | some rawdata =>
      if session.blockSize < rawdata.length then runCallback session.errorCb during world
      else
        (run perform { world with delivered := world.delivered ++ [(sess, rawdata)] }
          during).bind (acknowledge sess who id)
  else acknowledge sess who id world

def parseData (sess : Nat) (session : JabberIBBSession) (who id : Bytes)
    (seqAttr rawdata : Option Bytes) : Option World :=
  if seqAttr.map seqOf = some session.recvSeq then
    parseExpected world during sess session who id rawdata
  else
    runCallback session.errorCb during (world.write sess (some { session with state := .error }))

def parseClose (sess : Nat) (session : JabberIBBSession) : Option World :=
  runCallback session.closedCb during (world.write sess (some { session with state := .closed }))

/-- `during` are the calls of the callback or of the open handlers; `taken` says whether a
handler returned TRUE. -/
def jabberIbbParse (who : Option Bytes) (id : Bytes) (stanza : Stanza) (taken : Bool) :
    Option World :=
  (match stanza.sid with
    | none => some none
    | some sid => hashLookup world.sids sid world.table).bind fun
  | some entry =>
    (world.sessions entry.value).bind fun session =>
      who.bind fun who =>
        if who ≠ session.who then some world
        else
          match stanza with
          | .data _ seqAttr rawdata =>
            parseData world during entry.value session who id seqAttr rawdata
          | .close _ => parseClose world during entry.value session
          | .open _ _ => some world
  | none =>
    match stanza with
    | .open _ _ =>
      (run perform world during).bind fun world =>
        some (world.send (if taken then .result who id else .itemNotFound who id))
    | _ => some (world.send (.itemNotFound who id))

end Parse

inductive Event
  | call (call : Call)
  | stanza (who : Option Bytes) (id : Bytes) (stanza : Stanza) (during : List Call) (taken : Bool)
  deriving DecidableEq, Repr

def step (world : World) : Event → Option World
  | .call call => perform world call
  | .stanza who id stanza during taken => jabberIbbParse world during who id stanza taken

end Purple.Jabber.Ibb
