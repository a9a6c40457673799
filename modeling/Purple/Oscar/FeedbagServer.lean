/-
The server's side of the server-stored information: what the client does with
its messages, from family_feedbag.c, and a server that answers and pushes.

The two directions of the connection each keep their order.  The callbacks of the
handlers are not part of the model.
-/

import Purple.Oscar.FeedbagEdits

namespace Purple.Oscar

def assignAcks : List AimSsiTmp → List UInt16 → List AimSsiTmp
  | cur :: rest, code :: codes => { cur with ack := code } :: assignAcks rest codes
  | pending, _ => pending

def setContents (address : Nat) (name : Option Bytes) (data : List AimTlv) (cur : SsiNode) :
    SsiNode :=
  if cur.address = address then { cur with item := { cur.item with name, data } } else cur

def nodeAt (list : List SsiNode) (item : Nat) : Option SsiNode :=
  list.find? fun cur => cur.address = item

section Handlers

variable (malloc : Malloc) (od : OscarData)

def addToOfficial (item : AimSsiItem) : Option OscarData :=
  (aimSsiItemlistAdd (malloc.pick ((od.official ++ od.localList).map SsiNode.address)) od.official
    item.name item.gid item.bid item.type item.data).map fun added =>
      { od with official := added.2 }

def addToLocal (item : AimSsiItem) : Option OscarData :=
  (addLocal malloc od.official od.localList item.name item.gid item.bid item.type
    item.data).map fun added => { od with localList := added.2 }

/-- The action was unsuccessful: the local list goes back to how it was. -/
def handleFailure (action : FeedbagAction) (item : Nat) : Option OscarData :=
  match action with
  | .add => some { od with localList := aimSsiItemlistDel od.localList item }
  | .mod =>
    some ((nodeAt od.localList item).elim od fun cur =>
      (aimSsiItemlistFind od.official cur.item.gid cur.item.bid).elim od fun cur1 =>
        { od with
          localList := od.localList.map (setContents item cur1.item.name cur1.item.data) })
  | .del =>
    (nodeAt od.official item).elim (some od) fun cur => addToLocal malloc od cur.item

/-- The action was successful: the official list gets what the local list has now. -/
def handleSuccess (action : FeedbagAction) (item : Nat) : Option OscarData :=
  match action with
  | .add => (nodeAt od.localList item).elim (some od) fun cur => addToOfficial malloc od cur.item
  | .mod =>
    some ((nodeAt od.localList item).elim od fun cur =>
      (aimSsiItemlistFind od.official cur.item.gid cur.item.bid).elim od fun cur1 =>
        { od with
          official := od.official.map (setContents cur1.address cur.item.name cur.item.data) })
  | .del => some { od with official := aimSsiItemlistDel od.official item }

def handleOutcome (cur : AimSsiTmp) : Option OscarData :=
  cur.item.elim (some od) fun item =>
    if cur.ack ≠ 0 then handleFailure malloc od cur.action item
    else handleSuccess malloc od cur.action item

end Handlers

/-- The loop stops at a record without an outcome. -/
def handleOutcomes (malloc : Malloc) : OscarData → List AimSsiTmp → Option OscarData
  | od, [] => some od
  | od, cur :: rest =>
    if cur.ack = 0xffff then some od
    else (handleOutcome malloc od cur).bind fun od => handleOutcomes malloc od rest

def parseack (malloc : Malloc) (od : OscarData) (codes : List UInt16) : Option OscarData :=
  let pending := assignAcks od.pending codes
  (handleOutcomes malloc { od with pending } pending).bind fun od =>
    let left := pending.dropWhile fun cur => cur.ack ≠ 0xffff
    if left = [] then aimSsiSync malloc { od with pending := [], waitingForAck := false }
    else some { od with pending := left }

/-- One item of the message; another item is handled in the same way. -/
def parseadd (malloc : Malloc) (od : OscarData) (item : AimSsiItem) : Option OscarData :=
  (addToLocal malloc od item).bind fun od => addToOfficial malloc od item

def setItem (address : Nat) (item : AimSsiItem) (cur : SsiNode) : SsiNode :=
  if cur.address = address then
    { cur with item := { item with gid := cur.item.gid, bid := cur.item.bid } }
  else cur

def modified (list : List SsiNode) (item : AimSsiItem) : List SsiNode :=
  (aimSsiItemlistFind list item.gid item.bid).elim list fun cur =>
    list.map (setItem cur.address item)

def parsemod (od : OscarData) (item : AimSsiItem) : OscarData :=
  { od with
    localList := modified od.localList item
    official := modified od.official item }

def deleted (list : List SsiNode) (item : AimSsiItem) : List SsiNode :=
  (aimSsiItemlistFind list item.gid item.bid).elim list fun del =>
    aimSsiItemlistDel list del.address

def parsedel (od : OscarData) (item : AimSsiItem) : OscarData :=
  { od with
    localList := deleted od.localList item
    official := deleted od.official item }

abbrev Server := UInt16 × UInt16 → Option AimSsiItem

def itemId (item : AimSsiItem) : UInt16 × UInt16 := (item.gid, item.bid)

def Server.apply (server : Server) (action : FeedbagAction) (item : AimSsiItem) : Server :=
  Function.update server (itemId item) (if action = .del then none else some item)

def Server.answer (server : Server) (action : FeedbagAction) : List AimSsiItem → List UInt16 → Server
  | item :: items, code :: codes =>
    Server.answer (if code = 0 then server.apply action item else server) action items codes
  | _, _ => server

/-- What goes to the client.  An ack has a code for each record of the SNAC; the client sees
the codes only. -/
inductive ServerMessage where
  | ack (snac : FeedbagSnac) (codes : List UInt16)
  | push (action : FeedbagAction) (item : AimSsiItem)

def Server.after (server : Server) : ServerMessage → Server
  | .ack snac codes => server.answer snac.action snac.items codes
  | .push action item => server.apply action item

/-- The client adds what was not there, and changes or deletes what was. -/
def Server.MayPush (server : Server) (action : FeedbagAction) (item : AimSsiItem) : Prop :=
  (server (itemId item)).isNone ↔ action = .add

instance (server : Server) (action : FeedbagAction) (item : AimSsiItem) :
    Decidable (server.MayPush action item) := inferInstanceAs (Decidable (_ ↔ _))

structure SsiSession where
  od : OscarData
  server : Server
  inbox : List ServerMessage

inductive SsiEvent where
  | call (malloc : Malloc) (call : SsiCall)
  | sync (malloc : Malloc)
  | answer (codes : List UInt16)
  | push (action : FeedbagAction) (item : AimSsiItem)
  | deliver (malloc : Malloc)

def handleMessage (malloc : Malloc) (od : OscarData) : ServerMessage → Option OscarData
  | .ack _ codes => parseack malloc od codes
  | .push .add item => parseadd malloc od item
  | .push .mod item => some (parsemod od item)
  | .push .del item => some (parsedel od item)

/-- `none` where the event cannot happen. -/
def SsiSession.step (session : SsiSession) : SsiEvent → Option SsiSession
  | .call malloc call => (perform malloc session.od call).map fun od => { session with od }
  | .sync malloc => (aimSsiSync malloc session.od).map fun od => { session with od }
  | .answer codes =>
    match session.od.sent with
    | [] => none
    | snac :: sent =>
      if codes.length = snac.items.length then
        some
          { od := { session.od with sent }
            server := session.server.answer snac.action snac.items codes
            inbox := session.inbox ++ [.ack snac codes] }
      else none
  | .push action item =>
    if session.server.MayPush action item then
      some { session with
        server := session.server.apply action item
        inbox := session.inbox ++ [.push action item] }
    else none
  | .deliver malloc =>
    match session.inbox with
    | [] => none
    | message :: inbox =>
      (handleMessage malloc session.od message).map fun od => { session with od, inbox }

end Purple.Oscar
