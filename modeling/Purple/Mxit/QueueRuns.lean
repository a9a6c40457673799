/-
Runs of the MXit transmission queue.

What was written, followed by what is waiting, is one line of requests with
increasing numbers: a packet that is sent from the queue moves the border between
the two, and nothing else in the line.
-/

import Purple.Mxit.Queue

namespace Purple.Mxit

open List Option Decimal

theorem printOn_length {header : Bytes} (fits : header.length < headerSize) (text : Bytes) :
    (printOn header text).length = min 255 (header.length + text.length) := by
  change header.length < 256 at fits
  rw [printOn, scnprintf, length_append, length_take]
  change header.length + min (256 - header.length - 1) text.length = _
  omega

theorem printOn_fits {header : Bytes} (fits : header.length < headerSize) (text : Bytes) :
    (printOn header text).length < headerSize := by
  rw [printOn_length fits]
  exact Nat.lt_succ_of_le (Nat.min_le_left _ _)

theorem httpRecord_fits (session : Session) {header : Bytes} (fits : header.length < headerSize) :
    (httpRecord session header).length < headerSize := by
  apply printOn_fits
  rw [httpSessionId]
  split
  · exact printOn_fits (printOn_fits fits _) _
  · exact printOn_fits fits _

theorem genericHeader_fits (session : Session) (cmd : Int) :
    (genericHeader session cmd).length < headerSize := by
  have empty : ([] : Bytes).length < headerSize := by decide
  rw [genericHeader]
  split
  · exact printOn_fits (httpRecord_fits session (printOn_fits empty _)) _
  · exact printOn_fits (printOn_fits empty _) _

def headerLength (username : Bytes) (cmd : Int) : Nat :=
  min 255 (username.length + (printInt cmd).length + 8)

theorem genericHeader_length {session : Session} (socket : session.http = false) (cmd : Int) :
    (genericHeader session cmd).length = headerLength session.username cmd := by
  have empty : ([] : Bytes).length < headerSize := by decide
  rw [genericHeader, socket, if_neg Bool.false_ne_true, printOn_length (printOn_fits empty _),
    printOn_length empty, idRecord, cmRecord, headerLength]
  simp only [length_append, length_cons, length_nil]
  omega

def HeaderFits (http : Bool) (username : Bytes) (cmd : Int) (data : Bytes) : Prop :=
  http = true ∨
    (printInt (Int.bmod (data.length + headerLength username cmd : Nat) (2 ^ 32))).length + 4 +
      headerLength username cmd ≤ headerSize

theorem packetHeader_isSome_iff (session : Session) (cmd : Int) (data : Bytes) :
    (packetHeader session cmd data).isSome = true ↔
      HeaderFits session.http session.username cmd data := by
  have generic := genericHeader_fits session cmd
  rw [packetHeader, HeaderFits]
  cases connection : session.http with
  | true =>
    rw [lengthHeader, connection, if_pos rfl, if_pos]
    · exact iff_of_true rfl (Or.inl rfl)
    · rw [length_nil, Nat.zero_add]
      exact Nat.le_of_lt generic
  | false =>
    rw [genericHeader_length connection, lengthHeader, connection, if_neg Bool.false_ne_true,
      scnprintf, length_take, lnRecord]
    have long : 8 ≤ headerLength session.username cmd := by
      rw [headerLength]
      omega
    simp only [length_append, length_cons, length_nil, Bool.false_eq_true,
      false_or]
    rw [isSome_ite]
    change min 255 _ + _ ≤ 256 ↔ _ ≤ 256
    omega

theorem packetHeader_length {session : Session} {cmd : Int} {data header : Bytes}
    (written : packetHeader session cmd data = some header) : header.length ≤ headerSize := by
  rw [packetHeader] at written
  split at written
  · rename_i fits
    cases written
    rw [length_append]
    exact fits
  · cases written

theorem request_onWire (session : Session) (packet : TxPacket) :
    (onWire session packet).request = packet.request := by
  rw [onWire]
  split <;> rfl

theorem onWire_header_length (session : Session) (packet : TxPacket) :
    (onWire session packet).header.length ≤ packet.header.length := by
  rw [onWire]
  split
  · rw [length_dropLast]
    exact Nat.sub_le _ _
  · exact Nat.le_refl _

def accepted (offers : List Offer) : List Request :=
  (offers.filter fun offer => offer.refusedAt.isNone).map Offer.request

/-- Requests that are written or wait, beside those that were offered. -/
structure InLine (line : List Request) (offers : List Offer) (calls : Nat) : Prop where
  /-- Every accepted request is in the line once, in the order of the calls. -/
  accepted : line.filter Request.queued = accepted offers
  increasing : line.Pairwise fun early late => early.number < late.number
  numbered : ∀ request ∈ line, request.number < calls
  refused : ∀ offer ∈ offers, ∀ waited, offer.refusedAt = some waited → waited = maxQueueSize

def line (world : World) (waiting : List TxPacket) : List Request :=
  (world.history.written ++ waiting).map TxPacket.request

structure Orderly (http : Bool) (username : Bytes) (world : World) (waiting : List TxPacket) :
    Prop where
  connected : world.session.connected = true
  http : world.session.http = http
  username : world.session.username = username
  /-- The ring holds the waiting packets, its indices congruent to the count. -/
  ring : Ring.Holds maxQueueSize world.session.queue waiting
  outack : 0 ≤ world.session.outack
  awaiting : world.history.awaiting =
    if world.session.outack = 0 then [] else [world.session.outack]
  queued : ∀ packet ∈ waiting, 0 < packet.cmd ∧ packet.request.queued = true
  line : InLine (line world waiting) world.history.offered world.history.calls
  headers : ∀ packet ∈ world.history.written ++ waiting, packet.header.length ≤ headerSize

variable {http : Bool} {username : Bytes} {world : World} {waiting rest : List TxPacket} {packet : TxPacket} {now sent : Int}

theorem Orderly.awaiting_length (orderly : Orderly http username world waiting) :
    world.history.awaiting.length ≤ 1 := by
  rw [orderly.awaiting]
  split
  · exact Nat.zero_le 1
  · exact Nat.le_refl 1

theorem recordOffer_none (offers : List Offer) (request : Request) :
    accepted (recordOffer offers request none) =
      accepted offers ++ [request].filter Request.queued := by
  rw [recordOffer]
  by_cases queued : request.queued = true
  · rw [if_pos queued, accepted, filter_append, map_append, filter_cons_of_pos queued]
    rfl
  · rw [if_neg queued, filter_cons_of_neg queued, filter_nil, append_nil]

theorem recordOffer_some (offers : List Offer) (request : Request) (waited : Nat) :
    accepted (recordOffer offers request (some waited)) = accepted offers := by
  rw [recordOffer]
  split
  · rw [accepted, filter_append, map_append]
    exact append_nil _
  · rfl

theorem mem_recordOffer {offers : List Offer} {request : Request} {refusedAt : Option Nat}
    {offer : Offer} (member : offer ∈ recordOffer offers request refusedAt) :
    offer ∈ offers ∨ offer.refusedAt = refusedAt := by
  rw [recordOffer] at member
  split at member
  · apply (mem_append.mp member).imp_right
    intro last
    rw [mem_singleton.mp last]
  · exact Or.inl member

variable {requests : List Request} {offers : List Offer} {calls : Nat} {request : Request}

theorem InLine.append (inLine : InLine requests offers calls)
    (last : ∀ earlier ∈ requests, earlier.number < request.number)
    (counted : request.number < calls) :
    InLine (requests ++ [request]) (recordOffer offers request none) calls := by
  constructor
  · rw [filter_append, recordOffer_none, inLine.accepted]
  · apply pairwise_append.mpr
    refine ⟨inLine.increasing, pairwise_singleton _ _, ?_⟩
    intro earlier member late here
    rw [mem_singleton.mp here]
    exact last earlier member
  · intro other member
    obtain before | here := mem_append.mp member
    · exact inLine.numbered other before
    · rw [mem_singleton.mp here]
      exact counted
  · intro offer member waited refused
    obtain before | accepted := mem_recordOffer member
    · exact inLine.refused offer before waited refused
    · rw [accepted] at refused
      cases refused

theorem InLine.refuse (inLine : InLine requests offers calls) :
    InLine requests (recordOffer offers request (some maxQueueSize)) calls := by
  constructor
  · rw [recordOffer_some]
    exact inLine.accepted
  · exact inLine.increasing
  · exact inLine.numbered
  · intro offer member waited refused
    obtain before | full := mem_recordOffer member
    · exact inLine.refused offer before waited refused
    · rw [full] at refused
      exact (Option.some.inj refused).symm

theorem InLine.count (inLine : InLine requests offers calls) : InLine requests offers (calls + 1) :=
  { inLine with
    numbered := fun other member => Nat.lt_succ_of_lt (inLine.numbered other member) }

/-! ### Sending -/

theorem sendPacket_connected (connection : world.session.connected = true) :
    sendPacket now world packet =
      { session := { world.session with lastTx := now, outack := packet.cmd }
        history :=
          { world.history with
            written := world.history.written ++ [onWire world.session packet]
            awaiting := world.history.awaiting ++ [packet.cmd] } } := if_pos connection

theorem line_sent (session : Session) (written waiting : List TxPacket) :
    ((written ++ [onWire session packet]) ++ waiting).map TxPacket.request =
      (written ++ packet :: waiting).map TxPacket.request := by
  simp only [map_append, map_cons, map_nil, append_assoc, request_onWire]
  rfl

theorem headers_sent (session : Session) {written waiting : List TxPacket}
    (headers : ∀ other ∈ written ++ packet :: waiting, other.header.length ≤ headerSize) :
    ∀ other ∈ (written ++ [onWire session packet]) ++ waiting,
      other.header.length ≤ headerSize := by
  intro other member
  rw [append_assoc] at member
  obtain before | here | after :=
    (mem_append.mp member).imp_right fun behind => mem_cons.mp behind
  · exact headers other (mem_append_left _ before)
  · rw [here]
    exact (onWire_header_length session packet).trans
      (headers packet (mem_append_right _ mem_cons_self))
  · exact headers other (mem_append_right _ (mem_cons_of_mem _ after))

theorem Orderly.sendDirect (orderly : Orderly http username world []) (free : world.session.outack = 0)
    (positive : 0 < packet.cmd)
    (last : ∀ earlier ∈ Mxit.line world [], earlier.number < packet.number)
    (counted : packet.number < world.history.calls) (fits : packet.header.length ≤ headerSize) :
    Orderly http username (sendPacket now (offered world packet none) packet) [] := by
  have idle := orderly.awaiting
  rw [free, if_pos rfl] at idle
  rw [sendPacket_connected (show (offered world packet none).session.connected = true from
    orderly.connected)]
  constructor
  · exact orderly.connected
  · exact orderly.http
  · exact orderly.username
  · exact orderly.ring
  · exact Int.le_of_lt positive
  · change world.history.awaiting ++ [packet.cmd] = if packet.cmd = 0 then [] else [packet.cmd]
    rw [idle, if_neg (Int.ne_of_gt positive)]
    rfl
  · exact orderly.queued
  · have appended : InLine (Mxit.line world [] ++ [packet.request]) _ _ :=
      orderly.line.append last counted
    rw [Mxit.line]
    dsimp only
    rw [line_sent, map_append]
    rw [Mxit.line, append_nil] at appended
    exact appended
  · apply headers_sent
    intro other member
    obtain before | here := mem_append.mp member
    · exact orderly.headers other (mem_append_left _ before)
    · rw [mem_singleton.mp here]
      exact fits

theorem Orderly.sendFirst {queue : Ring TxPacket} (orderly : Orderly http username world (packet :: rest))
    (free : world.session.outack = 0) (holds : Ring.Holds maxQueueSize queue rest) :
    Orderly http username
      (sendPacket sent { world with session := { world.session with queue } } packet) rest := by
  have idle := orderly.awaiting
  rw [free, if_pos rfl] at idle
  have positive := (orderly.queued packet mem_cons_self).1
  have connection : ({ world with session := { world.session with queue } } : World).session.connected =
      true := orderly.connected
  rw [sendPacket_connected connection]
  constructor
  · exact orderly.connected
  · exact orderly.http
  · exact orderly.username
  · exact holds
  · exact Int.le_of_lt positive
  · change world.history.awaiting ++ [packet.cmd] = if packet.cmd = 0 then [] else [packet.cmd]
    rw [idle, if_neg (Int.ne_of_gt positive)]
    rfl
  · exact fun other member => orderly.queued other (mem_cons_of_mem _ member)
  · rw [Mxit.line]
    dsimp only
    rw [line_sent]
    exact orderly.line
  · exact headers_sent _ orderly.headers

theorem Orderly.setTimer (orderly : Orderly http username world waiting) (armed : Bool) :
    Orderly http username { world with session := { world.session with qFastTimer := armed } }
      waiting :=
  ⟨orderly.connected, orderly.http, orderly.username, orderly.ring, orderly.outack,
    orderly.awaiting, orderly.queued, orderly.line, orderly.headers⟩

theorem Orderly.manageQueue (orderly : Orderly http username world waiting) (now sent : Int) :
    ∃ after, Orderly http username (manageQueue now sent world) after := by
  rw [Mxit.manageQueue, if_neg (Bool.not_eq_false _ ▸ orderly.connected)]
  by_cases outstanding : 0 < world.session.outack
  · rw [if_pos outstanding]
    exact ⟨waiting, orderly⟩
  rw [if_neg outstanding]
  have free : world.session.outack = 0 := by
    have nonneg := orderly.outack
    omega
  by_cases armed : world.session.qFastTimer = true
  · rw [if_pos armed]
    exact ⟨waiting, orderly⟩
  rw [if_neg armed]
  by_cases early : now - mxitTxDelay < world.session.lastTx
  · rw [if_pos early]
    exact ⟨waiting, orderly.setTimer true⟩
  rw [if_neg early]
  cases waiting with
  | nil =>
    rw [orderly.ring.pop_nil]
    exact ⟨[], orderly⟩
  | cons packet rest =>
    obtain ⟨queue, popped, holds⟩ := orderly.ring.pop
    rw [popped]
    exact ⟨rest, orderly.sendFirst free holds⟩

/-! ### Queueing -/

theorem Orderly.push {queue : Ring TxPacket} (orderly : Orderly http username world waiting)
    (positive : 0 < packet.cmd) (queued : packet.request.queued = true)
    (last : ∀ earlier ∈ Mxit.line world waiting, earlier.number < packet.number)
    (counted : packet.number < world.history.calls) (fits : packet.header.length ≤ headerSize)
    (pushed : world.session.queue.push maxQueueSize packet = some queue) :
    Orderly http username
      (offered { world with session := { world.session with queue } } packet none)
      (waiting ++ [packet]) := by
  constructor
  · exact orderly.connected
  · exact orderly.http
  · exact orderly.username
  · exact orderly.ring.push pushed
  · exact orderly.outack
  · exact orderly.awaiting
  · intro other member
    obtain before | here := mem_append.mp member
    · exact orderly.queued other before
    · rw [mem_singleton.mp here]
      exact ⟨positive, queued⟩
  · have appended : InLine (Mxit.line world waiting ++ [packet.request]) _ _ :=
      orderly.line.append last counted
    rw [Mxit.line]
    dsimp only [offered]
    rw [← append_assoc, map_append]
    exact appended
  · intro other member
    rw [← append_assoc] at member
    obtain before | here := mem_append.mp member
    · exact orderly.headers other before
    · rw [mem_singleton.mp here]
      exact fits

theorem Orderly.refuse (orderly : Orderly http username world waiting)
    (full : world.session.queue.push maxQueueSize packet = none) :
    Orderly http username (offered world packet (some world.session.queue.count)) waiting := by
  rw [orderly.ring.count, orderly.ring.push_none_iff.mp full]
  exact ⟨orderly.connected, orderly.http, orderly.username, orderly.ring, orderly.outack,
    orderly.awaiting, orderly.queued, orderly.line.refuse, orderly.headers⟩

theorem Orderly.sendOrQueue (orderly : Orderly http username world waiting)
    (positive : 0 < packet.cmd)
    (last : ∀ earlier ∈ Mxit.line world waiting, earlier.number < packet.number)
    (counted : packet.number < world.history.calls) (fits : packet.header.length ≤ headerSize) :
    ∃ after, Orderly http username (sendOrQueue now world packet) after := by
  rw [Mxit.sendOrQueue]
  by_cases direct : world.session.queue.count = 0 ∧ world.session.outack = 0
  · rw [if_pos direct]
    have empty : waiting = [] := by
      rw [orderly.ring.count] at direct
      exact length_eq_zero_iff.mp direct.1
    rw [empty] at orderly last
    exact ⟨[], orderly.sendDirect direct.2 positive last counted fits⟩
  rw [if_neg direct]
  by_cases dropped : packet.cmd = cpCmdPing ∨ packet.cmd = cpCmdPoll
  · rw [if_pos dropped]
    exact ⟨waiting, orderly⟩
  rw [if_neg dropped]
  cases pushed : world.session.queue.push maxQueueSize packet with
  | none => exact ⟨waiting, orderly.refuse pushed⟩
  | some queue =>
    have queued : packet.request.queued = true := decide_eq_true (not_or.mp dropped)
    exact ⟨waiting ++ [packet], orderly.push positive queued last counted fits pushed⟩

theorem Orderly.count (orderly : Orderly http username world waiting) :
    Orderly http username
      { session := countRequest world.session
        history := { world.history with calls := world.history.calls + 1 } } waiting := by
  rw [countRequest]
  split <;>
    exact ⟨orderly.connected, orderly.http, orderly.username, orderly.ring, orderly.outack,
      orderly.awaiting, orderly.queued, orderly.line.count, orderly.headers⟩

theorem printInt_length {value : Int} (low : -2 ^ 31 ≤ value) (high : value ≤ 2 ^ 31) :
    (printInt value).length ≤ 11 := by
  have digits : (decimal value.natAbs).length ≤ 9 + 1 := decimal_length (by omega)
  rw [printInt]
  split
  · exact Nat.succ_le_succ digits
  · exact Nat.le_succ_of_le digits

theorem headerFits_of_short {cmd : Int} (low : -2 ^ 31 ≤ cmd) (high : cmd ≤ 2 ^ 31) (data : Bytes)
    (short : username.length ≤ 222) : HeaderFits http username cmd data := by
  have command := printInt_length low high
  have length : (printInt (Int.bmod (data.length + headerLength username cmd : Nat)
      (2 ^ 32))).length ≤ 11 := by
    apply printInt_length
    · exact Int.le_bmod (by decide)
    · exact Int.le_of_lt (Int.bmod_lt (by decide))
  apply Or.inr
  rw [headerLength] at length ⊢
  change _ ≤ 256
  omega

theorem not_headerFits_of_long {cmd : Int} {data : Bytes} (long : 247 ≤ username.length) :
    ¬ HeaderFits false username cmd data := by
  have full : headerLength username cmd = 255 := by
    rw [headerLength]
    omega
  rintro (impossible | fits)
  · cases impossible
  · rw [full] at fits
    change _ + 4 + 255 ≤ 256 at fits
    omega

theorem queuePacket_eq_none {call : Call}
    (unfit : ¬ HeaderFits world.session.http world.session.username call.cmd call.data) :
    queuePacket world call = none := by
  have counted : (countRequest world.session).http = world.session.http ∧
      (countRequest world.session).username = world.session.username := by
    rw [countRequest]
    split <;> exact ⟨rfl, rfl⟩
  rw [← counted.1, ← counted.2, ← packetHeader_isSome_iff, not_isSome_iff_eq_none] at unfit
  rw [queuePacket, unfit, map_none]

def Call.Fits (http : Bool) (username : Bytes) (call : Call) : Prop :=
  0 < call.cmd ∧ HeaderFits http username call.cmd call.data

theorem Orderly.queuePacket {call : Call} (orderly : Orderly http username world waiting)
    (fits : call.Fits http username) :
    ∃ next after, queuePacket world call = some next ∧ Orderly http username next after := by
  have counted := orderly.count
  have headerFits := fits.2
  rw [← counted.http, ← counted.username, ← packetHeader_isSome_iff] at headerFits
  obtain ⟨header, written⟩ := isSome_iff_exists.mp headerFits
  dsimp only at written
  rw [Mxit.queuePacket, written]
  have sent : ∃ after, Orderly http username (Mxit.sendOrQueue call.now _
      { cmd := call.cmd, header, data := call.data, number := world.history.calls }) after :=
    counted.sendOrQueue fits.1 orderly.line.numbered (Nat.lt_succ_self _)
      (packetHeader_length written)
  obtain ⟨after, kept⟩ := sent
  exact ⟨_, after, rfl, kept⟩

theorem Orderly.acknowledge (orderly : Orderly http username world waiting) (cmd : Int) :
    Orderly http username (acknowledge world cmd) waiting := by
  have awaiting := orderly.awaiting
  rw [Mxit.acknowledge]
  by_cases answered : world.session.outack = cmd
  · rw [if_pos answered]
    refine ⟨orderly.connected, orderly.http, orderly.username, orderly.ring, Int.le_refl 0, ?_,
      orderly.queued, orderly.line, orderly.headers⟩
    dsimp only
    rw [awaiting, answered, if_pos rfl]
    split
    · rfl
    · rw [filter_cons_of_neg (by rw [bne_self_eq_false]; exact Bool.false_ne_true)]
      rfl
  · rw [if_neg answered]
    refine ⟨orderly.connected, orderly.http, orderly.username, orderly.ring, orderly.outack, ?_,
      orderly.queued, orderly.line, orderly.headers⟩
    dsimp only
    rw [awaiting]
    split
    · rfl
    · rw [filter_cons, if_pos (bne_iff_ne.mpr answered)]
      rfl

theorem Orderly.setSesid (orderly : Orderly http username world waiting)
    (httpSesid : Option UInt32) : Orderly http username (setSesid world httpSesid) waiting := by
  cases httpSesid with
  | none => exact orderly
  | some httpSesid =>
    exact ⟨orderly.connected, orderly.http, orderly.username, orderly.ring, orderly.outack,
      orderly.awaiting, orderly.queued, orderly.line, orderly.headers⟩

theorem orderly_foldlM {α : Type} {act : World → α → Option World} {items : List α}
    (kept : ∀ item ∈ items, ∀ world waiting, Orderly http username world waiting →
      ∃ next after, act world item = some next ∧ Orderly http username next after)
    (orderly : Orderly http username world waiting) :
    ∃ next after, items.foldlM act world = some next ∧ Orderly http username next after := by
  induction items generalizing world waiting with
  | nil => exact ⟨world, waiting, rfl, orderly⟩
  | cons item items ih =>
    obtain ⟨next, after, acted, here⟩ := kept item mem_cons_self world waiting orderly
    rw [foldlM_cons, acted]
    exact ih (fun other member => kept other (mem_cons_of_mem _ member)) here

theorem Orderly.receivePacket {received : RxPacket}
    (orderly : Orderly http username world waiting)
    (fits : ∀ call ∈ received.calls, call.Fits http username) :
    ∃ next after, receivePacket world received = some next ∧ Orderly http username next after := by
  apply orderly_foldlM
  · intro call member world waiting orderly
    exact orderly.queuePacket (fits call member)
  · exact (orderly.acknowledge received.cmd).setSesid received.httpSesid

theorem Orderly.parsePacket {packets : List RxPacket}
    (orderly : Orderly http username world waiting)
    (fits : ∀ received ∈ packets, ∀ call ∈ received.calls, call.Fits http username) :
    ∃ next after, parsePacket packets now sent world = some next ∧
      Orderly http username next after := by
  have all : ∃ next after, packets.foldlM Mxit.receivePacket world = some next ∧
      Orderly http username next after := by
    apply orderly_foldlM _ orderly
    intro received member world waiting orderly
    exact orderly.receivePacket (fits received member)
  obtain ⟨next, after, folded, here⟩ := all
  rw [Mxit.parsePacket, folded, map_some]
  by_cases free : next.session.outack = 0
  · rw [if_pos free]
    obtain ⟨after, managed⟩ := here.manageQueue now sent
    exact ⟨_, after, rfl, managed⟩
  · rw [if_neg free]
    exact ⟨next, after, rfl, here⟩

/-! ### Runs -/

def Event.Fits (http : Bool) (username : Bytes) : Event → Prop
  | .queue call => call.Fits http username
  | .receive packets _ _ => ∀ received ∈ packets, ∀ call ∈ received.calls, call.Fits http username
  | .slow _ _ => True
  | .fast _ _ => True

theorem Orderly.step {event : Event} (orderly : Orderly http username world waiting)
    (fits : event.Fits http username) :
    ∃ next after, step world event = some next ∧ Orderly http username next after := by
  cases event with
  | queue call => exact orderly.queuePacket fits
  | receive packets now sent => exact orderly.parsePacket fits
  | slow now sent =>
    obtain ⟨after, managed⟩ := orderly.manageQueue now sent
    exact ⟨_, after, rfl, managed⟩
  | fast now sent =>
    obtain ⟨after, managed⟩ := (orderly.setTimer false).manageQueue now sent
    exact ⟨_, after, rfl, managed⟩

theorem connected_orderly (http : Bool) (httpSesid httpSeqno : UInt32) (username : Bytes)
    (lastTx : Int) :
    Orderly http username (connected http httpSesid httpSeqno username lastTx) [] :=
  { connected := rfl
    http := rfl
    username := rfl
    ring := Ring.empty_holds (by decide)
    outack := Int.le_refl 0
    awaiting := rfl
    queued := fun _ impossible => nomatch impossible
    line :=
      { accepted := rfl
        increasing := List.Pairwise.nil
        numbered := fun _ impossible => nomatch impossible
        refused := fun _ impossible => nomatch impossible }
    headers := fun _ impossible => nomatch impossible }

/-- With nothing to be acknowledged, the fast timer sends the first packet that waits, if the
last one was sent long enough ago. -/
theorem Orderly.manageQueueFast_sends
    (orderly : Orderly http username world (packet :: rest)) (idle : world.history.awaiting = [])
    (late : world.session.lastTx ≤ now - mxitTxDelay) :
    (manageQueueFast now sent world).history.written =
        world.history.written ++ [onWire world.session packet] ∧
      Orderly http username (manageQueueFast now sent world) rest := by
  have disarmed := orderly.setTimer false
  have free : world.session.outack = 0 := by
    have awaiting := orderly.awaiting
    rw [idle] at awaiting
    by_contra outstanding
    rw [if_neg outstanding] at awaiting
    cases awaiting
  obtain ⟨queue, popped, holds⟩ := disarmed.ring.pop
  have managed : manageQueueFast now sent world =
      sendPacket sent
        { world with session := { world.session with qFastTimer := false, queue } } packet := by
    rw [manageQueueFast, Mxit.manageQueue, if_neg (Bool.not_eq_false _ ▸ orderly.connected)]
    dsimp only at popped ⊢
    rw [if_neg (by omega), if_neg Bool.false_ne_true, if_neg (by omega), popped]
  have sending : Orderly http username (sendPacket sent _ packet) rest :=
    disarmed.sendFirst free holds
  rw [managed]
  refine ⟨?_, sending⟩
  have connection : ({ world with
      session := { world.session with qFastTimer := false, queue } } : World).session.connected =
      true := orderly.connected
  rw [sendPacket_connected connection]
  rfl

/-- In every run whose calls fit, after every event: the queue is in order, at most one packet
is not acknowledged, and what waits is sent when it is its turn. -/
theorem queue_run (httpSesid httpSeqno : UInt32) (lastTx : Int) {events done : List Event}
    (fits : ∀ event ∈ events, event.Fits http username) (initial : done <+: events) :
    ∃ last waiting,
      PartialRun.run step (connected http httpSesid httpSeqno username lastTx) done = some last ∧
      Orderly http username last waiting ∧ last.history.awaiting.length ≤ 1 ∧
      ∀ packet rest now sent, waiting = packet :: rest → last.history.awaiting = [] →
        last.session.lastTx ≤ now - mxitTxDelay →
          (manageQueueFast now sent last).history.written =
              last.history.written ++ [onWire last.session packet] ∧
            Orderly http username (manageQueueFast now sent last) rest := by
  have admitted : PartialRun.Admitted step (fun _ event => event.Fits http username)
      (connected http httpSesid httpSeqno username lastTx) events :=
    PartialRun.admitted_of_forall fun event member _ => fits event member
  have kept : ∀ world event, (∃ waiting, Orderly http username world waiting) →
      event.Fits http username →
      ∃ next, step world event = some next ∧ ∃ after, Orderly http username next after := by
    rintro world event ⟨waiting, orderly⟩ fits
    obtain ⟨next, after, stepped, here⟩ := orderly.step fits
    exact ⟨next, stepped, after, here⟩
  obtain ⟨last, ran, waiting, orderly⟩ := PartialRun.reached _ kept
    ⟨[], connected_orderly http httpSesid httpSeqno username lastTx⟩ admitted initial
  refine ⟨last, waiting, ran, orderly, orderly.awaiting_length, ?_⟩
  intro packet rest now sent first idle late
  rw [first] at orderly
  exact orderly.manageQueueFast_sends idle late

theorem queue_run_login :
    ∃ last waiting,
      PartialRun.run step (connected false 0 0 [97] 0) [.queue ⟨[7], 1, 0⟩, .fast 200 200] =
          some last ∧
        Orderly false [97] last waiting ∧ last.history.awaiting.length ≤ 1 ∧
        ∀ packet rest now sent, waiting = packet :: rest → last.history.awaiting = [] →
          last.session.lastTx ≤ now - mxitTxDelay →
            (manageQueueFast now sent last).history.written =
                last.history.written ++ [onWire last.session packet] ∧
              Orderly false [97] (manageQueueFast now sent last) rest := by
  have login : Event.Fits false [97] (.queue ⟨[7], 1, 0⟩) :=
    ⟨by decide, headerFits_of_short (by decide) (by decide) _ (by decide)⟩
  have timer : Event.Fits false [97] (.fast 200 200) := trivial
  exact queue_run 0 0 0 (forall_mem_cons.mpr ⟨login, forall_mem_singleton.mpr timer⟩)
    (prefix_refl _)

/-- The login of an account whose name has 250 letters is copied over the end of the header. -/
theorem longName_overflows :
    PartialRun.run step (connected false 0 0 (List.replicate 250 97) 0) [.queue ⟨[], 1, 0⟩] =
      none := by
  have unfit : ¬ HeaderFits false (List.replicate 250 97) 1 [] :=
    not_headerFits_of_long (by rw [length_replicate]; decide)
  rw [PartialRun.run_cons, step, queuePacket_eq_none unfit]
  rfl

end Purple.Mxit
