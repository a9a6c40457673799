/-
Whole runs of two FLAP connections.

The bytes that were sent and not yet parsed are spread over the outgoing buffer,
the wire and the frame being received; together they are always the encodings of
the frames still to come.
-/

import Purple.Oscar.FlapRoundTrip

namespace Purple.Oscar

open List CircBuffer

/-- The frames that were parsed are the first of those sent, and all of them once
nothing is left to send or to read.  Nothing left to send waits without a watcher. -/
structure Faithful (link : Link) : Prop where
  front : link.receiver.parsed <+: numbered link.sent
  complete : link.sender.bufferOutgoing.bufused = 0 → link.receiver.wire = [] →
    link.receiver.parsed = numbered link.sent
  alive : link.receiver.destroyScheduled = false
  watched : link.sender.bufferOutgoing.bufused ≠ 0 → link.sender.watcherOutgoing = true

/-- The invariant of a run: `queue` is in the outgoing buffer, and the frames in
`rest` are sent and not yet parsed. -/
structure InFlight (link : Link) (queue : Bytes) (rest : List Parsed) : Prop where
  split : numbered link.sent = link.receiver.parsed ++ rest
  stored : Holds link.sender.bufferOutgoing queue
  awaited : Awaits link.receiver queue rest
  count : link.sender.seqnumOut = UInt16.ofNat link.sent.length
  idle : link.sender.watcherOutgoing = false → queue = []

variable {conn : FlapReceiver} {rest : List Parsed}

theorem nothing_awaited (fits : ∀ frame ∈ rest, frame.payload.length < 65536)
    (awaits : Awaits conn [] rest) (unread : conn.wire = []) : rest = [] := by
  obtain ⟨header, incoming, destroyScheduled, wire, parsed⟩ := conn
  obtain ⟨bytes, stage, alive⟩ := awaits
  change wire = [] at unread
  subst unread
  cases rest with
  | nil => rfl
  | cons frame later =>
    have size := congrArg List.length bytes
    rw [append_nil, append_nil, flatMap_cons, length_append, encodeFlap,
      length_append, flapHeader_length] at size
    cases incoming with
    | none =>
      change header.length < 6 at stage
      change (header ++ []).length = _ at size
      rw [append_nil] at size
      omega
    | some current =>
      obtain ⟨six, same, short⟩ := stage
      change header ++ current.data ++ [] ++ [] = _ at bytes
      rw [append_nil, append_nil] at bytes
      obtain ⟨first, others, parts, isHeader, behind⟩ := header_first six bytes
      cases parts
      have announced : current.len = (incomingOf (flapHeader frame)).len := by
        rw [same, ← isHeader]
      rw [announced, incomingOf_header, length_toNat (fits frame mem_cons_self)] at short
      have length := congrArg List.length behind
      rw [length_append] at length
      omega

theorem faithful_of_inFlight {link : Link} {queue : Bytes} (inFlight : InFlight link queue rest) :
    Faithful link := by
  have fits : ∀ frame ∈ rest, frame.payload.length < 65536 := by
    intro frame member
    refine @numbered_fits link.sent frame ?_
    rw [inFlight.split]
    exact mem_append_right _ member
  refine ⟨⟨rest, inFlight.split.symm⟩, fun unused unread => ?_, inFlight.awaited.alive, ?_⟩
  · have empty : queue = [] := by
      apply length_eq_zero_iff.mp
      rw [← inFlight.stored.used, unused]
    have awaited := inFlight.awaited
    rw [empty] at awaited
    rw [inFlight.split, nothing_awaited fits awaited unread, append_nil]
  · intro used
    cases watching : link.sender.watcherOutgoing with
    | true => rfl
    | false =>
      have empty := inFlight.idle watching
      rw [inFlight.stored.used, empty] at used
      exact absurd rfl used

/-- The growth of a stale outgoing buffer, as in `CircBuffer.StaleGrowth`: it is
empty, its ends differ, and the frame does not fit into it. -/
def StaleSend (link : Link) : LinkAction → Prop
  | .send _ payload _ _ _ =>
    link.sender.bufferOutgoing.bufused = 0 ∧
      link.sender.bufferOutgoing.inOffset ≠ link.sender.bufferOutgoing.outOffset ∧
      link.sender.bufferOutgoing.buflen < 6 + payload.bytes.length
  | .writable _ => False
  | .readable _ => False

theorem awaits_emitted {queue bytes left : Bytes} (awaits : Awaits conn queue rest)
    (moved : queue = bytes ++ left) :
    Awaits { conn with wire := conn.wire ++ bytes } left rest := by
  refine ⟨?_, awaits.stage, awaits.alive⟩
  have before := awaits.bytes
  rw [moved] at before
  change begun conn ++ (conn.wire ++ bytes) ++ left = _
  rw [← before]
  simp only [append_assoc]

theorem awaits_queued {queue : Bytes} (awaits : Awaits conn queue rest) (frame : Parsed) :
    Awaits conn (queue ++ encodeFlap frame) (rest ++ [frame]) := by
  refine ⟨?_, awaits.stage, awaits.alive⟩
  rw [← append_assoc, awaits.bytes, flatMap_append, flatMap_cons, flatMap_nil,
    append_nil]

theorem linkStep_inFlight (link : Link) (action : LinkAction)
    (kept : ∃ queue rest, InFlight link queue rest) (steady : ¬StaleSend link action) :
    ∃ next, linkStep link action = some next ∧ ∃ queue rest, InFlight next queue rest := by
  obtain ⟨queue, rest, inFlight⟩ := kept
  cases action with
  | send channel payload spare fresh room =>
    obtain ⟨after, bytes, left, sent, moved, stored, number, idle⟩ :=
      flapConnectionSend_holds inFlight.stored channel payload spare fresh room steady
    have next : link.sender.seqnumOut + 1 = UInt16.ofNat (link.sent.length + 1) := by
      rw [inFlight.count, UInt16.ofNat_add]
      rfl
    refine ⟨_, by rw [linkStep, sent]; rfl, left, rest ++
      [{ channel, seqnum := link.sender.seqnumOut + 1, payload := payload.bytes }], ?_, stored,
      awaits_emitted (awaits_queued inFlight.awaited _) moved, ?_, idle⟩
    · change numbered (link.sent ++ [(channel, payload)]) = link.receiver.parsed ++ _
      rw [numbered_concat, inFlight.split, append_assoc, next]
    · change after.seqnumOut = UInt16.ofNat (link.sent ++ [(channel, payload)]).length
      rw [number, next, length_append, length_singleton]
  | writable room =>
    by_cases watching : link.sender.watcherOutgoing = true
    · obtain ⟨after, bytes, left, sent, moved, stored, number, idle⟩ :=
        sendCb_holds inFlight.stored room
      refine ⟨link.emit (after, bytes), by rw [linkStep, if_pos watching, sent]; rfl, left, rest,
        inFlight.split, stored, awaits_emitted inFlight.awaited moved,
        number.trans inFlight.count, fun off => ?_⟩
      exact (idle off).resolve_right fun was => absurd (watching.symm.trans was) (by decide)
    · exact ⟨link, by rw [linkStep, if_neg watching], queue, rest, inFlight⟩
  | readable offers =>
    have fits : ∀ frame ∈ rest, frame.payload.length < 65536 := by
      intro frame member
      refine @numbered_fits link.sent frame ?_
      rw [inFlight.split]
      exact mem_append_right _ member
    obtain ⟨done, later, parts, parsed, awaited⟩ :=
      flapConnectionRecv_awaits fits inFlight.awaited offers
    refine ⟨_, rfl, queue, later, ?_, inFlight.stored, awaited, inFlight.count, inFlight.idle⟩
    change numbered link.sent = (flapConnectionRecv offers link.receiver).parsed ++ later
    rw [parsed, inFlight.split, parts, append_assoc]

theorem start_inFlight : InFlight Link.start [] [] where
  split := rfl
  stored := holds_new 0
  awaited := ⟨rfl, Nat.succ_pos 5, rfl⟩
  count := rfl
  idle := fun _ => rfl

/-- In a run that sends no frame into a stale buffer that is too small for it,
every state has parsed the frames that were sent, in order and numbered. -/
theorem flap_roundTrips (actions : List LinkAction)
    (steady : PartialRun.Admitted linkStep (fun link action => ¬StaleSend link action)
      Link.start actions) (done : List LinkAction) (reached : done <+: actions) :
    ∃ last, PartialRun.run linkStep Link.start done = some last ∧ Faithful last := by
  obtain ⟨last, ran, queue, rest, inFlight⟩ := PartialRun.reached
    (fun link : Link => ∃ queue rest, InFlight link queue rest) linkStep_inFlight
    ⟨[], [], start_inFlight⟩ steady reached
  exact ⟨last, ran, faithful_of_inFlight inFlight⟩

def piecewiseActions : List LinkAction :=
  [.send 2 ⟨[7, 8], by decide⟩ [9] zeroed 5, .readable [6, 4], .writable 20, .readable [6, 2]]

theorem flap_roundTrips_piecewise :
    ∃ last, PartialRun.run linkStep Link.start piecewiseActions = some last ∧ Faithful last := by
  refine flap_roundTrips piecewiseActions ?_ _ (prefix_refl _)
  exact ⟨fun stale => absurd stale.2.1 (by decide),
    fun _ _ => ⟨id, fun _ _ => ⟨id, fun _ _ => ⟨id, fun _ _ => trivial⟩⟩⟩⟩

def wholePayload : Payload where
  bytes := List.replicate 250 0
  fits := by
    rw [length_replicate]
    decide

def longPayload : Payload where
  bytes := List.replicate 251 1
  fits := by
    rw [length_replicate]
    decide

/-- The first frame is sent and read.  The second one wraps in the grown buffer
as if the first were still there, and its last byte is sent first. -/
def staleActions : List LinkAction :=
  [.send 2 wholePayload [] zeroed 256, .readable [6, 250], .send 2 longPayload [] zeroed 0,
    .writable 1, .writable 5, .readable [6]]

theorem staleActions_not_roundTrip :
    ¬∀ (actions : List LinkAction), ∃ last,
      PartialRun.run linkStep Link.start actions = some last ∧ Faithful last := by
  intro roundTrips
  obtain ⟨last, ran, faithful⟩ := roundTrips staleActions
  have computed : (PartialRun.run linkStep Link.start staleActions).map
      (fun link => link.receiver.destroyScheduled) = some true := by
    decide +kernel
  rw [ran] at computed
  exact absurd (faithful.alive.symm.trans (Option.some.inj computed)) Bool.noConfusion

end Purple.Oscar
