/-
The data that an in-band bytestream gives to its callback.

What should be accepted is said by `expect`, over the stanzas alone: the
sequence numbers count what was accepted, and an error, a close or the end of
the session ends it.  The client follows it while it does what `Handled` asks.
-/

import Purple.Jabber.IbbTable

namespace Purple.Jabber.Ibb

open List Option CString PartialRun

inductive Own
  | setCallbacks (dataReceived error closed : Bool)
  | close
  deriving DecidableEq, Repr

structure Behaviour where
  before : List Own
  destroys : Bool
  deriving DecidableEq, Repr

/-- A stanza for one session, and what the callback that it reaches does. -/
inductive Incoming
  | data (who : Option Bytes) (id : Bytes) (seq rawdata : Option Bytes) (during : Behaviour)
  | close (who : Option Bytes) (id : Bytes) (during : Behaviour)
  deriving DecidableEq, Repr

def Own.call (sess : Nat) : Own → Call
  | .setCallbacks dataReceived error closed => .setCallbacks sess dataReceived error closed
  | .close => .close sess

def Behaviour.calls (sess : Nat) (during : Behaviour) : List Call :=
  during.before.map (Own.call sess) ++ if during.destroys then [.destroy sess] else []

def Incoming.who : Incoming → Option Bytes
  | .data who _ _ _ _ => who
  | .close who _ _ => who

def Incoming.id : Incoming → Bytes
  | .data _ id _ _ _ => id
  | .close _ id _ => id

def Incoming.event (sess : Nat) (sid : Bytes) : Incoming → Event
  | .data who id seq rawdata during =>
    .stanza who id (.data (some sid) seq rawdata) (during.calls sess) false
  | .close who id during => .stanza who id (.close (some sid)) (during.calls sess) false

/-- The accepted stanzas with their payloads, and whether the session is still open. -/
structure Delivery where
  accepted : List (Bytes × Bytes)
  isOpen : Bool
  deriving DecidableEq, Repr

/-- The attribute is a number that is `count` modulo 65536. -/
def Counts (seq : Option Bytes) (count : Nat) : Prop :=
  ∃ text, seq = some text ∧ atoi text % 65536 = (count : Int) % 65536

instance (seq : Option Bytes) (count : Nat) : Decidable (Counts seq count) :=
  match seq with
  | none => .isFalse fun ⟨_, impossible, _⟩ => nomatch impossible
  | some text =>
    if same : atoi text % 65536 = (count : Int) % 65536 then .isTrue ⟨text, rfl, same⟩
    else .isFalse fun ⟨_, equal, counts⟩ => same (Option.some.inj equal ▸ counts)

def Behaviour.ends (during : Behaviour) : Bool :=
  during.destroys || decide (Own.close ∈ during.before)

def expect (peer : Bytes) (delivery : Delivery) : Incoming → Delivery
  | .data who id seq rawdata during =>
    if who ≠ some peer then delivery
    else if delivery.isOpen ∧ Counts seq delivery.accepted.length then
      { accepted := delivery.accepted ++ [(id, rawdata.getD [])]
        isOpen := !during.ends }
    else { delivery with isOpen := false }
  | .close who _ _ => if who ≠ some peer then delivery else { delivery with isOpen := false }

/-- A live session hears from somebody; and where `seq` is the expected one, it is open, it has
a callback for the data, there are data, and the callback leaves the session alive. -/
def Handled (sess : Nat) (world : World) (incoming : Incoming) : Prop :=
  ∀ session, world.sessions sess = some session →
    incoming.who ≠ none ∧
      ∀ who id seq rawdata during, incoming = .data who id seq rawdata during →
        who = some session.who → seq.map seqOf = some session.recvSeq →
          session.state = .opened ∧ session.dataReceivedCb ∧ rawdata ≠ none ∧
            during.destroys = false

def Fits (blockSize : Nat) : Incoming → Prop
  | .data _ _ _ rawdata _ => ∀ payload, rawdata = some payload → payload.length ≤ blockSize
  | .close _ _ _ => True

def isResult : Iq → Bool
  | .result _ _ => true
  | _ => false

def deliverStep (sess : Nat) (sid : Bytes) (world : World) (incoming : Incoming) : Option World :=
  step world (incoming.event sess sid)

/-- The session was given the accepted payloads, and their stanzas were answered. -/
structure Delivered (sess : Nat) (peer : Bytes) (start world : World) (delivery : Delivery) :
    Prop where
  delivered : world.delivered =
    start.delivered ++ delivery.accepted.map fun stanza => (sess, stanza.2)
  answered : world.sent.filter isResult =
    start.sent.filter isResult ++ delivery.accepted.map fun stanza => .result (some peer) stanza.1

/-! ### The callbacks -/

variable {world after : World} {sess : Nat} {session : JabberIBBSession}

structure Kept (session other : JabberIBBSession) : Prop where
  who : other.who = session.who
  sid : other.sid = session.sid
  blockSize : other.blockSize = session.blockSize
  recvSeq : other.recvSeq = session.recvSeq

structure Silent (world after : World) : Prop where
  delivered : after.delivered = world.delivered
  answered : after.sent.filter isResult = world.sent.filter isResult

theorem write_self (world : World) (sess : Nat) (session : Option JabberIBBSession) :
    (world.write sess session).sessions sess = session := if_pos rfl

theorem own_performed (live : world.sessions sess = some session) (own : Own) :
    ∃ next other, perform world (own.call sess) = some next ∧ next.sessions sess = some other ∧
      Kept session other ∧ Silent world next ∧
      (other.state = .opened ↔ session.state = .opened ∧ own ≠ .close) := by
  cases own with
  | setCallbacks dataReceived error closed =>
    have performed : perform world (.setCallbacks sess dataReceived error closed) =
        some (world.write sess (some { session with
          dataReceivedCb := dataReceived
          errorCb := error
          closedCb := closed })) := by
      simp only [perform, setCallbacks, live, map_some]
    exact ⟨_, _, performed, write_self _ _ _, ⟨rfl, rfl, rfl, rfl⟩, ⟨rfl, rfl⟩,
      fun opened => ⟨opened, Own.noConfusion⟩, And.left⟩
  | close =>
    by_cases closable : session.state = .opened ∨ session.state = .error
    · have performed : perform world (.close sess) =
          some ((world.send (.close session.who session.sid)).write sess
            (some { session with state := .closed })) := by
        simp only [perform, jabberIbbSessionClose, live, map_some, if_pos closable]
      refine ⟨_, _, performed, write_self _ _ _, ⟨rfl, rfl, rfl, rfl⟩, ⟨rfl, ?_⟩, ?_, ?_⟩
      · change (world.sent ++ [Iq.close session.who session.sid]).filter isResult = _
        rw [filter_append]
        exact append_nil _
      · intro opened
        cases opened
      · exact fun opened => absurd rfl opened.2
    · have performed : perform world (.close sess) = some world := by
        simp only [perform, jabberIbbSessionClose, live, map_some, if_neg closable]
      exact ⟨world, session, performed, live, ⟨rfl, rfl, rfl, rfl⟩, ⟨rfl, rfl⟩,
        fun opened => absurd (Or.inl opened) closable, fun opened => absurd rfl opened.2⟩

theorem Kept.trans {first second third : JabberIBBSession} (left : Kept first second)
    (right : Kept second third) : Kept first third :=
  ⟨right.who.trans left.who, right.sid.trans left.sid, right.blockSize.trans left.blockSize,
    right.recvSeq.trans left.recvSeq⟩

theorem Silent.trans {first second third : World} (left : Silent first second)
    (right : Silent second third) : Silent first third :=
  ⟨right.delivered.trans left.delivered, right.answered.trans left.answered⟩

theorem owns_performed (live : world.sessions sess = some session) (before : List Own) :
    ∃ next other, run perform world (before.map (Own.call sess)) = some next ∧
      next.sessions sess = some other ∧ Kept session other ∧ Silent world next ∧
      (other.state = .opened ↔ session.state = .opened ∧ Own.close ∉ before) := by
  induction before generalizing world session with
  | nil => exact ⟨world, session, rfl, live, ⟨rfl, rfl, rfl, rfl⟩, ⟨rfl, rfl⟩, by simp⟩
  | cons own rest ih =>
    obtain ⟨middle, between, performed, middleLive, kept, silent, opened⟩ :=
      own_performed live own
    obtain ⟨next, other, ran, nextLive, keptLater, silentLater, openedLater⟩ := ih middleLive
    refine ⟨next, other, ?_, nextLive, kept.trans keptLater, silent.trans silentLater, ?_⟩
    · rw [map_cons, run_cons, performed]
      exact ran
    · rw [openedLater, opened, mem_cons, not_or, and_assoc, ne_comm]

theorem destroy_performed (sound : Sound world) (live : world.sessions sess = some session) :
    ∃ next, perform world (.destroy sess) = some next ∧ next.sessions sess = none ∧
      Silent world next ∧ ∀ other, next.sids other ≠ some session.sid := by
  have holds : world.sids sess = some session.sid := by
    rw [World.sids, live]
    rfl
  have closes : ∃ middle, (if session.state = .opened then jabberIbbSessionClose world sess
      else some world) = some middle ∧ Alike world middle ∧ Silent world middle := by
    split
    · obtain ⟨middle, _, performed, _, _, silent, _⟩ := own_performed live .close
      exact ⟨middle, performed, close_alike performed, silent⟩
    · exact ⟨world, rfl, Alike.refl world, ⟨rfl, rfl⟩⟩
  obtain ⟨middle, closed, alike, silent⟩ := closes
  have removed := hashRemove_listed (sound.onlyAt holds) holds (sound.listed sess _ holds)
  rw [← alike.sids, ← alike.table] at removed
  have performed : jabberIbbSessionDestroy world sess =
      some ({ middle with table := middle.table.erase ⟨sess, sess⟩ }.write sess none) := by
    rw [jabberIbbSessionDestroy, live, bind_some, closed, bind_some, removed]
    rfl
  obtain ⟨_, _, strings, _⟩ := destroy_spec sound performed
  refine ⟨_, performed, if_pos rfl, ⟨silent.delivered, silent.answered⟩, ?_⟩
  intro other same
  rw [strings] at same
  split at same
  · cases same
  · rename_i different
    exact different (sound.distinct other sess _ same holds)

theorem quiet_fresh {calls : List Call} (quiet : ∀ call ∈ calls, call.creates = none)
    (world : World) : Admitted perform FreshSid world calls := by
  induction calls generalizing world with
  | nil => trivial
  | cons call rest ih =>
    refine ⟨?_, fun next _ => ih (fun later member => quiet later (mem_cons_of_mem call member)) next⟩
    intro sid creates
    rw [quiet call mem_cons_self] at creates
    cases creates

theorem calls_fresh (during : Behaviour) (world : World) :
    FreshCalls world (during.calls sess) := by
  intro other _
  apply quiet_fresh
  intro call member
  obtain before | last := mem_append.mp member
  · obtain ⟨own, _, rfl⟩ := List.mem_map.mp before
    cases own <;> rfl
  · split at last
    · rw [mem_singleton.mp last]
      rfl
    · cases last

theorem owns_quiet (sess : Nat) (before : List Own) :
    ∀ call ∈ before.map (Own.call sess), call.creates = none := by
  intro call member
  obtain ⟨own, _, rfl⟩ := List.mem_map.mp member
  cases own <;> rfl

theorem callback_performed (sound : Sound world) (live : world.sessions sess = some session)
    (unopened : session.state ≠ .opened) (isSet : Bool) (during : Behaviour) :
    ∃ next, runCallback isSet (during.calls sess) world = some next ∧ Silent world next ∧
      ((∃ other, next.sessions sess = some other ∧ Kept session other ∧ other.state ≠ .opened) ∨
        next.sessions sess = none ∧ ∀ other, next.sids other ≠ some session.sid) := by
  rw [runCallback]
  cases isSet with
  | false =>
    exact ⟨world, rfl, ⟨rfl, rfl⟩, Or.inl ⟨session, live, ⟨rfl, rfl, rfl, rfl⟩, unopened⟩⟩
  | true =>
    obtain ⟨middle, between, ran, middleLive, kept, silent, opened⟩ :=
      owns_performed live during.before
    have middleUnopened : between.state ≠ .opened := fun state => unopened (opened.mp state).1
    rw [if_pos rfl, Behaviour.calls, run_append, ran, bind_some]
    cases during.destroys with
    | false => exact ⟨middle, rfl, silent, Or.inl ⟨between, middleLive, kept, middleUnopened⟩⟩
    | true =>
      have middleSound : Sound middle :=
        reached_of_run Sound (fun _ _ _ sound unused performed =>
          perform_sound sound unused performed) sound
          (quiet_fresh (owns_quiet sess during.before) world) ran
      obtain ⟨next, performed, gone, quiet, unnamed⟩ := destroy_performed middleSound middleLive
      refine ⟨next, ?_, silent.trans quiet, Or.inr ⟨gone, kept.sid ▸ unnamed⟩⟩
      rw [if_pos rfl, run_cons, performed]
      rfl

/-! ### The run -/

theorem counts_iff (seq : Option Bytes) (count : Nat) :
    Counts seq count ↔ seq.map seqOf = some (UInt16.ofNat count) := by
  have wraps (number : Int) :
      UInt16.ofNat (number % 2 ^ 16).toNat = UInt16.ofNat count ↔
        number % 65536 = (count : Int) % 65536 := by
    rw [← UInt16.toNat_inj, UInt16.toNat_ofNat', UInt16.toNat_ofNat']
    omega
  cases seq with
  | none =>
    constructor
    · rintro ⟨_, impossible, _⟩
      cases impossible
    · intro impossible
      cases impossible
  | some text =>
    rw [map_some, Option.some.injEq, seqOf, wraps]
    constructor
    · rintro ⟨_, same, counts⟩
      cases same
      exact counts
    · exact fun counts => ⟨text, rfl, counts⟩

section Run

variable {sid peer : Bytes} {blockSize : Nat} {start : World} {delivery : Delivery}
  {incoming : Incoming}

/-- The session as it should be after `delivery`. -/
structure Held (sid peer : Bytes) (blockSize : Nat) (delivery : Delivery)
    (session : JabberIBBSession) : Prop where
  who : session.who = peer
  sid : session.sid = sid
  blockSize : session.blockSize = blockSize
  recvSeq : session.recvSeq = UInt16.ofNat delivery.accepted.length
  opened : session.state = .opened ↔ delivery.isOpen = true

structure Follows (sess : Nat) (sid peer : Bytes) (blockSize : Nat) (start world : World)
    (delivery : Delivery) : Prop where
  sound : Sound world
  given : Delivered sess peer start world delivery
  held : (∃ session, world.sessions sess = some session ∧
      Held sid peer blockSize delivery session) ∨
    world.sessions sess = none ∧ delivery.isOpen = false ∧ ∀ other, world.sids other ≠ some sid

theorem Delivered.silent (given : Delivered sess peer start world delivery)
    (silent : Silent world after) {isOpen : Bool} :
    Delivered sess peer start after { delivery with isOpen := isOpen } :=
  ⟨silent.delivered.trans given.delivered, silent.answered.trans given.answered⟩

theorem ended_follows (sound : Sound world) (given : Delivered sess peer start world delivery)
    (live : world.sessions sess = some session) (held : Held sid peer blockSize delivery session)
    {written : JabberIBBSession} (kept : Kept session written) (unopened : written.state ≠ .opened)
    (isSet : Bool) (during : Behaviour) :
    ∃ next, runCallback isSet (during.calls sess) (world.write sess (some written)) = some next ∧
      Follows sess sid peer blockSize start next { delivery with isOpen := false } := by
  have alike := write_alike live kept.sid
  have unheard : Silent world (world.write sess (some written)) := ⟨rfl, rfl⟩
  obtain ⟨next, performed, silent, after⟩ :=
    callback_performed (alike.sound sound) (write_self world sess (some written)) unopened isSet during
  refine ⟨next, performed, runCallback_sound sound (calls_fresh during world) alike performed,
    given.silent (unheard.trans silent), ?_⟩
  obtain ⟨other, nextLive, later, nextUnopened⟩ | ⟨gone, unnamed⟩ := after
  · have whole := kept.trans later
    refine Or.inl ⟨other, nextLive, whole.who.trans held.who, whole.sid.trans held.sid,
      whole.blockSize.trans held.blockSize, whole.recvSeq.trans held.recvSeq, ?_⟩
    exact ⟨fun opened => absurd opened nextUnopened, fun impossible => nomatch impossible⟩
  · refine Or.inr ⟨gone, rfl, ?_⟩
    rw [kept.sid, held.sid] at unnamed
    exact unnamed

theorem expected_follows (follows : Follows sess sid peer blockSize start world delivery)
    (live : world.sessions sess = some session) (held : Held sid peer blockSize delivery session)
    {id payload : Bytes} {during : Behaviour} (opened : session.state = .opened)
    (listens : session.dataReceivedCb) (fits : payload.length ≤ blockSize)
    (alive : during.destroys = false) :
    ∃ next, parseExpected world (during.calls sess) sess session peer id (some payload) =
        some next ∧
      Follows sess sid peer blockSize start next
        { accepted := delivery.accepted ++ [(id, payload)], isOpen := !during.ends } := by
  have called : during.calls sess = during.before.map (Own.call sess) := by
    rw [Behaviour.calls, alive]
    exact append_nil _
  let heard : World := { world with delivered := world.delivered ++ [(sess, payload)] }
  have heardLive : heard.sessions sess = some session := live
  obtain ⟨middle, between, ran, middleLive, kept, silent, stays⟩ :=
    owns_performed heardLive during.before
  let counted : JabberIBBSession := { between with recvSeq := between.recvSeq + 1 }
  have acknowledged : acknowledge sess peer id middle =
      some ((middle.write sess (some counted)).send (.result (some peer) id)) := by
    rw [acknowledge, middleLive]
    rfl
  have parsed : parseExpected world (during.calls sess) sess session peer id (some payload) =
      some ((middle.write sess (some counted)).send (.result (some peer) id)) := by
    rw [parseExpected, if_pos listens]
    change (if session.blockSize < payload.length then _ else
      (run perform heard (during.calls sess)).bind (acknowledge sess peer id)) = _
    rw [if_neg (by rw [held.blockSize]; omega), called, ran]
    exact acknowledged
  refine ⟨_, parsed, parseExpected_sound follows.sound (calls_fresh during world) parsed, ⟨?_, ?_⟩,
    Or.inl ⟨counted, write_self _ _ _, ?_⟩⟩
  · change middle.delivered = _
    rw [silent.delivered]
    change world.delivered ++ [(sess, payload)] = _
    rw [follows.given.delivered, map_append, append_assoc]
    rfl
  · change (middle.sent ++ [Iq.result (some peer) id]).filter isResult = _
    rw [filter_append, silent.answered]
    change world.sent.filter isResult ++ [Iq.result (some peer) id] = _
    rw [follows.given.answered, map_append, append_assoc]
    rfl
  · refine ⟨kept.who.trans held.who, kept.sid.trans held.sid, kept.blockSize.trans held.blockSize,
      ?_, ?_⟩
    · change between.recvSeq + 1 = _
      rw [kept.recvSeq, held.recvSeq, length_append]
      exact (UInt16.ofNat_add _ _).symm
    · change between.state = .opened ↔ _
      rw [stays, Behaviour.ends, alive, Bool.false_or, Bool.not_eq_true', decide_eq_false_iff_not]
      exact ⟨And.right, fun still => ⟨opened, still⟩⟩

theorem deliver_follows (follows : Follows sess sid peer blockSize start world delivery)
    (handled : Handled sess world incoming) (fits : Fits blockSize incoming) :
    ∃ next, deliverStep sess sid world incoming = some next ∧
      Follows sess sid peer blockSize start next (expect peer delivery incoming) := by
  obtain ⟨session, live, held⟩ | ⟨gone, closed, unnamed⟩ := follows.held
  · have holds : world.sids sess = some sid := by
      rw [World.sids, live, map_some, held.sid]
    have found := hashLookup_listed (follows.sound.onlyAt holds) holds
      (follows.sound.listed sess sid holds)
    obtain ⟨heard, orderly⟩ := handled session live
    obtain ⟨sender, who⟩ := ne_none_iff_exists'.mp heard
    cases incoming with
    | data whom id seq rawdata during =>
      change whom = some sender at who
      subst who
      have reached : deliverStep sess sid world (.data (some sender) id seq rawdata during) =
          if sender ≠ session.who then some world
          else parseData world (during.calls sess) sess session sender id seq rawdata := by
        change ((hashLookup world.sids sid world.table).bind _) = _
        rw [found, bind_some]
        change ((world.sessions sess).bind _) = _
        rw [live]
        rfl
      rw [reached, expect, held.who]
      by_cases stranger : sender ≠ peer
      · rw [if_pos stranger, if_pos (fun same => stranger (Option.some.inj same))]
        exact ⟨world, rfl, follows⟩
      · rw [not_not] at stranger
        subst stranger
        rw [if_neg (not_not.mpr rfl), if_neg (not_not.mpr rfl), parseData]
        by_cases expected : seq.map seqOf = some session.recvSeq
        · obtain ⟨opened, listens, given, alive⟩ :=
            orderly _ id seq rawdata during rfl (by rw [held.who]) expected
          obtain ⟨payload, rfl⟩ := ne_none_iff_exists'.mp given
          have counts : Counts seq delivery.accepted.length :=
            (counts_iff seq _).mpr (expected.trans (by rw [held.recvSeq]))
          rw [if_pos expected, if_pos ⟨held.opened.mp opened, counts⟩]
          exact expected_follows follows live held opened listens (fits payload rfl) alive
        · have uncounted : ¬ Counts seq delivery.accepted.length := fun counts =>
            expected (((counts_iff seq _).mp counts).trans (by rw [held.recvSeq]))
          rw [if_neg expected, if_neg fun both => uncounted both.2]
          have kept : Kept session { session with state := .error } := ⟨rfl, rfl, rfl, rfl⟩
          exact ended_follows follows.sound follows.given live held kept
            (by intro impossible; cases impossible) _ during
    | close whom id during =>
      change whom = some sender at who
      subst who
      have reached : deliverStep sess sid world (.close (some sender) id during) =
          if sender ≠ session.who then some world
          else parseClose world (during.calls sess) sess session := by
        change ((hashLookup world.sids sid world.table).bind _) = _
        rw [found, bind_some]
        change ((world.sessions sess).bind _) = _
        rw [live]
        rfl
      rw [reached, expect, held.who]
      by_cases stranger : sender ≠ peer
      · rw [if_pos stranger, if_pos (fun same => stranger (Option.some.inj same))]
        exact ⟨world, rfl, follows⟩
      · rw [not_not] at stranger
        subst stranger
        rw [if_neg (not_not.mpr rfl), if_neg (not_not.mpr rfl), parseClose]
        have kept : Kept session { session with state := .closed } := ⟨rfl, rfl, rfl, rfl⟩
        exact ended_follows follows.sound follows.given live held kept
          (by intro impossible; cases impossible) _ during
  · -- the session is gone, so nothing is listed under its `sid`
    have missed := hashLookup_absent (follows.sound.absent unnamed)
    have reached : deliverStep sess sid world incoming =
        some (world.send (.itemNotFound incoming.who incoming.id)) := by
      cases incoming with
      | data whom id seq rawdata during =>
        change ((hashLookup world.sids sid world.table).bind _) = _
        rw [missed]
        rfl
      | close whom id during =>
        change ((hashLookup world.sids sid world.table).bind _) = _
        rw [missed]
        rfl
    have unchanged : expect peer delivery incoming = { delivery with isOpen := false } := by
      obtain ⟨accepted, isOpen⟩ := delivery
      simp only at closed
      subst closed
      cases incoming with
      | data whom id seq rawdata during =>
        rw [expect]
        split
        · rfl
        · rw [if_neg fun both => Bool.false_ne_true both.1]
      | close whom id during =>
        rw [expect]
        split <;> rfl
    refine ⟨_, reached, ?_⟩
    rw [unchanged]
    have silent : Silent world (world.send (.itemNotFound incoming.who incoming.id)) := by
      refine ⟨rfl, ?_⟩
      change (world.sent ++ [Iq.itemNotFound _ _]).filter isResult = _
      rw [filter_append]
      exact append_nil _
    exact ⟨(send_alike world _).sound follows.sound, follows.given.silent silent,
      Or.inr ⟨gone, rfl, unnamed⟩⟩

theorem run_follows {incomings : List Incoming}
    (follows : Follows sess sid peer blockSize start world delivery)
    (fits : ∀ incoming ∈ incomings, Fits blockSize incoming)
    (handled : Admitted (deliverStep sess sid) (Handled sess) world incomings) :
    ∃ last, run (deliverStep sess sid) world incomings = some last ∧
      Follows sess sid peer blockSize start last (incomings.foldl (expect peer) delivery) := by
  induction incomings generalizing world delivery with
  | nil => exact ⟨world, rfl, follows⟩
  | cons incoming rest ih =>
    obtain ⟨next, delivered, kept⟩ :=
      deliver_follows follows handled.1 (fits incoming mem_cons_self)
    obtain ⟨last, ran, reached⟩ := ih kept
      (fun other member => fits other (mem_cons_of_mem incoming member))
      (handled.2 next delivered)
    exact ⟨last, by rw [run_cons, delivered]; exact ran, reached⟩

end Run

structure Opened (sess : Nat) (session : JabberIBBSession) (start : World) : Prop where
  sound : Sound start
  live : start.sessions sess = some session
  state : session.state = .opened
  recvSeq : session.recvSeq = 0

/-- The run never touches the session where it is gone, and what was given and what was
answered are the stanzas that should be accepted. -/
def DeliversExpected (sess : Nat) (session : JabberIBBSession) (start : World)
    (incomings : List Incoming) : Prop :=
  ∃ world, run (deliverStep sess session.sid) start incomings = some world ∧
    Delivered sess session.who start world (incomings.foldl (expect session.who) ⟨[], true⟩)

theorem stanzas_delivered {start : World} (opened : Opened sess session start)
    {incomings : List Incoming} (fits : ∀ incoming ∈ incomings, Fits session.blockSize incoming)
    (handled : Admitted (deliverStep sess session.sid) (Handled sess) start incomings) :
    DeliversExpected sess session start incomings := by
  have first : Follows sess session.sid session.who session.blockSize start start ⟨[], true⟩ :=
    ⟨opened.sound, ⟨(append_nil _).symm, (append_nil _).symm⟩,
      Or.inl ⟨session, opened.live, rfl, rfl, rfl, opened.recvSeq,
        ⟨fun _ => rfl, fun _ => opened.state⟩⟩⟩
  obtain ⟨last, ran, follows⟩ := run_follows first fits handled
  exact ⟨last, ran, follows.given⟩

/-! ### A file transfer -/

/-- The callback of a file transfer with `remaining` bytes to come.  More than that cancels the
transfer, which closes and destroys its session. -/
def jabberSiXferIbbRecvDataCb (remaining size : Nat) (prplReady : Behaviour) : Behaviour :=
  if size ≤ remaining then prplReady else ⟨[.close], true⟩

def transferSession : JabberIBBSession :=
  { newSession [120] [97] with
    id := some [49]
    blockSize := 8
    state := .opened
    dataReceivedCb := true
    errorCb := true
    closedCb := true }

def transferWorld : World :=
  { World.empty.allocate transferSession with table := [⟨0, 0⟩] }

def transferEvents : List Event :=
  [.call (.createFromXmlnode [97] [49] (some [120]) (some [56])),
    .call (.setCallbacks 0 true true true)]

theorem transfer_opened : Opened 0 transferSession transferWorld := by
  have unused : Admitted step FreshSids World.empty transferEvents := by
    refine ⟨?_, fun _ _ => ⟨?_, fun _ _ => trivial⟩⟩
    · rintro _ _ sess holds
      cases holds
    · rintro _ impossible
      cases impossible
  obtain ⟨world, ran, alike⟩ : ∃ world, run step World.empty transferEvents = some world ∧
      Alike world transferWorld := by
    refine ⟨_, rfl, ?_, rfl, rfl⟩
    funext sess
    cases sess <;> rfl
  have sound := reached_of_run Sound
    (fun _ _ _ sound unused stepped => step_sound sound unused stepped) empty_sound unused ran
  exact ⟨alike.sound sound, rfl, rfl, rfl⟩

def transferStanzas : List Incoming :=
  [.data (some [97]) [50] (some [48]) (some [1, 2]) (jabberSiXferIbbRecvDataCb 3 2 ⟨[], false⟩),
    .data (some [97]) [51] (some [49]) (some [3]) (jabberSiXferIbbRecvDataCb 1 1 ⟨[], false⟩),
    .close (some [97]) [52] ⟨[], true⟩]

theorem transfer_delivered : DeliversExpected 0 transferSession transferWorld transferStanzas := by
  have fits : ∀ incoming ∈ transferStanzas, Fits transferSession.blockSize incoming := by
    intro incoming member
    obtain rfl | member := mem_cons.mp member
    · rintro _ ⟨rfl⟩
      decide
    · obtain rfl | member := mem_cons.mp member
      · rintro _ ⟨rfl⟩
        decide
      · rw [mem_singleton.mp member]
        trivial
  have handled : Admitted (deliverStep 0 transferSession.sid) (Handled 0) transferWorld
      transferStanzas := by
    refine ⟨?_, fun first received => ⟨?_, fun second again => ⟨?_, fun _ _ => trivial⟩⟩⟩
    · rintro _ ⟨rfl⟩
      refine ⟨by decide, ?_⟩
      rintro _ _ _ _ _ ⟨rfl⟩ _ _
      exact ⟨rfl, rfl, by decide, rfl⟩
    · cases received
      rintro _ ⟨rfl⟩
      refine ⟨by decide, ?_⟩
      rintro _ _ _ _ _ ⟨rfl⟩ _ _
      exact ⟨rfl, rfl, by decide, rfl⟩
    · rintro session _
      refine ⟨by decide, ?_⟩
      rintro _ _ _ _ _ impossible
      cases impossible
  exact stanzas_delivered transfer_opened fits handled

/-- Two bytes where one was to come: the callback destroys the session, and its counter is then
advanced.  And data that follows a close are given all the same. -/
theorem transfer_not_delivered :
    Opened 0 transferSession transferWorld ∧
      ¬ DeliversExpected 0 transferSession transferWorld
        [.data (some [97]) [50] (some [48]) (some [1, 2])
          (jabberSiXferIbbRecvDataCb 1 2 ⟨[], false⟩)] ∧
      ¬ DeliversExpected 0 transferSession transferWorld
        [.close (some [97]) [50] ⟨[], false⟩,
          .data (some [97]) [51] (some [48]) (some [1]) ⟨[], false⟩] := by
  refine ⟨transfer_opened, ?_, ?_⟩
  · rintro ⟨world, ran, _⟩
    cases ran
  · rintro ⟨world, ran, delivered⟩
    cases ran
    exact absurd delivered.delivered (by decide)

end Purple.Jabber.Ibb
