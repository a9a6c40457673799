/-
Client and server over whole runs: edits, syncs, answers, pushes and deliveries in
any order.

The invariant counts the messages on the way: from what the official list holds, they
lead to what the server holds.
-/

import Purple.Oscar.FeedbagAcks

namespace Purple.Oscar

open List

def Server.Allows (server : Server) : ServerMessage → Prop
  | .ack _ _ => True
  | .push action item => server.MayPush action item

/-- The messages, in order, tell how the one server became the other. -/
def Leads : Server → List ServerMessage → Server → Prop
  | base, [], server => base = server
  | base, message :: inbox, server => base.Allows message ∧ Leads (base.after message) inbox server

variable {od : OscarData} {inbox : List ServerMessage} {session : SsiSession} {malloc : Malloc}
  {snac : FeedbagSnac} {codes : List UInt16}

theorem Leads.append {base server : Server} {inbox : List ServerMessage} {message : ServerMessage}
    (leads : Leads base inbox server) (allowed : server.Allows message) :
    Leads base (inbox ++ [message]) (server.after message) := by
  induction inbox generalizing base with
  | nil =>
    obtain rfl : base = server := leads
    exact ⟨allowed, rfl⟩
  | cons first rest ih => exact ⟨leads.1, ih leads.2⟩

def Unanswered (inbox : List ServerMessage) : Prop := ∀ message ∈ inbox, message.IsPush

inductive Phase (od : OscarData) (inbox : List ServerMessage) : Prop where
  | idle (waits : od.waitingForAck = false) (nothing : od.pending = []) (sent : od.sent = [])
      (pushes : Unanswered inbox)
  | sending (snac : FeedbagSnac) (nodes : List SsiNode) (waits : od.waitingForAck = true)
      (outstanding : Outstanding od.pending snac nodes) (sent : od.sent = [snac])
      (pushes : Unanswered inbox)
  | answered (snac : FeedbagSnac) (nodes : List SsiNode) (codes : List UInt16)
      (front back : List ServerMessage) (waits : od.waitingForAck = true)
      (outstanding : Outstanding od.pending snac nodes) (sent : od.sent = [])
      (each : codes.length = snac.items.length)
      (isInbox : inbox = front ++ .ack snac codes :: back) (before : Unanswered front)
      (behind : Unanswered back)

/-- Records are left without an outcome, and nothing will ever answer them. -/
structure Stuck (od : OscarData) (inbox : List ServerMessage) : Prop where
  waits : od.waitingForAck = true
  pending : od.pending ≠ []
  sent : od.sent = []
  pushes : Unanswered inbox

/-- The official list holds what the server held before the messages on the way. -/
structure InStep (session : SsiSession) (base : Server) : Prop where
  phase : Phase session.od session.inbox
  mirrors : Mirrors session.od.official base
  leads : Leads base session.inbox session.server

structure SessionKept (session : SsiSession) : Prop where
  official : Separate session.od.official
  edits : Separate session.od.localList
  progress : Stuck session.od session.inbox ∨ ∃ base, InStep session base

def SsiSession.Admits (session : SsiSession) : SsiEvent → Prop
  | .deliver _ =>
    match session.inbox with
    | .ack snac codes :: _ =>
      0xffff ∈ codes ∨
        Undisturbed session.od snac.action (accepted session.od.pending snac.items codes)
    | .push .add item :: _ => ¬PicksIds item
    | _ => True
  | _ => True

theorem Phase.ready (phase : Phase od inbox) (notWaiting : od.waitingForAck = false) :
    od.pending = [] := by
  cases phase with
  | idle _ nothing _ _ => exact nothing
  | sending _ _ waits _ _ _ =>
    rw [waits] at notWaiting
    cases notWaiting
  | answered _ _ _ _ _ waits _ _ _ _ _ _ =>
    rw [waits] at notWaiting
    cases notWaiting

theorem Phase.exchanged {od after : OscarData} {inbox : List ServerMessage} (phase : Phase od inbox)
    (exchanged : Exchanged od after) : Phase after inbox := by
  cases exchanged with
  | same pending' waits' sent' =>
    cases phase with
    | idle waits nothing sent pushes =>
      exact .idle (waits'.trans waits) (pending'.trans nothing) (sent'.trans sent) pushes
    | sending snac nodes waits outstanding sent pushes =>
      rw [← pending'] at outstanding
      exact .sending snac nodes (waits'.trans waits) outstanding (sent'.trans sent) pushes
    | answered snac nodes codes front back waits outstanding sent each isInbox before behind =>
      rw [← pending'] at outstanding
      exact .answered snac nodes codes front back (waits'.trans waits) outstanding
        (sent'.trans sent) each isInbox before behind
  | sends snac nodes ready nothing' waits' outstanding' sent' =>
    cases phase with
    | idle waits nothing sent pushes =>
      rw [sent] at sent'
      exact .sending snac nodes waits' outstanding' sent' pushes
    | sending _ _ waits _ _ _ =>
      rw [waits] at ready
      cases ready
    | answered _ _ _ _ _ waits _ _ _ _ _ _ =>
      rw [waits] at ready
      cases ready

theorem Stuck.exchanged {od after : OscarData} {inbox : List ServerMessage}
    (stuck : Stuck od inbox) (exchanged : Exchanged od after) : Stuck after inbox := by
  cases exchanged with
  | same pending waits sent =>
    refine ⟨waits.trans stuck.waits, ?_, sent.trans stuck.sent, stuck.pushes⟩
    rw [pending]
    exact stuck.pending
  | sends _ _ ready _ _ _ _ =>
    rw [stuck.waits] at ready
    cases ready

theorem SessionKept.ready (kept : SessionKept session) :
    Ready session.od where
  official := kept.official
  edits := kept.edits
  idle := by
    intro notWaiting
    rcases kept.progress with stuck | ⟨base, inStep⟩
    · rw [stuck.waits] at notWaiting
      cases notWaiting
    · exact inStep.phase.ready notWaiting

theorem SessionKept.called {session : SsiSession} (kept : SessionKept session) {od : OscarData}
    (called : Called session.od od) : SessionKept { session with od } where
  official := by
    rw [called.official]
    exact kept.official
  edits := called.separate
  progress := by
    rcases kept.progress with stuck | ⟨base, inStep⟩
    · exact .inl (stuck.exchanged called.exchanged)
    · refine .inr ⟨base, inStep.phase.exchanged called.exchanged, ?_, inStep.leads⟩
      rw [called.official]
      exact inStep.mirrors

theorem Ready.sync {after : OscarData} (ready : Ready od)
    (synced : aimSsiSync malloc od = some after) :
    Called od after := ready.synced ready.edits synced

theorem Unanswered.append {inbox : List ServerMessage} (pushes : Unanswered inbox)
    {message : ServerMessage} (isPush : message.IsPush) : Unanswered (inbox ++ [message]) := by
  intro other member
  rcases mem_append.mp member with old | new
  · exact pushes other old
  · rw [mem_singleton.mp new]
    exact isPush

theorem SessionKept.pushed (kept : SessionKept session) {action : FeedbagAction}
    {item : AimSsiItem} (mayPush : session.server.MayPush action item) :
    SessionKept { session with
      server := session.server.apply action item
      inbox := session.inbox ++ [.push action item] } where
  official := kept.official
  edits := kept.edits
  progress := by
    rcases kept.progress with stuck | ⟨base, inStep⟩
    · exact .inl ⟨stuck.waits, stuck.pending, stuck.sent, stuck.pushes.append trivial⟩
    · refine .inr ⟨base, ?_, inStep.mirrors,
        @Leads.append base session.server session.inbox (.push action item) inStep.leads mayPush⟩
      cases inStep.phase with
      | idle waits nothing sent pushes => exact .idle waits nothing sent (pushes.append trivial)
      | sending snac nodes waits outstanding sent pushes =>
        exact .sending snac nodes waits outstanding sent (pushes.append trivial)
      | answered snac nodes codes front back waits outstanding sent each isInbox before behind =>
        refine .answered snac nodes codes front (back ++ [.push action item]) waits outstanding
          sent each ?_ before
          (@Unanswered.append back behind (.push action item) trivial)
        change session.inbox ++ [.push action item] = _
        rw [isInbox, append_assoc, cons_append]

theorem SessionKept.answers (kept : SessionKept session) {sent : List FeedbagSnac}
    (isSent : session.od.sent = snac :: sent) (each : codes.length = snac.items.length) :
    SessionKept
      { od := { session.od with sent }
        server := session.server.answer snac.action snac.items codes
        inbox := session.inbox ++ [.ack snac codes] } where
  official := kept.official
  edits := kept.edits
  progress := by
    rcases kept.progress with stuck | ⟨base, inStep⟩
    · rw [stuck.sent] at isSent
      cases isSent
    · refine .inr ⟨base, ?_, inStep.mirrors,
        @Leads.append base session.server session.inbox (.ack snac codes) inStep.leads trivial⟩
      cases inStep.phase with
      | idle _ _ nothing _ =>
        rw [nothing] at isSent
        cases isSent
      | sending snac' nodes waits outstanding sent' pushes =>
        rw [sent'] at isSent
        cases isSent
        exact .answered snac nodes codes session.inbox [] waits outstanding rfl each rfl pushes
          nofun
      | answered _ _ _ _ _ _ _ nothing _ _ _ _ =>
        rw [nothing] at isSent
        cases isSent

theorem Phase.quietly {od after : OscarData} {message : ServerMessage} {inbox : List ServerMessage}
    (isPush : message.IsPush) (phase : Phase od (message :: inbox)) (quietly : Quietly od after) :
    Phase after inbox := by
  have rest : ∀ {messages}, Unanswered (message :: messages) → Unanswered messages :=
    fun pushes other member => pushes other (mem_cons_of_mem _ member)
  cases phase with
  | idle waits nothing sent pushes =>
    exact .idle (quietly.waits.trans waits) (quietly.pending.trans nothing)
      (quietly.sent.trans sent) (rest pushes)
  | sending snac nodes waits outstanding sent pushes =>
    rw [← quietly.pending] at outstanding
    exact .sending snac nodes (quietly.waits.trans waits) outstanding (quietly.sent.trans sent)
      (rest pushes)
  | answered snac nodes codes front back waits outstanding sent each isInbox before behind =>
    rw [← quietly.pending] at outstanding
    cases front with
    | nil =>
      cases isInbox
      exact absurd isPush id
    | cons first front =>
      cases isInbox
      exact .answered snac nodes codes front back (quietly.waits.trans waits) outstanding
        (quietly.sent.trans sent) each rfl (rest before) behind

theorem SessionKept.pushDelivered (kept : SessionKept session) {action : FeedbagAction}
    {item : AimSsiItem} (head : session.inbox = .push action item :: inbox)
    (keeps : action = .add → ¬PicksIds item)
    (handled : handleMessage malloc session.od (.push action item) = some od) :
    SessionKept { session with od, inbox } := by
  have quietly := @push_quietly malloc session.od od (.push action item) trivial handled
  refine ⟨quietly.official kept.official, quietly.edits kept.edits, ?_⟩
  rcases kept.progress with stuck | ⟨base, inStep⟩
  · refine .inl ⟨quietly.waits.trans stuck.waits, ?_, quietly.sent.trans stuck.sent, ?_⟩
    · rw [quietly.pending]
      exact stuck.pending
    · intro message member
      refine stuck.pushes message ?_
      rw [head]
      exact mem_cons_of_mem _ member
  · have phase := inStep.phase
    have leads := inStep.leads
    rw [head] at phase leads
    have isPush : (ServerMessage.push action item).IsPush := trivial
    exact .inr ⟨base.apply action item, phase.quietly isPush quietly,
      push_mirrors kept.official inStep.mirrors leads.1 keeps handled, leads.2⟩

theorem Unanswered.no_ack (pushes : Unanswered (.ack snac codes :: inbox)) :
    False := pushes _ mem_cons_self

theorem Phase.ack (phase : Phase od (.ack snac codes :: inbox)) :
    ∃ nodes, od.waitingForAck = true ∧ Outstanding od.pending snac nodes ∧ od.sent = [] ∧
      codes.length = snac.items.length ∧ Unanswered inbox := by
  cases phase with
  | idle _ _ _ pushes => exact absurd pushes.no_ack id
  | sending _ _ _ _ _ pushes => exact absurd pushes.no_ack id
  | answered snac' nodes codes' front back waits outstanding sent each isInbox before behind =>
    cases front with
    | nil =>
      cases isInbox
      exact ⟨nodes, waits, outstanding, sent, each, behind⟩
    | cons first front =>
      cases isInbox
      exact absurd before.no_ack id

theorem SessionKept.ackDelivered (kept : SessionKept session)
    (head : session.inbox = .ack snac codes :: inbox) (admits : 0xffff ∈ codes ∨
      Undisturbed session.od snac.action (accepted session.od.pending snac.items codes))
    (handled : parseack malloc session.od codes = some od) :
    SessionKept { session with od, inbox } := by
  rcases kept.progress with stuck | ⟨base, inStep⟩
  · have pushes := stuck.pushes
    rw [head] at pushes
    exact absurd pushes.no_ack id
  have phase := inStep.phase
  have leads := inStep.leads
  rw [head] at phase leads
  obtain ⟨nodes, waits, outstanding, sent, each, pushes⟩ := phase.ack
  by_cases stops : 0xffff ∈ codes
  · have length : codes.length = session.od.pending.length := by
      rw [each, outstanding.length, outstanding.records, pendingRecords, length_map]
    obtain ⟨left, waits', sent', official, edits⟩ := parseack_stuck length stops handled
    exact ⟨official kept.official, edits kept.edits,
      .inl ⟨waits'.trans waits, left, sent'.trans sent, pushes⟩⟩
  · obtain ⟨middle, ready, nothing, idle, sent', mirrors, synced⟩ :=
      parseack_done outstanding each stops kept.official kept.edits inStep.mirrors
        (admits.resolve_left stops) handled
    have middleKept : SessionKept { session with od := middle, inbox } :=
      ⟨ready.official, ready.edits, .inr ⟨base.after (.ack snac codes),
        .idle idle nothing (sent'.trans sent) pushes, mirrors, leads.2⟩⟩
    exact middleKept.called (ready.sync synced)

theorem step_kept (session : SsiSession) (event : SsiEvent) (next : SsiSession)
    (kept : SessionKept session) (admits : session.Admits event)
    (stepped : session.step event = some next) : SessionKept next := by
  cases event with
  | call malloc call =>
    obtain ⟨od, performed, rfl⟩ := Option.map_eq_some_iff.mp stepped
    exact kept.called (perform_called kept.ready performed)
  | sync malloc =>
    obtain ⟨od, synced, rfl⟩ := Option.map_eq_some_iff.mp stepped
    exact kept.called (kept.ready.sync synced)
  | answer codes =>
    rw [SsiSession.step] at stepped
    cases isSent : session.od.sent with
    | nil =>
      rw [isSent] at stepped
      cases stepped
    | cons snac sent =>
      rw [isSent] at stepped
      dsimp only at stepped
      by_cases each : codes.length = snac.items.length
      · rw [if_pos each] at stepped
        cases stepped
        exact kept.answers isSent each
      · rw [if_neg each] at stepped
        cases stepped
  | push action item =>
    rw [SsiSession.step] at stepped
    by_cases mayPush : session.server.MayPush action item
    · rw [if_pos mayPush] at stepped
      cases stepped
      exact kept.pushed mayPush
    · rw [if_neg mayPush] at stepped
      cases stepped
  | deliver malloc =>
    rw [SsiSession.step] at stepped
    rw [SsiSession.Admits] at admits
    cases head : session.inbox with
    | nil =>
      rw [head] at stepped
      cases stepped
    | cons message inbox =>
      rw [head] at stepped admits
      obtain ⟨od, handled, rfl⟩ := Option.map_eq_some_iff.mp stepped
      cases message with
      | ack snac codes => exact kept.ackDelivered head admits handled
      | push action item =>
        refine kept.pushDelivered head (fun isAdd => ?_) handled
        subst isAdd
        exact admits

/-- The start of a session: the official list has been read, and nothing is outstanding. -/
structure Settled (session : SsiSession) : Prop where
  mirrors : Mirrors session.od.official session.server
  waits : session.od.waitingForAck = false
  pending : session.od.pending = []
  sent : session.od.sent = []
  inbox : session.inbox = []
  official : Separate session.od.official
  edits : Separate session.od.localList

theorem Settled.kept (settled : Settled session) : SessionKept session where
  official := settled.official
  edits := settled.edits
  progress := by
    have nothing := settled.inbox
    refine .inr ⟨session.server, ?_, settled.mirrors, ?_⟩
    · rw [nothing]
      exact .idle settled.waits settled.pending settled.sent nofun
    · rw [nothing]
      rfl

/-- In every run whose deliveries are admitted, the official list has what the server has
whenever no record is pending and no message is on the way. -/
theorem official_mirrors_server (session : SsiSession) (settled : Settled session)
    (events : List SsiEvent)
    (admitted : PartialRun.Admitted SsiSession.step SsiSession.Admits session events)
    (last : SsiSession) (ran : PartialRun.run SsiSession.step session events = some last)
    (pending : last.od.pending = []) (inbox : last.inbox = []) :
    Mirrors last.od.official last.server := by
  have kept := PartialRun.reached_of_run SessionKept step_kept settled.kept admitted ran
  rcases kept.progress with stuck | ⟨base, inStep⟩
  · exact absurd pending stuck.pending
  · have leads := inStep.leads
    rw [inbox] at leads
    obtain rfl : base = last.server := leads
    exact inStep.mirrors

def newSession : SsiSession where
  od :=
    { official := []
      localList := []
      pending := []
      waitingForAck := false
      receivedData := true
      sent := [] }
  server := fun _ => none
  inbox := []

theorem newSession_settled : Settled newSession :=
  ⟨⟨nodup_nil, nofun, fun _ present => absurd rfl present⟩, rfl, rfl, rfl, rfl,
    nodup_nil, nodup_nil⟩

def listPrivate : SsiEvent := .call lastMalloc (.addToPrivateList (some [120]) 3)

theorem official_mirrors_server_listed :
    ∃ last, PartialRun.run SsiSession.step newSession
        [listPrivate, .answer [0, 0], .deliver lastMalloc] = some last ∧
      Mirrors last.od.official last.server := by
  refine ⟨_, rfl, official_mirrors_server newSession newSession_settled
    [listPrivate, .answer [0, 0], .deliver lastMalloc] ?_ _ rfl rfl rfl⟩
  refine ⟨trivial, fun called isCalled => ⟨trivial, fun answered isAnswered => ⟨?_, fun _ _ =>
    trivial⟩⟩⟩
  cases isCalled
  cases isAnswered
  refine .inr ⟨?_, fun _ => by decide⟩
  intro record member
  rcases mem_cons.mp member with rfl | member
  · exact ⟨⟨_, rfl, rfl⟩, by decide, rfl⟩
  · rcases mem_cons.mp member with rfl | member
    · exact ⟨⟨_, rfl, rfl⟩, by decide, rfl⟩
    · exact absurd member not_mem_nil

/-- The name is taken off the private list before the ack comes. -/
theorem deletedWhilePending_not_mirrors :
    ¬∀ (session : SsiSession), Settled session →
      ∀ (events : List SsiEvent) (last : SsiSession),
        PartialRun.run SsiSession.step session events = some last →
          last.od.pending = [] → last.od.sent = [] → last.inbox = [] →
            Mirrors last.od.official last.server := by
  intro always
  have mirrors := always newSession newSession_settled
    [listPrivate, .call lastMalloc (.delFromPrivateList (some [120]) 3), .answer [0, 0],
      .deliver lastMalloc] _ rfl rfl rfl rfl
  obtain ⟨cur, member, isId⟩ := mirrors.listed (0, 1) nofun
  rcases mem_cons.mp member with rfl | member
  · cases isId
  · exact absurd member not_mem_nil

end Purple.Oscar
