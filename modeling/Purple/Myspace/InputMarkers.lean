/-
What a session does with a message that its end marker does not frame.

Up to the first end marker in it the bytes are kept.  What stands in front of the marker is
then taken for the message, or the session gets stuck in front of it for good.
-/

import Purple.Myspace.Base64
import Purple.Myspace.InputStreams

namespace Purple.Myspace

open List CString Memory Framing PartialRun

variable {base64 : Base64} {messages : List MsimMessage}

theorem stuck_receive {session next : MsimSession} (stuck : Stuck session) {bytes : Bytes}
    (done : receive session bytes = some next) :
    Stuck next ∧ next.processed = session.processed := by
  obtain ⟨⟨before, held, absent, behind⟩, sized⟩ := stuck
  obtain ⟨ended, stored, done⟩ := Option.bind_eq_some_iff.mp done
  obtain ⟨filled, first, second⟩ := Option.bind_eq_some_iff.mp stored
  have front : (before.map some ++ [some 0]).length ≤ session.rxoff := by
    rw [length_append, length_map, length_singleton]
    exact behind
  have held' := Block.store_behind (Block.store_behind held front first)
    (Nat.le_trans front (Nat.le_add_right _ _)) second
  dsimp only at done
  rw [finalRounds, finalRound_none held' absent] at done
  cases done
  refine ⟨⟨⟨before, held', absent, ?_⟩, ?_⟩, rfl⟩
  · exact Nat.lt_of_lt_of_le behind (Nat.le_add_right _ _)
  · exact (Block.store_length second).trans ((Block.store_length first).trans sized)

theorem stuck_step {wire next : Wire} {event : Event} (stuck : Stuck wire.session)
    (stepped : step wire event = some next) :
    Stuck next.session ∧ next.session.processed = wire.session.processed := by
  cases event with
  | arrives more =>
    cases stepped
    exact ⟨stuck, rfl⟩
  | readable most =>
    cases readable_reads stepped with
    | grows small grown socket received =>
      obtain ⟨size, _, buffer, offset, same⟩ := growRxbuf_size grown
      obtain ⟨⟨before, held, absent, behind⟩, sized⟩ := stuck
      have inside := held.length_le
      rw [sized] at inside
      refine ⟨⟨⟨before, ?_, absent, by rw [offset]; exact behind⟩, ?_⟩, same⟩
      · rw [buffer]
        exact Block.prefix_realloc held (Nat.le_trans inside (Nat.le_add_right _ _))
      · rw [buffer, Block.realloc_length, size]
    | nothing large same empty =>
      rw [same]
      exact ⟨stuck, rfl⟩
    | takes large more some' fits done socket received => exact stuck_receive stuck done

theorem stuck_run {events : List Event} {wire next : Wire} (stuck : Stuck wire.session)
    (ran : run step wire events = some next) :
    next.session.processed = wire.session.processed := by
  have kept := reached_of_run
    (fun other => Stuck other.session ∧ other.session.processed = wire.session.processed)
    (fun _ _ _ kept _ stepped =>
      ⟨(stuck_step kept.1 stepped).1, (stuck_step kept.1 stepped).2.trans kept.2⟩)
    ⟨stuck, rfl⟩ (admitted_always events) ran
  exact kept.2

inductive Ended (prior : List MsimMessage) (before : Bytes) (session : MsimSession) : Prop where
  | stuck (bad : msimParse before = []) (stuck : Stuck session) (same : session.processed = prior)
  | parsed (good : msimParse before ≠ []) (keeps : Keeps session [])
      (more : session.processed = prior ++ [msimParse before])

inductive Midway (start : Bytes) (prior : List MsimMessage) (before : Bytes) (wire : Wire) : Prop
    where
  | part (part : Bytes) (received : wire.received = start ++ part)
      (short : part.length < before.length + finalString.length)
      (keeps : Keeps wire.session part) (same : wire.session.processed = prior)
  | whole (received : wire.received = start ++ (before ++ finalString))
      (ended : Ended prior before wire.session)

theorem finalRounds_ended {session next : MsimSession} {before : Bytes} {rounds : Nat}
    (keeps : Keeps session (before ++ finalString)) (clean : 0 ∉ before ++ finalString)
    (marker : strstr finalString (before ++ finalString) = some before.length)
    (done : finalRounds (rounds + 2) session = some next) :
    Ended session.processed before next := by
  rw [← append_nil (before ++ finalString)] at keeps clean marker
  rw [finalRounds] at done
  by_cases parsed : msimParse before = []
  · obtain ⟨stuck, round, stays, same, _⟩ := finalRound_stuck keeps clean marker parsed
    rw [round] at done
    cases done
    exact Ended.stuck parsed stays same
  · obtain ⟨left, round, kept, more, _⟩ := finalRound_message keeps clean marker parsed
    rw [round, Option.bind_some, if_pos rfl, finalRounds, finalRound_none kept.held rfl] at done
    cases done
    exact Ended.parsed parsed kept more

theorem midway_step {start before : Bytes} {prior : List MsimMessage} {wire next : Wire} {most : Nat}
    (clean : 0 ∉ before ++ finalString)
    (marker : strstr finalString (before ++ finalString) = some before.length)
    (sound : Sound (start ++ (before ++ finalString)) wire)
    (midway : Midway start prior before wire) (stepped : step wire (.readable most) = some next) :
    Midway start prior before next := by
  cases readable_reads stepped with
  | grows small grown socket received =>
    cases midway with
    | part part read short keeps same =>
      exact Midway.part part (received.trans read) short (keeps.grown grown)
        ((growRxbuf_size grown).2.2.2.2.trans same)
    | whole read ended =>
      refine Midway.whole (received.trans read) ?_
      cases ended with
      | stuck bad stuck same =>
        obtain ⟨stays, kept⟩ := stuck_step stuck stepped
        exact Ended.stuck bad stays (kept.trans same)
      | parsed good keeps more =>
        exact Ended.parsed good (keeps.grown grown)
          ((growRxbuf_size grown).2.2.2.2.trans more)
  | nothing large same empty =>
    rw [same]
    exact midway
  | takes large more some' fits done socket received =>
    have all := sound.arrived
    cases midway with
    | whole read ended =>
      rw [read, socket, append_right_eq_self, append_eq_nil_iff] at all
      exact absurd all.1 some'
    | part part read short keeps same =>
      rw [read, socket, append_assoc, append_cancel_left_eq, ← append_assoc]
        at all
      have large' : ¬wire.session.rxsize < wire.session.rxoff + readBufSize :=
        of_decide_eq_false large
      have counted := keeps.counted
      have inside : part.length + more.length < wire.session.rxsize := by
        simp only [room, readBufSize] at fits large'
        omega
      obtain ⟨stored, rounds, kept, same', _⟩ := receive_stored keeps inside
      rw [rounds] at done
      rw [read, append_assoc] at received
      cases rest : next.socket with
      | nil =>
        rw [rest, append_nil] at all
        rw [all] at kept done received
        have seven : (before ++ finalString).length + 1 = before.length + 6 + 2 := by
          rw [length_append]
          rfl
        rw [seven] at done
        have ended := finalRounds_ended kept clean marker done
        rw [same', same] at ended
        exact Midway.whole received ended
      | cons byte rest' =>
        rw [rest] at all
        have counted' := congrArg List.length all
        simp only [length_append, length_cons] at counted'
        have short' : (part ++ more).length < before.length + finalString.length := by
          rw [length_append]
          omega
        have front : part ++ more <+: before ++ finalString := ⟨_, all⟩
        have absent : strstr finalString (cString (part ++ more)) = none := by
          rw [cString_clean fun nul => clean (front.subset nul)]
          exact strstr_incomplete front marker short'
        rw [finalRounds, finalRound_none kept.held absent] at done
        cases done
        exact Midway.part _ received short' kept (same'.trans same)

theorem midway_run {start before : Bytes} {prior : List MsimMessage} {events : List Event}
    {wire next : Wire} (clean : 0 ∉ before ++ finalString)
    (marker : strstr finalString (before ++ finalString) = some before.length)
    (sound : Sound (start ++ (before ++ finalString)) wire)
    (midway : Midway start prior before wire) (nothing : arrived events = [])
    (ran : run step wire events = some next) : Midway start prior before next := by
  induction events generalizing wire with
  | nil =>
    cases ran
    exact midway
  | cons event events ih =>
    obtain ⟨middle, stepped, ran⟩ := Option.bind_eq_some_iff.mp ran
    have none' := (arrived_append [event] events).symm.trans nothing
    obtain ⟨here, later⟩ := append_eq_nil_iff.mp none'
    have sound' := step_sound sound stepped
    rw [here, append_nil] at sound'
    refine ih sound' ?_ later ran
    cases event with
    | arrives more =>
      cases stepped
      cases midway with
      | part part read short keeps same => exact Midway.part part read short keeps same
      | whole read ended => exact Midway.whole read ended
    | readable most => exact midway_step clean marker sound midway stepped

theorem reaches_front (parses : Parses base64 messages) {front later : List MsimMessage}
    {msg : MsimMessage} (split : messages = front ++ msg :: later) (some' : msg ≠ []) :
    ∃ wire, Reached (stream (text base64) front) wire ∧
      wire.received = stream (text base64) front ∧ Keeps wire.session [] ∧
      wire.session.processed = front.map (unpacked base64) := by
  have inside : [] ++ (stream (text base64) front ++ []) <+: stream (text base64) messages :=
    stream_front split nil_prefix
  obtain ⟨_, wire, _, _, reached, received, _⟩ := reaches parses reached_start inside
  obtain ⟨processed, counted, ended, sized⟩ := parses_reached parses reached inside
  obtain ⟨early, left⟩ :=
    complete_part split (show ([] : Bytes).length < _ from text_positive some')
  rw [received, nil_append, early] at processed
  rw [received, nil_append, left] at counted
  rw [nil_append, append_nil] at reached received
  refine ⟨wire, reached, received, ⟨?_, counted, sized⟩, processed⟩
  rw [counted] at ended
  cases buffer : wire.session.rxbuf with
  | nil =>
    rw [buffer] at ended
    cases ended
  | cons cell rest =>
    rw [buffer] at ended
    cases ended
    exact ⟨rest, rfl⟩

theorem parsed_alone {front later : List MsimMessage} {msg : MsimMessage}
    (split : messages = front ++ msg :: later) {before after : Bytes}
    (whole : text base64 msg = before ++ finalString ++ after) {parsed : MsimMessage}
    (processed : front.map (unpacked base64) ++ [parsed] =
      (complete (text base64) messages (stream (text base64) front ++ (before ++ finalString))).map
        (unpacked base64)) :
    after = [] ∧ parsed = unpacked base64 msg := by
  by_cases ends : after = []
  · rw [ends, append_nil] at whole
    obtain ⟨more, completed⟩ := complete_message split
    rw [← whole, ← completed, append_assoc, map_append, append_cancel_left_eq]
      at processed
    exact ⟨ends, (List.cons.inj processed).1⟩
  · have positive := length_pos_iff.mpr ends
    have short : (before ++ finalString).length < (text base64 msg).length := by
      have sum : (text base64 msg).length = (before ++ finalString).length + after.length := by
        rw [whole, ← length_append]
      omega
    rw [(complete_part split short).1] at processed
    have lengths := congrArg List.length processed
    rw [length_append, length_singleton] at lengths
    omega

theorem framed_of_parses (parses : Parses base64 messages) {msg : MsimMessage}
    (member : msg ∈ messages) (sendable : Sendable msg) : Framed base64 msg := by
  obtain ⟨front, later, split⟩ := append_of_mem member
  obtain ⟨offset, found⟩ := strstr_of_infix finalString (slashed (body (items base64 msg))) []
  rw [append_nil, ← text_slashed base64 sendable.some'] at found
  obtain ⟨before, after, whole, rfl⟩ := strstr_decompose found
  have initial : before ++ finalString <+: text base64 msg := ⟨after, whole.symm⟩
  have clean : 0 ∉ before ++ finalString := fun nul =>
    text_noNul sendable.some' (initial.subset nul)
  have marker : strstr finalString (before ++ finalString) = some before.length := by
    have taken := strstr_take_iff found (before ++ finalString).length
    rw [whole, take_left' rfl, length_append, if_pos (Nat.le_refl _)] at taken
    exact taken
  obtain ⟨wire, reached, received, keeps, processed⟩ := reaches_front parses split sendable.some'
  have inside := stream_front split initial
  have arriving : run step wire [.arrives (before ++ finalString)] =
      some { wire with socket := wire.socket ++ (before ++ finalString) } := rfl
  have reached' := reached_run reached arriving
  change Reached (_ ++ (before ++ finalString ++ [])) _ at reached'
  rw [append_nil] at reached'
  obtain ⟨events, next, nothing, ran, empty, _⟩ := settles parses reached' inside
  have positive : ([] : Bytes).length < before.length + finalString.length :=
    Nat.add_pos_right _ (by decide)
  have midway := midway_run clean marker reached'.sound
    (Midway.part [] (received.trans (append_nil _).symm) positive
      ⟨keeps.held, keeps.counted, keeps.sized⟩ processed) nothing ran
  have last := reached_run reached' ran
  rw [nothing, append_nil] at last
  have all := last.sound.arrived
  rw [empty, append_nil] at all
  cases midway with
  | part part read short kept same =>
    rw [all, append_cancel_left_eq] at read
    rw [← read, length_append] at short
    exact absurd short (Nat.lt_irrefl _)
  | whole read ended =>
    cases ended with
    | parsed good kept more =>
      have complete' := (parses_reached parses last inside).processed
      rw [more, all] at complete'
      obtain ⟨rfl, same⟩ := parsed_alone split whole complete'
      rw [append_nil] at whole
      exact framed_of_text sendable.some' sendable.keys whole found same (same ▸ good)
    | stuck bad stuck same =>
      have inside' : stream (text base64) front ++ (before ++ finalString) ++ after <+:
          stream (text base64) messages := by
        rw [append_assoc, ← whole]
        exact stream_front split (prefix_refl _)
      obtain ⟨_, final', _, ran', reached'', received', _⟩ := reaches parses last inside'
      have complete' := (parses_reached parses reached'' inside').processed
      obtain ⟨more, completed⟩ := complete_message split
      rw [stuck_run stuck ran', same, received', append_assoc, ← whole, ← completed]
        at complete'
      have lengths := congrArg List.length complete'
      simp only [length_map, length_append, length_singleton] at lengths
      omega

/-- Exactly the framed messages that are not too long are parsed in order, however they
arrive and are read. -/
theorem msimInput_parses_iff (base64 : Base64) (messages : List MsimMessage)
    (sendable : ∀ msg ∈ messages, Sendable msg) :
    Parses base64 messages ↔ ∀ msg ∈ messages, Takes base64 msg := by
  constructor
  · intro parses msg member
    exact ⟨framed_of_parses parses member (sendable msg member), short_of_parses parses member⟩
  · intro all events inside
    obtain ⟨wire, ran, splits⟩ := run_splits sendable all sound_start (splits_start sendable) inside
    exact ⟨wire, ran, splits_keeping splits⟩

def greeting : MsimMessage :=
  [⟨strdup (ascii "dsn"), .list [strdup (ascii "1"), strdup (ascii "7")]⟩,
    ⟨strdup (ascii "msg"), .string (strdup finalString)⟩,
    ⟨strdup (ascii "login2"), .boolean true⟩, ⟨strdup (ascii "_bm"), .boolean false⟩]

theorem msimInput_parses_greeting : Parses base64Standard [greeting, greeting] := by
  have sendable : ∀ msg ∈ [greeting, greeting], Sendable msg := by
    have one : Sendable greeting := ⟨cons_ne_nil _ _, by decide⟩
    exact forall_mem_cons.mpr ⟨one, forall_mem_singleton.mpr one⟩
  have takes : Takes base64Standard greeting :=
    ⟨⟨by decide, by decide, by decide, trivial⟩, by decide⟩
  exact (msimInput_parses_iff base64Standard [greeting, greeting] sendable).mpr
    (forall_mem_cons.mpr ⟨takes, forall_mem_singleton.mpr takes⟩)

/-- A value that is the marker's word ends the message in front of it. -/
def farewell : MsimMessage := [⟨strdup (ascii "msg"), .string (strdup final)⟩]

theorem farewell_not_parsed :
    ¬∀ messages : List MsimMessage, (∀ msg ∈ messages, Sendable msg) →
      Parses base64Standard messages := by
  intro parses
  have sendable : Sendable farewell := ⟨cons_ne_nil _ _, by decide⟩
  have framed := framed_of_parses
    (parses [farewell] (forall_mem_singleton.mpr sendable)) mem_cons_self sendable
  exact (framed.notFinal (ascii "msg", final) (by decide)).2 rfl

end Purple.Myspace
